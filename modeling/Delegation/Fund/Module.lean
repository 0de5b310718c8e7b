import Mathlib.Data.List.Sort
import Mathlib.Data.List.Destutter
import Delegation.Fund.Types

/-!
# The fund store

The model of `user-fund-storage/src/fund_module.rs`: all fund items by id, the last id given out,
and the head records of the lists by type and by user and type.

The storage mappers' `update` reads a cell, runs its closure on a local copy and writes the copy
back, while the closure may write other cells; the functions below keep that order, so an item
that is being removed from its lists still stands in storage, with its old links, until its own
`update` ends.

The three `split_convert_*` loops differ only in the link they follow, in what they collect and
in how their length is bounded. They are one loop here, `Traversal`, over a `Cursor` that holds
everything the loops change; the source functions are the instances that follow. A filter closure
may read the storage and may keep state of its own (`σ`): that is how `dust_cleanup_active`
computes rewards from within the traversal.
-/

namespace Delegation

open Outcome Loop

/-- `SwapDirection` -/
inductive SwapDirection
  | forwards
  | backwards
  deriving DecidableEq, Repr

/-- The storage of the fund module. -/
structure FundStore where
  fundById : ℕ → FundItem
  fundMaxId : ℕ
  fundListByType : FundType → FundsListInfo
  fundListByUser : ℕ × FundType → FundsListInfo

/-- `MAX_AFFECTED_USERS` -/
def maxAffectedUsers : ℕ := 10000

/-- `affected_users_sort_dedup` -/
def affectedUsersSortDedup (affectedUsers : List ℕ) : List ℕ :=
  (affectedUsers.insertionSort (· ≤ ·)).destutter (· ≠ ·)

namespace FundStore

/-- The store before the first call: every cell reads as its default. -/
def empty : FundStore where
  fundById := fun _ => FundItem.default
  fundMaxId := 0
  fundListByType := fun _ => FundsListInfo.default
  fundListByUser := fun _ => FundsListInfo.default

/-! ### Storage access -/

/-- `fund_by_id(id).set(item)` -/
@[simps]
def setFund (s : FundStore) (id : ℕ) (item : FundItem) : FundStore :=
  { s with fundById := Function.update s.fundById id item.stored }

/-- `fund_by_id(id).update(f)`, for a closure that writes nothing else. -/
def updateFund (s : FundStore) (id : ℕ) (f : FundItem → FundItem) : FundStore :=
  s.setFund id (f (s.fundById id))

/-- `set_fund_max_id` -/
@[simps]
def setFundMaxId (s : FundStore) (id : ℕ) : FundStore := { s with fundMaxId := id }

/-- `fund_list_by_type(fund_type).set(info)` -/
@[simps]
def setTypeList (s : FundStore) (t : FundType) (info : FundsListInfo) : FundStore :=
  { s with fundListByType := Function.update s.fundListByType t info }

/-- `fund_list_by_user(user_id, fund_type).set(info)` -/
@[simps]
def setUserList (s : FundStore) (k : ℕ × FundType) (info : FundsListInfo) : FundStore :=
  { s with fundListByUser := Function.update s.fundListByUser k info }

/-! ### Creating and increasing -/

/-- Adds at the end of the fund by type list. -/
def addFundToTypeList (s : FundStore) (id : ℕ) (newFundItem : FundItem) : FundStore × FundItem :=
  let typeList := s.fundListByType newFundItem.fundType
  let totalBalance := typeList.totalBalance + newFundItem.balance
  if typeList.isDefault then
    (s.setTypeList newFundItem.fundType { totalBalance, first := id, last := id }, newFundItem)
  else
    ((s.updateFund typeList.last fun prevFund => { prevFund with typeListNext := id }).setTypeList
        newFundItem.fundType { totalBalance, first := typeList.first, last := id },
      { newFundItem with typeListPrev := typeList.last })

/-- Adds at the end of the fund by user+type list. -/
def addFundToUserList (s : FundStore) (id : ℕ) (newFundItem : FundItem) : FundStore × FundItem :=
  let userList := s.fundListByUser (newFundItem.userId, newFundItem.fundType)
  let totalBalance := userList.totalBalance + newFundItem.balance
  if userList.isDefault then
    (s.setUserList (newFundItem.userId, newFundItem.fundType)
        { totalBalance, first := id, last := id }, newFundItem)
  else
    ((s.updateFund userList.last fun prevFund => { prevFund with userListNext := id }).setUserList
        (newFundItem.userId, newFundItem.fundType)
        { totalBalance, first := userList.first, last := id },
      { newFundItem with userListPrev := userList.last })

/-- `create_fund` -/
def createFund (s : FundStore) (userId : ℕ) (fundDesc : FundDescription) (balance : ℕ) :
    FundStore :=
  if balance = 0 then s
  else
    let fundMaxId := s.fundMaxId + 1
    let newFundItem : FundItem :=
      { fundDesc, userId, balance, typeListNext := 0, typeListPrev := 0, userListNext := 0,
        userListPrev := 0 }
    let typed := (s.setFundMaxId fundMaxId).addFundToTypeList fundMaxId newFundItem
    let listed := typed.1.addFundToUserList fundMaxId typed.2
    listed.1.setFund fundMaxId listed.2

/-- `increase_fund_balance`: the amount is merged into the last item of the user and type when the
type can be coalesced and the descriptions are equal, and becomes a new item otherwise. -/
def increaseFundBalance (s : FundStore) (userId : ℕ) (fundDesc : FundDescription) (amount : ℕ) :
    FundStore :=
  if amount = 0 then s
  else
    let userList := s.fundListByUser (userId, fundDesc.fundType)
    let lastItem := s.fundById userList.last
    if fundDesc.fundType.allowCoalesce ∧ ¬ userList.isDefault ∧ lastItem.fundDesc = fundDesc then
      let typeList := s.fundListByType lastItem.fundType
      ((s.setTypeList lastItem.fundType
          { typeList with totalBalance := typeList.totalBalance + amount }).setFund
        userList.last { lastItem with balance := lastItem.balance + amount }).setUserList
        (userId, fundDesc.fundType)
        { userList with totalBalance := userList.totalBalance + amount }
    else s.createFund userId fundDesc amount

/-! ### Decreasing and deleting -/

/-- `delete_fund_from_type_list`: the neighbours are linked past the item, the local copy of the
item loses its links. -/
def deleteFundFromTypeList (s : FundStore) (fundItem : FundItem) (typeList : FundsListInfo) :
    FundStore × FundItem × FundsListInfo :=
  let s := if fundItem.typeListPrev = 0 then s
    else s.updateFund fundItem.typeListPrev fun prev =>
      { prev with typeListNext := fundItem.typeListNext }
  let s := if fundItem.typeListNext = 0 then s
    else s.updateFund fundItem.typeListNext fun next =>
      { next with typeListPrev := fundItem.typeListPrev }
  (s, { fundItem with typeListPrev := 0, typeListNext := 0 },
    { typeList with
      first := if fundItem.typeListPrev = 0 then fundItem.typeListNext else typeList.first
      last := if fundItem.typeListNext = 0 then fundItem.typeListPrev else typeList.last })

/-- `delete_fund_from_user_list` -/
def deleteFundFromUserList (s : FundStore) (fundItem : FundItem) (userList : FundsListInfo) :
    FundStore × FundItem × FundsListInfo :=
  let s := if fundItem.userListPrev = 0 then s
    else s.updateFund fundItem.userListPrev fun prev =>
      { prev with userListNext := fundItem.userListNext }
  let s := if fundItem.userListNext = 0 then s
    else s.updateFund fundItem.userListNext fun next =>
      { next with userListPrev := fundItem.userListPrev }
  (s, { fundItem with userListPrev := 0, userListNext := 0 },
    { userList with
      first := if fundItem.userListPrev = 0 then fundItem.userListNext else userList.first
      last := if fundItem.userListNext = 0 then fundItem.userListPrev else userList.last })

/-- The first `update` of `delete_fund`: the balance leaves the total of the type and the item
leaves the type list. -/
def deleteFromType (s : FundStore) (fundItem : FundItem) : Exec (FundStore × FundItem) := do
  let typeList := s.fundListByType fundItem.fundType
  let totalBalance ← bigSub typeList.totalBalance fundItem.balance -- synchronize sum
  let unlinked := s.deleteFundFromTypeList fundItem { typeList with totalBalance := totalBalance }
  return (unlinked.1.setTypeList fundItem.fundType unlinked.2.2, unlinked.2.1)

/-- The second `update` of `delete_fund`, for the list of the user. -/
def deleteFromUser (s : FundStore) (fundItem : FundItem) : Exec (FundStore × FundItem) := do
  let userList := s.fundListByUser (fundItem.userId, fundItem.fundType)
  let totalBalance ← bigSub userList.totalBalance fundItem.balance -- synchronize sum
  let unlinked := s.deleteFundFromUserList fundItem { userList with totalBalance := totalBalance }
  return (unlinked.1.setUserList (fundItem.userId, fundItem.fundType) unlinked.2.2, unlinked.2.1)

/-- `delete_fund`: returns the emptied local copy of the item and its old balance. -/
def deleteFund (s : FundStore) (fundItem : FundItem) : Exec (FundStore × FundItem × ℕ) := do
  let (s, fundItem) ← s.deleteFromType fundItem
  let (s, fundItem) ← s.deleteFromUser fundItem
  return (s, { fundItem with balance := 0 }, fundItem.balance)

/-- `decrease_fund_balance`: takes `amount` out of the item, or the whole item if that is less;
returns what is left of `amount`, the local copy of the item and the extracted balance. -/
def decreaseFundBalance (s : FundStore) (amount : ℕ) (fundItem : FundItem) :
    Exec (FundStore × ℕ × FundItem × ℕ) :=
  if fundItem.balance ≤ amount then do
    let (s, fundItem, extracted) ← s.deleteFund fundItem
    return (s, amount - extracted, fundItem, extracted)
  else do
    let typeList := s.fundListByType fundItem.fundType
    let typeTotal ← bigSub typeList.totalBalance amount
    let s := s.setTypeList fundItem.fundType { typeList with totalBalance := typeTotal }
    let userList := s.fundListByUser (fundItem.userId, fundItem.fundType)
    let userTotal ← bigSub userList.totalBalance amount
    let s := s.setUserList (fundItem.userId, fundItem.fundType)
      { userList with totalBalance := userTotal }
    return (s, 0, { fundItem with balance := fundItem.balance - amount }, amount)

/-- What `split_convert_individual_fund` and `split_convert_max_by_user` extract from an item:
`decrease_fund_balance` under a maximum, `delete_fund` without one. -/
def extractBalance (s : FundStore) (optMaxAmount : Option ℕ) (fundItem : FundItem) :
    Exec (FundStore × Option ℕ × FundItem × ℕ) :=
  match optMaxAmount with
  | some maxAmount => do
      let (s, maxAmount, fundItem, extracted) ← s.decreaseFundBalance maxAmount fundItem
      return (s, some maxAmount, fundItem, extracted)
  | none => do
      let (s, fundItem, extracted) ← s.deleteFund fundItem
      return (s, none, fundItem, extracted)

/-- `decrease_max_amount` -/
def decreaseMaxAmount (optMaxAmount : Option ℕ) (fundItem : FundItem) : Option ℕ :=
  optMaxAmount.map fun maxAmount =>
    if maxAmount ≤ fundItem.balance then 0 else maxAmount - fundItem.balance

/-- `split_convert_individual_fund` -/
def splitConvertIndividualFund (s : FundStore) (optMaxAmount : Option ℕ)
    (transformed : FundDescription) (fundItem : FundItem) :
    Exec (FundStore × Option ℕ × FundItem × ℕ) := do
  let (s, optMaxAmount, fundItem, extracted) ← s.extractBalance optMaxAmount fundItem
  return (s.increaseFundBalance fundItem.userId transformed extracted, optMaxAmount, fundItem,
    extracted)

/-! ### Traversals -/

end FundStore

/-- Everything a traversal changes: the storage, the captured variables of its closure, the
remaining maximum, the id to visit next, the users visited and the total extracted so far. -/
structure Cursor (σ : Type) where
  store : FundStore
  closure : σ
  optMaxAmount : Option ℕ
  id : ℕ
  visitedUsers : List ℕ
  totalTransformed : ℕ

/-- What a traversal is called with. `interrupt k` is the answer of the `k`-th call of the
interrupt closure. -/
structure Traversal (σ : Type) where
  nextId : FundItem → ℕ
  filterTransform : FundStore → σ → FundItem → Exec (Option FundDescription × σ)
  interrupt : ℕ → Bool
  dryRun : Bool

namespace Traversal

variable {σ : Type}

/-- The loop condition, with the test that ends the loop when the maximum is drained. -/
def guard (T : Traversal σ) (k : ℕ) (c : Cursor σ) : Bool :=
  decide (0 < c.id) && !T.interrupt k && decide (c.optMaxAmount ≠ some 0)

/-- The loop body: one item is read, filtered, converted and written back. The next id is read
before the item can be destroyed. -/
def visit (T : Traversal σ) (c : Cursor σ) : Exec (Cursor σ) := do
  let fundItem := c.store.fundById c.id
  let (transformed, closure) ← T.filterTransform c.store c.closure fundItem
  let skipped : Cursor σ :=
    { store := c.store.setFund c.id fundItem
      closure := closure
      optMaxAmount := c.optMaxAmount
      id := T.nextId fundItem
      visitedUsers := c.visitedUsers ++ [fundItem.userId]
      totalTransformed := c.totalTransformed }
  match transformed with
  | none => return skipped
  | some transformed =>
      if T.dryRun then
        return { skipped with
          optMaxAmount := FundStore.decreaseMaxAmount c.optMaxAmount fundItem }
      else
        let (store, optMaxAmount, fundItem, extracted) ←
          c.store.splitConvertIndividualFund c.optMaxAmount transformed fundItem
        return { skipped with
          store := store.setFund c.id fundItem
          optMaxAmount := optMaxAmount
          totalTransformed := c.totalTransformed + extracted }

/-- The whole loop, for at most `budget` items. -/
def run (T : Traversal σ) (overrun : Panic) (budget : ℕ) (c : Cursor σ) : Exec (Cursor σ) :=
  whileLoop T.guard T.visit overrun budget 0 c

end Traversal

/-- A filter closure that decides on the item alone. -/
def pureFilter (f : FundItem → Option FundDescription) :
    FundStore → Unit → FundItem → Exec (Option FundDescription × Unit) :=
  fun _ u fundItem => .ok (f fundItem, u)

/-- The link that a traversal of a type list follows. -/
def FundItem.typeListLink (direction : SwapDirection) (fundItem : FundItem) : ℕ :=
  match direction with
  | .forwards => fundItem.typeListNext
  | .backwards => fundItem.typeListPrev

/-- The link that a traversal of a user list follows. -/
def FundItem.userListLink (direction : SwapDirection) (fundItem : FundItem) : ℕ :=
  match direction with
  | .forwards => fundItem.userListNext
  | .backwards => fundItem.userListPrev

/-- The end of a list from which a traversal starts. -/
def FundsListInfo.start (direction : SwapDirection) (info : FundsListInfo) : ℕ :=
  match direction with
  | .forwards => info.first
  | .backwards => info.last

namespace FundStore

variable {σ : Type}

/-- `first_id_of_type` -/
def firstIdOfType (s : FundStore) (sourceType : FundType) (direction : SwapDirection) : ℕ :=
  (s.fundListByType sourceType).start direction

/-- `first_id_of_user_type` -/
def firstIdOfUserType (s : FundStore) (userId : ℕ) (sourceType : FundType)
    (direction : SwapDirection) : ℕ :=
  (s.fundListByUser (userId, sourceType)).start direction

/-- `split_convert_max_by_type`: returns the storage, the closure's variables, the remaining
maximum and the affected users. It panics at the first item beyond `MAX_AFFECTED_USERS`. -/
def splitConvertMaxByType (s : FundStore) (closure : σ) (optMaxAmount : Option ℕ)
    (sourceType : FundType) (direction : SwapDirection)
    (filterTransform : FundStore → σ → FundItem → Exec (Option FundDescription × σ))
    (interrupt : ℕ → Bool) (dryRun : Bool) : Exec (FundStore × σ × Option ℕ × List ℕ) := do
  let T : Traversal σ :=
    { nextId := FundItem.typeListLink direction, filterTransform, interrupt, dryRun }
  let c ← T.run (.scPanic "affected user capacity exceeded") maxAffectedUsers
    { store := s, closure, optMaxAmount, id := s.firstIdOfType sourceType direction,
      visitedUsers := [], totalTransformed := 0 }
  return (c.store, c.closure, c.optMaxAmount, affectedUsersSortDedup c.visitedUsers)

/-- `split_convert_max_by_type_with_checkpoint`: returns the storage, the closure's variables and
the id to continue from, `0` when the list ended. -/
def splitConvertMaxByTypeWithCheckpoint (s : FundStore) (closure : σ) (currentId : ℕ)
    (sourceType : FundType) (direction : SwapDirection)
    (filterTransform : FundStore → σ → FundItem → Exec (Option FundDescription × σ))
    (interrupt : ℕ → Bool) (fuel : ℕ) : Exec (FundStore × σ × ℕ) := do
  let currentId := if currentId = 0 then s.firstIdOfType sourceType direction else currentId
  let T : Traversal σ :=
    { nextId := FundItem.typeListLink direction, filterTransform, interrupt, dryRun := false }
  let c ← T.run .outOfGas fuel
    { store := s, closure, optMaxAmount := none, id := currentId, visitedUsers := [],
      totalTransformed := 0 }
  return (c.store, c.closure, c.id)

/-- `split_convert_max_by_user`: returns the storage, the remaining maximum and the total
extracted. -/
def splitConvertMaxByUser (s : FundStore) (optMaxAmount : Option ℕ) (userId : ℕ)
    (sourceType : FundType) (direction : SwapDirection)
    (filterTransform : FundDescription → Option FundDescription)
    (interrupt : ℕ → Bool) (fuel : ℕ) : Exec (FundStore × Option ℕ × ℕ) := do
  let T : Traversal Unit :=
    { nextId := FundItem.userListLink direction
      filterTransform := pureFilter fun fundItem => filterTransform fundItem.fundDesc
      interrupt, dryRun := false }
  let c ← T.run .outOfGas fuel
    { store := s, closure := (), optMaxAmount,
      id := s.firstIdOfUserType userId sourceType direction, visitedUsers := [],
      totalTransformed := 0 }
  return (c.store, c.optMaxAmount, c.totalTransformed)

/-- The loop body of `destroy_all_for_user`, on the storage, the id and the total so far. -/
def destroyOne (c : FundStore × ℕ × ℕ) : Exec (FundStore × ℕ × ℕ) := do
  let fundItem := c.1.fundById c.2.1
  let (s, emptied, fundBalance) ← c.1.deleteFund fundItem
  return (s.setFund c.2.1 emptied, fundItem.userListNext, c.2.2 + fundBalance)

/-- `destroy_all_for_user`: returns the storage and the total destroyed. -/
def destroyAllForUser (s : FundStore) (userId : ℕ) (sourceType : FundType)
    (interrupt : ℕ → Bool) (fuel : ℕ) : Exec (FundStore × ℕ) := do
  let c ← whileLoop (fun k c => decide (0 < c.2.1) && !interrupt k) destroyOne .outOfGas fuel 0
    (s, (s.fundListByUser (userId, sourceType)).first, 0)
  return (c.1, c.2.2)

end FundStore

end Delegation
