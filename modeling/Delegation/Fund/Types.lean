import Mathlib.Logic.Function.Basic
import Delegation.Basic

/-!
# Fund items and fund lists

The storage records of `user-fund-storage/src/types`. A fund item is a unit of balance with a
description and four links, two for the list of all items of its type and two for the list of the
items of its user and type; `FundsListInfo` is the head record of such a list.

Both records are stored with `TopEncodeOrDefault`: storing a value for which `is_default` holds
clears the cell, and a cleared cell reads back as `default`. For `FundsListInfo` the two notions
coincide. For `FundItem` they do not: `is_default` ignores the description and the user, so an
emptied item reads back with description `WithdrawOnly` and user `0` (`FundItem.stored`).
-/

namespace Delegation

/-- `FundDescription`; `created` is a block nonce. -/
inductive FundDescription
  | withdrawOnly
  | waiting (created : UInt64)
  | pendingAct
  | activeFailed
  | active
  | unStaked (created : UInt64)
  | deferredPayment (created : UInt64)
  deriving DecidableEq, Repr

/-- `FundType`: the description without its data. -/
inductive FundType
  | withdrawOnly
  | waiting
  | pendingAct
  | activeFailed
  | active
  | unStaked
  | deferredPayment
  deriving DecidableEq, Repr

/-- Only these types may merge an amount into the last item of the user. -/
def FundType.allowCoalesce : FundType → Bool
  | .withdrawOnly | .deferredPayment => true
  | _ => false

/-- The type of a description. -/
def FundDescription.fundType : FundDescription → FundType
  | .withdrawOnly => .withdrawOnly
  | .waiting _ => .waiting
  | .pendingAct => .pendingAct
  | .activeFailed => .activeFailed
  | .active => .active
  | .unStaked _ => .unStaked
  | .deferredPayment _ => .deferredPayment

/-- A unit of balance. -/
structure FundItem where
  fundDesc : FundDescription
  userId : ℕ
  balance : ℕ
  typeListNext : ℕ
  typeListPrev : ℕ
  userListNext : ℕ
  userListPrev : ℕ
  deriving DecidableEq, Repr

/-- The head record of a list. -/
structure FundsListInfo where
  totalBalance : ℕ
  first : ℕ
  last : ℕ
  deriving DecidableEq, Repr

namespace FundItem

/-- The type of an item. -/
def fundType (item : FundItem) : FundType := item.fundDesc.fundType

/-- `DecodeDefault for FundItem` -/
def default : FundItem where
  fundDesc := .withdrawOnly
  userId := 0
  balance := 0
  typeListNext := 0
  typeListPrev := 0
  userListNext := 0
  userListPrev := 0

/-- `EncodeDefault for FundItem` -/
def isDefault (item : FundItem) : Bool :=
  item.balance == 0 && item.typeListNext == 0 && item.typeListPrev == 0 &&
    item.userListNext == 0 && item.userListPrev == 0

/-- What a cell holds after an item was stored in it. -/
def stored (item : FundItem) : FundItem := if item.isDefault then default else item

theorem isDefault_iff {item : FundItem} :
    item.isDefault = true ↔ item.balance = 0 ∧ item.typeListNext = 0 ∧ item.typeListPrev = 0 ∧
      item.userListNext = 0 ∧ item.userListPrev = 0 := by
  simp [isDefault, and_assoc]

theorem stored_of_balance_pos {item : FundItem} (h : 0 < item.balance) : item.stored = item := by
  unfold stored
  rw [if_neg]
  rw [isDefault_iff]
  omega

@[simp]
theorem stored_default : default.stored = default := rfl

@[simp]
theorem stored_balance (item : FundItem) : item.stored.balance = item.balance := by
  unfold stored
  split_ifs with h
  · exact (isDefault_iff.mp h).1.symm
  · rfl

@[simp]
theorem stored_typeListNext (item : FundItem) : item.stored.typeListNext = item.typeListNext := by
  unfold stored
  split_ifs with h
  · exact (isDefault_iff.mp h).2.1.symm
  · rfl

@[simp]
theorem stored_typeListPrev (item : FundItem) : item.stored.typeListPrev = item.typeListPrev := by
  unfold stored
  split_ifs with h
  · exact (isDefault_iff.mp h).2.2.1.symm
  · rfl

@[simp]
theorem stored_userListNext (item : FundItem) : item.stored.userListNext = item.userListNext := by
  unfold stored
  split_ifs with h
  · exact (isDefault_iff.mp h).2.2.2.1.symm
  · rfl

@[simp]
theorem stored_userListPrev (item : FundItem) : item.stored.userListPrev = item.userListPrev := by
  unfold stored
  split_ifs with h
  · exact (isDefault_iff.mp h).2.2.2.2.symm
  · rfl

end FundItem

namespace FundsListInfo

/-- `DecodeDefault for FundsListInfo` -/
def default : FundsListInfo where
  totalBalance := 0
  first := 0
  last := 0

/-- `EncodeDefault for FundsListInfo` -/
def isDefault (info : FundsListInfo) : Bool :=
  info.totalBalance == 0 && info.first == 0 && info.last == 0

theorem isDefault_iff {info : FundsListInfo} :
    info.isDefault = true ↔ info.totalBalance = 0 ∧ info.first = 0 ∧ info.last = 0 := by
  simp [isDefault, and_assoc]

theorem eq_default_of_isDefault {info : FundsListInfo} (h : info.isDefault = true) :
    info = default := by
  obtain ⟨htotal, hfirst, hlast⟩ := isDefault_iff.mp h
  cases info with
  | mk totalBalance first last =>
    simp only at htotal hfirst hlast
    rw [htotal, hfirst, hlast]
    rfl

end FundsListInfo

end Delegation
