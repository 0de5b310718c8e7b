import Delegation.Latest.Administration
import Delegation.Latest.Dust
import Delegation.Latest.Operations
import Delegation.Latest.UserEndpoints

/-!
# The moves of the ledger

`Moved` lists what a call of any endpoint can do to the ledger, and `LedgerStep` what an event can
do: a run of the contract is, for its ledger, a run of these moves (`endpoint_moved`). The
invariants of runs are proved by cases on the moves, with `Reachable.ledger_invariant` as their
induction.
-/

namespace Delegation

open Outcome FundStore

/-- The endpoint that starts an operation, as a call. -/
def Operation.call : Operation → Call
  | .modifyTotalDelegationCap newTotalCap => .modifyTotalDelegationCap newTotalCap
  | .setServiceFee serviceFeePer10000 => .setServiceFee serviceFeePer10000

namespace Ledger

variable {s s' : Ledger} {env : Env} {call : Call}

/-- EGLD that arrives. -/
@[simps]
def credit (s : Ledger) (egld : ℕ) : Ledger := { s with balance := s.balance + egld }

/-- Validator rewards that arrive. -/
@[simps]
def arriveRewards (s : Ledger) (amount : ℕ) : Ledger :=
  { s with
    balance := s.balance + amount
    cumulatedRewards := s.cumulatedRewards + amount }

/-- A call that neither moves funds nor deals with rewards: it may write a setting that has no
invariant, if it is the owner's, and it may spend its payment or EGLD that is not protected. -/
structure Kept (s : Ledger) (env : Env) (s' : Ledger) : Prop where
  frame : s' = { s with
    userAddress := s'.userAddress
    nBlocksBeforeUnbond := s'.nBlocksBeforeUnbond
    minStake := s'.minStake
    featureFlag := s'.featureFlag
    paused := s'.paused
    balance := s'.balance }
  settings : env.caller = s.owner ∨ s'.nBlocksBeforeUnbond = s.nBlocksBeforeUnbond ∧
    s'.minStake = s.minStake
  spent : s.balance ≤ s'.balance + env.payment ∨
    s.bootstrapMode = false ∧ s.globalOpCheckpoint = .none ∧
      ∃ unprotected, s.totalUnprotected = .ok unprotected ∧ s.balance ≤ s'.balance + unprotected

/-- What an accepted call does to the ledger, on which its payment has arrived. -/
inductive Moved (s : Ledger) (env : Env) : Call → Ledger → Prop
  | kept {call : Call} {s' : Ledger} (hcall : call.administrative = true) (h : s.Kept env s') :
      Moved s env call s'
  | staked {s' : Ledger} (h : s.Staked env s') : Moved s env .stake s'
  | unStaked {amount : ℕ} {s' : Ledger} (h : s.UnStaked env amount s') :
      Moved s env (.unStake amount) s'
  | unBonded {paid : ℕ} {s' : Ledger} (h : s.UnBonded env s' paid) : Moved s env .unBond s'
  | claimed {amount : ℕ} {s' : Ledger} (h : s.Claimed env s' amount) :
      Moved s env .claimRewards s'
  | operated {op : Operation} {s₀ s' : Ledger} {orc : GlobalOpCheckpoint}
      (hop : s.globalOpCheckpoint = .none)
      (howner : ∀ newTotalCap, op = .modifyTotalDelegationCap newTotalCap → env.caller = s.owner)
      (hopened : s.Opened op s₀ orc) (hcalled : Called env (s₀.withOp orc) s') :
      Moved s env op.call s'
  | continued {s' : Ledger} (hcalled : Called env s s') :
      Moved s env .continueGlobalOperation s'
  | waitingCleaned {dustLimit : ℕ} {s' : Ledger} (h : s.WaitingCleaned env dustLimit s') :
      Moved s env (.dustCleanupWaitingList dustLimit) s'
  | activeCleaned {dustLimit : ℕ} {s' : Ledger} (h : s.ActiveCleaned env dustLimit s') :
      Moved s env (.dustCleanupActive dustLimit) s'

theorem updateUserAddress_frame (s : Ledger) (addresses : List Address) :
    (s.updateUserAddress addresses).1 =
      { s with userAddress := (s.updateUserAddress addresses).1.userAddress } := by
  suffices h : ∀ c : Ledger × ℕ × ℕ × ℕ, c.1 = { s with userAddress := c.1.userAddress } →
      (addresses.foldl updateOneUserAddress c).1 =
        { s with userAddress := (addresses.foldl updateOneUserAddress c).1.userAddress } from
    h _ rfl
  induction addresses with
  | nil => exact fun c hc => hc
  | cons a addresses ih =>
    rintro ⟨s₁, counts⟩ hc
    refine ih _ ?_
    simp only at hc
    simp only [updateOneUserAddress]
    split_ifs <;> simp only <;> rw [hc]

theorem kept_of_frame (hframe : s' = { s with userAddress := s'.userAddress }) : s.Kept env s' := by
  rw [hframe]
  exact ⟨rfl, .inr ⟨rfl, rfl⟩, .inl (Nat.le_add_right _ _)⟩

end Ledger

namespace Contract

variable {c c' : Contract} {env : Env} {call : Call} {issued : Option AsyncCall}

theorem Administered.kept (h : c.Administered env call c' issued) :
    c.ledger.Kept env c'.ledger := by
  cases h with
  | nodesAdded | nodesRemoved | periodForced | nothingToUnbond => exact Ledger.kept_of_frame rfl
  | prepared _ _ hegld =>
    refine ⟨rfl, .inr ⟨rfl, rfl⟩, ?_⟩
    rcases hegld with rfl | ⟨hboot, hidle, unprotected, hunp, hle⟩
    · exact .inl (Nat.le_add_right _ _)
    · refine .inr ⟨hboot, hidle, unprotected, hunp, ?_⟩
      simp only [sent]
      omega
  | requested hegld =>
    refine ⟨rfl, .inr ⟨rfl, rfl⟩, .inl ?_⟩
    simp only [sent]
    omega
  | settingWritten howner hframe =>
    simp only
    rw [hframe]
    exact ⟨rfl, .inl howner, .inl (Nat.le_add_right _ _)⟩
  | addressesUpdated => exact Ledger.kept_of_frame (Ledger.updateUserAddress_frame _ _)

/-- **Every endpoint makes one of the moves.** -/
theorem endpoint_moved (hs : c.ledger.FundsSound) (hdust : c.ledger.DustTracked)
    (hzero : c.ledger.funds.userTotal 0 .withdrawOnly = 0)
    (h : c.endpoint env call = .ok (c', issued)) : c.ledger.Moved env call c'.ledger := by
  cases hcall : call.administrative with
  | true => exact .kept hcall (endpoint_administered hcall h).kept
  | false =>
    cases call with
    | continueGlobalOperation =>
      obtain ⟨-, ledger, status, hr, rfl⟩ := onLedgerFst_eq_ok h
      exact .continued ((Ledger.continueGlobalOperationEndpoint_spec hs env).of_ok hr).1
    | modifyTotalDelegationCap newTotalCap =>
      obtain ⟨-, ledger, status, hr, rfl⟩ := onLedgerFst_eq_ok h
      have h' : c.ledger.startOperation env (.modifyTotalDelegationCap newTotalCap) =
        .ok (ledger, status) := hr
      obtain ⟨hop, howner, -⟩ := Ledger.startOperation_opens h'
      obtain ⟨s₀, orc, hopened, hcalled, -⟩ := Ledger.startOperation_called hs h'
      exact .operated hop howner hopened hcalled
    | setServiceFee fee =>
      obtain ⟨-, ledger, status, hr, rfl⟩ := onLedgerFst_eq_ok h
      have h' : c.ledger.startOperation env (.setServiceFee fee) = .ok (ledger, status) := hr
      obtain ⟨hop, howner, -⟩ := Ledger.startOperation_opens h'
      obtain ⟨s₀, orc, hopened, hcalled, -⟩ := Ledger.startOperation_called hs h'
      exact .operated hop howner hopened hcalled
    | claimRewards =>
      obtain ⟨-, ledger, hr, rfl⟩ := onLedger_eq_ok h
      obtain ⟨amount, hclaimed⟩ := (c.ledger.claimRewards_spec env).of_ok hr
      exact .claimed hclaimed
    | stake =>
      obtain ⟨-, ledger, hr, rfl⟩ := onLedger_eq_ok h
      exact .staked ((Ledger.stake_spec hs env).of_ok hr)
    | unStake amount =>
      obtain ⟨-, ledger, hr, rfl⟩ := onLedger_eq_ok h
      exact .unStaked ((Ledger.unStake_spec hs env amount).of_ok hr)
    | unBond =>
      obtain ⟨-, ledger, paid, hr, rfl⟩ := onLedgerFst_eq_ok h
      exact .unBonded ((Ledger.unBond_spec hs env).of_ok hr)
    | dustCleanupWaitingList dustLimit =>
      obtain ⟨-, ledger, hr, rfl⟩ := onLedger_eq_ok h
      obtain ⟨at', hat⟩ := hdust.dustAt hs .waiting
      exact .waitingCleaned
        ((Ledger.dustCleanupWaitingList_spec hs hat hzero env dustLimit).of_ok hr)
    | dustCleanupActive dustLimit =>
      obtain ⟨-, ledger, hr, rfl⟩ := onLedger_eq_ok h
      obtain ⟨at', hat⟩ := hdust.dustAt hs .active
      exact .activeCleaned ((Ledger.dustCleanupActive_spec hs hat env dustLimit).of_ok hr)
    | _ => cases hcall

end Contract

end Delegation
