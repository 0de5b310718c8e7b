import Mathlib.Tactic
import Delegation.Lib.Outcome

/-!
# What the execution environment gives the contract

An endpoint either returns or panics, and a panic rolls the whole call back, so endpoints are
functions into `Exec`. `BigUint` is `ℕ`: the type is unbounded, its subtraction panics when the
result would be negative and its division panics on a zero divisor (`bigSub`, `bigDiv`). Ids and
counters (`usize`) are `ℕ`; block nonces (`u64`) are `UInt64`, whose addition wraps as it does in
the release profile of the wasm crate.

`Env` is what one transaction carries besides its arguments. Gas enters in the two ways the code
can notice it: the answers of the `get_gas_left() < LIMIT` checks that guard the resumable loops,
and the number of loop iterations that the gas pays for before the transaction runs out.
-/

namespace Delegation

open Outcome

/-- An address of the chain. -/
abbrev Address := BitVec 256

/-- Why a call is aborted. -/
inductive Panic
  /-- `require!` and `sc_panic!`, with their message. -/
  | scPanic (msg : String)
  /-- A `BigUint` subtraction whose result would be negative. -/
  | bigUintSub
  /-- A `BigUint` division by zero. -/
  | bigUintDiv
  /-- `ArrayVec::push` on a full vector. -/
  | capacity
  /-- A transfer of more EGLD than the contract owns. -/
  | insufficientFunds
  /-- The transaction ran out of gas. -/
  | outOfGas
  deriving DecidableEq, Repr

/-- A call either returns or panics. -/
abbrev Exec := Except Panic

/-- `require!(b, msg)` -/
def require (b : Prop) [Decidable b] (msg : String) : Exec Unit :=
  if b then .ok () else .error (.scPanic msg)

/-- `BigUint` subtraction. -/
def bigSub (a b : ℕ) : Exec ℕ :=
  if b ≤ a then .ok (a - b) else .error .bigUintSub

/-- `BigUint` division. -/
def bigDiv (a b : ℕ) : Exec ℕ :=
  if b = 0 then .error .bigUintDiv else .ok (a / b)

/-- The data of one transaction. `gasLow i k` answers the `k`-th check of the `i`-th gas guarded
loop; `fuel` bounds the iterations of the loops that nothing else bounds. -/
structure Env where
  caller : Address
  payment : ℕ
  blockNonce : UInt64
  gasLow : ℕ → ℕ → Bool
  fuel : ℕ

/-- The caller attaches no EGLD and its gas is never a limit. -/
def Env.plain (caller : Address) (blockNonce : UInt64) (fuel : ℕ) : Env where
  caller := caller
  payment := 0
  blockNonce := blockNonce
  gasLow := fun _ _ => false
  fuel := fuel

/-! ### Rules for the primitives -/

/-- The arithmetic panics. -/
def Panic.Arith (e : Panic) : Prop := e = .bigUintSub ∨ e = .bigUintDiv

/-- The panics of a traversal that is too long for one transaction. -/
def Panic.Resource (e : Panic) : Prop :=
  e = .outOfGas ∨ e = .scPanic "affected user capacity exceeded"

theorem Panic.Resource.not_arith {e : Panic} (h : e.Resource) : ¬ e.Arith := by
  rcases h with rfl | rfl <;> simp [Panic.Arith]

@[simp]
theorem Panic.not_arith_scPanic (msg : String) : ¬ (Panic.scPanic msg).Arith := by
  simp [Panic.Arith]

variable {α : Type} {P : α → Prop} {Q : Unit → Prop} {E : Panic → Prop} {b : Prop}
  [Decidable b] {msg : String} {m n : ℕ}

@[simp]
theorem require_eq_ok {u : Unit} : require b msg = .ok u ↔ b := by
  unfold require
  split_ifs with h <;> simp [h]

/-- A `require!` either holds for the rest of the call or ends it with its message. -/
theorem spec_require (hE : ¬ b → E (.scPanic msg)) : Spec (require b msg) (fun _ => b) E := by
  unfold require
  split_ifs with h
  · exact h
  · exact hE h

@[simp]
theorem bigSub_eq_ok {k : ℕ} : bigSub m n = .ok k ↔ n ≤ m ∧ m - n = k := by
  unfold bigSub
  split_ifs with h <;> simp [h]

theorem bigSub_of_le (h : n ≤ m) : bigSub m n = .ok (m - n) := by simp [h]

/-- The primitives fail with nothing but arithmetic panics. -/
theorem spec_bigSub_arith (m n : ℕ) : Spec (bigSub m n) (fun _ => True) Panic.Arith := by
  unfold bigSub
  split_ifs
  · trivial
  · exact .inl rfl

theorem spec_bigDiv_arith (m n : ℕ) : Spec (bigDiv m n) (fun _ => True) Panic.Arith := by
  unfold bigDiv
  split_ifs
  · exact .inr rfl
  · trivial

@[simp]
theorem bigDiv_eq_ok {k : ℕ} : bigDiv m n = .ok k ↔ n ≠ 0 ∧ m / n = k := by
  unfold bigDiv
  split_ifs with h <;> simp [h]

end Delegation
