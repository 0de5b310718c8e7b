import Delegation.Fund.Transformations

/-!
# Totals over all users and over all types

The cached total of a type is the sum of what the users hold of it, as long as only the users
counted hold any. The stake of a user is the sum of what the user holds of the five types in use;
changing descriptions within these types does not change it.
-/

namespace Delegation

namespace Entry

/-- A queue in which only the users of `users` hold anything. -/
theorem sum_total {users : Finset ℕ} {q : List Entry}
    (h : ∀ e ∈ q, e.userId ∉ users → e.balance = 0) :
    ∑ u ∈ users, total (fun v => v = u) q = total (fun _ => true) q := by
  induction q with
  | nil => simp
  | cons e q ih =>
    simp only [total_cons, Finset.sum_add_distrib]
    rw [ih fun e' he' => h e' (List.mem_cons_of_mem _ he')]
    by_cases hu : e.userId ∈ users
    · simp [Finset.sum_ite_eq, hu]
    · simp [h e List.mem_cons_self hu]

/-- No entry is more than the total of its user. -/
theorem balance_le_total {e : Entry} {q : List Entry} (he : e ∈ q) :
    e.balance ≤ total (fun v => v = e.userId) q := by
  induction q with
  | nil => cases he
  | cons e' q ih =>
    rw [total_cons]
    rcases List.mem_cons.mp he with rfl | he
    · simp
    · exact (ih he).trans (Nat.le_add_left _ _)

end Entry

namespace FundStore

variable {intact : FundType → Prop} {s s' : FundStore} {src dst t : FundType}

/-- The cached totals of the users add up to the cached total of the type. -/
theorem Sound.sum_userTotal (h : Sound intact s) {users : Finset ℕ}
    (hothers : ∀ u, u ∉ users → s.userTotal u t = 0) :
    ∑ u ∈ users, s.userTotal u t = s.typeTotal t := by
  obtain ⟨lay, hl, hco⟩ := h
  rw [hl.typeTotal_eq_total, Finset.sum_congr rfl fun u _ => hl.userTotal_eq_total hco u t]
  refine Entry.sum_total fun e he hu => ?_
  have hle := Entry.balance_le_total he
  rw [← hl.userTotal_eq_total hco, hothers e.userId hu] at hle
  exact Nat.le_zero.mp hle

theorem Sound.typeTotal_eq_holding (h : Sound intact s) (t : FundType) :
    s.typeTotal t = s.holding fun _ d => d.fundType = t := by
  obtain ⟨lay, hl, -⟩ := h
  exact hl.typeTotal_eq_holding t

theorem Sound.userTotal_eq_holding (h : Sound intact s) (u : ℕ) (t : FundType) :
    s.userTotal u t = s.holding fun v d => v = u && d.fundType = t := by
  obtain ⟨lay, hl, hco⟩ := h
  exact hl.userTotal_eq_holding hco u t

/-- No user holds more than the total. -/
theorem Sound.userTotal_le (h : Sound intact s) (u : ℕ) (t : FundType) :
    s.userTotal u t ≤ s.typeTotal t := by
  obtain ⟨lay, hl, hco⟩ := h
  rw [hl.typeTotal_eq_total, hl.userTotal_eq_total hco]
  generalize lay.queue s t = q
  induction q with
  | nil => simp
  | cons e q ih =>
    simp only [Entry.total_cons, if_true]
    split_ifs <;> omega

/-- A swap takes from a user no more than the user has. -/
theorem Shift.moved_le {moved : ℕ → ℕ} {amount : ℕ} (h : Shift s s' src dst moved amount)
    (hne : dst ≠ src) (u : ℕ) : moved u ≤ s.userTotal u src := by
  have := h.userTotal u src
  rw [if_pos rfl, if_neg (Ne.symm hne)] at this
  omega

/-- A user who has nothing gets nothing. -/
theorem Shift.userTotal_eq_zero {moved : ℕ → ℕ} {amount : ℕ} (h : Shift s s' src dst moved amount)
    (hne : dst ≠ src) {u : ℕ} (hu : ∀ t, s.userTotal u t = 0) (t : FundType) :
    s'.userTotal u t = 0 := by
  have hmoved := h.moved_le hne u
  have hshift := h.userTotal u t
  rw [hu] at hmoved hshift
  split_ifs at hshift <;> omega

end FundStore

/-! ### The stake of a user -/

/-- The types that `get_user_total_stake` adds up. The other two are unused. -/
def FundType.counted : FundType → Bool
  | .pendingAct | .activeFailed => false
  | .withdrawOnly | .waiting | .active | .unStaked | .deferredPayment => true

namespace FundStore

variable {intact : FundType → Prop} {s s' : FundStore} {src dst t : FundType} {u : ℕ}

/-- What a user has in the contract. -/
def stakeOf (s : FundStore) (u : ℕ) : ℕ := s.holding fun v d => v = u && d.fundType.counted

/-- The stake of a user, by type. -/
theorem Sound.stakeOf_eq (h : Sound intact s) (u : ℕ) :
    s.stakeOf u = s.userTotal u .withdrawOnly + s.userTotal u .waiting + s.userTotal u .active +
      s.userTotal u .unStaked + s.userTotal u .deferredPayment := by
  obtain ⟨lay, hl, hco⟩ := h
  simp only [hl.userTotal_eq_holding hco, stakeOf, holding, ← Finset.sum_add_distrib]
  refine Finset.sum_congr rfl fun id _ => ?_
  simp only [Entry.weight]
  -- an item counts for its own type only
  generalize (s.entry id).fundDesc = d
  cases d <;> by_cases hu : (s.entry id).userId = u <;>
    simp [hu, FundDescription.fundType, FundType.counted]

theorem Sound.userTotal_le_stakeOf (h : Sound intact s) (u : ℕ) (ht : t.counted = true) :
    s.userTotal u t ≤ s.stakeOf u := by
  rw [h.stakeOf_eq u]
  cases t <;> first | omega | cases ht

theorem Relabelled.stakeOf_eq {R : ℕ → FundDescription → FundDescription → Prop}
    (h : Relabelled R s s')
    (hR : ∀ u d d', R u d d' → d'.fundType.counted = d.fundType.counted) (u : ℕ) :
    s'.stakeOf u = s.stakeOf u :=
  h.holding_eq fun v d d' hvia => by simp [hR v d d' hvia]

theorem Swapped.stakeOf_eq {g : FundDescription → Option FundDescription} {users : ℕ → Prop}
    {moved : ℕ → ℕ} {amount : ℕ} (h : Swapped intact s s' src dst g users moved amount)
    (hg : ∀ d d', g d = some d' → d'.fundType.counted = true) (hsrc : src.counted = true) (u : ℕ) :
    s'.stakeOf u = s.stakeOf u :=
  h.relabelled.stakeOf_eq (fun _ d d' ⟨_, hd, hdd⟩ => by rw [hg d d' hdd, hd, hsrc]) u

theorem Destroyed.stakeOf_eq {x : ℕ} (h : Destroyed s s' u t x) (ht : t.counted = true) (v : ℕ) :
    s'.stakeOf v + (if v = u then x else 0) = s.stakeOf v := by
  have hold := h.holding (fun w d => w = v && d.fundType.counted) (decide (u = v)) fun d hd => by
    simp [hd, ht]
  simpa [stakeOf, eq_comm] using hold

/-- The payment of a stake enters the holdings under its own description. -/
theorem Sound.createWaiting_holding (h : Sound intact s) (currentBlNonce : UInt64)
    (userId balance : ℕ) (p : ℕ → FundDescription → Bool) :
    (s.createWaiting currentBlNonce userId balance).holding p =
      s.holding p + if p userId (.waiting currentBlNonce) then balance else 0 := by
  obtain ⟨lay, hl, hco⟩ := h
  obtain ⟨lay', hi⟩ := hl.increaseFundBalance userId (.waiting currentBlNonce) balance
  exact hi.holding hl hco p

end FundStore

end Delegation
