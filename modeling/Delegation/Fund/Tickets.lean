import Delegation.Fund.Book
import Delegation.Fund.Resume
import Delegation.Fund.Views
import Delegation.Lib.Fifo

/-!
# Waiting funds and unstaked funds are served in order

In the two queues where stake waits for the contract, to be activated and to be deferred, the
entries are tickets: users join at the end, the contract serves from the front, and the owner of a
waiting entry may take it back. That is all that the operations on the book do to these two queues
(`Performs.change`), so what holds of every such queue holds here.
-/

namespace Delegation

open Outcome DoublyLinked Relation FundStore

/-- The nonce of a description, `0` where it has none. -/
def FundDescription.created : FundDescription → ℕ
  | .waiting created | .unStaked created | .deferredPayment created => created.toNat
  | _ => 0

/-- An entry as a ticket of its user. -/
@[simps]
def Entry.tickets : Fifo.Tickets Entry ℕ ℕ where
  owner := userId
  since e := e.fundDesc.created
  amount := balance
  part e x := { e with balance := e.balance - x }
  owner_part _ _ := rfl
  since_part _ _ := rfl
  amount_part _ _ := rfl
  part_part e x y := by rw [Nat.sub_sub]

/-! ### The list program on tickets -/

section Drain

variable {sel : ℕ → Bool} {f : Entry → Option FundDescription} {interrupt : ℕ → Bool} {k : ℕ}
  {max : Option ℕ} {q : List Entry}

/-- A conversion that takes whatever it meets serves the queue from the front. -/
theorem drain_kept_eq_serve (hpos : ∀ e ∈ q, 0 < e.balance) (hf : ∀ e ∈ q, ∃ d, f e = some d) :
    (drain (fun _ => true) f interrupt k max q).kept = Fifo.serve Entry.tickets
      (Entry.total (fun _ => true) (drain (fun _ => true) f interrupt k max q).extracted) q := by
  revert hpos hf
  refine drain_induct (P := fun _ _ q r => (∀ e ∈ q, 0 < e.balance) →
    (∀ e ∈ q, ∃ d, f e = some d) → r.kept = Fifo.serve Entry.tickets
      (Entry.total (fun _ => true) r.extracted) q) ?_ ?_ ?_ ?_ ?_ k max q
  · intro k max _ _
    simp
  · intro k max e q hs
    exact absurd hs (by decide)
  · intro k max e q _ _ _ _
    simp
  · intro k max e q _ _ hnone _ _ hf
    obtain ⟨d, hd⟩ := hf e List.mem_cons_self
    rw [hnone] at hd
    cases hd
  · intro k max e q d _ hstop _ ih hpos hf
    have he : 0 < e.balance := hpos e List.mem_cons_self
    have ih := ih (fun a ha => hpos a (List.mem_cons_of_mem e ha))
      fun a ha => hf a (List.mem_cons_of_mem e ha)
    have htotal := drain_optMaxAmount (fun _ => true) f interrupt (k + 1)
      (max.map (· - takenBalance max e.balance)) q
    set x := takenBalance max e.balance with hx
    generalize drain (fun _ => true) f interrupt (k + 1) (max.map (· - x)) q = r at ih htotal
    simp only [Drained.visit, List.singleton_append, Entry.total_cons, if_true]
    rw [ih]
    split_ifs with hwhole
    · -- the entry is taken wholly
      rw [hwhole, Fifo.serve_of_le (by omega) (by simp), List.nil_append]
      simp
    · -- the maximum ends within the entry
      obtain ⟨M, rfl, hM⟩ : ∃ M, max = some M ∧ x = M := by
        cases max with
        | none => exact absurd rfl hwhole
        | some M =>
          refine ⟨M, rfl, ?_⟩
          simp only [takenBalance] at hx
          omega
      have hle : x ≤ e.balance := takenBalance_le _ _
      have hx0 : x ≠ 0 := by
        rintro h0
        exact hstop (.inr (by rw [← hM, h0]))
      have hrest : Entry.total (fun _ => true) r.extracted = 0 := by
        rw [← hM, Option.map_some, Nat.sub_self, Option.map_eq_some_iff] at htotal
        obtain ⟨m, -, hm⟩ := htotal
        omega
      rw [hrest, Fifo.serve_zero, Nat.add_zero,
        Fifo.serve_of_lt hx0 (by simp only [Entry.tickets_amount]; omega)]
      rfl

/-- What stays in the queue has waited since the same times as before. -/
theorem drain_kept_since : ((drain sel f interrupt k max q).kept.map Entry.tickets.since).Sublist
    (q.map Entry.tickets.since) := by
  refine drain_induct (P := fun _ _ q r =>
    (r.kept.map Entry.tickets.since).Sublist (q.map Entry.tickets.since)) ?_ ?_ ?_ ?_ ?_ k max q
  · intro k max
    exact List.Sublist.refl _
  · intro k max e q _ ih
    exact ih.cons_cons _
  · intro k max e q _ _
    exact List.Sublist.refl _
  · intro k max e q _ _ _ ih
    exact ih.cons_cons _
  · intro k max e q d _ _ _ ih
    simp only [Drained.visit]
    split_ifs
    · exact ih.cons _
    · exact ih.cons_cons _

/-- A conversion leaves the entries of other users alone. -/
theorem drain_kept_others {group : ℕ → Bool} (hgroup : ∀ v, group v = true → sel v = false) :
    Fifo.ticketsOf Entry.tickets group (drain sel f interrupt k max q).kept =
      Fifo.ticketsOf Entry.tickets group q := by
  have hout : ∀ e : Entry, sel e.userId = true → group (Entry.tickets.owner e) = false := by
    intro e hs
    by_contra hg
    rw [hgroup _ (by simpa using hg)] at hs
    cases hs
  refine drain_induct (P := fun _ _ q r => Fifo.ticketsOf Entry.tickets group r.kept =
    Fifo.ticketsOf Entry.tickets group q) ?_ ?_ ?_ ?_ ?_ k max q
  · intro k max
    rfl
  · intro k max e q _ ih
    simp only
    rw [← List.singleton_append, Fifo.ticketsOf_append, ih, ← Fifo.ticketsOf_append,
      List.singleton_append]
  · intro k max e q _ _
    rfl
  · intro k max e q hs _ _ ih
    simp only [Drained.visit, List.singleton_append]
    rw [Fifo.ticketsOf_cons_of_not_mem (hout e hs), Fifo.ticketsOf_cons_of_not_mem (hout e hs), ih]
  · intro k max e q d hs _ _ ih
    simp only [Drained.visit]
    rw [Fifo.ticketsOf_append, ih, Fifo.ticketsOf_cons_of_not_mem (hout e hs),
      Fifo.ticketsOf_eq_nil, List.nil_append]
    intro a ha
    split_ifs at ha with hwhole
    · simp at ha
    · rw [List.mem_singleton] at ha
      rw [ha]
      exact hout _ hs

theorem drain_kept_pos (hpos : ∀ e ∈ q, 0 < e.balance) :
    ∀ e ∈ (drain sel f interrupt k max q).kept, 0 < e.balance := by
  revert hpos
  refine drain_induct (P := fun _ _ q r => (∀ e ∈ q, 0 < e.balance) → ∀ e ∈ r.kept, 0 < e.balance)
    ?_ ?_ ?_ ?_ ?_ k max q
  · intro k max h
    exact h
  · intro k max e q _ ih h
    exact List.forall_mem_cons.mpr ⟨h e List.mem_cons_self,
      ih fun a ha => h a (List.mem_cons_of_mem e ha)⟩
  · intro k max e q _ _ h
    exact h
  · intro k max e q _ _ _ ih h
    exact List.forall_mem_cons.mpr ⟨h e List.mem_cons_self,
      ih fun a ha => h a (List.mem_cons_of_mem e ha)⟩
  · intro k max e q d _ _ _ ih h
    have hrest := ih fun a ha => h a (List.mem_cons_of_mem e ha)
    have hle := takenBalance_le max e.balance
    simp only [Drained.visit]
    split_ifs with hwhole
    · exact hrest
    · refine List.forall_mem_cons.mpr ⟨?_, hrest⟩
      simp only
      omega

end Drain

/-- Entries of a type that is not coalesced join a queue at its end. -/
theorem Entry.foldl_enqueue {es q : List Entry} (h : ∀ e ∈ es, e.fundType.allowCoalesce = false) :
    es.foldl Entry.enqueue q = q ++ es.filter fun e => e.balance ≠ 0 := by
  induction es generalizing q with
  | nil => simp
  | cons e es ih =>
    have hjoin : Entry.enqueue q e = q ++ [e].filter fun e => e.balance ≠ 0 := by
      have he := h e List.mem_cons_self
      by_cases h0 : e.balance = 0
      · simp [enqueue, h0]
      · simp [enqueue, h0, he]
    rw [List.foldl_cons, hjoin, ih fun a ha => h a (List.mem_cons_of_mem e ha), List.append_assoc,
      ← List.filter_append, List.singleton_append]

/-! ### The operations on tickets -/

namespace Book

variable {b : Book} {src : Source} {t : FundType} {direction : SwapDirection}
  {g : FundDescription → Option FundDescription} {interrupt : ℕ → Bool} {optMaxAmount : Option ℕ}

theorem swap_target (src : Source) (ht : t ≠ src.fundType) :
    b.swap src direction g interrupt optMaxAmount t =
      ((drain src.sel (fun e => g e.fundDesc) interrupt 0 optMaxAmount
        (direction.walk (b src.fundType))).extracted.filter (·.fundType = t)).foldl Entry.enqueue
          (b t) :=
  if_neg ht

/-- A swap does not touch the queues that it neither takes from nor puts into. -/
theorem swap_of_ne (src : Source) (hb : ∀ e ∈ b src.fundType, e.fundType = src.fundType)
    (ht : t ≠ src.fundType)
    (hg : ∀ d d', d.fundType = src.fundType → g d = some d' → d'.fundType ≠ t) :
    b.swap src direction g interrupt optMaxAmount t = b t := by
  have hnone : (drain src.sel (fun e => g e.fundDesc) interrupt 0 optMaxAmount
      (direction.walk (b src.fundType))).extracted.filter (·.fundType = t) = [] := by
    rw [List.filter_eq_nil_iff]
    intro e he
    obtain ⟨-, -, e', he', hd⟩ := drain_extracted e he
    rw [SwapDirection.mem_walk] at he'
    exact (decide_eq_true_iff.not).mpr (hg e'.fundDesc e.fundDesc (hb e' he') hd)
  rw [swap_target src ht, hnone, List.foldl_nil]

/-- A swap of the whole queue from its front, by a filter that takes everything, is service. -/
theorem swap_eq_serve (hpos : ∀ e ∈ b t, 0 < e.balance)
    (hg : ∀ e ∈ b t, ∃ d, g e.fundDesc = some d) :
    ∃ x, b.swap (.type t) .forwards g interrupt optMaxAmount t =
      Fifo.serve Entry.tickets x (b t) :=
  ⟨_, (if_pos rfl).trans (drain_kept_eq_serve hpos hg)⟩

/-- The types that an operation is about. -/
def Op.types : Op → List FundType
  | .deposit _ _ _ => [.waiting]
  | .withdraw _ _ => [.waiting, .withdrawOnly]
  | .unStake _ _ _ => [.active, .unStaked]
  | .activate _ _ => [.waiting, .active]
  | .defer _ _ => [.unStaked, .deferredPayment]
  | .forceOut _ _ _ => [.active, .deferredPayment]
  | .mature _ _ _ _ => [.deferredPayment, .withdrawOnly]
  | .pay _ => [.withdrawOnly]

/-- An operation leaves the queues of the other types alone. -/
theorem perform_of_not_mem {op : Op} (hb : ∀ t, ∀ e ∈ b t, e.fundType = t) (ht : t ∉ op.types) :
    b.perform op t = b t := by
  cases op with
  | deposit | pay =>
    simp only [Op.types, List.mem_singleton] at ht
    exact Function.update_of_ne ht _ _
  | withdraw userId | unStake userId =>
    simp only [Op.types, List.mem_cons, List.not_mem_nil, or_false, not_or] at ht
    rw [perform]
    refine swap_of_ne (.user userId _) (hb _) ht.1 fun d d' _ hd => ?_
    rw [← Option.some.inj hd]
    exact Ne.symm ht.2
  | activate | forceOut =>
    simp only [Op.types, List.mem_cons, List.not_mem_nil, or_false, not_or] at ht
    rw [perform]
    refine swap_of_ne (.type _) (hb _) ht.1 fun d d' _ hd => ?_
    rw [← Option.some.inj hd]
    exact Ne.symm ht.2
  | defer =>
    simp only [Op.types, List.mem_cons, List.not_mem_nil, or_false, not_or] at ht
    refine swap_of_ne (.type .unStaked) (hb _) ht.1 fun d d' _ hd => ?_
    rw [fundType_of_unstakedToDeferred hd]
    exact Ne.symm ht.2
  | mature userId =>
    simp only [Op.types, List.mem_cons, List.not_mem_nil, or_false, not_or] at ht
    refine swap_of_ne (.user userId .deferredPayment) (hb _) ht.1 fun d d' _ hd => ?_
    rw [fundType_of_eligibleDeferredToWithdraw hd]
    exact Ne.symm ht.2

/-- The operations of a user at a nonce, and those of nobody. -/
def Op.By (user : ℕ) (nonce : UInt64) : Op → Prop
  | .deposit userId created _ => userId = user ∧ created = nonce
  | .unStake userId created _ => userId = user ∧ created = nonce
  | .withdraw userId _ => userId = user
  | .mature userId now _ _ => userId = user ∧ now = nonce
  | .pay userId => userId = user
  | .forceOut created _ _ => created = nonce
  | .activate _ _ | .defer _ _ => True

/-- Whether waiting stake is taken back. -/
def Op.Withdraws : Op → Prop
  | .withdraw _ _ => True
  | _ => False

end Book

namespace FundStore

variable {s s' : FundStore} {t : FundType} {op : Book.Op} {u now : ℕ} {nonce : UInt64}
  {leaves : Prop}

/-- What enters a queue that is not coalesced joins it at its end. -/
theorem change_of_joined {es q : List Entry} (htype : ∀ e ∈ es, e.fundType.allowCoalesce = false)
    (hby : ∀ e ∈ es, e.userId = u ∧ e.fundDesc.created = now) :
    Fifo.Change Entry.tickets u now leaves q (es.foldl Entry.enqueue q) := by
  rw [Entry.foldl_enqueue htype]
  refine .joined ?_ ?_ ?_
  · intro e he
    have hne := (List.mem_filter.mp he).2
    exact Nat.pos_of_ne_zero (by simpa using hne)
  · intro e he
    exact (hby e (List.mem_of_mem_filter he)).1
  · intro e he
    exact (hby e (List.mem_of_mem_filter he)).2

/-- A conversion of the entries of one user concerns nobody else. -/
theorem change_of_left {q : List Entry} (hpos : ∀ e ∈ q, 0 < e.balance)
    (f : Entry → Option FundDescription) (interrupt : ℕ → Bool) (max : Option ℕ)
    (hleaves : leaves) :
    Fifo.Change Entry.tickets u now leaves q
      (drain (fun v => v = u) f interrupt 0 max q.reverse).kept.reverse := by
  set r := drain (fun v => v = u) f interrupt 0 max q.reverse
  refine .left hleaves ?_ (fun group hgroup => ?_) ?_
  · intro e he
    exact drain_kept_pos (fun e he => hpos e (List.mem_reverse.mp he)) e (List.mem_reverse.mp he)
  · have hothers : ∀ v, group v = true → decide (v = u) = false := by
      intro v hv
      rw [decide_eq_false_iff_not]
      rintro rfl
      rw [hgroup] at hv
      cases hv
    have hkept : Fifo.ticketsOf Entry.tickets group r.kept =
        Fifo.ticketsOf Entry.tickets group q.reverse := drain_kept_others hothers
    simp only [Fifo.ticketsOf, List.filter_reverse] at hkept ⊢
    rw [hkept, List.reverse_reverse]
  · have hsince : (r.kept.map Entry.tickets.since).Sublist
        (q.reverse.map Entry.tickets.since) := drain_kept_since
    have hback := hsince.reverse
    rwa [← List.map_reverse, ← List.map_reverse, List.reverse_reverse] at hback

/-- **Waiting funds**: users join, the contract serves, and a user may take back its own. -/
theorem Performs.change_waiting (hp : Performs s op s') (h : s.WellFormed) (hby : op.By u nonce)
    (hleaves : op.Withdraws → leaves) :
    Fifo.Change Entry.tickets u nonce.toNat leaves (s.queue .waiting) (s'.queue .waiting) := by
  have hb : ∀ t, ∀ e ∈ s.queue t, e.fundType = t := fun t e he => (Sound.mem_queue h trivial he).1
  have hpos : ∀ e ∈ s.queue .waiting, 0 < e.balance := fun e he => (Sound.mem_queue h trivial he).2
  rw [hp.queue_eq]
  cases op with
  | deposit userId created amount =>
    obtain ⟨rfl, rfl⟩ := hby
    have hjoin : Book.perform s.queue (.deposit userId created amount) .waiting =
        [⟨userId, .waiting created, amount⟩].foldl Entry.enqueue (s.queue .waiting) := by
      change Function.update s.queue FundType.waiting _ FundType.waiting = _
      rw [Function.update_self]
      rfl
    rw [hjoin]
    refine change_of_joined ?_ ?_ <;> intro e he <;> rw [List.mem_singleton.mp he]
    · rfl
    · exact ⟨rfl, rfl⟩
  | withdraw userId amount =>
    obtain rfl : userId = u := hby
    exact change_of_left hpos _ _ _ (hleaves trivial)
  | activate amount interrupt =>
    obtain ⟨x, hx⟩ := Book.swap_eq_serve (g := fun _ => some .active) hpos fun e _ => ⟨_, rfl⟩
    rw [Book.perform, hx]
    exact .served x
  | unStake | defer | forceOut | mature | pay =>
    exact .of_eq (Book.perform_of_not_mem hb (by simp [Book.Op.types]))

/-- **Unstaked funds**: users join, and the contract serves. -/
theorem Performs.change_unStaked (hp : Performs s op s') (h : s.WellFormed) (hby : op.By u nonce) :
    Fifo.Change Entry.tickets u nonce.toNat False (s.queue .unStaked) (s'.queue .unStaked) := by
  have hb : ∀ t, ∀ e ∈ s.queue t, e.fundType = t := fun t e he => (Sound.mem_queue h trivial he).1
  have hpos : ∀ e ∈ s.queue .unStaked, 0 < e.balance := fun e he => (Sound.mem_queue h trivial he).2
  rw [hp.queue_eq]
  cases op with
  | unStake userId created amount =>
    obtain ⟨rfl, rfl⟩ := hby
    rw [Book.perform, Book.swap_target _ (by simp [Source.fundType])]
    refine change_of_joined ?_ ?_ <;> intro e he
    · have htype := (List.mem_filter.mp he).2
      rw [of_decide_eq_true htype]
      rfl
    · obtain ⟨hsel, -, e', -, hd⟩ := drain_extracted e (List.mem_of_mem_filter he)
      rw [← Option.some.inj hd]
      exact ⟨of_decide_eq_true hsel, rfl⟩
  | defer amount interrupt =>
    obtain ⟨x, hx⟩ := Book.swap_eq_serve (g := unstakedToDeferred) hpos fun e he =>
      (unstakedToDeferred_of_fundType e.fundDesc (hb _ e he)).imp fun _ => And.left
    rw [Book.perform, hx]
    exact .served x
  | deposit | withdraw | activate | forceOut | mature | pay =>
    exact .of_eq (Book.perform_of_not_mem hb (by simp [Book.Op.types]))

end FundStore

end Delegation
