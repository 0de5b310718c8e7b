import Delegation.Fund.History
import Delegation.Fund.Withdrawable

/-!
# The book of the contract

For the contract the fund store is a book: a queue of entries for each fund type. All that the
contract ever does to its book are the operations of `Book.Op`. Each is a list program
(`Book.perform`), and the functions of `fund_transf_module.rs` perform it on any well formed store
(`Performs`); ids, links and cached totals do not matter any more.
-/

namespace Delegation

open Outcome Loop DoublyLinked Relation FundStore

/-- The queue of every fund type. -/
abbrev Book := FundType → List Entry

namespace Book

/-- An amount enters the queue of its type. -/
def enter (b : Book) (e : Entry) : Book :=
  Function.update b e.fundType (Entry.enqueue (b e.fundType) e)

/-- What a walk of the source takes out enters the queues of the new descriptions. -/
def swap (b : Book) (src : Source) (direction : SwapDirection)
    (g : FundDescription → Option FundDescription) (interrupt : ℕ → Bool)
    (optMaxAmount : Option ℕ) : Book :=
  let r := drain src.sel (fun e => g e.fundDesc) interrupt 0 optMaxAmount
    (direction.walk (b src.fundType))
  fun t =>
    if t = src.fundType then direction.walk r.kept
    else (r.extracted.filter (·.fundType = t)).foldl Entry.enqueue (b t)

/-- What the contract does to its book. -/
inductive Op
  /-- a stake of a user joins the waiting queue -/
  | deposit (userId : ℕ) (created : UInt64) (amount : ℕ)
  /-- waiting stake of a user becomes withdrawable, the youngest first -/
  | withdraw (userId amount : ℕ)
  /-- active stake of a user is unstaked -/
  | unStake (userId : ℕ) (created : UInt64) (amount : ℕ)
  /-- waiting stake is activated, the oldest first -/
  | activate (amount : ℕ) (interrupt : ℕ → Bool)
  /-- unstaked stake is deferred, the oldest first -/
  | defer (amount : ℕ) (interrupt : ℕ → Bool)
  /-- active stake is forced out, the youngest first -/
  | forceOut (created : UInt64) (amount : ℕ) (interrupt : ℕ → Bool)
  /-- deferred stake of a user whose time is over becomes withdrawable -/
  | mature (userId : ℕ) (nonce nBlocksBeforeUnbond : UInt64) (interrupt : ℕ → Bool)
  /-- one withdrawable entry of a user is paid -/
  | pay (userId : ℕ)

/-- The book after an operation. -/
def perform (b : Book) : Op → Book
  | .deposit userId created amount => b.enter ⟨userId, .waiting created, amount⟩
  | .withdraw userId amount =>
      b.swap (.user userId .waiting) .backwards (fun _ => some .withdrawOnly) (fun _ => false)
        (some amount)
  | .unStake userId created amount =>
      b.swap (.user userId .active) .forwards (fun _ => some (.unStaked created)) (fun _ => false)
        (some amount)
  | .activate amount interrupt =>
      b.swap (.type .waiting) .forwards (fun _ => some .active) interrupt (some amount)
  | .defer amount interrupt =>
      b.swap (.type .unStaked) .forwards unstakedToDeferred interrupt (some amount)
  | .forceOut created amount interrupt =>
      b.swap (.type .active) .backwards (fun _ => some (.deferredPayment created)) interrupt
        (some amount)
  | .mature userId nonce nBlocksBeforeUnbond interrupt =>
      b.swap (.user userId .deferredPayment) .forwards
        (eligibleDeferredToWithdraw nonce nBlocksBeforeUnbond) interrupt none
  | .pay userId =>
      Function.update b .withdrawOnly
        ((b .withdrawOnly).eraseP fun e => decide (e.userId = userId))

end Book

namespace FundStore

variable {s s' s'' : FundStore} {lay lay' : Layout} {t : FundType} {direction : SwapDirection}
  {g : FundDescription → Option FundDescription} {interrupt : ℕ → Bool} {optMaxAmount : Option ℕ}

/-! ### The functions of the fund module perform operations -/

/-- The store after an operation. -/
structure Performs (s : FundStore) (op : Book.Op) (s' : FundStore) : Prop where
  wellFormed : s'.WellFormed
  queue_eq : s'.queue = Book.perform s.queue op

theorem Linked.queue_eq_layout (h : Linked (fun _ => True) s lay) : s.queue = lay.queue s :=
  funext fun _ => h.queue_eq trivial

/-- What `increase_fund_balance` adds enters its queue, and no other. -/
theorem Increased.queue_eq_enter {intact : FundType → Prop} {u x : ℕ} {d : FundDescription}
    (hi : Increased intact s lay u d x s' lay') (h : Linked intact s lay) (hco : Coherent s lay) :
    lay'.queue s' = Book.enter (lay.queue s) ⟨u, d, x⟩ := by
  have hother : ∀ t, t ≠ d.fundType → lay'.queue s' t = lay.queue s t := by
    intro t ht
    unfold Layout.queue
    rw [hi.byType t ht]
    refine List.map_congr_left fun a ha => hi.entry a (h.live ha) ?_
    intro hkey
    exact ht ((h.fundType_eq ha).symm.trans (congrArg Prod.snd hkey))
  rw [Book.enter, Function.eq_update_iff]
  exact ⟨hi.queue hco, hother⟩

/-- A conversion is a swap of the book. -/
theorem Linked.queue_eq_swap (src : Source) (h : Linked (fun _ => True) s lay)
    (hd : Drains (fun _ => True) src.fundType direction s lay
      (drain src.sel (fun e => g e.fundDesc) interrupt 0 optMaxAmount
        (direction.walk (lay.queue s src.fundType))) s' lay') :
    s'.WellFormed ∧ s'.queue = Book.swap s.queue src direction g interrupt optMaxAmount := by
  have hr := h.refines hd
  refine ⟨hr.wellFormed, ?_⟩
  rw [← h.queue_eq_layout] at hr
  funext t
  simp only [Book.swap]
  split_ifs with ht
  · rw [ht]
    exact hr.source
  · exact hr.target t ht

theorem WellFormed.swapByType (h : s.WellFormed) (t : FundType) (direction : SwapDirection)
    (hg : ∀ d d', d.fundType = t → g d = some d' → d'.fundType ≠ t) (optMaxAmount : Option ℕ)
    (interrupt : ℕ → Bool) :
    Spec (s.splitConvertMaxByType () optMaxAmount t direction
        (pureFilter fun item => g item.fundDesc) interrupt false)
      (fun r => r.1.WellFormed ∧
        r.1.queue = Book.swap s.queue (.type t) direction g interrupt optMaxAmount)
      (fun _ => True) := by
  obtain ⟨lay, hl, hco⟩ := h
  have hrun := hl.splitConvertMaxByType (f := fun e => g e.fundDesc) hco trivial direction
    optMaxAmount interrupt fun e d => hg e.fundDesc d
  simp only [FundItem.entry_fundDesc] at hrun
  rcases le_or_gt (drain (fun _ => true) (fun e => g e.fundDesc) interrupt 0 optMaxAmount
    (direction.walk (lay.queue s t))).visitedUsers.length maxAffectedUsers with hle | hlt
  · obtain ⟨s', lay', hok, hd⟩ := hrun.1 hle
    rw [hok]
    exact hl.queue_eq_swap (.type t) hd
  · rw [hrun.2 hlt]
    exact trivial

theorem WellFormed.swapByUser (h : s.WellFormed) (u : ℕ) (t : FundType) (direction : SwapDirection)
    (hg : ∀ d d', d.fundType = t → g d = some d' → d'.fundType ≠ t) (optMaxAmount : Option ℕ)
    (interrupt : ℕ → Bool) (fuel : ℕ) :
    Spec (s.splitConvertMaxByUser optMaxAmount u t direction g interrupt fuel)
      (fun r => r.1.WellFormed ∧
        r.1.queue = Book.swap s.queue (.user u t) direction g interrupt optMaxAmount)
      (fun _ => True) := by
  obtain ⟨lay, hl, hco⟩ := h
  have hrun := hl.splitConvertMaxByUser (g := g) hco trivial direction optMaxAmount u interrupt
    fuel hg
  simp only at hrun
  rcases le_or_gt (drain (fun v => v = u) (fun e => g e.fundDesc) interrupt 0 optMaxAmount
    (direction.walk (lay.queue s t))).visitedUsers.length fuel with hle | hlt
  · obtain ⟨s', lay', hok, hd⟩ := hrun.1 hle
    rw [hok]
    exact hl.queue_eq_swap (.user u t) hd
  · rw [hrun.2 hlt]
    exact trivial

theorem WellFormed.createWaiting (h : s.WellFormed) (created : UInt64) (u x : ℕ) :
    Performs s (.deposit u created x) (s.createWaiting created u x) := by
  obtain ⟨lay, hl, hco⟩ := h
  obtain ⟨lay', hi⟩ := hl.increaseFundBalance u (.waiting created) x
  refine ⟨⟨lay', hi.linked, hi.coherent hco⟩, ?_⟩
  have hqueue := hi.queue_eq_enter hl hco
  rw [← hl.queue_eq_layout, ← hi.linked.queue_eq_layout] at hqueue
  exact hqueue

theorem fundType_of_unstakedToDeferred {d d' : FundDescription}
    (h : unstakedToDeferred d = some d') : d'.fundType = .deferredPayment := by
  cases d <;> cases h
  rfl

theorem fundType_of_eligibleDeferredToWithdraw {d d' : FundDescription} {nonce nBlocks : UInt64}
    (h : eligibleDeferredToWithdraw nonce nBlocks d = some d') : d'.fundType = .withdrawOnly := by
  obtain ⟨-, rfl⟩ := eligibleDeferredToWithdraw_eq_some.mp h
  rfl

theorem WellFormed.swapWaitingToActive (h : s.WellFormed) (amount : ℕ) (interrupt : ℕ → Bool) :
    Spec (s.swapWaitingToActive amount interrupt)
      (fun r => Performs s (.activate amount interrupt) r.1) (fun _ => True) := by
  refine Spec.bind (h.swapByType (g := fun _ => some .active) .waiting .forwards ?_ (some amount)
    interrupt) fun r hr => ⟨hr.1, hr.2⟩
  intro d d' _ hd
  rw [← Option.some.inj hd]
  decide

theorem WellFormed.swapUnstakedToDeferredPayment (h : s.WellFormed) (amount : ℕ)
    (interrupt : ℕ → Bool) : Spec (s.swapUnstakedToDeferredPayment amount interrupt)
      (fun r => Performs s (.defer amount interrupt) r.1) (fun _ => True) := by
  refine Spec.bind (h.swapByType (g := unstakedToDeferred) .unStaked .forwards ?_ (some amount)
    interrupt) fun r hr => ⟨hr.1, hr.2⟩
  intro d d' _ hd
  rw [fundType_of_unstakedToDeferred hd]
  decide

theorem WellFormed.swapActiveToDeferredPayment (h : s.WellFormed) (nonce : UInt64) (amount : ℕ)
    (interrupt : ℕ → Bool) : Spec (s.swapActiveToDeferredPayment nonce amount interrupt)
      (fun r => Performs s (.forceOut nonce amount interrupt) r.1) (fun _ => True) := by
  refine Spec.bind (h.swapByType (g := fun _ => some (.deferredPayment nonce)) .active .backwards ?_
    (some amount) interrupt) fun r hr => ⟨hr.1, hr.2⟩
  intro d d' _ hd
  rw [← Option.some.inj hd]
  exact FundType.noConfusion

theorem WellFormed.swapUserWaitingToWithdrawOnly (h : s.WellFormed) (u amount fuel : ℕ) :
    Spec (s.swapUserWaitingToWithdrawOnly u amount fuel)
      (fun r => Performs s (.withdraw u amount) r.1) (fun _ => True) := by
  refine Spec.bind (h.swapByUser (g := fun _ => some .withdrawOnly) u .waiting .backwards ?_
    (some amount) (fun _ => false) fuel) fun r hr => ⟨hr.1, hr.2⟩
  intro d d' _ hd
  rw [← Option.some.inj hd]
  decide

theorem WellFormed.swapUserActiveToUnstaked (h : s.WellFormed) (nonce : UInt64)
    (u amount fuel : ℕ) : Spec (s.swapUserActiveToUnstaked nonce u amount fuel)
      (fun r => Performs s (.unStake u nonce amount) r.1) (fun _ => True) := by
  refine Spec.bind (h.swapByUser (g := fun _ => some (.unStaked nonce)) u .active .forwards ?_
    (some amount) (fun _ => false) fuel) fun r hr => ⟨hr.1, hr.2⟩
  intro d d' _ hd
  rw [← Option.some.inj hd]
  exact FundType.noConfusion

theorem WellFormed.swapEligibleDeferredToWithdraw (h : s.WellFormed) (nonce : UInt64) (u : ℕ)
    (nBlocks : UInt64) (interrupt : ℕ → Bool) (fuel : ℕ) :
    Spec (s.swapEligibleDeferredToWithdraw nonce u nBlocks interrupt fuel)
      (fun r => Performs s (.mature u nonce nBlocks interrupt) r.1) (fun _ => True) := by
  refine Spec.bind (h.swapByUser (g := eligibleDeferredToWithdraw nonce nBlocks) u .deferredPayment
    .forwards ?_ none interrupt fuel) fun r hr => ⟨hr.1, hr.2⟩
  intro d d' _ hd
  rw [fundType_of_eligibleDeferredToWithdraw hd]
  decide

/-- The first item of a user in a list. -/
theorem map_erase_eq_eraseP {s₁ s₂ : FundStore} {ids R : List ℕ} {id u : ℕ} (hnd : ids.Nodup)
    (hfirst : (ids.filter fun a => decide ((s₁.fundById a).userId = u)) = id :: R)
    (hentry : ∀ a ∈ ids, a ≠ id → s₂.entry a = s₁.entry a) :
    (ids.erase id).map s₂.entry =
      (ids.map s₁.entry).eraseP fun e => decide (e.userId = u) := by
  have hcongr : (ids.erase id).map s₂.entry = (ids.erase id).map s₁.entry := by
    refine List.map_congr_left fun a ha => ?_
    obtain ⟨hne, hmem⟩ := hnd.mem_erase_iff.mp ha
    exact hentry a hmem hne
  rw [hcongr]
  clear hcongr hentry
  induction ids with
  | nil => simp at hfirst
  | cons a ids ih =>
    obtain ⟨-, hnd⟩ := List.nodup_cons.mp hnd
    by_cases hu : (s₁.fundById a).userId = u
    · rw [List.filter_cons_of_pos (by simpa using hu)] at hfirst
      obtain ⟨rfl, -⟩ := List.cons.inj hfirst
      have hu' : (s₁.entry a).userId = u := hu
      rw [List.erase_cons_head, List.map_cons, List.eraseP_cons_of_pos (by simpa using hu')]
    · rw [List.filter_cons_of_neg (by simpa using hu)] at hfirst
      have hne : a ≠ id := by
        rintro rfl
        have hmem : a ∈ a :: R := List.mem_cons_self
        rw [← hfirst] at hmem
        exact hu (by simpa using (List.mem_filter.mp hmem).2)
      have hu' : (s₁.entry a).userId ≠ u := hu
      rw [List.erase_cons_tail (by simpa using hne), List.map_cons, List.map_cons,
        List.eraseP_cons_of_neg (by simpa using hu'), ih hnd hfirst]

/-- One iteration of `destroy_all_for_user` takes out the first entry of the user. -/
theorem Destroying.destroyOne_pays {u : ℕ} {c : FundStore × ℕ × ℕ}
    (h : Destroying (fun _ => True) s u .withdrawOnly c) (hid : 0 < c.2.1) :
    Spec (FundStore.destroyOne c) (fun c' => Performs c.1 (.pay u) c'.1) (fun _ => True) := by
  obtain ⟨s₀, id, x⟩ := c
  obtain ⟨lay₀, hl, hco, -, hfirst⟩ := h
  simp only at hid hl hco hfirst
  obtain ⟨R, hlist⟩ : ∃ R, lay₀.byUser (u, .withdrawOnly) = id :: R := by
    cases hl' : lay₀.byUser (u, .withdrawOnly) with
    | nil =>
      rw [hl', List.headD_nil] at hfirst
      omega
    | cons a R =>
      rw [hl', List.headD_cons] at hfirst
      exact ⟨R, by rw [hfirst]⟩
  obtain ⟨hlive, hkey⟩ := (hl.mem_byUser (u, .withdrawOnly) id).mp (hlist ▸ List.mem_cons_self)
  have ht : (s₀.fundById id).fundType = .withdrawOnly := congrArg Prod.snd hkey
  obtain ⟨s₁, hdel, he⟩ := hl.deleteFund hlive
  have hlinked : Linked (fun _ => True) (s₁.setFund id (s₀.fundById id).emptied)
      (s₀.afterTake lay₀ id (s₀.fundById id).balance) := he.linked
  unfold FundStore.destroyOne
  simp only [hdel, ok_bind, pure_eq_ok, spec_ok]
  refine ⟨⟨_, hlinked, he.coherent hl hco⟩, ?_⟩
  rw [hlinked.queue_eq_layout, hl.queue_eq_layout, Book.perform, Function.eq_update_iff]
  constructor
  · unfold Layout.queue
    rw [hl.afterTake_byType, if_pos rfl]
    refine map_erase_eq_eraseP (hl.types.nodup _) ((hco u .withdrawOnly).symm.trans hlist) ?_
    intro a ha hne
    exact he.entry_setFund hne (hl.live ha)
  · intro t hne
    exact he.queue_of_ne hl (by rw [ht]; exact hne)

theorem WellFormed.liquidateAllWithdrawOnly (h : s.WellFormed) (u : ℕ) (interrupt : ℕ → Bool)
    (fuel : ℕ) : Spec (s.liquidateAllWithdrawOnly u interrupt fuel)
      (fun r => ReflTransGen (fun s s' => Performs s (.pay u) s') s r.1) (fun _ => True) := by
  obtain ⟨lay, hl, hco⟩ := h
  have hstart : Destroying (fun _ => True) s u .withdrawOnly
      (s, (s.fundListByUser (u, .withdrawOnly)).first, 0) :=
    ⟨lay, hl, hco, ⟨fun _ => by simp, fun _ _ => by simp, fun _ _ _ => by simp, .refl s,
      .refl _ s⟩, (hl.users.rep (u, .withdrawOnly) trivial).first⟩
  have hloop : Spec (whileLoop (fun k c => decide (0 < c.2.1) && !interrupt k) FundStore.destroyOne
      .outOfGas fuel 0 (s, (s.fundListByUser (u, .withdrawOnly)).first, 0))
      (fun c => ∃ k, (Destroying (fun _ => True) s u .withdrawOnly c ∧
        ReflTransGen (fun s s' => Performs s (.pay u) s') s c.1) ∧
          (decide (0 < c.2.1) && !interrupt k) = false) fun _ => True := by
    refine whileLoop_spec (J := fun _ c => Destroying (fun _ => True) s u .withdrawOnly c ∧
      ReflTransGen (fun s s' => Performs s (.pay u) s') s c.1) trivial ?_ fuel 0 _ ⟨hstart, .refl⟩
    intro k c ⟨hc, hpaid⟩ hguard
    rw [Bool.and_eq_true, decide_eq_true_eq] at hguard
    exact ((hc.destroyOne hguard.1).and (hc.destroyOne_pays hguard.1)).mono
      (fun _ hc' => ⟨hc'.1, hpaid.tail hc'.2⟩) fun _ _ => trivial
  exact Spec.bind hloop fun c ⟨_, hc, _⟩ => hc.2

/-! ### Runs of operations -/

/-- The store after some operations, all of them permitted. -/
def Performed (permitted : Book.Op → Prop) : FundStore → FundStore → Prop :=
  ReflTransGen fun s s' => ∃ op, permitted op ∧ s.Performs op s'

variable {permitted permitted' : Book.Op → Prop} {op : Book.Op}

theorem Performs.performed (h : s.Performs op s') (hop : permitted op) :
    Performed permitted s s' :=
  .single ⟨op, hop, h⟩

theorem Performed.mono (h : Performed permitted s s') (hle : ∀ op, permitted op → permitted' op) :
    Performed permitted' s s' := by
  refine ReflTransGen.mono ?_ _ _ h
  rintro s s' ⟨op, hop, hp⟩
  exact ⟨op, hle op hop, hp⟩

theorem Performed.wellFormed (h : Performed permitted s s') (hs : s.WellFormed) :
    s'.WellFormed := by
  induction h with
  | refl => exact hs
  | tail _ hlast _ =>
    obtain ⟨op, -, hp⟩ := hlast
    exact hp.wellFormed

/-- On the books the operations are one after the other what `Book.perform` says. -/
theorem Performed.queue_eq (h : Performed permitted s s') :
    ∃ ops : List Book.Op, (∀ op ∈ ops, permitted op) ∧
      s'.queue = ops.foldl Book.perform s.queue := by
  induction h with
  | refl => exact ⟨[], by simp, rfl⟩
  | tail _ hlast ih =>
    obtain ⟨ops, hops, hqueue⟩ := ih
    obtain ⟨op, hop, hp⟩ := hlast
    refine ⟨ops ++ [op], ?_, ?_⟩
    · intro op' hop'
      rcases List.mem_append.mp hop' with hmem | hmem
      · exact hops op' hmem
      · rw [List.mem_singleton.mp hmem]
        exact hop
    · rw [hp.queue_eq, hqueue, List.foldl_append, List.foldl_cons, List.foldl_nil]

end FundStore

end Delegation
