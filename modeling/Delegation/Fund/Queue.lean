import Delegation.Fund.Increase

/-!
# Queues of entries: what the fund lists are for

The purpose of the fund store, in its own terms: each fund type is a queue of entries, oldest
first. An amount enters a queue at its end, or is added to the last entry of the same user when
the type can be coalesced and the descriptions are equal (`enqueue`).

`Linked.increaseFundBalance` is the first half of the connection with the storage: under
`Coherent`, `increase_fund_balance` acts on the stored lists as `enqueue`.
-/

namespace Delegation

open Outcome DoublyLinked

/-! ### Entering a queue -/

namespace Entry

/-- The last entry of a user. -/
def lastOf (u : ℕ) (q : List Entry) : Option Entry := (q.filter (·.userId = u)).getLast?

/-- The last entry of a user receives `x`. -/
def addToLast (u x : ℕ) : List Entry → List Entry
  | [] => []
  | e :: q =>
      if e.userId = u ∧ ∀ e' ∈ q, e'.userId ≠ u then { e with balance := e.balance + x } :: q
      else e :: addToLast u x q

/-- The amount `e.balance` enters a queue for the user and under the description of `e`. -/
def enqueue (q : List Entry) (e : Entry) : List Entry :=
  if e.balance = 0 then q
  else if e.fundType.allowCoalesce ∧ (lastOf e.userId q).map fundDesc = some e.fundDesc then
    addToLast e.userId e.balance q
  else q ++ [e]

theorem enqueue_of_merges {u x : ℕ} {d : FundDescription} {q : List Entry} (hx : x ≠ 0)
    (h : d.fundType.allowCoalesce ∧ (lastOf u q).map fundDesc = some d) :
    enqueue q ⟨u, d, x⟩ = addToLast u x q :=
  (if_neg hx).trans (if_pos h)

theorem enqueue_of_not_merges {u x : ℕ} {d : FundDescription} {q : List Entry} (hx : x ≠ 0)
    (h : ¬ (d.fundType.allowCoalesce ∧ (lastOf u q).map fundDesc = some d)) :
    enqueue q ⟨u, d, x⟩ = q ++ [⟨u, d, x⟩] :=
  (if_neg hx).trans (if_neg h)

end Entry

namespace Layout

/-- The queue of a type. -/
def queue (lay : Layout) (s : FundStore) (t : FundType) : List Entry := (lay.byType t).map s.entry

end Layout

namespace FundStore

variable {intact : FundType → Prop} {s s' : FundStore} {lay : Layout} {id u x : ℕ} {t : FundType}
  {d : FundDescription}

/-! ### `increase_fund_balance` enters a queue -/

theorem lastOf_map_entry (ids : List ℕ) :
    Entry.lastOf u (ids.map s.entry) =
      (ids.filter fun id => (s.fundById id).userId = u).getLast?.map s.entry := by
  unfold Entry.lastOf
  rw [List.filter_map, List.getLast?_map]
  rfl

/-- Adding to the balance of the last item of a user. -/
theorem addToLast_map_entry (id : ℕ) {ids : List ℕ} (hnd : ids.Nodup)
    (hlast : (ids.filter fun id => (s.fundById id).userId = u).getLast? = some id)
    (hid : s'.entry id = { s.entry id with balance := (s.entry id).balance + x })
    (hother : ∀ a ∈ ids, a ≠ id → s'.entry a = s.entry a) :
    Entry.addToLast u x (ids.map s.entry) = ids.map s'.entry := by
  induction ids with
  | nil => simp at hlast
  | cons a ids ih =>
    obtain ⟨ha, hnd⟩ := List.nodup_cons.mp hnd
    have hany : (∀ e ∈ ids.map s.entry, e.userId ≠ u) ↔
        (ids.filter fun id => (s.fundById id).userId = u) = [] := by
      simp [List.filter_eq_nil_iff, FundStore.entry]
    rw [List.map_cons, List.map_cons, Entry.addToLast]
    by_cases hu : (s.fundById a).userId = u
    · rw [List.filter_cons_of_pos (by simpa using hu)] at hlast
      by_cases hnil : (ids.filter fun id => (s.fundById id).userId = u) = []
      · -- `a` is the last item of the user
        rw [hnil] at hlast
        obtain rfl : a = id := by simpa using hlast
        rw [if_pos ⟨hu, hany.mpr hnil⟩, hid]
        refine congrArg _ (List.map_congr_left fun b hb => ?_)
        refine (hother b (List.mem_cons_of_mem _ hb) ?_).symm
        rintro rfl
        exact ha hb
      · have hlast' : (ids.filter fun id => (s.fundById id).userId = u).getLast? = some id := by
          rwa [List.getLast?_cons_of_ne_nil hnil] at hlast
        have hne : a ≠ id := by
          rintro rfl
          exact ha (List.mem_of_mem_filter (List.mem_of_getLast? hlast'))
        rw [if_neg (fun h => hnil (hany.mp h.2)), hother a (by simp) hne,
          ih hnd hlast' fun b hb => hother b (List.mem_cons_of_mem _ hb)]
    · rw [List.filter_cons_of_neg (by simpa using hu)] at hlast
      have hne : a ≠ id := by
        rintro rfl
        exact ha (List.mem_of_mem_filter (List.mem_of_getLast? hlast))
      rw [if_neg (fun h => hu h.1), hother a (by simp) hne,
        ih hnd hlast fun b hb => hother b (List.mem_cons_of_mem _ hb)]

/-- The user of an item stays, so the lists by user stay the lists by type restricted. -/
theorem Coherent.congr (hco : Coherent s lay) (h : Linked intact s lay)
    (hentry : ∀ a, s.Live a → (s'.fundById a).userId = (s.fundById a).userId) :
    Coherent s' lay := by
  intro u t
  rw [hco u t]
  refine List.filter_congr fun a ha => ?_
  rw [hentry a (h.live ha)]

/-- The last entry of a user, read off the storage. -/
theorem Coherent.lastOf_queue (hco : Coherent s lay) :
    Entry.lastOf u (lay.queue s t) = (lay.byUser (u, t)).getLast?.map s.entry := by
  rw [hco u t]
  exact lastOf_map_entry _

theorem Linked.getLast_byUser (h : Linked intact s lay) (hne : lay.byUser (u, t) ≠ []) :
    (lay.byUser (u, t)).getLast? = some (s.fundListByUser (u, t)).last := by
  have hr : (s.fundListByUser (u, t)).last = (lay.byUser (u, t)).getLastD 0 :=
    (h.users.rep (u, t) trivial).last
  rw [hr, List.getLastD_eq_getLast?, List.getLast?_eq_some_getLast hne]
  rfl

/-- The code's test for coalescing is the one of `enqueue`. -/
theorem Linked.coalesces_iff (h : Linked intact s lay) (hco : Coherent s lay) :
    s.Coalesces u d ↔ d.fundType.allowCoalesce ∧
      (Entry.lastOf u (lay.queue s d.fundType)).map Entry.fundDesc = some d := by
  rw [hco.lastOf_queue]
  unfold Coalesces
  rw [h.userList_isDefault_iff]
  refine and_congr_right fun _ => ?_
  rcases eq_or_ne (lay.byUser (u, d.fundType)) [] with hnil | hne
  · simp [hnil]
  · rw [h.getLast_byUser hne]
    simp [hne, FundStore.entry]

/-- What `increase_fund_balance` does to a linked store. -/
structure Increased (intact : FundType → Prop) (s : FundStore) (lay : Layout) (u : ℕ)
    (d : FundDescription) (x : ℕ) (s' : FundStore) (lay' : Layout) : Prop where
  linked : Linked intact s' lay'
  fundMaxId : s.fundMaxId ≤ s'.fundMaxId
  byType : ∀ t, t ≠ d.fundType → lay'.byType t = lay.byType t
  byUser : ∀ k, k ≠ (u, d.fundType) → lay'.byUser k = lay.byUser k
  entry : ∀ a, s.Live a → (s.fundById a).userKey ≠ (u, d.fundType) → s'.entry a = s.entry a
  typeTotal : ∀ t, s'.typeTotal t = s.typeTotal t + if t = d.fundType then x else 0
  userTotal : ∀ v t, s'.userTotal v t = s.userTotal v t + if (v, t) = (u, d.fundType) then x else 0
  old : ∀ k a, a ≤ s.fundMaxId → a ∈ lay'.byUser k → a ∈ lay.byUser k
  coherent : Coherent s lay → Coherent s' lay'
  queue : Coherent s lay →
    lay'.queue s' d.fundType = Entry.enqueue (lay.queue s d.fundType) ⟨u, d, x⟩

/-- A merged amount. -/
theorem Linked.increased_of_coalesces (h : Linked intact s lay) (hx : x ≠ 0)
    (hc : s.Coalesces u d) : Increased intact s lay u d x (s.increaseFundBalance u d x) lay := by
  obtain ⟨hlast, heq⟩ := h.coalesce hx hc
  rw [heq]
  set id := (s.fundListByUser (u, d.fundType)).last with hiddef
  obtain ⟨hid, hkey⟩ := (h.mem_byUser _ id).mp hlast
  have hu : (s.fundById id).userId = u := congrArg Prod.fst hkey
  have ht : (s.fundById id).fundType = d.fundType := congrArg Prod.snd hkey
  have hb : 0 < (s.fundById id).balance + x := by omega
  have hentry : ∀ a, a ≠ id → (s.reweigh id ((s.fundById id).balance + x)
      (s.typeTotal d.fundType + x) (s.userTotal u d.fundType + x)).entry a = s.entry a := by
    intro a ha
    rw [FundStore.entry, reweigh_fundById hb, if_neg ha]
    rfl
  have huser : ∀ a, ((s.reweigh id ((s.fundById id).balance + x) (s.typeTotal d.fundType + x)
      (s.userTotal u d.fundType + x)).fundById a).userId = (s.fundById a).userId := fun a =>
    congrArg Prod.fst (reweigh_userKey hb a)
  refine ⟨h.reweigh hid hb ?_ ?_, le_rfl, fun _ _ => rfl, fun _ _ => rfl, fun a _ hka => ?_,
    fun t => ?_, fun v t => ?_, fun _ _ _ ha => ha, fun hco => hco.congr h fun a _ => huser a,
    fun hco => ?_⟩
  · rw [ht]
    omega
  · rw [hu, ht]
    omega
  · exact hentry a fun e => hka (e ▸ hkey)
  · refine (typeTotal_retotal s _ _ (s.userTotal u d.fundType + x) t).trans ?_
    rw [ht]
    split_ifs with e
    · rw [e]
    · rfl
  · refine (userTotal_retotal s _ (s.typeTotal d.fundType + x) _ v t).trans ?_
    rw [hkey]
    split_ifs with e
    · obtain ⟨rfl, rfl⟩ := Prod.mk.inj e
      rfl
    · rfl
  · rw [Entry.enqueue_of_merges hx ((h.coalesces_iff hco).mp hc)]
    refine (addToLast_map_entry id (h.types.nodup _) ?_ ?_ fun a _ ha => hentry a ha).symm
    · rw [← hco u d.fundType]
      exact h.getLast_byUser (List.ne_nil_of_mem hlast)
    · rw [FundStore.entry, reweigh_fundById hb, if_pos rfl]
      rfl

/-- An amount that becomes a new item. -/
theorem Linked.increased_of_not_coalesces (h : Linked intact s lay) (hx : x ≠ 0)
    (hc : ¬ s.Coalesces u d) : Increased intact s lay u d x (s.increaseFundBalance u d x)
      (lay.push u d.fundType (s.fundMaxId + 1)) := by
  rw [increaseFundBalance_of_not_coalesces hx hc]
  have hcr : Created s u d x (s.createFund u d x) := createFund_spec hx
  have hentry : ∀ a, s.Live a → (s.createFund u d x).entry a = s.entry a := fun a ha =>
    hcr.entry a ha (by have := h.le_max a ha; omega)
  refine ⟨h.create hx, by rw [hcr.fundMaxId]; omega, fun t ht => ?_, fun k hk => ?_,
    fun a ha _ => hentry a ha, hcr.typeTotal, hcr.userTotal, fun k a hle ha => ?_, fun hco => ?_,
    fun hco => ?_⟩
  · exact Function.update_of_ne ht _ _
  · exact Function.update_of_ne hk _ _
  · rw [Layout.push_byUser, Function.update_apply] at ha
    split_ifs at ha with hk
    · rw [hk]
      refine (List.mem_append.mp ha).resolve_right fun hnew => ?_
      rw [List.mem_singleton] at hnew
      omega
    · exact ha
  · intro v t
    have hfilter : (lay.byType t).filter
        (fun id => ((s.createFund u d x).fundById id).userId = v) = lay.byUser (v, t) := by
      rw [hco v t]
      refine List.filter_congr fun a ha => ?_
      rw [show ((s.createFund u d x).fundById a).userId = (s.fundById a).userId from
        congrArg Entry.userId (hentry a (h.live ha))]
    have hnew : ((s.createFund u d x).fundById (s.fundMaxId + 1)).userId = u :=
      congrArg Entry.userId hcr.new
    rw [Layout.push_byType, Layout.push_byUser]
    rcases eq_or_ne t d.fundType with rfl | hne
    · rw [Function.update_self, List.filter_append, hfilter]
      rcases eq_or_ne v u with rfl | hv
      · simp [hnew]
      · have hne : (v, d.fundType) ≠ (u, d.fundType) := fun e => hv (congrArg Prod.fst e)
        simp [hnew, hv.symm, hne]
    · have hne' : (v, t) ≠ (u, d.fundType) := fun e => hne (congrArg Prod.snd e)
      rw [Function.update_of_ne hne, Function.update_of_ne hne', hfilter]
  · rw [Entry.enqueue_of_not_merges hx (mt (h.coalesces_iff hco).mpr hc)]
    unfold Layout.queue
    rw [Layout.push_byType, Function.update_self, List.map_append, List.map_singleton, hcr.new]
    congr 1
    exact List.map_congr_left fun a ha => hentry a (h.live ha)

/-- **`increase_fund_balance`** enters a queue. -/
theorem Linked.increaseFundBalance (h : Linked intact s lay) (u : ℕ) (d : FundDescription)
    (x : ℕ) : ∃ lay', Increased intact s lay u d x (s.increaseFundBalance u d x) lay' := by
  rcases eq_or_ne x 0 with rfl | hx
  · exact ⟨lay, h, le_rfl, fun _ _ => rfl, fun _ _ => rfl, fun _ _ _ => rfl, fun t => by simp,
      fun v t => by simp, fun _ _ _ ha => ha, fun hco => hco, fun _ => rfl⟩
  · by_cases hc : s.Coalesces u d
    · exact ⟨lay, h.increased_of_coalesces hx hc⟩
    · exact ⟨_, h.increased_of_not_coalesces hx hc⟩

end FundStore

end Delegation
