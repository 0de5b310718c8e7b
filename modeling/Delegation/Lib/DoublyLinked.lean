import Mathlib.Data.List.Basic
import Mathlib.Data.List.Nodup
import Mathlib.Logic.Function.Basic

/-!
# Doubly linked lists kept in two link fields

A doubly linked list over the ids `α`, with `0` as the null id, is given by two link maps and
two end ids (`Links`). `Links.Rep L l` says that the links describe exactly the list `l`: the
ends are the ends of `l`, every `next` and every `prev` is the neighbour in `l`, and the outer
links are null. The two operations that intrusive lists offer are `Links.pushBack` and
`Links.unlink`, written as the pointer updates they perform; they act on the described list as
`l ++ [x]` and as removal of `x`.

`Links.Loose` is what remains of `Rep` when the two ends may have been lost: every non-null
link of a member stays among the members and is answered by the opposite link. It is kept by
the same two operations, so that a list whose ends were reset can still be edited without
touching any cell outside of it.

`Family` is the intrusive form: many disjoint lists, indexed by a key, share the two link maps.
Editing one of them leaves all others as they are.
-/

universe u

namespace DoublyLinked

variable {α : Type u}

/-! ### Segments -/

/-- `l` is linked from the left neighbour `p` to the right neighbour `q`. -/
def Seg (next prev : α → α) : α → List α → α → Prop
  | _, [], _ => True
  | p, a :: l, q => prev a = p ∧ next a = l.headD q ∧ Seg next prev a l q

variable {next prev next' prev' : α → α} {p q a b x : α} {l l₁ l₂ : List α}

theorem headD_append (l₁ l₂ : List α) (q : α) :
    (l₁ ++ l₂).headD q = l₁.headD (l₂.headD q) := by
  cases l₁ <;> rfl

theorem getLastD_append (l₁ l₂ : List α) (p : α) :
    (l₁ ++ l₂).getLastD p = l₂.getLastD (l₁.getLastD p) := by
  cases l₂ with
  | nil => simp
  | cons b l => simp [List.getLastD_eq_getLast?, List.getLast?_append, List.getLast?_cons]

/-- A segment splits at any place. -/
theorem seg_append :
    Seg next prev p (l₁ ++ l₂) q ↔
      Seg next prev p l₁ (l₂.headD q) ∧ Seg next prev (l₁.getLastD p) l₂ q := by
  induction l₁ generalizing p with
  | nil => simp [Seg]
  | cons a l ih =>
    simp only [List.cons_append, Seg, headD_append, ih, List.getLastD_cons]
    tauto

/-- The links around an inner element. -/
theorem seg_middle :
    Seg next prev p (l₁ ++ a :: l₂) q ↔
      Seg next prev p l₁ a ∧ prev a = l₁.getLastD p ∧ next a = l₂.headD q ∧
        Seg next prev a l₂ q := by
  rw [seg_append]
  simp [Seg]

/-- Only the links of the members matter. -/
theorem Seg.congr (h : Seg next prev p l q) (hn : ∀ a ∈ l, next' a = next a)
    (hp : ∀ a ∈ l, prev' a = prev a) : Seg next' prev' p l q := by
  induction l generalizing p with
  | nil => trivial
  | cons a l ih =>
    obtain ⟨h1, h2, h3⟩ := h
    refine ⟨?_, ?_, ih h3 (fun b hb => hn b ?_) fun b hb => hp b ?_⟩
    · rw [hp a (by simp), h1]
    · rw [hn a (by simp), h2]
    · exact List.mem_cons_of_mem a hb
    · exact List.mem_cons_of_mem a hb

/-! ### Lists with two ends -/

variable [Zero α]

/-- Two link maps and two end ids. -/
@[ext]
structure Links (α : Type u) where
  next : α → α
  prev : α → α
  first : α
  last : α

namespace Links

variable {L L' : Links α}

/-- The links describe exactly the list `l`. -/
structure Rep (L : Links α) (l : List α) : Prop where
  first : L.first = l.headD 0
  last : L.last = l.getLastD 0
  seg : Seg L.next L.prev 0 l 0

/-- Every non-null link of a member leads to a member that links back; an end, when it is
not lost, is a member without a neighbour on that side. -/
structure Loose (L : Links α) (l : List α) : Prop where
  first : L.first = 0 ∨ L.first ∈ l ∧ L.prev L.first = 0
  last : L.last = 0 ∨ L.last ∈ l ∧ L.next L.last = 0
  next : ∀ a ∈ l, L.next a = 0 ∨ L.next a ∈ l ∧ L.prev (L.next a) = a
  prev : ∀ a ∈ l, L.prev a = 0 ∨ L.prev a ∈ l ∧ L.next (L.prev a) = a

/-- The links around a member. -/
theorem Rep.links (h : L.Rep (l₁ ++ a :: l₂)) :
    L.prev a = l₁.getLastD 0 ∧ L.next a = l₂.headD 0 := by
  obtain ⟨-, h2, h3, -⟩ := seg_middle.mp h.seg
  exact ⟨h2, h3⟩

theorem Rep.congr (h : L.Rep l) (hf : L'.first = L.first) (hl : L'.last = L.last)
    (hn : ∀ a ∈ l, L'.next a = L.next a) (hp : ∀ a ∈ l, L'.prev a = L.prev a) :
    L'.Rep l :=
  ⟨hf.trans h.first, hl.trans h.last, h.seg.congr hn hp⟩

theorem Loose.congr (h : L.Loose l) (hf : L'.first = L.first) (hl : L'.last = L.last)
    (hn : ∀ a ∈ l, L'.next a = L.next a) (hp : ∀ a ∈ l, L'.prev a = L.prev a) :
    L'.Loose l where
  first := by
    rcases h.first with h1 | ⟨h1, h2⟩
    · exact .inl (hf.trans h1)
    · exact .inr ⟨hf ▸ h1, by rw [hf, hp _ h1, h2]⟩
  last := by
    rcases h.last with h1 | ⟨h1, h2⟩
    · exact .inl (hl.trans h1)
    · exact .inr ⟨hl ▸ h1, by rw [hl, hn _ h1, h2]⟩
  next a ha := by
    rw [hn a ha]
    rcases h.next a ha with h1 | ⟨h1, h2⟩
    · exact .inl h1
    · exact .inr ⟨h1, by rw [hp _ h1, h2]⟩
  prev a ha := by
    rw [hp a ha]
    rcases h.prev a ha with h1 | ⟨h1, h2⟩
    · exact .inl h1
    · exact .inr ⟨h1, by rw [hn _ h1, h2]⟩

/-- Losing the ends keeps a list loose. -/
theorem Loose.reset (h : L.Loose l) : Loose { L with first := 0, last := 0 } l :=
  ⟨.inl rfl, .inl rfl, h.next, h.prev⟩

/-- An intact list is loose. -/
theorem Rep.loose (h : L.Rep l) : L.Loose l where
  first := by
    cases l with
    | nil => exact .inl h.first
    | cons a l =>
      have hf : L.first = a := h.first
      exact .inr ⟨by simp [hf], by rw [hf]; exact h.seg.1⟩
  last := by
    rcases List.eq_nil_or_concat l with rfl | ⟨l', a, rfl⟩
    · exact .inl h.last
    · rw [List.concat_eq_append] at h ⊢
      have hl : L.last = a := by rw [h.last]; simp
      exact .inr ⟨by simp [hl], by rw [hl]; exact h.links.2⟩
  next a ha := by
    obtain ⟨l₁, l₂, rfl⟩ := List.append_of_mem ha
    cases l₂ with
    | nil => exact .inl h.links.2
    | cons b l₂ =>
      have hn : L.next a = b := h.links.2
      refine .inr ⟨by simp [hn], ?_⟩
      have h' : L.Rep ((l₁ ++ [a]) ++ b :: l₂) := by simpa using h
      rw [hn, h'.links.1]
      simp
  prev a ha := by
    obtain ⟨l₁, l₂, rfl⟩ := List.append_of_mem ha
    rcases List.eq_nil_or_concat l₁ with rfl | ⟨l', b, rfl⟩
    · exact .inl h.links.1
    · rw [List.concat_eq_append] at h ⊢
      have hp : L.prev a = b := by rw [h.links.1]; simp
      refine .inr ⟨by simp [hp], ?_⟩
      have h' : L.Rep (l' ++ b :: (a :: l₂)) := by simpa using h
      rw [hp, h'.links.2]
      simp

/-! ### Appending at the end -/

variable [DecidableEq α]

/-- Append `x` at the end; `fresh` says that the list was empty. -/
def pushBack (L : Links α) (x : α) (fresh : Bool) : Links α where
  next := Function.update (if fresh then L.next else Function.update L.next L.last x) x 0
  prev := Function.update L.prev x (if fresh then 0 else L.last)
  first := if fresh then x else L.first
  last := x

theorem Rep.pushBack {fresh : Bool} (h : L.Rep l) (hfresh : fresh = true ↔ l = [])
    (hx : x ∉ l) (hnd : l.Nodup) : (L.pushBack x fresh).Rep (l ++ [x]) := by
  rcases List.eq_nil_or_concat l with rfl | ⟨l', b, rfl⟩
  · obtain rfl : fresh = true := hfresh.mpr rfl
    refine ⟨?_, ?_, ?_⟩ <;> simp [Links.pushBack, Seg]
  · rw [List.concat_eq_append] at *
    obtain rfl : fresh = false := by
      rw [← Bool.not_eq_true, hfresh]
      simp
    have hb : L.last = b := by rw [h.last]; simp
    have hxb : x ≠ b := by rintro rfl; simp at hx
    have hxl : x ∉ l' := fun hm => hx (by simp [hm])
    have hbl : b ∉ l' := by
      have := List.nodup_append.mp hnd
      exact fun hm => this.2.2 b hm b (by simp) rfl
    obtain ⟨h1, h2, -, -⟩ := seg_middle.mp h.seg
    refine ⟨?_, ?_, ?_⟩
    · rw [headD_append]
      simpa [Links.pushBack, headD_append] using h.first
    · simp [Links.pushBack]
    · have hseg : Seg (L.pushBack x false).next (L.pushBack x false).prev 0 (l' ++ b :: [x]) 0 := by
        refine seg_middle.mpr ⟨h1.congr (fun a ha => ?_) fun a ha => ?_, ?_, ?_, ?_, ?_, trivial⟩
        · have hax : a ≠ x := fun e => hxl (e ▸ ha)
          have hab : a ≠ b := fun e => hbl (e ▸ ha)
          simp [Links.pushBack, hb, hax, hab]
        · have hax : a ≠ x := fun e => hxl (e ▸ ha)
          simp [Links.pushBack, hax]
        · simpa [Links.pushBack, hxb.symm] using h2
        · simp [Links.pushBack, hb, hxb.symm]
        · simp [Links.pushBack, hb]
        · simp [Links.pushBack]
      simpa using hseg

theorem Loose.pushBack {fresh : Bool} (h : L.Loose l) (hfresh : fresh = true → l = [])
    (hx : x ∉ l) (h0 : (0 : α) ∉ l) : (L.pushBack x fresh).Loose (l ++ [x]) := by
  cases fresh with
  | true =>
    obtain rfl := hfresh rfl
    refine ⟨.inr ?_, .inr ?_, ?_, ?_⟩ <;> simp [Links.pushBack]
  | false =>
    have hne : ∀ a ∈ l, a ≠ x := fun a ha e => hx (e ▸ ha)
    refine ⟨?_, .inr ?_, fun a ha => ?_, fun a ha => ?_⟩
    · rcases h.first with h1 | ⟨h1, h2⟩
      · exact .inl h1
      · have := hne _ h1
        exact .inr ⟨by simp [Links.pushBack, h1], by simp [Links.pushBack, this, h2]⟩
    · simp [Links.pushBack]
    · rcases List.mem_append.mp ha with ha | ha
      · have hax := hne a ha
        by_cases hal : a = L.last
        · exact .inr ⟨by simp [Links.pushBack, hax, ← hal],
            by simp [Links.pushBack, hax, ← hal]⟩
        · have hn : (L.pushBack x false).next a = L.next a := by
            simp [Links.pushBack, hax, hal]
          rw [hn]
          rcases h.next a ha with h1 | ⟨h1, h2⟩
          · exact .inl h1
          · exact .inr ⟨by simp [h1], by simp [Links.pushBack, hne _ h1, h2]⟩
      · obtain rfl : a = x := by simpa using ha
        exact .inl (by simp [Links.pushBack])
    · rcases List.mem_append.mp ha with ha | ha
      · have hax := hne a ha
        have hp : (L.pushBack x false).prev a = L.prev a := by simp [Links.pushBack, hax]
        rw [hp]
        rcases h.prev a ha with h1 | ⟨h1, h2⟩
        · exact .inl h1
        · refine .inr ⟨by simp [h1], ?_⟩
          have hcl : L.prev a ≠ L.last := by
            intro e
            rcases h.last with hz | ⟨-, hz⟩
            · exact h0 (hz ▸ e ▸ h1)
            · rw [e, hz] at h2
              exact h0 (h2 ▸ ha)
          simp [Links.pushBack, hne _ h1, hcl, h2]
      · obtain rfl : a = x := by simpa using ha
        have hp : (L.pushBack a false).prev a = L.last := by simp [Links.pushBack]
        rw [hp]
        rcases h.last with h1 | ⟨h1, -⟩
        · exact .inl h1
        · exact .inr ⟨by simp [h1], by simp [Links.pushBack, hne _ h1]⟩

/-! ### Unlinking -/

/-- Take `x` out: its neighbours, or the ends where it has none, are linked past it. -/
def unlink (L : Links α) (x : α) : Links α where
  next := if L.prev x = 0 then L.next else Function.update L.next (L.prev x) (L.next x)
  prev := if L.next x = 0 then L.prev else Function.update L.prev (L.next x) (L.prev x)
  first := if L.prev x = 0 then L.next x else L.first
  last := if L.next x = 0 then L.prev x else L.last

theorem Rep.unlink (h : L.Rep (l₁ ++ x :: l₂)) (hnd : (l₁ ++ x :: l₂).Nodup)
    (h0 : (0 : α) ∉ l₁ ++ x :: l₂) : (L.unlink x).Rep (l₁ ++ l₂) := by
  obtain ⟨h1, hp, hn, h2⟩ := seg_middle.mp h.seg
  obtain ⟨hnd1, hnd2, hdisj⟩ := List.nodup_append.mp hnd
  have hpne : L.prev x = 0 ↔ l₁ = [] := by
    rcases List.eq_nil_or_concat l₁ with rfl | ⟨l, b, rfl⟩
    · simp [hp]
    · simp only [List.concat_eq_append, List.append_assoc] at h0 hp ⊢
      have hb : b ≠ 0 := by rintro rfl; simp at h0
      simp [hp, hb]
  have hnne : L.next x = 0 ↔ l₂ = [] := by
    cases l₂ with
    | nil => simp [hn]
    | cons b l =>
      have hb : b ≠ 0 := by rintro rfl; simp at h0
      simp [hn, hb]
  refine ⟨?_, ?_, seg_append.mpr ⟨?_, ?_⟩⟩
  · -- the first end
    by_cases hl : l₁ = []
    · subst hl
      simp [Links.unlink, hpne, hn]
    · have hf := h.first
      rw [headD_append] at hf ⊢
      simp only [Links.unlink, if_neg (mt hpne.mp hl), hf]
      cases l₁ with
      | nil => exact absurd rfl hl
      | cons c l => rfl
  · -- the last end
    by_cases hl : l₂ = []
    · subst hl
      simp [Links.unlink, hnne, hp]
    · have hf := h.last
      rw [getLastD_append] at hf ⊢
      simp only [Links.unlink, if_neg (mt hnne.mp hl), hf]
      cases l₂ with
      | nil => exact absurd rfl hl
      | cons c l => simp
  · -- the left part now ends at the right neighbour
    rcases List.eq_nil_or_concat l₁ with rfl | ⟨l, b, rfl⟩
    · trivial
    · simp only [List.concat_eq_append] at *
      have hb : L.prev x = b := by rw [hp]; simp
      have hb0 : b ≠ 0 := by rintro rfl; simp at h0
      have hmem : ∀ a ∈ l ++ [b], a ≠ L.next x := by
        intro a ha e
        cases l₂ with
        | nil => exact h0 (by rw [← show a = 0 by rw [e, hn]; rfl]; simp at ha ⊢; tauto)
        | cons c l₂ => exact hdisj a ha c (by simp) (by rw [e, hn]; rfl)
      have hbl : b ∉ l := fun hm => (List.nodup_append.mp hnd1).2.2 b hm b (by simp) rfl
      have hprev : ∀ a ∈ l ++ [b], (L.unlink x).prev a = L.prev a := by
        intro a ha
        by_cases hz : L.next x = 0
        · simp [Links.unlink, hz]
        · simp [Links.unlink, hz, hmem a ha]
      obtain ⟨g1, g2, -, -⟩ := seg_middle.mp h1
      refine seg_middle.mpr ⟨g1.congr (fun a ha => ?_) fun a ha => hprev a ?_, ?_, ?_, trivial⟩
      · have hab : a ≠ b := fun e => hbl (e ▸ ha)
        simp [Links.unlink, hb, hb0, hab]
      · exact List.mem_append_left _ ha
      · rw [hprev b (by simp), g2]
      · simpa [Links.unlink, hb, hb0] using hn
  · -- the right part now starts at the left neighbour
    cases l₂ with
    | nil => trivial
    | cons c l =>
      have hc : L.next x = c := hn
      have hc0 : c ≠ 0 := by rintro rfl; simp at h0
      obtain ⟨-, hnd3⟩ := List.nodup_cons.mp hnd2
      have hcl : c ∉ l := (List.nodup_cons.mp hnd3).1
      have hnext : ∀ a ∈ c :: l, (L.unlink x).next a = L.next a := by
        intro a ha
        by_cases hz : L.prev x = 0
        · simp [Links.unlink, hz]
        · have hpm : L.prev x ∈ l₁ := by
            rcases List.eq_nil_or_concat l₁ with rfl | ⟨l', b, rfl⟩
            · exact absurd hp hz
            · rw [hp]; simp
          have hne : a ≠ L.prev x := fun e =>
            hdisj _ hpm a (List.mem_cons_of_mem x ha) e.symm
          simp [Links.unlink, hz, hne]
      obtain ⟨g1, g2, g3⟩ := h2
      refine ⟨?_, ?_, g3.congr (fun a ha => hnext a (List.mem_cons_of_mem c ha)) fun a ha => ?_⟩
      · simpa [Links.unlink, hc, hc0] using hp
      · rw [hnext c (by simp), g2]
      · have hac : a ≠ c := fun e => hcl (e ▸ ha)
        simp [Links.unlink, hc, hc0, hac]

/-- Removal in terms of `List.erase`. -/
theorem Rep.unlink_erase (h : L.Rep l) (hx : x ∈ l) (hnd : l.Nodup)
    (h0 : (0 : α) ∉ l) : (L.unlink x).Rep (l.erase x) := by
  obtain ⟨l₁, l₂, rfl⟩ := List.append_of_mem hx
  have hx1 : x ∉ l₁ := fun hm =>
    (List.nodup_append.mp hnd).2.2 x hm x (by simp) rfl
  rw [List.erase_append_right _ hx1, List.erase_cons_head]
  exact h.unlink hnd h0

theorem Loose.unlink (h : L.Loose l) (hx : x ∈ l) (hnd : l.Nodup) (h0 : (0 : α) ∉ l) :
    (L.unlink x).Loose (l.erase x) := by
  have hz : ∀ a ∈ l, a ≠ 0 := fun a ha e => h0 (e ▸ ha)
  have hmem : ∀ a, a ∈ l.erase x ↔ a ≠ x ∧ a ∈ l := fun a => hnd.mem_erase_iff
  refine ⟨?_, ?_, fun a ha => ?_, fun a ha => ?_⟩
  · by_cases hp : L.prev x = 0
    · simp only [Links.unlink, if_pos hp]
      rcases h.next x hx with hn | ⟨hn, hpn⟩
      · exact .inl hn
      · have hnx : L.next x ≠ x := fun e => hz x hx (by rw [← hpn, e, hp])
        refine .inr ⟨(hmem _).mpr ⟨hnx, hn⟩, ?_⟩
        simp [hz _ hn, hp]
    · simp only [Links.unlink, if_neg hp]
      rcases h.first with hf | ⟨hf, hpf⟩
      · exact .inl hf
      · have hfx : L.first ≠ x := fun e => hp (e ▸ hpf)
        refine .inr ⟨(hmem _).mpr ⟨hfx, hf⟩, ?_⟩
        rcases h.next x hx with hn | ⟨hn, hpn⟩
        · simp [hn, hpf]
        · have hfn : L.first ≠ L.next x := fun e => hz x hx (by rw [← hpn, ← e, hpf])
          simp [hz _ hn, hfn, hpf]
  · by_cases hn : L.next x = 0
    · simp only [Links.unlink, if_pos hn]
      rcases h.prev x hx with hp | ⟨hp, hnp⟩
      · exact .inl hp
      · have hpx : L.prev x ≠ x := fun e => hz x hx (by rw [← hnp, e, hn])
        refine .inr ⟨(hmem _).mpr ⟨hpx, hp⟩, ?_⟩
        simp [hz _ hp, hn]
    · simp only [Links.unlink, if_neg hn]
      rcases h.last with hl | ⟨hl, hnl⟩
      · exact .inl hl
      · have hlx : L.last ≠ x := fun e => hn (e ▸ hnl)
        refine .inr ⟨(hmem _).mpr ⟨hlx, hl⟩, ?_⟩
        rcases h.prev x hx with hp | ⟨hp, hnp⟩
        · simp [hp, hnl]
        · have hlp : L.last ≠ L.prev x := fun e => hz x hx (by rw [← hnp, ← e, hnl])
          simp [hz _ hp, hlp, hnl]
  · obtain ⟨hax, hal⟩ := (hmem a).mp ha
    have ha0 := hz a hal
    by_cases hap : a = L.prev x
    · -- the left neighbour of `x` now leads to the right one
      have hp0 : L.prev x ≠ 0 := hap ▸ ha0
      have hnext : (L.unlink x).next a = L.next x := by
        simp [Links.unlink, hp0, hap]
      rw [hnext]
      rcases h.next x hx with hn | ⟨hn, hpn⟩
      · exact .inl hn
      · have hnx : L.next x ≠ x := by
          intro e
          rw [e] at hpn
          exact hax (hap.trans hpn)
        exact .inr ⟨(hmem _).mpr ⟨hnx, hn⟩, by simp [Links.unlink, hz _ hn, hap]⟩
    · have hnext : (L.unlink x).next a = L.next a := by
        by_cases hp : L.prev x = 0
        · simp [Links.unlink, hp]
        · simp [Links.unlink, hp, hap]
      rw [hnext]
      rcases h.next a hal with hn | ⟨hn, hpn⟩
      · exact .inl hn
      · have hbx : L.next a ≠ x := fun e => hap (by rw [← e, hpn])
        refine .inr ⟨(hmem _).mpr ⟨hbx, hn⟩, ?_⟩
        rcases h.next x hx with hxn | ⟨-, hxp⟩
        · simp [Links.unlink, hxn, hpn]
        · have hne : L.next a ≠ L.next x := fun e => hax (by rw [← hpn, e, hxp])
          by_cases hx0 : L.next x = 0
          · simp [Links.unlink, hx0, hpn]
          · simp [Links.unlink, hx0, hne, hpn]
  · obtain ⟨hax, hal⟩ := (hmem a).mp ha
    have ha0 := hz a hal
    by_cases han : a = L.next x
    · -- the right neighbour of `x` now leads back to the left one
      have hn0 : L.next x ≠ 0 := han ▸ ha0
      have hprev : (L.unlink x).prev a = L.prev x := by
        simp [Links.unlink, hn0, han]
      rw [hprev]
      rcases h.prev x hx with hp | ⟨hp, hnp⟩
      · exact .inl hp
      · have hpx : L.prev x ≠ x := by
          intro e
          rw [e] at hnp
          exact hax (han.trans hnp)
        exact .inr ⟨(hmem _).mpr ⟨hpx, hp⟩, by simp [Links.unlink, hz _ hp, han]⟩
    · have hprev : (L.unlink x).prev a = L.prev a := by
        by_cases hn : L.next x = 0
        · simp [Links.unlink, hn]
        · simp [Links.unlink, hn, han]
      rw [hprev]
      rcases h.prev a hal with hp | ⟨hp, hnp⟩
      · exact .inl hp
      · have hbx : L.prev a ≠ x := fun e => han (by rw [← e, hnp])
        refine .inr ⟨(hmem _).mpr ⟨hbx, hp⟩, ?_⟩
        rcases h.prev x hx with hxp | ⟨-, hxn⟩
        · simp [Links.unlink, hxp, hnp]
        · have hne : L.prev a ≠ L.prev x := fun e => hax (by rw [← hnp, e, hxn])
          by_cases hx0 : L.prev x = 0
          · simp [Links.unlink, hx0, hnp]
          · simp [Links.unlink, hx0, hne, hnp]

end Links

/-! ### Families of disjoint lists -/

/-- Lists indexed by `κ` that share two link maps, each with its own two ends. -/
@[ext]
structure Family (κ α : Type u) where
  next : α → α
  prev : α → α
  first : κ → α
  last : κ → α

namespace Family

variable {κ : Type u} {F F' : Family κ α} {intact intact' : κ → Prop} {lists : κ → List α}
  {k k' : κ}

/-- One list of the family. -/
@[simps]
def list (F : Family κ α) (k : κ) : Links α := ⟨F.next, F.prev, F.first k, F.last k⟩

/-- The family describes the disjoint lists `lists`, exactly where `intact` holds and loosely
elsewhere. -/
structure Rep (intact : κ → Prop) (F : Family κ α) (lists : κ → List α) : Prop where
  nodup : ∀ k, (lists k).Nodup
  null : ∀ k, (0 : α) ∉ lists k
  disjoint : ∀ k k' a, a ∈ lists k → a ∈ lists k' → k = k'
  rep : ∀ k, intact k → (F.list k).Rep (lists k)
  loose : ∀ k, (F.list k).Loose (lists k)

/-- The left neighbour of a member is null or a member of the same list. -/
theorem Rep.prev_mem (h : Rep intact F lists) (hx : x ∈ lists k) :
    F.prev x = 0 ∨ F.prev x ∈ lists k :=
  ((h.loose k).prev x hx).imp_right And.left

/-- The right neighbour of a member is null or a member of the same list. -/
theorem Rep.next_mem (h : Rep intact F lists) (hx : x ∈ lists k) :
    F.next x = 0 ∨ F.next x ∈ lists k :=
  ((h.loose k).next x hx).imp_right And.left

/-- The last end is null or a member. -/
theorem Rep.last_mem (h : Rep intact F lists) (k : κ) : F.last k = 0 ∨ F.last k ∈ lists k :=
  (h.loose k).last.imp_right And.left

/-- The first end is null or a member. -/
theorem Rep.first_mem (h : Rep intact F lists) (k : κ) :
    F.first k = 0 ∨ F.first k ∈ lists k :=
  (h.loose k).first.imp_right And.left

theorem Rep.mono (h : Rep intact F lists) (hi : ∀ k, intact' k → intact k) :
    Rep intact' F lists :=
  ⟨h.nodup, h.null, h.disjoint, fun k hk => h.rep k (hi k hk), h.loose⟩

/-- Only the links of the members and the ends matter. -/
theorem Rep.congr (h : Rep intact F lists) (hf : ∀ k, F'.first k = F.first k)
    (hl : ∀ k, F'.last k = F.last k) (hn : ∀ k, ∀ a ∈ lists k, F'.next a = F.next a)
    (hp : ∀ k, ∀ a ∈ lists k, F'.prev a = F.prev a) : Rep intact F' lists :=
  ⟨h.nodup, h.null, h.disjoint,
    fun k hk => (h.rep k hk).congr (hf k) (hl k) (hn k) (hp k),
    fun k => (h.loose k).congr (hf k) (hl k) (hn k) (hp k)⟩

variable [DecidableEq κ]

/-- Losing the ends of the list `k`. -/
def reset (F : Family κ α) (k : κ) : Family κ α where
  next := F.next
  prev := F.prev
  first := Function.update F.first k 0
  last := Function.update F.last k 0

theorem Rep.reset (h : Rep intact F lists) :
    Rep (fun k' => intact k' ∧ k' ≠ k) (F.reset k) lists where
  nodup := h.nodup
  null := h.null
  disjoint := h.disjoint
  rep k' hk' := (h.rep k' hk'.1).congr (by simp [Family.reset, hk'.2])
    (by simp [Family.reset, hk'.2]) (fun _ _ => rfl) fun _ _ => rfl
  loose k' := by
    by_cases hk : k' = k
    · subst hk
      exact (h.loose k').reset.congr (by simp [Family.reset]) (by simp [Family.reset])
        (fun _ _ => rfl) fun _ _ => rfl
    · exact (h.loose k').congr (by simp [Family.reset, hk]) (by simp [Family.reset, hk])
        (fun _ _ => rfl) fun _ _ => rfl

/-- An empty list has no ends to lose. -/
theorem Rep.reset_of_nil (h : Rep intact F lists) (hk : intact k → lists k = []) :
    Rep intact (F.reset k) lists :=
  { h.reset (k := k) with
    rep := fun k' hi => by
      by_cases hk' : k' = k
      · subst hk'
        rw [hk hi]
        exact ⟨by simp [Family.reset, list], by simp [Family.reset, list], trivial⟩
      · exact (h.reset (k := k)).rep k' ⟨hi, hk'⟩ }

variable [DecidableEq α]

/-- Append `x` at the end of the list `k`. -/
def pushBack (F : Family κ α) (k : κ) (x : α) (fresh : Bool) : Family κ α where
  next := ((F.list k).pushBack x fresh).next
  prev := ((F.list k).pushBack x fresh).prev
  first := Function.update F.first k ((F.list k).pushBack x fresh).first
  last := Function.update F.last k ((F.list k).pushBack x fresh).last

/-- Take `x` out of the list `k`. -/
def unlink (F : Family κ α) (k : κ) (x : α) : Family κ α where
  next := ((F.list k).unlink x).next
  prev := ((F.list k).unlink x).prev
  first := Function.update F.first k ((F.list k).unlink x).first
  last := Function.update F.last k ((F.list k).unlink x).last

omit [Zero α] [DecidableEq α] in
/-- The members after an append. -/
theorem mem_pushBack {a : α} :
    a ∈ Function.update lists k (lists k ++ [x]) k' ↔ a ∈ lists k' ∨ a = x ∧ k' = k := by
  rcases eq_or_ne k' k with rfl | hne
  · simp
  · simp [hne]

/-- The members after a removal. -/
theorem Rep.mem_erase (h : Rep intact F lists) (hx : x ∈ lists k) {a : α} :
    a ∈ Function.update lists k ((lists k).erase x) k' ↔ a ≠ x ∧ a ∈ lists k' := by
  rcases eq_or_ne k' k with rfl | hne
  · rw [Function.update_self, (h.nodup k').mem_erase_iff]
  · rw [Function.update_of_ne hne]
    exact ⟨fun ha => ⟨fun e => hne (h.disjoint k' k x (e ▸ ha) hx), ha⟩, And.right⟩

theorem Rep.pushBack {fresh : Bool} (h : Rep intact F lists)
    (hfresh : fresh = true ↔ lists k = []) (hx : ∀ k', x ∉ lists k') (hx0 : x ≠ 0) :
    Rep intact (F.pushBack k x fresh) (Function.update lists k (lists k ++ [x])) := by
  have hother : ∀ k', k' ≠ k → ∀ a ∈ lists k',
      (F.pushBack k x fresh).next a = F.next a ∧ (F.pushBack k x fresh).prev a = F.prev a := by
    intro k' hk' a ha
    have hax : a ≠ x := fun e => hx k' (e ▸ ha)
    have hal : a ≠ F.last k := by
      intro e
      rcases h.last_mem k with h0 | hm
      · exact h.null k' (h0 ▸ e ▸ ha)
      · exact hk' (h.disjoint k' k a ha (e ▸ hm))
    cases fresh <;> simp [Family.pushBack, Links.pushBack, hax, hal]
  have hback : (F.pushBack k x fresh).list k = (F.list k).pushBack x fresh := by
    simp [Family.pushBack, Family.list]
  refine ⟨fun k' => ?_, fun k' => ?_, fun k₁ k₂ a h₁ h₂ => ?_, fun k' hk => ?_, fun k' => ?_⟩
  · by_cases hk : k' = k
    · subst hk
      rw [Function.update_self]
      exact List.nodup_append.mpr ⟨h.nodup k', List.nodup_singleton x, fun a ha b hb e =>
        hx k' (by rw [← List.mem_singleton.mp hb, ← e]; exact ha)⟩
    · simpa [hk] using h.nodup k'
  · by_cases hk : k' = k
    · subst hk
      simpa [h.null k'] using hx0.symm
    · simpa [hk] using h.null k'
  · rcases eq_or_ne k₁ k with rfl | hk₁ <;> rcases eq_or_ne k₂ k₁ with rfl | hk₂
    · rfl
    · rw [Function.update_self, List.mem_append, List.mem_singleton] at h₁
      rw [Function.update_of_ne hk₂] at h₂
      rcases h₁ with h₁ | rfl
      · exact h.disjoint _ _ a h₁ h₂
      · exact absurd h₂ (hx _)
    · rfl
    · rw [Function.update_of_ne hk₁] at h₁
      rcases eq_or_ne k₂ k with rfl | hk
      · rw [Function.update_self, List.mem_append, List.mem_singleton] at h₂
        rcases h₂ with h₂ | rfl
        · exact h.disjoint _ _ a h₁ h₂
        · exact absurd h₁ (hx _)
      · rw [Function.update_of_ne hk] at h₂
        exact h.disjoint _ _ a h₁ h₂
  · rcases eq_or_ne k' k with rfl | hne
    · rw [hback, Function.update_self]
      exact (h.rep k' hk).pushBack hfresh (hx k') (h.nodup k')
    · rw [Function.update_of_ne hne]
      exact (h.rep k' hk).congr (by simp [Family.pushBack, hne]) (by simp [Family.pushBack, hne])
        (fun a ha => (hother k' hne a ha).1) fun a ha => (hother k' hne a ha).2
  · rcases eq_or_ne k' k with rfl | hne
    · rw [hback, Function.update_self]
      exact (h.loose k').pushBack hfresh.mp (hx k') (h.null k')
    · rw [Function.update_of_ne hne]
      exact (h.loose k').congr (by simp [Family.pushBack, hne])
        (by simp [Family.pushBack, hne]) (fun a ha => (hother k' hne a ha).1)
        fun a ha => (hother k' hne a ha).2

theorem Rep.unlink (h : Rep intact F lists) (hx : x ∈ lists k) :
    Rep intact (F.unlink k x) (Function.update lists k ((lists k).erase x)) := by
  have hother : ∀ k', k' ≠ k → ∀ a ∈ lists k',
      (F.unlink k x).next a = F.next a ∧ (F.unlink k x).prev a = F.prev a := by
    intro k' hk' a ha
    have hne : ∀ b, b = 0 ∨ b ∈ lists k → a ≠ b := by
      rintro b (rfl | hb) rfl
      · exact h.null k' ha
      · exact hk' (h.disjoint k' k a ha hb)
    have hap := hne _ (h.prev_mem hx)
    have han := hne _ (h.next_mem hx)
    constructor
    · by_cases hp : F.prev x = 0 <;> simp [Family.unlink, Links.unlink, hp, hap]
    · by_cases hn : F.next x = 0 <;> simp [Family.unlink, Links.unlink, hn, han]
  have hback : (F.unlink k x).list k = (F.list k).unlink x := by
    simp [Family.unlink, Family.list]
  have hsub : ∀ k' a, a ∈ Function.update lists k ((lists k).erase x) k' → a ∈ lists k' := by
    intro k' a ha
    rcases eq_or_ne k' k with rfl | hne
    · rw [Function.update_self] at ha
      exact List.mem_of_mem_erase ha
    · rwa [Function.update_of_ne hne] at ha
  refine ⟨fun k' => ?_, fun k' h0 => h.null k' (hsub k' 0 h0),
    fun k₁ k₂ a h₁ h₂ => h.disjoint k₁ k₂ a (hsub k₁ a h₁) (hsub k₂ a h₂), fun k' hk => ?_,
    fun k' => ?_⟩
  · rcases eq_or_ne k' k with rfl | hne
    · rw [Function.update_self]
      exact (h.nodup k').erase x
    · simpa [hne] using h.nodup k'
  · rcases eq_or_ne k' k with rfl | hne
    · rw [hback, Function.update_self]
      exact (h.rep k' hk).unlink_erase hx (h.nodup k') (h.null k')
    · rw [Function.update_of_ne hne]
      exact (h.rep k' hk).congr (by simp [Family.unlink, hne]) (by simp [Family.unlink, hne])
        (fun a ha => (hother k' hne a ha).1) fun a ha => (hother k' hne a ha).2
  · rcases eq_or_ne k' k with rfl | hne
    · rw [hback, Function.update_self]
      exact (h.loose k').unlink hx (h.nodup k') (h.null k')
    · rw [Function.update_of_ne hne]
      exact (h.loose k').congr (by simp [Family.unlink, hne]) (by simp [Family.unlink, hne])
        (fun a ha => (hother k' hne a ha).1) fun a ha => (hother k' hne a ha).2

end Family

end DoublyLinked
