import Mathlib.Tactic

/-!
# Numberings

A registry gives its keys the numbers `1, 2, 3, …` in the order in which it meets them, and keeps
the last number given out. The number 0 stands for a key it has not met. `Numbering` is the
invariant of such a registry: the numbers given out are those up to the last one, each to one key.
`Extends` says how two states of one registry compare: keys keep their numbers, and a new key has a
number that was not yet given out.

`Numbering.register` and `Extends.register` are the two facts about the one operation there is.
-/

namespace Ids

variable {κ : Type*} {number number' number'' : κ → ℕ} {last last' last'' : ℕ} {key : κ}

/-- The numbers `1..=last` are given out, each to one key. -/
structure Numbering (number : κ → ℕ) (last : ℕ) : Prop where
  le_last : ∀ key, number key ≤ last
  injective : ∀ a b, number a ≠ 0 → number a = number b → a = b
  surjective : ∀ n, n ≠ 0 → n ≤ last → ∃ key, number key = n

namespace Numbering

/-- A registry that has not met any key. -/
theorem empty : Numbering (fun _ : κ => 0) 0 :=
  ⟨fun _ => le_rfl, fun _ _ h => absurd rfl h, fun _ h h' => absurd (Nat.le_zero.mp h') h⟩

/-- **A numbering is a bijection** between the keys met and the numbers given out. -/
theorem bijOn (h : Numbering number last) :
    Set.BijOn number {key | number key ≠ 0} (Set.Icc 1 last) := by
  refine ⟨fun key hkey => ?_, fun a ha b _ heq => h.injective a b ha heq, fun n hn => ?_⟩
  · exact ⟨Nat.one_le_iff_ne_zero.mpr hkey, h.le_last key⟩
  · obtain ⟨key, hkey⟩ := h.surjective n (Nat.one_le_iff_ne_zero.mp hn.1) hn.2
    exact ⟨key, fun h0 => Nat.one_le_iff_ne_zero.mp hn.1 (hkey.symm.trans h0), hkey⟩

/-- **The next key gets the next number.** -/
theorem register [DecidableEq κ] (h : Numbering number last) (hkey : number key = 0) :
    Numbering (Function.update number key (last + 1)) (last + 1) := by
  refine ⟨fun a => ?_, fun a b ha heq => ?_, fun n hn hle => ?_⟩
  · have := h.le_last a
    rw [Function.update_apply]
    split_ifs <;> omega
  · have hb := h.le_last b
    have ha' := h.le_last a
    simp only [Function.update_apply] at ha heq
    split_ifs at ha heq with hak hbk hbk
    · rw [hak, hbk]
    · omega
    · omega
    · exact h.injective a b ha heq
  · rcases eq_or_ne n (last + 1) with rfl | hlast
    · exact ⟨key, Function.update_self _ _ _⟩
    · obtain ⟨a, ha⟩ := h.surjective n hn (by omega)
      have hne : a ≠ key := by
        rintro rfl
        exact hn (ha.symm.trans hkey)
      exact ⟨a, (Function.update_of_ne hne _ _).trans ha⟩

end Numbering

/-- A later state of a registry: no key changes its number, and the numbers of new keys are beyond
those that were given out before. -/
structure Extends (number : κ → ℕ) (last : ℕ) (number' : κ → ℕ) (last' : ℕ) : Prop where
  last_le : last ≤ last'
  kept : ∀ key, number key ≠ 0 → number' key = number key
  fresh : ∀ key, number key = 0 → number' key ≠ 0 → last < number' key

namespace Extends

theorem refl (number : κ → ℕ) (last : ℕ) : Extends number last number last :=
  ⟨le_rfl, fun _ _ => rfl, fun _ h h' => absurd h h'⟩

theorem trans (h : Extends number last number' last') (h' : Extends number' last' number'' last'') :
    Extends number last number'' last'' := by
  refine ⟨h.last_le.trans h'.last_le, fun key hkey => ?_, fun key hkey hkey'' => ?_⟩
  · have hkept := h.kept key hkey
    rw [h'.kept key (hkept ▸ hkey), hkept]
  · rcases eq_or_ne (number' key) 0 with h0 | hne
    · exact h.last_le.trans_lt (h'.fresh key h0 hkey'')
    · rw [h'.kept key hne]
      exact h.fresh key hkey hne

/-- Registering a key extends a registry. -/
theorem register [DecidableEq κ] (hkey : number key = 0) :
    Extends number last (Function.update number key (last + 1)) (last + 1) := by
  refine ⟨Nat.le_succ _, fun a ha => Function.update_of_ne ?_ _ _, fun a ha ha' => ?_⟩
  · rintro rfl
    exact ha hkey
  · rcases eq_or_ne a key with rfl | hne
    · rw [Function.update_self]
      exact Nat.lt_succ_self _
    · rw [Function.update_of_ne hne] at ha'
      exact absurd ha ha'

end Extends

end Ids
