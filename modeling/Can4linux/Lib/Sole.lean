/-
  Can4linux.Lib.Sole

  Mutual exclusion seen from outside.  The parties are the indices of a type,
  `place i` is where party `i` stands, and `out` is the place outside.  `Sole`
  says that at most one party is not outside, and where it stands: whatever is
  known about a single party then holds of the family.
-/

import Mathlib.Logic.Function.Basic

variable {ι α : Type*}

/-- At most one party is not at `out`; `a` is where that one stands, `out` if there is none. -/
structure Sole (out : α) (place : ι → α) (a : α) : Prop where
  alone : ∀ i j, place i ≠ out → place j ≠ out → i = j
  stands : ∀ i, place i ≠ out → place i = a
  nobody : (∀ i, place i = out) → a = out

namespace Sole

variable {out a : α} {place : ι → α}

/-- All parties outside. -/
theorem start : Sole out (fun _ : ι => out) out :=
  ⟨fun _ _ hi => absurd rfl hi, fun _ hi => absurd rfl hi, fun _ => rfl⟩

/-- A party that is not outside is the one that is known. -/
theorem eq_of_place (h : Sole out place a) {i : ι} {b : α} (hi : place i = b) (hb : b ≠ out) :
    a = b := by
  have hne : place i ≠ out := by
    rw [hi]
    exact hb
  exact (h.stands i hne).symm.trans hi

/-- What is known of a place other than `out` is known of a party. -/
theorem exists_of_ne (h : Sole out place a) (ha : a ≠ out) : ∃ i, place i = a := by
  by_contra hnot
  refine ha (h.nobody fun i => ?_)
  by_contra hi
  exact hnot ⟨i, h.stands i hi⟩

variable [DecidableEq ι]

/-- The one party moves, or a party enters when nobody is inside. -/
theorem update (h : Sole out place a) {i : ι} (hi : place i ≠ out ∨ a = out) (b : α) :
    Sole out (Function.update place i b) b := by
  -- everybody but `i` is outside
  have hothers : ∀ j, j ≠ i → place j = out := by
    intro j hj
    by_contra hne
    rcases hi with hi | rfl
    · exact hj (h.alone j i hne hi)
    · exact hne (h.stands j hne)
  have honly : ∀ j, Function.update place i b j ≠ out → j = i := by
    intro j hj
    by_contra hne
    rw [Function.update_of_ne hne] at hj
    exact hj (hothers j hne)
  refine ⟨?_, ?_, ?_⟩
  · intro j k hj hk
    rw [honly j hj, honly k hk]
  · intro j hj
    rw [honly j hj, Function.update_self]
  · intro hall
    have hself := hall i
    rwa [Function.update_self] at hself

/-- A party that stays where it is changes nothing. -/
theorem update_same (h : Sole out place a) {i : ι} {b : α} (hi : place i = b) :
    Sole out (Function.update place i b) a := by
  subst hi
  rw [Function.update_eq_self]
  exact h

/-- A party goes to `b`: it stays there, it is the one inside, or nobody is inside. -/
theorem move (h : Sole out place a) {i : ι} {a' b : α}
    (hi : place i = b ∧ a' = a ∨ (place i ≠ out ∨ a = out) ∧ a' = b) :
    Sole out (Function.update place i b) a' := by
  rcases hi with ⟨hsame, rfl⟩ | ⟨hmay, rfl⟩
  · exact h.update_same hsame
  · exact h.update hmay _

end Sole
