/-
  Can4linux.Lib.Handout

  A store of numbered slots that are handed out in order, on the first request of
  each client, and never given back.  `Handout slot n` says that the clients'
  slots are exactly the first `n`, each with one owner.  As long as there are as
  many slots as clients, none goes away empty-handed (`Handout.room`).
-/

import Mathlib.Data.Fintype.Card

/-- The slots below `n` have been handed out, each to one client. -/
structure Handout {ι : Type*} (slot : ι → Option Nat) (n : Nat) : Prop where
  owned : ∀ k, k < n → ∃ i, slot i = some k
  below : ∀ i k, slot i = some k → k < n
  inj : ∀ i j k, slot i = some k → slot j = some k → i = j

namespace Handout

variable {ι : Type*} {slot : ι → Option Nat} {n : Nat}

/-- At first nobody has a slot. -/
theorem empty : Handout (fun _ : ι => none) 0 where
  owned k hk := absurd hk (Nat.not_lt_zero k)
  below _ _ h := by cases h
  inj _ _ _ h := by cases h

/-- A client without a slot takes the next one. -/
theorem take [DecidableEq ι] (h : Handout slot n) {i : ι} (hi : slot i = none) :
    Handout (Function.update slot i (some n)) (n + 1) := by
  have hself : Function.update slot i (some n) i = some n := Function.update_self ..
  have hother : ∀ j, j ≠ i → Function.update slot i (some n) j = slot j :=
    fun j hj => Function.update_of_ne hj ..
  refine ⟨?_, ?_, ?_⟩
  · intro k hk
    rcases Nat.lt_succ_iff_lt_or_eq.mp hk with hlt | rfl
    · obtain ⟨j, hj⟩ := h.owned k hlt
      have hne : j ≠ i := by
        rintro rfl
        rw [hi] at hj
        cases hj
      exact ⟨j, (hother j hne).trans hj⟩
    · exact ⟨i, hself⟩
  · intro j k hk
    by_cases hj : j = i
    · rw [hj, hself, Option.some.injEq] at hk
      omega
    · rw [hother j hj] at hk
      exact Nat.lt_succ_of_lt (h.below j k hk)
  · intro j l k hj hl
    -- the new slot is above all others
    by_cases hji : j = i
    · rw [hji, hself, Option.some.injEq] at hj
      by_cases hli : l = i
      · rw [hji, hli]
      · rw [hother l hli] at hl
        exact absurd (h.below l k hl) (by omega)
    · rw [hother j hji] at hj
      by_cases hli : l = i
      · rw [hli, hself, Option.some.injEq] at hl
        exact absurd (h.below j k hj) (by omega)
      · rw [hother l hli] at hl
        exact h.inj j l k hj hl

/-- Where a client has no slot yet, fewer slots are out than there are clients. -/
theorem room [Fintype ι] (h : Handout slot n) {i : ι} (hi : slot i = none) :
    n < Fintype.card ι := by
  choose owner howner using fun k : Fin n => h.owned k k.isLt
  have hinj : Function.Injective owner := by
    intro k l hkl
    have hk := howner k
    rw [hkl, howner l, Option.some.injEq] at hk
    exact Fin.ext hk.symm
  have hout : i ∉ Set.range owner := by
    rintro ⟨k, rfl⟩
    rw [howner k] at hi
    cases hi
  calc n = Fintype.card (Fin n) := (Fintype.card_fin n).symm
    _ < Fintype.card ι := Fintype.card_lt_of_injective_of_notMem owner hinj hout

end Handout
