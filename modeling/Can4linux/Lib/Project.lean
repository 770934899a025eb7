/-
  Can4linux.Lib.Project

  What one party of a system sees of a run.  Some labels are the party's own
  (`p`), and `out` is what a step shows the party.  If the steps of the others do
  not change what the party sees, and its own steps go the same way wherever it
  sees the same (`Unwinding`), then every run looks to the party like the run of
  its own labels alone.
-/

import Can4linux.Lib.Run

namespace Run

variable {σ ℓ β : Type*}

/-- The unwinding conditions, in the states that satisfy the invariant `I`; `R` relates two
    states in which the party sees the same. -/
structure Unwinding (step : σ → ℓ → Option σ) (out : σ → ℓ → List β) (I : σ → Prop)
    (p : ℓ → Bool) (R : σ → σ → Prop) : Prop where
  inv : ∀ s l s', I s → step s l = some s' → I s'
  other : ∀ s u l s', I s → R s u → p l = false → step s l = some s' → R s' u ∧ out s l = []
  own : ∀ s u l s', I s → I u → R s u → p l = true → step s l = some s' →
    ∃ u', step u l = some u' ∧ R s' u' ∧ out s l = out u l

/-- Two states that the party cannot tell apart: a run from the one looks like the run of
    the party's own labels from the other. -/
theorem Unwinding.exec_filter {step : σ → ℓ → Option σ} {out : σ → ℓ → List β} {I : σ → Prop}
    {p : ℓ → Bool} {R : σ → σ → Prop} (h : Unwinding step out I p R) {s u s' : σ} {ls : List ℓ}
    (hs : I s) (hu : I u) (hR : R s u) (hrun : exec step s ls = some s') :
    ∃ u', exec step u (ls.filter p) = some u' ∧ R s' u' ∧
      observe step out s ls = observe step out u (ls.filter p) := by
  induction ls generalizing s u with
  | nil =>
      rw [exec_nil, Option.some.injEq] at hrun
      exact ⟨u, rfl, hrun ▸ hR, rfl⟩
  | cons l ls ih =>
      rw [exec_cons, Option.bind_eq_some_iff] at hrun
      obtain ⟨mid, hmid, hrest⟩ := hrun
      have hImid := h.inv s l mid hs hmid
      cases hp : p l with
      | false =>
          -- the party sees nothing of the step
          obtain ⟨hRmid, hout⟩ := h.other s u l mid hs hR hp hmid
          obtain ⟨u', hrun', hR', hobs⟩ := ih hImid hu hRmid hrest
          rw [List.filter_cons_of_neg (by simp [hp])]
          refine ⟨u', hrun', hR', ?_⟩
          rw [observe, hmid, hout]
          exact hobs
      | true =>
          obtain ⟨v, hv, hRv, hout⟩ := h.own s u l mid hs hu hR hp hmid
          obtain ⟨u', hrun', hR', hobs⟩ := ih hImid (h.inv u l v hu hv) hRv hrest
          rw [List.filter_cons_of_pos hp]
          refine ⟨u', (exec_of_step hv).trans hrun', hR', ?_⟩
          rw [observe, hmid, observe, hv, hout]
          exact congrArg (out u l ++ ·) hobs

end Run
