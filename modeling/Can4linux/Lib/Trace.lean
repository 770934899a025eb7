/-
  Can4linux.Lib.Trace

  Traces of a labelled transition relation, and the rule of forward simulation.
  A system is compared with a simpler one that says what it is for: each step of
  the system lets out some events, and the simpler one takes the same events, in
  that order.  What holds of every trace of the simpler one then holds of what a
  run of the system lets out.
-/

import Can4linux.Lib.Run

namespace Run

variable {α : Type*} {ε : Type*}

/-- `R` takes the events `es` one after the other, from `a` to `b`. -/
inductive Trace (R : α → ε → α → Prop) : α → List ε → α → Prop
  | nil {a} : Trace R a [] a
  | cons {a b c e es} : R a e b → Trace R b es c → Trace R a (e :: es) c

namespace Trace

variable {R : α → ε → α → Prop} {a b c : α} {e : ε} {es fs : List ε}

theorem single (h : R a e b) : Trace R a [e] b := .cons h .nil

/-- Traces compose. -/
theorem append (h₁ : Trace R a es b) (h₂ : Trace R b fs c) : Trace R a (es ++ fs) c := by
  induction h₁ with
  | nil => exact h₂
  | cons hstep _ ih => exact .cons hstep (ih h₂)

/-- A trace has a state between any two of its events. -/
theorem split (h : Trace R a (es ++ fs) c) : ∃ b, Trace R a es b ∧ Trace R b fs c := by
  induction es generalizing a with
  | nil => exact ⟨a, .nil, h⟩
  | cons e es ih =>
      cases h with
      | cons hstep hrest =>
          obtain ⟨b, hes, hfs⟩ := ih hrest
          exact ⟨b, .cons hstep hes, hfs⟩

/-- What every event preserves, a trace preserves. -/
theorem invariant {P : α → Prop} (hstep : ∀ a e b, P a → R a e b → P b) (ha : P a)
    (h : Trace R a es b) : P b := by
  induction h with
  | nil => exact ha
  | cons hone _ ih => exact ih (hstep _ _ _ ha hone)

end Trace

/-- **Forward simulation.**  Where every step of a system is matched by a trace of the
    abstract one over the events that it lets out, so is every run. -/
theorem exec_simulates {σ : Type*} {ℓ : Type*} {step : σ → ℓ → Option σ} {out : σ → ℓ → List ε}
    {R : α → ε → α → Prop} {S : σ → α → Prop}
    (hstep : ∀ s l s' a, S s a → step s l = some s' → ∃ b, Trace R a (out s l) b ∧ S s' b)
    {s s' : σ} {ls : List ℓ} {a : α} (hs : S s a) (hrun : exec step s ls = some s') :
    ∃ b, Trace R a (observe step out s ls) b ∧ S s' b := by
  refine exec_observe (P := fun es s => ∃ b, Trace R a es b ∧ S s b) ?_ ⟨a, .nil, hs⟩ hrun
  rintro es s l s' ⟨b, htrace, hb⟩ hl
  obtain ⟨c, hmore, hc⟩ := hstep s l s' b hb hl
  exact ⟨c, htrace.append hmore, hc⟩

end Run
