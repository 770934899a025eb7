/-
  Can4linux.Lib.Run

  Finite runs of a partial step function.  A system is a state type, a label
  type and an executable `step : σ → ℓ → Option σ`; `none` says that the label
  is not enabled in that state, so the nondeterminism of the environment and
  of the scheduler lives in the list of labels only.

  The two rules every safety proof goes through are `exec_invariant` (what one
  step preserves, a whole run preserves) and its form for `restrict`, the
  system in which a label is enabled only where a guard holds.
-/

import Mathlib.Algebra.GroupWithZero.Nat
import Mathlib.Data.List.Forall2
import Mathlib.Data.Option.Basic

namespace Run

variable {σ : Type*} {ℓ : Type*}

/-- The state after the labels `ls`, performed in order from `s`. -/
def exec (step : σ → ℓ → Option σ) : σ → List ℓ → Option σ
  | s, [] => some s
  | s, l :: ls => (step s l).bind fun s' => exec step s' ls

@[simp] theorem exec_nil (step : σ → ℓ → Option σ) (s : σ) : exec step s [] = some s := rfl

@[simp] theorem exec_cons (step : σ → ℓ → Option σ) (s : σ) (l : ℓ) (ls : List ℓ) :
    exec step s (l :: ls) = (step s l).bind fun s' => exec step s' ls := rfl

/-- A run whose first step is known. -/
theorem exec_of_step {step : σ → ℓ → Option σ} {s s' : σ} {l : ℓ} {ls : List ℓ}
    (h : step s l = some s') : exec step s (l :: ls) = exec step s' ls := by
  rw [exec_cons, h, Option.bind_some]

/-- A run splits at any point. -/
theorem exec_append (step : σ → ℓ → Option σ) (s : σ) (ls ms : List ℓ) :
    exec step s (ls ++ ms) = (exec step s ls).bind fun s' => exec step s' ms := by
  induction ls generalizing s with
  | nil => rfl
  | cons l ls ih =>
      simp only [List.cons_append, exec_cons]
      cases step s l with
      | none => rfl
      | some s' => exact ih s'

/-- What holds at the start and survives every enabled step holds after every run. -/
theorem exec_invariant {step : σ → ℓ → Option σ} {P : σ → Prop}
    (hstep : ∀ s l s', P s → step s l = some s' → P s')
    {s s' : σ} {ls : List ℓ} (hs : P s) (hrun : exec step s ls = some s') : P s' := by
  induction ls generalizing s with
  | nil =>
      rw [exec_nil, Option.some.injEq] at hrun
      exact hrun ▸ hs
  | cons l ls ih =>
      rw [exec_cons, Option.bind_eq_some_iff] at hrun
      obtain ⟨mid, hmid, hrest⟩ := hrun
      exact ih (hstep s l mid hs hmid) hrest

/-- A quantity that every step moves on by its label is moved on by a run by its labels, in
    order. -/
theorem exec_fold {β : Type*} {step : σ → ℓ → Option σ} {g : β → ℓ → β} {P : β → σ → Prop}
    (hstep : ∀ v s l s', P v s → step s l = some s' → P (g v l) s')
    {v : β} {s s' : σ} {ls : List ℓ} (hs : P v s) (hrun : exec step s ls = some s') :
    P (ls.foldl g v) s' := by
  induction ls generalizing v s with
  | nil =>
      rw [exec_nil, Option.some.injEq] at hrun
      exact hrun ▸ hs
  | cons l ls ih =>
      rw [exec_cons, Option.bind_eq_some_iff] at hrun
      obtain ⟨mid, hmid, hrest⟩ := hrun
      exact ih (hstep v s l mid hs hmid) hrest

/-- A quantity that every step extends by what its label stands for is extended by a run
    by what its labels stand for. -/
theorem exec_trace {β : Type*} {step : σ → ℓ → Option σ} {g : ℓ → List β}
    {P : List β → σ → Prop}
    (hstep : ∀ v s l s', P v s → step s l = some s' → P (v ++ g l) s')
    {v : List β} {s s' : σ} {ls : List ℓ} (hs : P v s) (hrun : exec step s ls = some s') :
    P (v ++ ls.flatMap g) s' := by
  have hfold := exec_fold (g := fun v l => v ++ g l) hstep hs hrun
  rwa [List.foldl_append_eq_append, ← List.flatMap_def] at hfold

/-- Where every step lowers a measure, a run is no longer than the measure at its start. -/
theorem exec_length_le {step : σ → ℓ → Option σ} {I : σ → Prop} {μ : σ → Nat}
    (hI : ∀ s l s', I s → step s l = some s' → I s')
    (hμ : ∀ s l s', I s → step s l = some s' → μ s' < μ s)
    {s s' : σ} {ls : List ℓ} (hs : I s) (hrun : exec step s ls = some s') :
    ls.length + μ s' ≤ μ s := by
  induction ls generalizing s with
  | nil =>
      rw [exec_nil, Option.some.injEq] at hrun
      rw [hrun]
      simp
  | cons l ls ih =>
      rw [exec_cons, Option.bind_eq_some_iff] at hrun
      obtain ⟨mid, hmid, hrest⟩ := hrun
      have hlow := hμ s l mid hs hmid
      have hlen := ih (hI s l mid hs hmid) hrest
      rw [List.length_cons]
      omega

/-! ## What a run lets out -/

/-- The outputs of the enabled steps of a run, in order. -/
def observe {β : Type*} (step : σ → ℓ → Option σ) (out : σ → ℓ → List β) : σ → List ℓ → List β
  | _, [] => []
  | s, l :: ls =>
      match step s l with
      | none => []
      | some s' => out s l ++ observe step out s' ls

/-- A quantity that every step extends by its output is extended by a run by what the run
    lets out. -/
theorem exec_observe {β : Type*} {step : σ → ℓ → Option σ} {out : σ → ℓ → List β}
    {P : List β → σ → Prop}
    (hstep : ∀ v s l s', P v s → step s l = some s' → P (v ++ out s l) s')
    {v : List β} {s s' : σ} {ls : List ℓ} (hs : P v s) (hrun : exec step s ls = some s') :
    P (v ++ observe step out s ls) s' := by
  induction ls generalizing v s with
  | nil =>
      rw [exec_nil, Option.some.injEq] at hrun
      rw [observe, List.append_nil]
      exact hrun ▸ hs
  | cons l ls ih =>
      rw [exec_cons, Option.bind_eq_some_iff] at hrun
      obtain ⟨mid, hmid, hrest⟩ := hrun
      simp only [observe, hmid]
      rw [← List.append_assoc]
      exact ih (hstep v s l mid hs hmid) hrest

/-- The potential method.  Where the outputs of every step are paid for by what the step takes
    off a potential, by what it adds to an account, or by what its label brings, a run lets out
    no more than the potential at its start, what it adds to the account, and what its labels
    bring. -/
theorem exec_potential {β : Type*} {step : σ → ℓ → Option σ} {f : σ → ℓ → List β}
    {I : σ → Prop} {μ ν : σ → Nat} {g : ℓ → Nat}
    (hI : ∀ s l s', I s → step s l = some s' → I s')
    (hμ : ∀ s l s', I s → step s l = some s' →
      (f s l).length + μ s' + ν s ≤ μ s + ν s' + g l)
    {s s' : σ} {ls : List ℓ} (hs : I s) (hrun : exec step s ls = some s') :
    (observe step f s ls).length + μ s' + ν s ≤ μ s + ν s' + (ls.map g).sum := by
  induction ls generalizing s with
  | nil =>
      rw [exec_nil, Option.some.injEq] at hrun
      rw [hrun]
      simp [observe]
  | cons l ls ih =>
      rw [exec_cons, Option.bind_eq_some_iff] at hrun
      obtain ⟨mid, hmid, hrest⟩ := hrun
      have hone := hμ s l mid hs hmid
      have hlen := ih (hI s l mid hs hmid) hrest
      simp only [observe, hmid, List.length_append, List.map_cons, List.sum_cons]
      omega

/-- What two observers make of the same steps, they make of the same run. -/
theorem observe_flatMap_congr {β γ δ : Type*} {step : σ → ℓ → Option σ} {I : σ → Prop}
    {out : σ → ℓ → List β} {out' : σ → ℓ → List γ} {f : β → List δ} {g : γ → List δ}
    (hI : ∀ s l s', I s → step s l = some s' → I s')
    (hout : ∀ s l s', I s → step s l = some s' → (out s l).flatMap f = (out' s l).flatMap g)
    {s : σ} {ls : List ℓ} (hs : I s) :
    (observe step out s ls).flatMap f = (observe step out' s ls).flatMap g := by
  induction ls generalizing s with
  | nil => rfl
  | cons l ls ih =>
      simp only [observe]
      cases hstep : step s l with
      | none => rfl
      | some s' =>
          have hrest := ih (hI s l s' hs hstep)
          simp only [List.flatMap_append, hrest, hout s l s' hs hstep]

/-- Two runs in lockstep: where related states make related steps and related outputs, the
    runs let out related outputs, one by one. -/
theorem observe_forall₂ {β : Type*} {step : σ → ℓ → Option σ} {out : σ → ℓ → List β}
    {R : σ → σ → Prop} {L : ℓ → ℓ → Prop} {ρ : β → β → Prop}
    (hstep : ∀ s s' l l', R s s' → L l l' → Option.Rel R (step s l) (step s' l'))
    (hout : ∀ s s' l l', R s s' → L l l' → List.Forall₂ ρ (out s l) (out s' l'))
    {s s' : σ} {ls ls' : List ℓ} (hs : R s s') (hls : List.Forall₂ L ls ls') :
    List.Forall₂ ρ (observe step out s ls) (observe step out s' ls') := by
  induction hls generalizing s s' with
  | nil => exact .nil
  | @cons l l' ls ls' hl hls ih =>
      have hnext := hstep s s' l l' hs hl
      have hnow := hout s s' l l' hs hl
      simp only [observe]
      generalize step s l = next at hnext
      generalize step s' l' = next' at hnext
      cases hnext with
      | none => exact .nil
      | some hrel => exact List.rel_append hnow (ih hrel)

/-- `P` holds of every enabled step of the run. -/
def Along (step : σ → ℓ → Option σ) (P : σ → ℓ → Prop) : σ → List ℓ → Prop
  | _, [] => True
  | s, l :: ls =>
      match step s l with
      | none => True
      | some s' => P s l ∧ Along step P s' ls

/-- Two properties of steps that agree where an invariant holds, which every step with the
    property keeps, hold along the same runs. -/
theorem along_congr_of {step : σ → ℓ → Option σ} {I : σ → Prop} {P Q : σ → ℓ → Prop}
    (hI : ∀ s l s', I s → P s l → step s l = some s' → I s')
    (hPQ : ∀ s l s', I s → step s l = some s' → (P s l ↔ Q s l))
    {s : σ} {ls : List ℓ} (hs : I s) : Along step P s ls ↔ Along step Q s ls := by
  induction ls generalizing s with
  | nil => exact Iff.rfl
  | cons l ls ih =>
      simp only [Along]
      cases hstep : step s l with
      | none => exact Iff.rfl
      | some s' =>
          rw [← hPQ s l s' hs hstep]
          exact and_congr_right fun hp => ih (hI s l s' hs hp hstep)

/-- Two properties that agree on the steps of the reachable states hold along the same
    runs. -/
theorem along_congr {step : σ → ℓ → Option σ} {I : σ → Prop} {P Q : σ → ℓ → Prop}
    (hI : ∀ s l s', I s → step s l = some s' → I s')
    (hPQ : ∀ s l s', I s → step s l = some s' → (P s l ↔ Q s l))
    {s : σ} {ls : List ℓ} (hs : I s) : Along step P s ls ↔ Along step Q s ls :=
  along_congr_of (fun s l s' h _ hstep => hI s l s' h hstep) hPQ hs

/-- A flag that no step takes back is still down after a run exactly if no step of the run
    has raised it. -/
theorem flag_iff_along {step : σ → ℓ → Option σ} {I : σ → Prop} {f : σ → Bool}
    {G : σ → ℓ → Prop} (hI : ∀ s l s', I s → step s l = some s' → I s')
    (hflag : ∀ s l s', I s → step s l = some s' →
      (f s' = false ↔ f s = false ∧ G s l))
    {s s' : σ} {ls : List ℓ} (hs : I s) (hrun : exec step s ls = some s') :
    f s' = false ↔ f s = false ∧ Along step G s ls := by
  induction ls generalizing s with
  | nil =>
      rw [exec_nil, Option.some.injEq] at hrun
      rw [hrun]
      exact (and_iff_left trivial).symm
  | cons l ls ih =>
      rw [exec_cons, Option.bind_eq_some_iff] at hrun
      obtain ⟨mid, hmid, hrest⟩ := hrun
      rw [ih (hI s l mid hs hmid) hrest, hflag s l mid hs hmid, Along, hmid]
      exact and_assoc

/-- A run lets nothing out exactly if none of its steps does. -/
theorem observe_eq_nil_iff {β : Type*} {step : σ → ℓ → Option σ} {out : σ → ℓ → List β}
    {s : σ} {ls : List ℓ} :
    observe step out s ls = [] ↔ Along step (fun s l => out s l = []) s ls := by
  induction ls generalizing s with
  | nil => exact iff_of_true rfl trivial
  | cons l ls ih =>
      simp only [observe, Along]
      cases step s l with
      | none => exact iff_of_true rfl trivial
      | some s' => exact List.append_eq_nil_iff.trans (and_congr_right fun _ => ih)

/-! ## Guarded systems -/

/-- The system in which a label is enabled only where `guard` holds. -/
def restrict (step : σ → ℓ → Option σ) (guard : σ → ℓ → Prop)
    [∀ s l, Decidable (guard s l)] : σ → ℓ → Option σ :=
  fun s l => if guard s l then step s l else none

theorem restrict_eq_some {step : σ → ℓ → Option σ} {guard : σ → ℓ → Prop}
    [∀ s l, Decidable (guard s l)] {s s' : σ} {l : ℓ} :
    restrict step guard s l = some s' ↔ guard s l ∧ step s l = some s' := by
  unfold restrict
  by_cases hg : guard s l
  · simp [hg]
  · simp [hg]

/-- A guarded run is a run. -/
theorem exec_of_restrict {step : σ → ℓ → Option σ} {guard : σ → ℓ → Prop}
    [∀ s l, Decidable (guard s l)] {s s' : σ} {ls : List ℓ}
    (hrun : exec (restrict step guard) s ls = some s') : exec step s ls = some s' := by
  induction ls generalizing s with
  | nil => exact hrun
  | cons l ls ih =>
      rw [exec_cons, Option.bind_eq_some_iff] at hrun
      obtain ⟨mid, hmid, hrest⟩ := hrun
      rw [exec_of_step (restrict_eq_some.mp hmid).2]
      exact ih hrest

/-- The invariant rule for guarded runs: the step lemma may use the guard. -/
theorem exec_restrict_invariant {step : σ → ℓ → Option σ} {guard : σ → ℓ → Prop}
    [∀ s l, Decidable (guard s l)] {P : σ → Prop}
    (hstep : ∀ s l s', P s → guard s l → step s l = some s' → P s')
    {s s' : σ} {ls : List ℓ} (hs : P s)
    (hrun : exec (restrict step guard) s ls = some s') : P s' := by
  refine exec_invariant ?_ hs hrun
  intro s l s' hi h
  obtain ⟨hg, hl⟩ := restrict_eq_some.mp h
  exact hstep s l s' hi hg hl

end Run
