/-
  Can4linux.Lib.Lens

  A part of a state, and functions that have nothing to do with it.  `Lens` reads
  and replaces the part; a function `Spares` it if replacing the part before or
  after makes no difference, and a test `Ignores` it if replacing the part does
  not change the answer.  A function that spares a part leaves it as it is
  (`Spares.get_eq`).
-/

import Mathlib.Tactic.TypeStar

/-- A part of type `P` of the states `S`. -/
structure Lens (S P : Type*) where
  get : S → P
  set : P → S → S
  get_set : ∀ p s, get (set p s) = p
  set_get : ∀ s, set (get s) s = s

namespace Lens

variable {S P : Type*} (L : Lens S P)

/-- The answer does not depend on the part. -/
def Ignores {α : Type*} (f : S → α) : Prop := ∀ p s, f (L.set p s) = f s

/-- The function neither reads nor changes the part. -/
def Spares (f : S → S) : Prop := ∀ p s, f (L.set p s) = L.set p (f s)

variable {L}

namespace Spares

variable {f g : S → S}

/-- What is spared stays as it is. -/
theorem get_eq (h : L.Spares f) (s : S) : L.get (f s) = L.get s := by
  have hself : f s = L.set (L.get s) (f s) := by
    rw [← h, L.set_get]
  rw [hself, L.get_set]

theorem id : L.Spares fun s => s := fun _ _ => rfl

theorem comp (hg : L.Spares g) (hf : L.Spares f) : L.Spares fun s => g (f s) := by
  intro p s
  show g (f (L.set p s)) = L.set p (g (f s))
  rw [hf p s, hg p (f s)]

/-- A choice between functions. -/
theorem ite {c : S → Bool} (hc : L.Ignores c) (hf : L.Spares f) (hg : L.Spares g) :
    L.Spares fun s => if c s then f s else g s := by
  intro p s
  simp only [hc p s]
  cases c s with
  | true => exact hf p s
  | false => exact hg p s

end Spares

end Lens
