/-
  Can4linux.Lib.Count

  How many parties of a system stand at a place.  The parties are the indices of
  a finite type, `place i` is where party `i` stands, and `f` says how much a
  place counts.  A party that moves changes the count by its own share, which
  is all that an argument about a token passed between parties needs.
-/

import Mathlib.Algebra.Order.BigOperators.Group.Finset

namespace Count

variable {ι α : Type*} [Fintype ι]

/-- The sum of what the places of all parties count. -/
def count (f : α → Nat) (place : ι → α) : Nat := ∑ i, f (place i)

theorem le_count (f : α → Nat) (place : ι → α) (i : ι) : f (place i) ≤ count f place :=
  Finset.single_le_sum (f := fun j => f (place j)) (fun _ _ => Nat.zero_le _) (Finset.mem_univ i)

/-- What two measures count together is what each of them counts. -/
theorem count_add (f g : α → Nat) (place : ι → α) :
    count (fun a => f a + g a) place = count f place + count g place :=
  Finset.sum_add_distrib

variable [DecidableEq ι]

/-- A party that moves gives up the share of its old place and adds that of the new one. -/
theorem count_update (f : α → Nat) (place : ι → α) (i : ι) (a : α) :
    count f (Function.update place i a) + f (place i) = count f place + f a := by
  -- split off party `i` on both sides; the others stand where they stood
  have hold := Finset.add_sum_erase Finset.univ (fun j => f (place j)) (Finset.mem_univ i)
  have hnew := Finset.add_sum_erase Finset.univ
    (fun j => f (Function.update place i a j)) (Finset.mem_univ i)
  have hrest : ∑ j ∈ Finset.univ.erase i, f (Function.update place i a j) =
      ∑ j ∈ Finset.univ.erase i, f (place j) := by
    apply Finset.sum_congr rfl
    intro j hj
    rw [Function.update_of_ne (Finset.ne_of_mem_erase hj)]
  rw [Function.update_self] at hnew
  simp only [count]
  omega

theorem count_update_of_eq {f : α → Nat} {place : ι → α} {i : ι} {a : α}
    (h : f (place i) = f a) : count f (Function.update place i a) = count f place := by
  have hsum := count_update f place i a
  omega

end Count
