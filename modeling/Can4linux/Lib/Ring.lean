/-
  Can4linux.Lib.Ring

  Ring buffers addressed by free-running counters.  A `w`-bit counter is never
  reset and wraps modulo `2^w`; the slot it names is the counter masked with
  `2^k - 1`.  `window data mask c n` is what the `n` slots behind counter `c`
  hold, oldest first.

  Everything a queue on such counters needs is here once: distinct offsets
  below `2^k` name distinct slots, a write at the free end extends the window,
  dropping the first slot advances it, and a write at the head changes the
  head only.
-/

import Mathlib.Data.List.Basic
import Mathlib.Data.Nat.Bitwise
import Mathlib.Data.Nat.ModEq
import Mathlib.Logic.Function.Basic

namespace Ring

variable {w : Nat} {α : Type*}

/-- The mask of a ring of `2^k` slots. -/
def maskOf (w k : Nat) : BitVec w := BitVec.ofNat w (2 ^ k - 1)

/-- The slot that counter value `c` names. -/
def slot (mask c : BitVec w) : BitVec w := c &&& mask

/-- The contents of the `n` slots from counter `c` on, oldest first. -/
def window (data : BitVec w → α) (mask : BitVec w) (c : BitVec w) : Nat → List α
  | 0 => []
  | n + 1 => window data mask c n ++ [data (slot mask (c + BitVec.ofNat w n))]

@[simp] theorem window_zero (data : BitVec w → α) (mask c : BitVec w) :
    window data mask c 0 = [] := rfl

/-- The newest slot of a window is its last element. -/
theorem window_succ (data : BitVec w → α) (mask c : BitVec w) (n : Nat) :
    window data mask c (n + 1) =
      window data mask c n ++ [data (slot mask (c + BitVec.ofNat w n))] := rfl

@[simp] theorem window_length (data : BitVec w → α) (mask c : BitVec w) (n : Nat) :
    (window data mask c n).length = n := by
  induction n with
  | zero => rfl
  | succ n ih => simp [window_succ, ih]

/-- Offset `n + 1` of a counter is offset `n` of the next counter. -/
theorem add_ofNat_succ (c : BitVec w) (n : Nat) :
    c + BitVec.ofNat w (n + 1) = c + 1 + BitVec.ofNat w n := by
  rw [BitVec.add_assoc, Nat.add_comm n 1, BitVec.ofNat_add]
  rfl

/-- The oldest slot of a window is its head; the rest is the window one further. -/
theorem window_cons (data : BitVec w → α) (mask c : BitVec w) (n : Nat) :
    window data mask c (n + 1) = data (slot mask c) :: window data mask (c + 1) n := by
  induction n with
  | zero => simp [window]
  | succ n ih =>
      rw [window_succ, ih, window_succ, List.cons_append, add_ofNat_succ]

/-! ## Slots and offsets -/

/-- A masked counter is the counter modulo the number of slots. -/
theorem slot_toNat {k : Nat} (hk : k ≤ w) (c : BitVec w) :
    (slot (maskOf w k) c).toNat = c.toNat % 2 ^ k := by
  have hpow : 2 ^ k - 1 < 2 ^ w := by
    have hle : 2 ^ k ≤ 2 ^ w := Nat.pow_le_pow_right (by decide) hk
    have hpos : 0 < 2 ^ k := Nat.two_pow_pos k
    omega
  rw [slot, maskOf, BitVec.toNat_and, BitVec.toNat_ofNat, Nat.mod_eq_of_lt hpow,
    Nat.and_two_pow_sub_one_eq_mod]

theorem slot_add_toNat {k : Nat} (hk : k ≤ w) (c : BitVec w) (i : Nat) :
    (slot (maskOf w k) (c + BitVec.ofNat w i)).toNat = (c.toNat + i) % 2 ^ k := by
  have hdvd : 2 ^ k ∣ 2 ^ w := Nat.pow_dvd_pow 2 hk
  rw [slot_toNat hk, BitVec.toNat_add, BitVec.toNat_ofNat, Nat.mod_mod_of_dvd _ hdvd,
    Nat.add_mod, Nat.mod_mod_of_dvd _ hdvd, ← Nat.add_mod]

/-- Two offsets of one counter that lie less than a revolution apart name two slots. -/
theorem slot_add_ne {k : Nat} (hk : k ≤ w) (c : BitVec w) {i j : Nat}
    (hij : i < j) (hj : j < i + 2 ^ k) :
    slot (maskOf w k) (c + BitVec.ofNat w i) ≠ slot (maskOf w k) (c + BitVec.ofNat w j) := by
  intro h
  have hmod : (c.toNat + i) % 2 ^ k = (c.toNat + j) % 2 ^ k := by
    rw [← slot_add_toNat hk, ← slot_add_toNat hk, h]
  have hdvd : 2 ^ k ∣ (c.toNat + j) - (c.toNat + i) :=
    (Nat.modEq_iff_dvd' (by omega)).mp hmod
  have hle := Nat.le_of_dvd (by omega) hdvd
  omega

/-! ## Updates -/

/-- Writing a slot outside a window does not change the window. -/
theorem window_update_of_ne [DecidableEq (BitVec w)] (data : BitVec w → α) (mask c : BitVec w)
    (n : Nat) {j : BitVec w} (a : α)
    (hj : ∀ i, i < n → slot mask (c + BitVec.ofNat w i) ≠ j) :
    window (Function.update data j a) mask c n = window data mask c n := by
  induction n with
  | zero => rfl
  | succ n ih =>
      rw [window_succ, window_succ, ih (fun i hi => hj i (by omega)),
        Function.update_of_ne (hj n (by omega))]

/-- Writing the first free slot leaves the window behind it alone. -/
theorem window_update_free {k : Nat} (hk : k ≤ w) (data : BitVec w → α) (c : BitVec w)
    {n : Nat} (hn : n < 2 ^ k) (a : α) :
    window (Function.update data (slot (maskOf w k) (c + BitVec.ofNat w n)) a)
        (maskOf w k) c n = window data (maskOf w k) c n :=
  window_update_of_ne _ _ _ _ _ (fun i hi => slot_add_ne hk c hi (by omega))

/-- Writing the head slot changes the head and nothing else. -/
theorem window_update_head {k : Nat} (hk : k ≤ w) (data : BitVec w → α) (c : BitVec w)
    {n : Nat} (hn : n < 2 ^ k) (a : α) :
    window (Function.update data (slot (maskOf w k) c) a) (maskOf w k) c (n + 1) =
      a :: window data (maskOf w k) (c + 1) n := by
  rw [window_cons, Function.update_self]
  congr 1
  refine window_update_of_ne _ _ _ _ _ ?_
  intro i hi
  have hne := slot_add_ne hk c (i := 0) (j := i + 1) (by omega) (by omega)
  rw [← add_ofNat_succ]
  simpa using hne.symm

end Ring
