/-
  Can4linux.Lib.Bytes

  Numbers in memory on a little-endian machine.  A memory is a function from
  offsets to bytes; what a load of `k` bytes sees depends on these bytes only.
-/

import Mathlib.Algebra.Group.Nat.Defs

namespace Bytes

/-- The number in the first `k` bytes. -/
def load (byte : Nat → BitVec 8) : Nat → Nat
  | 0 => 0
  | k + 1 => load byte k + 256 ^ k * (byte k).toNat

/-- The bytes of a number, lowest first. -/
def ofNat (v i : Nat) : BitVec 8 := BitVec.ofNat 8 (v / 256 ^ i)

variable {byte byte' : Nat → BitVec 8} {k : Nat}

/-- A load sees the bytes that it covers, and no others. -/
theorem load_congr (h : ∀ i < k, byte i = byte' i) : load byte k = load byte' k := by
  induction k with
  | zero => rfl
  | succ k ih =>
      have hlow : load byte k = load byte' k := ih fun i hi => h i (by omega)
      rw [load, load, hlow, h k (by omega)]

/-- A load of the first `k` bytes of a number is the number cut to `k` bytes. -/
theorem load_ofNat (v k : Nat) : load (ofNat v) k = v % 256 ^ k := by
  induction k with
  | zero => rw [load, Nat.pow_zero, Nat.mod_one]
  | succ k ih =>
      have hbyte : (ofNat v k).toNat = v / 256 ^ k % 256 := BitVec.toNat_ofNat ..
      rw [load, ih, hbyte, Nat.mod_pow_succ]

end Bytes
