/-
  Can4linux.MsgQ

  The message queues of `msgq.c`.  `produced` and `consumed` count messages and
  are never reset while the queue is in use: they wrap modulo `2^32`, and the
  slot of a message is its count masked with the queue size minus one.

  The functions are written as the source computes them, with the callback as
  a function that gets the slot and a context of its own.  Behind them,
  `MsgQ.contents` is what the queue holds and `MsgQ.WF` the invariant that
  ties the counters to a power-of-two size; each operation has one lemma that
  says what it does to the contents.
-/

import Can4linux.Defs
import Can4linux.Lib.Ring

namespace Can4linux

/-- `struct MsgQ`.  `data` is what the slots hold, `buf` the `kmalloc` block
    behind it (`none` is the NULL pointer), `lk` whether the lock is used. -/
structure MsgQ (α : Type) where
  produced : CInt
  consumed : CInt
  mask : CInt
  data : CInt → α
  buf : Option Nat
  lk : Bool
  idle : Bool

namespace MsgQ

variable {α : Type} {τ : Type}

/-! ## The functions of the source -/

/-- The test of `qproduce`: `q->produced - q->consumed > q->mask`. -/
def full (q : MsgQ α) : Bool := q.mask.slt (q.produced - q.consumed)

/-- The test of `qconsume`: `q->produced == q->consumed`. -/
def empty (q : MsgQ α) : Bool := q.produced == q.consumed

/-- The message in `q->data[q->produced & q->mask]`. -/
def freeSlot (q : MsgQ α) : α := q.data (Ring.slot q.mask q.produced)

/-- The message in `q->data[q->consumed & q->mask]`. -/
def head (q : MsgQ α) : α := q.data (Ring.slot q.mask q.consumed)

/-- Store into `q->data[q->produced & q->mask]`. -/
def fill (q : MsgQ α) (m : α) : MsgQ α :=
  { q with data := Function.update q.data (Ring.slot q.mask q.produced) m }

/-- Store into `q->data[q->consumed & q->mask]`. -/
def setHead (q : MsgQ α) (m : α) : MsgQ α :=
  { q with data := Function.update q.data (Ring.slot q.mask q.consumed) m }

/-- `q->produced++`. -/
def publish (q : MsgQ α) : MsgQ α := { q with produced := q.produced + 1 }

/-- `q->consumed++`. -/
def advance (q : MsgQ α) : MsgQ α := { q with consumed := q.consumed + 1 }

/-- `q->idle = v`. -/
def setIdle (q : MsgQ α) (v : Bool) : MsgQ α := { q with idle := v }

/-- `qproduce`: fill the free slot through the callback, then publish it; the
    result is `false` when the queue is full. -/
def qproduce (q : MsgQ α) (produce : α → τ → α × τ) (d : τ) : MsgQ α × τ × Bool :=
  if q.full then (q, d, false)
  else
    let r := produce q.freeSlot d
    -- the slot is full before the consumer can see it
    ((q.fill r.1).publish, r.2, true)

/-- `qconsume`: an empty queue becomes idle; otherwise the callback gets the
    head slot, and a nonzero result consumes it. -/
def qconsume (q : MsgQ α) (consume : α → τ → α × Bool × τ) (d : τ) : MsgQ α × τ × Bool :=
  if q.empty then (q.setIdle true, d, false)
  else
    let r := consume q.head d
    -- what the callback wrote stays in the slot, consumed or not
    let q := q.setHead r.1
    (if r.2.1 then q.advance else q, r.2.2, true)

/-- `qlen`. -/
def qlen (q : MsgQ α) : CInt := q.produced - q.consumed

/-- `qsize`. -/
def qsize (q : MsgQ α) : CInt := q.mask + 1

/-- `qcreate`: `block` is what `kmalloc` returned, the block's number and what
    its memory happens to hold. -/
def qcreate (q : MsgQ α) (sz : CInt) (protect : Bool) (block : Option (Nat × (CInt → α))) :
    MsgQ α × Bool :=
  match block with
  | none => ({ q with buf := none }, false)
  | some (b, garbage) =>
      -- `produced` and `consumed` keep what they have
      ({ q with buf := some b, data := garbage, mask := sz - 1, idle := true,
                lk := if protect then true else q.lk }, true)

/-! ## Contents and invariant -/

/-- The messages in the queue, oldest first. -/
def contents (q : MsgQ α) : List α := Ring.window q.data q.mask q.consumed q.qlen.toNat

/-- A queue of `2^k` slots that never holds more messages than slots. -/
structure WF (k : Nat) (q : MsgQ α) : Prop where
  size : k ≤ 30
  mask : q.mask = Ring.maskOf 32 k
  bound : q.qlen.toNat ≤ 2 ^ k

theorem contents_length (q : MsgQ α) : q.contents.length = q.qlen.toNat := by
  simp [contents]

theorem WF.pow_le {k : Nat} {q : MsgQ α} (h : q.WF k) : 2 ^ k ≤ 2 ^ 30 :=
  Nat.pow_le_pow_right (by decide) h.size

theorem WF.mask_toNat {k : Nat} {q : MsgQ α} (h : q.WF k) : q.mask.toNat = 2 ^ k - 1 := by
  have hpow := h.pow_le
  rw [h.mask, Ring.maskOf, BitVec.toNat_ofNat]
  exact Nat.mod_eq_of_lt (by omega)

/-- The signed full test compares the true fill level: it fires at `2^k` messages. -/
theorem WF.full_iff {k : Nat} {q : MsgQ α} (h : q.WF k) :
    q.full = true ↔ q.qlen.toNat = 2 ^ k := by
  have hpow := h.pow_le
  have hpos : 0 < 2 ^ k := Nat.two_pow_pos k
  have hmask := h.mask_toNat
  have hbound := h.bound
  -- both sides of the comparison are below `2^31`
  have hm : q.mask.toInt = (2 ^ k - 1 : Nat) := by
    rw [BitVec.toInt_eq_toNat_of_lt (by omega), hmask]
  have hl : q.qlen.toInt = q.qlen.toNat := BitVec.toInt_eq_toNat_of_lt (by omega)
  rw [full, BitVec.slt_iff_toInt_lt, hm, show q.produced - q.consumed = q.qlen from rfl, hl]
  omega

theorem empty_iff {q : MsgQ α} : q.empty = true ↔ q.contents = [] := by
  rw [← List.length_eq_zero_iff, contents_length, empty, beq_iff_eq, qlen]
  constructor
  · intro h
    rw [h]
    simp
  · intro h
    bv_omega

theorem contents_ne_nil {q : MsgQ α} (h : q.empty = false) : q.contents ≠ [] := by
  intro hnil
  rw [empty_iff.mpr hnil] at h
  cases h

theorem empty_iff_qlen {q : MsgQ α} : q.empty = true ↔ q.qlen = 0 := by
  rw [empty, qlen, beq_iff_eq]
  constructor
  · intro h
    rw [h]
    exact BitVec.sub_self _
  · intro h
    bv_omega

theorem WF.full_iff_length {k : Nat} {q : MsgQ α} (h : q.WF k) :
    q.full = true ↔ q.contents.length = 2 ^ k := by
  rw [h.full_iff, contents_length]

/-! ## What the steps do to the contents -/

theorem qlen_publish_toNat {k : Nat} {q : MsgQ α} (h : q.WF k) :
    q.publish.qlen.toNat = q.qlen.toNat + 1 := by
  have hpow := h.pow_le
  have hbound := h.bound
  simp only [publish, qlen] at hbound ⊢
  bv_omega

theorem qlen_advance_toNat {q : MsgQ α} (hne : q.contents ≠ []) :
    q.advance.qlen.toNat + 1 = q.qlen.toNat := by
  have hpos : q.qlen.toNat ≠ 0 := by
    rwa [← contents_length, ne_eq, List.length_eq_zero_iff]
  simp only [advance, qlen] at hpos ⊢
  bv_omega

/-- The counter of the free slot is the head's counter plus the fill level. -/
theorem produced_eq (q : MsgQ α) :
    q.produced = q.consumed + BitVec.ofNat 32 q.qlen.toNat := by
  simp only [qlen]
  bv_omega

theorem WF.freeSlot_eq {k : Nat} {q : MsgQ α} (h : q.WF k) :
    Ring.slot q.mask q.produced =
      Ring.slot (Ring.maskOf 32 k) (q.consumed + BitVec.ofNat 32 q.qlen.toNat) := by
  rw [h.mask, ← q.produced_eq]

theorem WF.size_le {k : Nat} {q : MsgQ α} (h : q.WF k) : k ≤ 32 :=
  Nat.le_trans h.size (by decide)

/-- A queue with room has fewer messages than slots. -/
theorem WF.qlen_lt {k : Nat} {q : MsgQ α} (h : q.WF k) (hroom : q.full = false) :
    q.qlen.toNat < 2 ^ k :=
  Nat.lt_of_le_of_ne h.bound (fun he => by simp [h.full_iff.mpr he] at hroom)

/-- Filling the free slot of a queue with room changes no message in it. -/
theorem WF.contents_fill {k : Nat} {q : MsgQ α} (h : q.WF k) (hroom : q.full = false) (m : α) :
    (q.fill m).contents = q.contents := by
  show Ring.window (Function.update q.data (Ring.slot q.mask q.produced) m) q.mask q.consumed
    q.qlen.toNat = Ring.window q.data q.mask q.consumed q.qlen.toNat
  rw [h.freeSlot_eq, h.mask]
  exact Ring.window_update_free h.size_le _ _ (h.qlen_lt hroom) _

/-- Publishing makes the message of the free slot the newest one. -/
theorem WF.contents_publish {k : Nat} {q : MsgQ α} (h : q.WF k) :
    q.publish.contents = q.contents ++ [q.freeSlot] := by
  rw [contents, qlen_publish_toNat h]
  -- the window grows by the slot that `produced` names
  show Ring.window q.data q.mask q.consumed (q.qlen.toNat + 1) = _
  rw [Ring.window_succ, ← q.produced_eq]
  rfl

@[simp] theorem freeSlot_fill (q : MsgQ α) (m : α) : (q.fill m).freeSlot = m := by
  simp [freeSlot, fill]

/-- `qproduce` on a queue with room appends the message its callback stored. -/
theorem WF.contents_produce {k : Nat} {q : MsgQ α} (h : q.WF k) (hroom : q.full = false) (m : α) :
    (q.fill m).publish.contents = q.contents ++ [m] := by
  have hfill : (q.fill m).WF k := ⟨h.size, h.mask, h.bound⟩
  rw [hfill.contents_publish, h.contents_fill hroom, freeSlot_fill]

/-- A queue that is not empty starts with its head slot. -/
theorem contents_eq_cons {q : MsgQ α} (hne : q.contents ≠ []) :
    q.contents = q.head :: q.advance.contents := by
  have hlen := qlen_advance_toNat hne
  rw [contents, ← hlen, Ring.window_cons]
  rfl

theorem contents_advance {q : MsgQ α} (hne : q.contents ≠ []) :
    q.advance.contents = q.contents.tail := by
  rw [contents_eq_cons hne, List.tail_cons]

/-- Storing into the head slot changes the oldest message only. -/
theorem WF.contents_setHead {k : Nat} {q : MsgQ α} (h : q.WF k) (hne : q.contents ≠ []) (m : α) :
    (q.setHead m).contents = m :: q.contents.tail := by
  have hlen := qlen_advance_toNat hne
  have hbound := h.bound
  rw [← contents_advance hne]
  show Ring.window (Function.update q.data (Ring.slot q.mask q.consumed) m) q.mask q.consumed
    q.qlen.toNat = m :: Ring.window q.data q.mask (q.consumed + 1) q.advance.qlen.toNat
  -- the rest of the window is the window of the next counter
  rw [← hlen, h.mask]
  exact Ring.window_update_head h.size_le _ _ (by omega) _

/-- While there is room, the head slot is not the slot being filled. -/
theorem WF.slot_ne {k : Nat} {q : MsgQ α} (h : q.WF k) (hroom : q.full = false) {i : Nat}
    (hi : i < q.qlen.toNat) :
    Ring.slot q.mask (q.consumed + BitVec.ofNat 32 i) ≠ Ring.slot q.mask q.produced := by
  have hlt := h.qlen_lt hroom
  rw [h.freeSlot_eq, h.mask]
  exact Ring.slot_add_ne h.size_le _ hi (by omega)

theorem WF.freeSlot_setHead {k : Nat} {q : MsgQ α} (h : q.WF k) (hroom : q.full = false)
    (hne : q.contents ≠ []) (m : α) : (q.setHead m).freeSlot = q.freeSlot := by
  have hpos : 0 < q.qlen.toNat := by
    have := qlen_advance_toNat hne
    omega
  have hslot : Ring.slot q.mask q.consumed ≠ Ring.slot q.mask q.produced := by
    simpa using h.slot_ne hroom hpos
  exact Function.update_of_ne hslot.symm _ _

/-! ## The invariant survives every operation -/

/-- The counters of a queue survive `qcreate`. -/
theorem qcreate_qlen (q : MsgQ α) (sz : CInt) (protect : Bool) (block : Nat × (CInt → α)) :
    (q.qcreate sz protect (some block)).1.qlen = q.qlen := rfl

theorem qcreate_empty (q : MsgQ α) (sz : CInt) (protect : Bool) (block : Nat × (CInt → α)) :
    (q.qcreate sz protect (some block)).1.empty = q.empty := rfl

theorem qcreate_idle (q : MsgQ α) (sz : CInt) (protect : Bool) (block : Nat × (CInt → α)) :
    (q.qcreate sz protect (some block)).1.idle = true := rfl

/-- `qcreate` sets the size and keeps the counters: the queue is well formed if what they
    say it holds fits into the new size. -/
theorem WF.of_qcreate {k : Nat} {q : MsgQ α} (hk : k ≤ 30) {sz : CInt}
    (hsz : sz - 1 = Ring.maskOf 32 k) (protect : Bool) (block : Nat × (CInt → α))
    (hq : q.qlen.toNat ≤ 2 ^ k) : (q.qcreate sz protect (some block)).1.WF k :=
  ⟨hk, hsz, hq⟩

theorem WF.fill {k : Nat} {q : MsgQ α} (h : q.WF k) (m : α) : (q.fill m).WF k :=
  ⟨h.size, h.mask, h.bound⟩

theorem WF.setHead {k : Nat} {q : MsgQ α} (h : q.WF k) (m : α) : (q.setHead m).WF k :=
  ⟨h.size, h.mask, h.bound⟩

theorem WF.setIdle {k : Nat} {q : MsgQ α} (h : q.WF k) (v : Bool) : (q.setIdle v).WF k :=
  ⟨h.size, h.mask, h.bound⟩

theorem WF.publish {k : Nat} {q : MsgQ α} (h : q.WF k) (hroom : q.full = false) :
    q.publish.WF k :=
  ⟨h.size, h.mask, by rw [qlen_publish_toNat h]; exact h.qlen_lt hroom⟩

theorem WF.advance {k : Nat} {q : MsgQ α} (h : q.WF k) (hne : q.contents ≠ []) :
    q.advance.WF k := by
  have hlen := qlen_advance_toNat hne
  have hbound := h.bound
  exact ⟨h.size, h.mask, by omega⟩

/-- A consumer step that shortens the queue leaves it with room. -/
theorem WF.full_advance {k : Nat} {q : MsgQ α} (h : q.WF k) (hne : q.contents ≠ []) :
    q.advance.full = false := by
  have hlen := qlen_advance_toNat hne
  have hbound := h.bound
  have hfull := (h.advance hne).full_iff
  by_contra hf
  rw [Bool.not_eq_false] at hf
  have := hfull.mp hf
  omega

end MsgQ

end Can4linux
