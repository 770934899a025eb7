/-
  Can4linux.Recorder

  A device that keeps a record of the accesses made to it, for statements about
  which registers a function writes.  Any device can be put on record, and
  answers as it would without.

  `sendcanmsg` loads a frame by a fixed list of stores (`frameStores`): a loop of
  its own for the data, and a head that depends on the format only.
-/

import Can4linux.Codec

namespace Can4linux

/-- An access at an offset, with the value read or written. -/
inductive Event where
  | inb (off : Nat) (v : U8)
  | outb (off : Nat) (v : U8)
deriving DecidableEq

/-- A device and the accesses made to it, in order. -/
structure Recorder (σ : Type) where
  dev : σ
  log : List Event

namespace Recorder

variable {σ : Type} [Chip σ]

instance instChip : Chip (Recorder σ) where
  inb off c :=
    let rd := Chip.inb off c.dev
    (rd.1, ⟨rd.2, c.log ++ [.inb off rd.1]⟩)
  outb off v c := ⟨Chip.outb off v c.dev, c.log ++ [.outb off v]⟩

variable (t : Target)

@[simp] theorem dev_canOut (r : Reg) (v : U8) (c : Recorder σ) :
    (canOut t r v c).dev = canOut t r v c.dev := rfl

@[simp] theorem log_canOut (r : Reg) (v : U8) (c : Recorder σ) :
    (canOut t r v c).log = c.log ++ [.outb (r.offset t) v] := rfl

/-- The device answers as it would without the record. -/
@[simp] theorem dev_canIn (r : Reg) (c : Recorder σ) :
    (canIn t r c).1 = (canIn t r c.dev).1 ∧ (canIn t r c).2.dev = (canIn t r c.dev).2 :=
  ⟨rfl, rfl⟩

@[simp] theorem log_canIn (r : Reg) (c : Recorder σ) :
    (canIn t r c).2.log = c.log ++ [.inb (r.offset t) (canIn t r c.dev).1] := rfl

end Recorder

/-! ## Lists of stores -/

section Stores

variable {σ : Type} [Chip σ] (t : Target)

/-- Perform stores in order. -/
def storeAll (ws : List (Reg × U8)) (c : σ) : σ := ws.foldl (fun c w => canOut t w.1 w.2 c) c

@[simp] theorem storeAll_nil (c : σ) : storeAll t [] c = c := rfl

@[simp] theorem storeAll_cons (w : Reg × U8) (ws : List (Reg × U8)) (c : σ) :
    storeAll t (w :: ws) c = storeAll t ws (canOut t w.1 w.2 c) := rfl

theorem storeAll_append (ws ws' : List (Reg × U8)) (c : σ) :
    storeAll t (ws ++ ws') c = storeAll t ws' (storeAll t ws c) := List.foldl_append

/-- The accesses that a list of stores makes. -/
def storeEvents (ws : List (Reg × U8)) : List Event := ws.map fun w => .outb (w.1.offset t) w.2

theorem log_storeAll (ws : List (Reg × U8)) (c : Recorder σ) :
    (storeAll t ws c).log = c.log ++ storeEvents t ws := by
  induction ws generalizing c with
  | nil => exact (List.append_nil _).symm
  | cons w ws ih =>
      rw [storeAll_cons, ih, Recorder.log_canOut, List.append_assoc]
      rfl

/-! ### The stores of `sendcanmsg` -/

/-- The stores before the data. -/
def frameHead (m : Canmsg) : List (Reg × U8) :=
  if isSet m.flags msgExt then
    [(.frameinfo, canEff + tx2reg m), (.extCanid1, (m.id >>> 21).setWidth 8),
      (.extCanid2, (m.id >>> 13).setWidth 8), (.extCanid3, (m.id >>> 5).setWidth 8),
      (.extCanid4, (m.id <<< 3).setWidth 8 &&& 0xff)]
  else
    [(.frameinfo, canSff + tx2reg m), (.stdCanid1, (m.id >>> 3).setWidth 8),
      (.stdCanid2, (m.id <<< 5).setWidth 8 &&& 0xe0)]

/-- The data register of byte `i` in the format of the message. -/
def dataReg (m : Canmsg) (i : Nat) : Reg :=
  if isSet m.flags msgExt then .extCanxdata i else .stdCandata i

/-- The stores of a frame, in order. -/
def frameStores (m : Canmsg) : List (Reg × U8) :=
  frameHead m ++ (List.range m.rounds).map fun i => (dataReg m i, m.byte i)

theorem writeData_eq (reg : Nat → Reg) (m : Canmsg) (n : Nat) (c : σ) :
    writeData t reg m n c = storeAll t ((List.range n).map fun i => (reg i, m.byte i)) c := by
  induction n with
  | zero => rfl
  | succ n ih =>
      rw [List.range_succ, List.map_append, storeAll_append, ← ih]
      rfl

/-- `sendcanmsg` performs these stores. -/
theorem writeFrame_eq (m : Canmsg) (c : σ) : writeFrame t m c = storeAll t (frameStores m) c := by
  unfold writeFrame frameStores frameHead dataReg
  rw [storeAll_append]
  cases isSet m.flags msgExt with
  | true =>
      simp only [if_true, writeData_eq]
      rfl
  | false =>
      simp only [Bool.false_eq_true, if_false, writeData_eq]
      rfl

/-- The accesses of a load: the frame, then the transmission request. -/
theorem log_loadFrame (m : Canmsg) (c : Recorder σ) :
    (loadFrame t m c).log =
      c.log ++ storeEvents t (frameStores m ++ [(.cancmd, canTransmissionRequest)]) := by
  rw [loadFrame, writeFrame_eq, Recorder.log_canOut, log_storeAll, storeEvents, storeEvents,
    List.map_append, List.append_assoc]
  rfl

end Stores

end Can4linux
