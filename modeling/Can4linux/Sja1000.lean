/-
  Can4linux.Sja1000

  The controller as the driver relies on it (PeliCAN mode).  In operating mode
  registers 16 to 28 read as the oldest received frame and write the transmit
  buffer; in reset mode they are the acceptance code and mask.  Bus timing and
  output control can be changed in reset mode only.  Entering reset mode aborts a
  pending transmission and a transmission request given there is ignored; reading
  the interrupt register clears every bit but the receive bit, which is set as long
  as a received frame is stored.

  What the bus does (frames arriving, a frame sent, error states, bus-off) are
  functions of their own, used as steps of the environment.  It is assumed of the
  controller that received frames which have not been released are still stored
  after a time in reset mode, whether requested or entered by a bus-off.
-/

import Can4linux.Regs

namespace Can4linux

/-- The 13 frame registers: frame information, identifier, data. -/
abbrev Frame := Fin 13 → U8

/-- Register `16 + i` of a frame. -/
def Frame.reg (f : Frame) (i : Nat) : U8 := if h : i < 13 then f ⟨i, h⟩ else 0

/-- Store into register `16 + i` of a frame. -/
def Frame.setReg (f : Frame) (i : Nat) (v : U8) : Frame := fun j => if j.val = i then v else f j

@[simp] theorem Frame.reg_setReg_self (f : Frame) {i : Nat} (hi : i < 13) (v : U8) :
    (f.setReg i v).reg i = v := by
  simp [Frame.reg, Frame.setReg, hi]

@[simp] theorem Frame.reg_setReg_ne (f : Frame) {i j : Nat} (hij : i ≠ j) (v : U8) :
    (f.setReg i v).reg j = f.reg j := by
  unfold Frame.reg Frame.setReg
  split
  · rw [if_neg (fun h => hij h.symm)]
  · rfl

/-- The state of an SJA1000 on a board of target `t`. -/
structure Sja1000 (t : Target) where
  mode : U8
  /-- latched interrupt bits, the receive bit apart -/
  irq : U8
  /-- status bits as the bus drives them -/
  stat : U8
  /-- the data-overrun status -/
  overrun : Bool
  /-- received frames, oldest first -/
  rxfifo : List Frame
  /-- the frame under transmission -/
  tx : Option Frame
  /-- the transmit buffer -/
  txbuf : Frame
  /-- registers 16 to 28 of reset mode: acceptance code, acceptance mask -/
  acc : Frame
  /-- every other register -/
  regs : Nat → U8

namespace Sja1000

variable {t : Target}

/-- The controller after a hardware reset. -/
def powerOn : Sja1000 t where
  mode := canResetRequest
  irq := 0
  stat := 0x08
  overrun := false
  rxfifo := []
  tx := none
  txbuf := fun _ => 0
  acc := fun _ => 0
  regs := fun _ => 0

/-- A controller in operating mode, at rest. -/
def started : Sja1000 t := { (powerOn : Sja1000 t) with mode := canModeDef }

/-- Whether the controller is in reset mode. -/
def inReset (c : Sja1000 t) : Bool := isSet c.mode canResetRequest

/-! ## Register accesses -/

/-- What the status register reads. -/
def statBits (c : Sja1000 t) : U8 :=
  (c.stat &&& 0xF8) ||| (if c.tx.isNone then canTransmitBufferAccess else 0) |||
    (if c.overrun then canDataOverrun else 0) |||
    (if c.rxfifo.isEmpty then 0 else canReceiveBufferStatus)

/-- What the interrupt register reads. -/
def irqBits (c : Sja1000 t) : U8 :=
  (c.irq &&& 0xFE) ||| (if c.rxfifo.isEmpty then 0 else canReceiveInt)

/-- What frame register `16 + i` reads. -/
def frameReg (c : Sja1000 t) (i : Nat) : U8 :=
  if c.inReset then c.acc.reg i
  else (c.rxfifo.headD c.txbuf).reg i

/-- A write to the mode register; reset mode aborts a pending transmission. -/
def setMode (c : Sja1000 t) (v : U8) : Sja1000 t :=
  { c with mode := v, tx := if isSet v canResetRequest then none else c.tx }

/-- A write to the command register. -/
def command (c : Sja1000 t) (v : U8) : Sja1000 t :=
  { c with
    tx := if isSet v canTransmissionRequest && !c.inReset then some c.txbuf else c.tx
    rxfifo := if isSet v canReleaseReceiveBuffer then c.rxfifo.tail else c.rxfifo
    overrun := if isSet v canClearOverrunStatus then false else c.overrun }

/-- A write to frame register `16 + i`: the acceptance filter in reset mode, the
    transmit buffer in operating mode. -/
def setFrameReg (c : Sja1000 t) (i : Nat) (v : U8) : Sja1000 t :=
  if c.inReset then { c with acc := c.acc.setReg i v }
  else { c with txbuf := c.txbuf.setReg i v }

/-- A write to another register: bus timing and output control, registers 6 to 8, take it in
    reset mode only. -/
def setReg (c : Sja1000 t) (n : Nat) (v : U8) : Sja1000 t :=
  { c with
    regs := if 6 ≤ n ∧ n < 9 ∧ c.inReset = false then c.regs else Function.update c.regs n v }

/-- Read register `n`. -/
def read (c : Sja1000 t) (n : Nat) : U8 × Sja1000 t :=
  if n = 0 then (c.mode, c)
  else if n = 2 then (c.statBits, c)
  -- the receive bit is not latched and shows again as long as a frame is stored
  else if n = 3 then (c.irqBits, { c with irq := 0 })
  else if 16 ≤ n ∧ n < 29 then (c.frameReg (n - 16), c)
  else (c.regs n, c)

/-- Write register `n`. -/
def write (c : Sja1000 t) (n : Nat) (v : U8) : Sja1000 t :=
  if n = 0 then c.setMode v
  else if n = 1 then c.command v
  else if 16 ≤ n ∧ n < 29 then c.setFrameReg (n - 16) v
  else c.setReg n v

instance instChip : Chip (Sja1000 t) where
  inb off c := c.read (regno t off)
  outb off v c := c.write (regno t off) v

/-! ## What the driver's accesses do, in either layout -/

section Access

variable (r : Reg) (v : U8) (c : Sja1000 t)

theorem canOut_eq : canOut t r v c = c.write r.number v := by
  show c.write (regno t (r.offset t)) v = _
  rw [regno_offset]

theorem canIn_eq : canIn t r c = c.read r.number := by
  show c.read (regno t (r.offset t)) = _
  rw [regno_offset]

@[simp] theorem canOut_canmode : canOut t .canmode v c = c.setMode v := by
  simp [canOut_eq, write, Reg.number]

@[simp] theorem canOut_cancmd : canOut t .cancmd v c = c.command v := by
  simp [canOut_eq, write, Reg.number]

@[simp] theorem canIn_canmode : canIn t .canmode c = (c.mode, c) := by
  simp [canIn_eq, read, Reg.number]

@[simp] theorem canIn_canstat : canIn t .canstat c = (c.statBits, c) := by
  simp [canIn_eq, read, Reg.number]

@[simp] theorem canIn_canirq : canIn t .canirq c = (c.irqBits, { c with irq := 0 }) := by
  simp [canIn_eq, read, Reg.number]

/-- A write to frame register `i` of the window at 16. -/
theorem canOut_frame {r : Reg} {i : Nat} (hr : r.number = 16 + i) (hi : i < 13) :
    canOut t r v c = c.setFrameReg i v := by
  have hrange : 16 ≤ 16 + i ∧ 16 + i < 29 := by omega
  have hne : 16 + i ≠ 0 ∧ 16 + i ≠ 1 := by omega
  simp [canOut_eq, write, hr, hrange, hne]

/-- A read of frame register `i` of the window at 16. -/
theorem canIn_frame {r : Reg} {i : Nat} (hr : r.number = 16 + i) (hi : i < 13) :
    canIn t r c = (c.frameReg i, c) := by
  have hrange : 16 ≤ 16 + i ∧ 16 + i < 29 := by omega
  have hne : 16 + i ≠ 0 ∧ 16 + i ≠ 2 ∧ 16 + i ≠ 3 := by omega
  simp [canIn_eq, read, hr, hrange, hne]

end Access

/-! ## The bus -/

/-- A frame passed the acceptance filter and is stored. -/
def arrive (f : Frame) (c : Sja1000 t) : Sja1000 t := { c with rxfifo := c.rxfifo ++ [f] }

/-- The pending frame has been sent: the buffer is free and the transmit bit set. -/
def txDone (c : Sja1000 t) : Option (Sja1000 t) :=
  match c.tx with
  | some _ => some { c with tx := none, irq := c.irq ||| canTransmitInt }
  | none => none

/-- A change of the bus or error state: new status bits, interrupt bits raised,
    the data-overrun status set or left. -/
def busEvent (bits stat : U8) (overrun : Bool) (c : Sja1000 t) : Sja1000 t :=
  { c with irq := c.irq ||| bits, stat := stat, overrun := c.overrun || overrun }

/-- Bus-off: the controller enters reset mode on its own and raises an error warning. -/
def busOff (c : Sja1000 t) : Sja1000 t :=
  { c.setMode (c.mode ||| canResetRequest) with
    irq := c.irq ||| canErrorWarnInt, stat := c.stat ||| canBusStatus }

end Sja1000

end Can4linux
