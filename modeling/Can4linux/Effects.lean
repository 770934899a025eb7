/-
  Can4linux.Effects

  What the driver's functions do to a channel whose controller is an SJA1000:
  one lemma per function, each branch in terms of the queue operations and of
  controller updates, so that no later proof opens a function again.
-/

import Can4linux.Frames
import Can4linux.RoundTrip

namespace Can4linux

variable {t : Target}

/-! ## The controller -/

namespace Sja1000

variable (c : Sja1000 t)

/-- The frame that registers 16 to 28 read. -/
def shown : Frame := if c.inReset then c.acc else c.rxfifo.headD c.txbuf

theorem shows_shown : Shows t c c.shown := by
  intro r i hr hi
  rw [canIn_frame _ hr hi, frameReg, shown]
  split <;> rfl

/-- `readcanmsg` decodes what the frame registers read and drops the oldest frame. -/
theorem readcanmsg_eq (inf : Msginf) (msg : Canmsg) :
    readcanmsg t inf msg c = (decodeMsg inf msg c.shown, { c with rxfifo := c.rxfifo.tail }) := by
  rw [readcanmsg_of_shows c.shows_shown, canOut_cancmd, command_release]

/-- What a load does to the controller in its present mode. -/
def load (m : Canmsg) : Sja1000 t :=
  if c.inReset then { c with acc := encodeFrame m c.acc }
  else { c with txbuf := encodeFrame m c.txbuf, tx := some (encodeFrame m c.txbuf) }

theorem loadFrame_eq {m : Canmsg} (hm : m.rounds ≤ 8) : loadFrame t m c = c.load m := by
  unfold load
  split
  · rename_i h
    exact loadFrame_reset h hm
  · rename_i h
    exact loadFrame_operating (by simpa using h) hm

@[simp] theorem load_rxfifo (m : Canmsg) : (c.load m).rxfifo = c.rxfifo := by
  unfold load
  split <;> rfl

@[simp] theorem load_irq (m : Canmsg) : (c.load m).irq = c.irq := by
  unfold load
  split <;> rfl

@[simp] theorem load_mode (m : Canmsg) : (c.load m).mode = c.mode := by
  unfold load
  split <;> rfl

theorem load_acc (m : Canmsg) (hop : c.inReset = false) : (c.load m).acc = c.acc := by
  rw [load, hop]
  rfl

theorem and_not_reset (x : U8) :
    isSet (x &&& ~~~canResetRequest) canResetRequest = false := by
  rw [isSet_and]
  simp [isSet, canResetRequest]

theorem or_reset (x : U8) : isSet (x ||| canResetRequest) canResetRequest = true :=
  isSet_or_self x (by decide)

/-- The reset request taken back. -/
def leaveReset : Sja1000 t := { c with mode := c.mode &&& ~~~canResetRequest }

@[simp] theorem inReset_leaveReset : c.leaveReset.inReset = false := and_not_reset c.mode

theorem canReset_canmode : canReset t .canmode canResetRequest c = c.leaveReset := by
  simp only [canReset, canIn_canmode, canOut_canmode, setMode, and_not_reset,
    Bool.false_eq_true, if_false]
  rfl

theorem leaveReset_of_operating (hop : c.inReset = false) : c.leaveReset = c := by
  have h : ∀ x : U8, isSet x canResetRequest = false → x &&& ~~~canResetRequest = x := by
    decide
  rw [leaveReset, h c.mode hop]

theorem undoReset_eq : undoReset t c = c.leaveReset := by
  simp only [undoReset, canIn_canmode, canReset_canmode]
  split
  · rfl
  · rename_i h
    exact (c.leaveReset_of_operating (Bool.eq_false_of_not_eq_true h)).symm

/-- The reset request given: a pending transmission is aborted. -/
def enterReset : Sja1000 t := { c with mode := c.mode ||| canResetRequest, tx := none }

@[simp] theorem enterReset_inReset : c.enterReset.inReset = true :=
  isSet_or_self c.mode (by decide)

theorem canSet_canmode : canSet t .canmode canResetRequest c = c.enterReset := by
  simp only [canSet, canIn_canmode, canOut_canmode, setMode, or_reset, if_true]
  rfl

/-- A bit of the status register, by the source of each. -/
theorem isSet_statBits (m : U8) : isSet c.statBits m =
    (isSet c.stat (0xF8 &&& m) || (c.tx.isNone && isSet canTransmitBufferAccess m) ||
      (c.overrun && isSet canDataOverrun m) ||
      (!c.rxfifo.isEmpty && isSet canReceiveBufferStatus m)) := by
  rw [statBits, isSet_or, isSet_or, isSet_or, isSet_and, isSet_if, isSet_if, isSet_unless]

/-- The transmit buffer is accessible exactly when no frame is pending. -/
theorem statBits_transmitBuffer :
    isSet c.statBits canTransmitBufferAccess = c.tx.isNone := by
  rw [isSet_statBits]
  simp [isSet, canTransmitBufferAccess, canDataOverrun, canReceiveBufferStatus]

/-- A bit of the interrupt register. -/
theorem isSet_irqBits (m : U8) : isSet c.irqBits m =
    (isSet c.irq (0xFE &&& m) || (!c.rxfifo.isEmpty && isSet canReceiveInt m)) := by
  rw [irqBits, isSet_or, isSet_and, isSet_unless]

/-- The receive bit reads 1 as long as a frame is stored. -/
theorem irqBits_receive : isSet c.irqBits canReceiveInt = !c.rxfifo.isEmpty := by
  rw [isSet_irqBits]
  simp [isSet, canReceiveInt]

/-- The other interrupt bits read as they are latched. -/
theorem irqBits_latched {b : U8}
    (hb : b = canErrorWarnInt ∨ b = canTransmitInt ∨ b = canOverrunInt) :
    isSet c.irqBits b = isSet c.irq b := by
  rw [isSet_irqBits]
  rcases hb with rfl | rfl | rfl
  · simp [isSet, canErrorWarnInt, canReceiveInt]
  · simp [isSet, canTransmitInt, canReceiveInt]
  · simp [isSet, canOverrunInt, canReceiveInt]

/-- With nothing latched the interrupt register reads the receive bit alone. -/
theorem irqBits_of_irq_zero (h : c.irq = 0) :
    c.irqBits = if c.rxfifo.isEmpty then 0 else canReceiveInt := by
  rw [irqBits, h]
  simp

theorem statBits_dataOverrun : isSet c.statBits canDataOverrun = c.overrun := by
  rw [isSet_statBits]
  simp [isSet, canTransmitBufferAccess, canDataOverrun, canReceiveBufferStatus]

/-- The bus drives the two state bits of the status register. -/
theorem statBits_state :
    isSet c.statBits canErrorStatus = isSet c.stat canErrorStatus ∧
      isSet c.statBits canBusStatus = isSet c.stat canBusStatus := by
  rw [isSet_statBits, isSet_statBits]
  simp [isSet, canErrorStatus, canBusStatus, canTransmitBufferAccess, canDataOverrun,
    canReceiveBufferStatus]

/-- The overrun status cleared. -/
def clearOverrun : Sja1000 t := { c with overrun := false }

theorem clearOverrun_of_not (h : c.overrun = false) : c.clearOverrun = c := by
  rw [clearOverrun, ← h]

/-! ### Registers without a side effect -/

theorem canOut_setReg {r : Reg} (h0 : r.number ≠ 0) (h1 : r.number ≠ 1)
    (hframe : r.number < 16 ∨ 29 ≤ r.number) (v : U8) :
    canOut t r v c = c.setReg r.number v := by
  rw [canOut_eq, write, if_neg h0, if_neg h1, if_neg (by omega)]

theorem setReg_reset (h : c.inReset = true) (n : Nat) (v : U8) :
    c.setReg n v = { c with regs := Function.update c.regs n v } := by
  rw [setReg, h, if_neg (by simp)]

/-- The registers that take a write in either mode. -/
theorem setReg_free {n : Nat} (h : n < 6 ∨ 9 ≤ n) (v : U8) :
    c.setReg n v = { c with regs := Function.update c.regs n v } := by
  rw [setReg, if_neg (by omega)]

theorem canOut_regs {r : Reg} (h0 : r.number ≠ 0) (h1 : r.number ≠ 1)
    (hframe : r.number < 16 ∨ 29 ≤ r.number) (v : U8) :
    ∃ regs, canOut t r v c = { c with regs := regs } :=
  ⟨_, c.canOut_setReg h0 h1 hframe v⟩

theorem canIn_snd {r : Reg} (h : r.number ≠ 3) : (canIn t r c).2 = c := by
  rw [canIn_eq, read]
  split
  · rfl
  · split
    · rfl
    · split <;> rfl

theorem canSetTiming_frame (baud : CInt) :
    ∃ regs, canSetTiming t baud c = { c with regs := regs } := by
  obtain ⟨r1, hclk⟩ := c.canOut_regs (r := .canclk) (by decide) (by decide) (.inr (by decide))
    (canModePelican + canModeClk)
  simp only [canSetTiming, hclk]
  split
  · obtain ⟨r2, h2⟩ := canOut_regs (r := .cantim0) { c with regs := r1 } (by decide) (by decide)
      (.inl (by decide)) ((baud.sshiftRight 8).setWidth 8 &&& 0xff)
    obtain ⟨r3, h3⟩ := canOut_regs (r := .cantim1) { c with regs := r2 } (by decide) (by decide)
      (.inl (by decide)) ((baud &&& 0xff).setWidth 8)
    refine ⟨r3, ?_⟩
    rw [h2, h3, canIn_snd _ (by decide), canIn_snd _ (by decide)]
  · rename_i i _
    obtain ⟨r2, h2⟩ := canOut_regs (r := .cantim0) { c with regs := r1 } (by decide) (by decide)
      (.inl (by decide)) (t.canTiming i).1
    obtain ⟨r3, h3⟩ := canOut_regs (r := .cantim1) { c with regs := r2 } (by decide) (by decide)
      (.inl (by decide)) (t.canTiming i).2
    exact ⟨r3, by rw [h2, h3]⟩

theorem canSetOMode_frame (arg : CInt) :
    ∃ regs, canSetOMode t arg c = { c with regs := regs } :=
  c.canOut_regs (by decide) (by decide) (.inl (by decide)) _

/-! ### The acceptance filter -/

/-- The frame registers after the writes of `CAN_SetMask`. -/
def maskFrame (code mask : CInt) (f : Frame) : Frame :=
  (((((((f.setReg 0 ((code >>> 24 &&& 0xff).setWidth 8)).setReg 1
    ((code >>> 16 &&& 0xff).setWidth 8)).setReg 2 ((code >>> 8 &&& 0xff).setWidth 8)).setReg 3
    ((code >>> 0 &&& 0xff).setWidth 8)).setReg 4 ((mask >>> 24 &&& 0xff).setWidth 8)).setReg 5
    ((mask >>> 16 &&& 0xff).setWidth 8)).setReg 6 ((mask >>> 8 &&& 0xff).setWidth 8)).setReg 7
    ((mask >>> 0 &&& 0xff).setWidth 8)

/-- The rule for `CAN_SetMask`, like the one for `sendcanmsg`. -/
theorem canSetMask_rule {V : Sja1000 t → Frame → Prop}
    (hV : ∀ r i v c f, r.number = 16 + i → i < 13 → V c f → V (canOut t r v c) (f.setReg i v))
    (code mask : CInt) {c : Sja1000 t} {f : Frame} (h : V c f) :
    V (canSetMask t code mask c) (maskFrame code mask f) := by
  have h0 := hV .frameinfo 0 ((code >>> 24 &&& 0xff).setWidth 8) _ _ rfl (by omega) h
  have h1 := hV .extCanid1 1 ((code >>> 16 &&& 0xff).setWidth 8) _ _ rfl (by omega) h0
  have h2 := hV .extCanid2 2 ((code >>> 8 &&& 0xff).setWidth 8) _ _ rfl (by omega) h1
  have h3 := hV .extCanid3 3 ((code >>> 0 &&& 0xff).setWidth 8) _ _ rfl (by omega) h2
  have h4 := hV .extCanid4 4 ((mask >>> 24 &&& 0xff).setWidth 8) _ _ rfl (by omega) h3
  have h5 := hV (.extCanxdata 0) 5 ((mask >>> 16 &&& 0xff).setWidth 8) _ _ rfl (by omega) h4
  have h6 := hV (.extCanxdata 1) 6 ((mask >>> 8 &&& 0xff).setWidth 8) _ _ rfl (by omega) h5
  exact hV (.extCanxdata 2) 7 ((mask >>> 0 &&& 0xff).setWidth 8) _ _ rfl (by omega) h6

/-- `CAN_SetMask` writes the filter in reset mode, the transmit buffer in operating mode. -/
theorem canSetMask_eq (code mask : CInt) :
    canSetMask t code mask c =
      if c.inReset then { c with acc := maskFrame code mask c.acc }
      else { c with txbuf := maskFrame code mask c.txbuf } := by
  split
  · rename_i hres
    exact canSetMask_rule (canOut_acc hres) code mask (f := c.acc) rfl
  · rename_i hop
    exact canSetMask_rule (canOut_txbuf (Bool.eq_false_of_not_eq_true hop)) code mask
      (f := c.txbuf) rfl

end Sja1000

/-! ## Mode and configuration -/

section Mode

variable (s : Chan (Sja1000 t))

theorem canStopChip_eq : canStopChip t s = s.onChip Sja1000.enterReset := by
  rw [canStopChip, Chan.onChip, Sja1000.canSet_canmode]
  rfl

/-- A start drops whatever interrupt is latched and takes the reset request back. -/
theorem canStartChip_eq :
    ∃ regs, canStartChip t s =
      { s with
        sys := { s.sys with rxErr := 0, txErr := 0 }
        chip := { s.chip.leaveReset with irq := 0, regs := regs } } := by
  obtain ⟨regs, hen⟩ := Sja1000.canOut_regs (t := t) (r := .canirqEnable)
    ({ s.chip with irq := 0 } : Sja1000 t) (by decide) (by decide) (.inl (by decide))
    (canOverrunInt + canErrorWarnInt + canTransmitInt + canReceiveInt)
  refine ⟨regs, ?_⟩
  simp only [canStartChip, Sja1000.canIn_canirq, hen, Sja1000.canReset_canmode]
  rfl

/-- `Outc` as `CAN_ChipReset` uses it: the board's value stands for a zero. -/
def Chan.outcInForce (s : Chan (Sja1000 t)) : CInt :=
  if s.sys.outc = 0 then t.outcVal else s.sys.outc

/-- The controller in reset mode, before `CAN_ChipReset` sets the bit timing. -/
def Chan.resetChip (s : Chan (Sja1000 t)) : Sja1000 t :=
  { s.chip with
    mode := canResetRequest + canModeDef, tx := none
    regs := Function.update
      (Function.update s.chip.regs Reg.canclk.number (canModePelican + canModeClk))
      Reg.canoutc.number (s.outcInForce.setWidth 8) }

/-- A controller of this kind always answers the reset request; the reset aborts a pending
    frame and writes output control, bit timing and filter as configured. -/
theorem canChipReset_done :
    canChipReset t s = (true,
      { s with
        sys := { s.sys with outc := s.outcInForce }
        chip := { s.resetChip with
          acc := Sja1000.maskFrame s.sys.accCode s.sys.accMask s.chip.acc
          regs := (canSetTiming t s.sys.baud s.resetChip).regs } }) := by
  -- the reset request is answered at once
  have hreq : requestReset t s.chip =
      (canResetRequest, { s.chip with mode := canResetRequest, tx := none }) := by
    simp only [requestReset, Sja1000.canOut_canmode, Sja1000.canIn_canstat,
      Sja1000.canIn_canmode]
    rfl
  have henters : entersReset t s.chip = true := by
    rw [entersReset, hreq]
    exact show isSet canResetRequest canResetRequest = true by decide
  -- clock, mode, output control and timing, in the order of the source
  have hclk := Sja1000.canOut_setReg (t := t) (r := .canclk)
    ({ s.chip with mode := canResetRequest, tx := none } : Sja1000 t) (by decide) (by decide)
    (.inr (by decide)) (canModePelican + canModeClk)
  rw [Sja1000.setReg_free _ (.inr (by decide))] at hclk
  have hmode : canOut t .canmode (canResetRequest + canModeDef)
      ({ s.chip with
        mode := canResetRequest, tx := none
        regs := Function.update s.chip.regs Reg.canclk.number (canModePelican + canModeClk) } :
          Sja1000 t) =
      { s.chip with
        mode := canResetRequest + canModeDef, tx := none
        regs := Function.update s.chip.regs Reg.canclk.number (canModePelican + canModeClk) } := by
    rw [Sja1000.canOut_canmode]
    rfl
  have houtc : canOut t .canoutc (s.outcInForce.setWidth 8)
      ({ s.chip with
        mode := canResetRequest + canModeDef, tx := none
        regs := Function.update s.chip.regs Reg.canclk.number (canModePelican + canModeClk) } :
          Sja1000 t) = s.resetChip := by
    refine (Sja1000.canOut_setReg _ (by decide) (by decide) (.inl (by decide)) _).trans
      (Sja1000.setReg_reset _ ?_ _ _)
    exact show isSet (canResetRequest + canModeDef) canResetRequest = true by decide
  obtain ⟨regs, htiming⟩ := s.resetChip.canSetTiming_frame s.sys.baud
  -- still in reset mode, so the mask goes into the filter
  have hres : Sja1000.inReset (t := t) { s.resetChip with regs := regs } = true :=
    show isSet (canResetRequest + canModeDef) canResetRequest = true by decide
  have hmask := Sja1000.canSetMask_eq ({ s.resetChip with regs := regs } : Sja1000 t)
    s.sys.accCode s.sys.accMask
  rw [if_pos hres] at hmask
  unfold canChipReset
  simp only [henters, hreq, Bool.not_true, Bool.false_eq_true, if_false]
  rw [hclk, hmode]
  rw [show (if s.sys.outc = 0 then t.outcVal else s.sys.outc) = s.outcInForce from rfl, houtc,
    htiming, hmask]
  rfl

/-- What the reset leaves alone: it touches the mode, the filter and other registers. -/
theorem canChipReset_eq :
    ∃ o regs, canChipReset t s = (true,
      { s with
        sys := { s.sys with outc := o }
        chip := { s.chip with
          mode := canResetRequest + canModeDef, tx := none
          acc := Sja1000.maskFrame s.sys.accCode s.sys.accMask s.chip.acc, regs := regs } }) :=
  ⟨_, _, canChipReset_done s⟩

/-- A filter request writes the filter or the transmit buffer, as the mode has it; any other
    request writes registers without a side effect. -/
theorem canConfig_chip (target : CInt) (val1 val2 : CLong) :
    ∃ sys acc txbuf regs, (canConfig t target val1 val2 s).2 =
      { s with
        sys := sys, chip := { s.chip with acc := acc, txbuf := txbuf, regs := regs } } := by
  have hset : ∀ code mask : CInt, ∃ acc txbuf, canSetMask t code mask s.chip =
      { s.chip with acc := acc, txbuf := txbuf } := by
    intro code mask
    rw [Sja1000.canSetMask_eq]
    split
    · exact ⟨_, s.chip.txbuf, rfl⟩
    · exact ⟨s.chip.acc, _, rfl⟩
  unfold canConfig
  split
  · obtain ⟨acc, txbuf, h⟩ := hset (val2.setWidth 32) (val1.setWidth 32)
    exact ⟨_, acc, txbuf, s.chip.regs, by simp only [setMask, Chan.onChip, h]; rfl⟩
  · split
    · obtain ⟨acc, txbuf, h⟩ := hset s.sys.accCode (val1.setWidth 32)
      exact ⟨_, acc, txbuf, s.chip.regs, by simp only [setMask, Chan.onChip, h]; rfl⟩
    · split
      · obtain ⟨acc, txbuf, h⟩ := hset (val1.setWidth 32) s.sys.accMask
        exact ⟨_, acc, txbuf, s.chip.regs, by simp only [setMask, Chan.onChip, h]; rfl⟩
      · split
        · obtain ⟨regs, h⟩ := s.chip.canSetTiming_frame (val1.setWidth 32)
          exact ⟨_, s.chip.acc, s.chip.txbuf, regs, by simp only [Chan.onChip, h]; rfl⟩
        · split
          · obtain ⟨regs, h⟩ := s.chip.canSetOMode_frame (val1.setWidth 32)
            exact ⟨s.sys, s.chip.acc, s.chip.txbuf, regs, by simp only [Chan.onChip, h]⟩
          · exact ⟨s.sys, s.chip.acc, s.chip.txbuf, s.chip.regs, rfl⟩

end Mode

/-! ## Transmission -/

section Transmit

variable (s : Chan (Sja1000 t))

/-- Whether running the consumer on the head message would arm the timer. -/
def Chan.headWaits (s : Chan (Sja1000 t)) : Bool := waits s.sys.baud s.txq.head.capLength

/-- `sendcanmsg` makes a message wait: it stays in its slot without its delay. -/
theorem sendcanmsg_waits {m : Canmsg} (hw : waits s.sys.baud m.capLength = true) :
    sendcanmsg t m s = (m.capLength.clearDelay, false,
      s.kapiScheduleDelayed (remainingDelay s.sys.baud m.capLength)) := by
  simp [sendcanmsg, hw]

/-- `sendcanmsg` loads a message. -/
theorem sendcanmsg_loads {m : Canmsg} (hw : waits s.sys.baud m.capLength = false) :
    sendcanmsg t m s = (m.capLength, true,
      { s with
        chip := s.chip.load m.capLength
        txinprogress := 1
        hist := { s.hist with loaded := s.hist.loaded ++ [m.onWire] } }) := by
  simp [sendcanmsg, hw, s.chip.loadFrame_eq m.rounds_capLength_le]

/-- An empty queue becomes idle. -/
theorem txConsume_empty (h : s.txq.empty = true) :
    txConsume t s = { s with txq := s.txq.setIdle true } := by
  simp [txConsume, MsgQ.qconsume, h]

/-- A head message that has to wait stays, without its delay, and the timer is armed. -/
theorem txConsume_waits (h : s.txq.empty = false) (hw : s.headWaits = true) :
    txConsume t s =
      { s.kapiScheduleDelayed (remainingDelay s.sys.baud s.txq.head.capLength) with
        txq := s.txq.setHead s.txq.head.capLength.clearDelay } := by
  simp [txConsume, MsgQ.qconsume, h, sendcanmsg_waits s hw]

/-- Any other head message is loaded and consumed. -/
theorem txConsume_loads (h : s.txq.empty = false) (hw : s.headWaits = false) :
    txConsume t s =
      { s with
        txq := (s.txq.setHead s.txq.head.capLength).advance
        txinprogress := 1
        hist := { s.hist with loaded := s.hist.loaded ++ [s.txq.head.onWire] }
        chip := s.chip.load s.txq.head.capLength } := by
  simp [txConsume, MsgQ.qconsume, h, sendcanmsg_loads s hw]

/-- The three things that running the consumer can do. -/
theorem txConsume_cases :
    (s.txq.empty = true ∧ txConsume t s = { s with txq := s.txq.setIdle true }) ∨
    (s.txq.empty = false ∧ s.headWaits = true ∧ txConsume t s =
      { s.kapiScheduleDelayed (remainingDelay s.sys.baud s.txq.head.capLength) with
        txq := s.txq.setHead s.txq.head.capLength.clearDelay }) ∨
    (s.txq.empty = false ∧ s.headWaits = false ∧ txConsume t s =
      { s with
        txq := (s.txq.setHead s.txq.head.capLength).advance
        txinprogress := 1
        hist := { s.hist with loaded := s.hist.loaded ++ [s.txq.head.onWire] }
        chip := s.chip.load s.txq.head.capLength }) := by
  cases he : s.txq.empty with
  | true => exact .inl ⟨rfl, txConsume_empty s he⟩
  | false =>
      cases hw : s.headWaits with
      | true => exact .inr (.inl ⟨rfl, rfl, txConsume_waits s he hw⟩)
      | false => exact .inr (.inr ⟨rfl, rfl, txConsume_loads s he hw⟩)

end Transmit

/-! ## Reception -/

section Receive

theorem rxproduce_full {σ : Type} {produce : Canmsg → σ → Canmsg × σ} {s : Chan σ}
    (h : s.rxq.full = true) : rxproduce produce s = { s with rxstatus := bufOverrun } := by
  simp [rxproduce, MsgQ.qproduce, h]

theorem rxproduce_room {σ : Type} {produce : Canmsg → σ → Canmsg × σ} {s : Chan σ}
    (h : s.rxq.full = false) :
    rxproduce produce s = Chan.wakeUp { s with
      rxq := (s.rxq.fill (produce s.rxq.freeSlot s.chip).1).publish
      chip := (produce s.rxq.freeSlot s.chip).2
      rxstatus := bufOk
      hist := { s.hist with
        received := s.hist.received ++ [(produce s.rxq.freeSlot s.chip).1] } } := by
  simp [rxproduce, MsgQ.qproduce, h]

variable (inf : Msginf) (s : Chan (Sja1000 t))

/-- The receive branch clears a data overrun whether or not the queue had room. -/
theorem rxIrq_eq {irqsrc : U8} (h : isSet irqsrc canReceiveInt = true) :
    rxIrq t irqsrc inf s = (rxproduce (readcanmsg t inf) s).onChip Sja1000.clearOverrun := by
  have hst := (rxproduce (readcanmsg t inf) s).chip.statBits_dataOverrun
  simp only [rxIrq, h, if_true, Sja1000.canIn_canstat, hst, Sja1000.canOut_cancmd,
    Sja1000.command_clearOverrun]
  split
  · rfl
  · rename_i hov
    rw [Chan.onChip, Sja1000.clearOverrun_of_not _ (Bool.eq_false_of_not_eq_true hov)]

/-- The receive branch leaves the states and the transmission of the controller alone. -/
theorem rxIrq_chip (irqsrc : U8) :
    (rxIrq t irqsrc inf s).chip.stat = s.chip.stat ∧
      (rxIrq t irqsrc inf s).chip.overrun =
        (s.chip.overrun && !isSet irqsrc canReceiveInt) ∧
      (rxIrq t irqsrc inf s).chip.tx = s.chip.tx := by
  by_cases hb : isSet irqsrc canReceiveInt = true
  · rw [rxIrq_eq inf s hb, hb, Bool.not_true, Bool.and_false]
    cases hfull : s.rxq.full with
    | true =>
        rw [rxproduce_full hfull]
        exact ⟨rfl, rfl, rfl⟩
    | false =>
        rw [rxproduce_room hfull]
        simp only [Chan.onChip, Chan.wakeUp, s.chip.readcanmsg_eq]
        exact ⟨rfl, rfl, rfl⟩
  · have hf := Bool.eq_false_of_not_eq_true hb
    rw [rxIrq, if_neg hb, hf, Bool.not_false, Bool.and_true]
    exact ⟨rfl, rfl, rfl⟩

/-- Whether the error-warning branch simulates a transmit interrupt. -/
def Chan.fakeTxInt (irqsrc : U8) (s : Chan (Sja1000 t)) : Bool :=
  errFlags s.chip.statBits = 0 && (s.txinprogress != 0 && !isSet irqsrc canTransmitInt) &&
    s.chip.tx.isNone

/-- `msginf` behind the error-warning branch. -/
def Msginf.addErr (inf : Msginf) (c : Sja1000 t) : Msginf :=
  { inf with flags := inf.flags + errFlags c.statBits }

/-- The error-warning branch takes back a reset request, stores an error message and
    may add the transmit bit to the interrupt source. -/
theorem errWarnIrq_eq {irqsrc : U8} (h : isSet irqsrc canErrorWarnInt = true) :
    errWarnIrq t irqsrc inf s =
      (if s.fakeTxInt irqsrc then irqsrc ||| canTransmitInt else irqsrc,
        inf.addErr s.chip, rxproduceErr (inf.addErr s.chip) (s.onChip Sja1000.leaveReset)) := by
  have hstat : s.chip.leaveReset.statBits = s.chip.statBits := rfl
  have htba := s.chip.statBits_transmitBuffer
  have hflags : inf.flags + (0 : CInt) = inf.flags := BitVec.add_zero inf.flags
  simp only [errWarnIrq, h, if_true, Sja1000.undoReset_eq, Sja1000.canIn_canstat, hstat,
    Msginf.addErr]
  by_cases herr : errFlags s.chip.statBits = 0
  · -- error active: the transmit buffer tells whether a transmission was lost
    simp only [lostTxInt, Sja1000.canIn_canstat, Chan.fakeTxInt, herr, if_true, hstat, htba,
      hflags]
    by_cases hlost : s.txinprogress != 0 && !isSet irqsrc canTransmitInt
    · simp only [hlost, if_true, decide_true, Bool.and_self, Bool.true_and]
      rfl
    · simp only [hlost, Bool.false_eq_true, if_false, Bool.and_false, Bool.false_and]
      rfl
  · simp only [Chan.fakeTxInt, herr, if_false, decide_false, Bool.false_and, Bool.false_eq_true]
    rfl

/-- The error-warning branch leaves the other bits of the interrupt source alone. -/
theorem errWarnIrq_isSet (irqsrc : U8) {b : U8} (hb : canTransmitInt &&& b = 0) :
    isSet (errWarnIrq t irqsrc inf s).1 b = isSet irqsrc b := by
  by_cases h : isSet irqsrc canErrorWarnInt
  · have hor : (irqsrc ||| canTransmitInt) &&& b = irqsrc &&& b := by
      rw [BitVec.and_or_distrib_right, hb]
      exact BitVec.or_zero
    rw [errWarnIrq_eq inf s h]
    split
    · rw [isSet, hor, isSet]
    · rfl
  · simp [errWarnIrq, h]

/-- The overrun branch stores an error message and clears the data overrun. -/
theorem overrunIrq_eq {irqsrc : U8} (h : isSet irqsrc canOverrunInt = true) :
    overrunIrq t irqsrc inf s =
      (rxproduceErr
        (if s.chip.overrun then { inf with flags := inf.flags + msgOvr } else inf)
        { s with sys := { s.sys with overrun := s.sys.overrun + 1 } }).onChip
          Sja1000.clearOverrun := by
  have hov := s.chip.statBits_dataOverrun
  simp only [overrunIrq, h, if_true, Sja1000.canIn_canstat, hov]
  simp only [Chan.onChip, Sja1000.canOut_cancmd, Sja1000.command_clearOverrun]
  rfl

end Receive

/-! ## Iterations -/

/-- The interrupt register as the handler has read it: nothing is latched any more. -/
def Chan.clearIrq (s : Chan (Sja1000 t)) : Chan (Sja1000 t) :=
  s.onChip fun c => { c with irq := 0 }

/-- A step of the interrupt loop reads the bits, and handles them if there are any. -/
theorem irqIteration_eq (tstamp : Timeval) (s : Chan (Sja1000 t)) :
    irqIteration t tstamp s =
      if s.chip.irqBits = 0 then s.clearIrq
      else irqBody t tstamp s.chip.irqBits s.clearIrq := by
  simp only [irqIteration, Sja1000.canIn_canirq]
  rfl

/-! ## Reading and writing -/

section Files

variable {σ : Type}

/-- A round of `can_read` takes the head message off the queue. -/
theorem readOne_cases (s : Chan σ) :
    (s.rxq.empty = true ∧ readOne s = (none, { s with rxq := s.rxq.setIdle true })) ∨
    (s.rxq.empty = false ∧ readOne s = (some s.rxq.head,
      { s with
        rxq := s.rxq.advance
        hist := { s.hist with returned := s.hist.returned ++ [s.rxq.head] } })) := by
  cases he : s.rxq.empty with
  | true =>
      refine .inl ⟨rfl, ?_⟩
      simp [readOne, MsgQ.qconsume, he]
  | false =>
      -- the callback of `can_read` copies the slot and leaves it alone
      have hself : s.rxq.setHead s.rxq.head = s.rxq := by
        simp [MsgQ.setHead, MsgQ.head]
      refine .inr ⟨rfl, ?_⟩
      simp [readOne, MsgQ.qconsume, he, hself]

/-- `can_read` hands out messages from the front of the queue. -/
theorem readLoop_spec (n : Nat) (s : Chan σ) :
    ∃ rxq, (readLoop n s).2 =
        { s with
          rxq := rxq
          hist := { s.hist with returned := s.hist.returned ++ (readLoop n s).1 } } ∧
      (readLoop n s).1 ++ rxq.contents = s.rxq.contents ∧
      (∀ k, s.rxq.WF k → rxq.WF k) := by
  induction n generalizing s with
  | zero => exact ⟨s.rxq, by simp [readLoop], rfl, fun k h => h⟩
  | succ n ih =>
      rcases readOne_cases s with ⟨-, hone⟩ | ⟨hne, hone⟩
      · -- an empty queue ends the loop
        refine ⟨s.rxq.setIdle true, ?_, ?_, ?_⟩
        · simp [readLoop, hone]
        · simp only [readLoop, hone]
          rfl
        · intro k hk
          exact hk.setIdle true
      · have hcont := MsgQ.contents_ne_nil hne
        obtain ⟨rxq, hs, happ, hwf⟩ := ih
          { s with
            rxq := s.rxq.advance
            hist := { s.hist with returned := s.hist.returned ++ [s.rxq.head] } }
        refine ⟨rxq, ?_, ?_, ?_⟩
        · simp only [readLoop, hone, hs]
          simp
        · simp only [readLoop, hone, List.cons_append]
          rw [happ, MsgQ.contents_eq_cons hcont]
        · intro k hk
          exact hwf k (hk.advance hcont)

end Files

/-! ## Writing -/

/-- The queue of `writeOne` before the consumer is kicked. -/
def Chan.enqueue (u : UserMsg) (s : Chan (Sja1000 t)) : Chan (Sja1000 t) :=
  { s with
    txq := (s.txq.fill (u s.txq.freeSlot)).publish
    hist := { s.hist with accepted := s.hist.accepted ++ [u s.txq.freeSlot] } }

theorem writeOne_full {u : UserMsg} {s : Chan (Sja1000 t)} (h : s.txq.full = true) :
    writeOne t u s = (false, s) := by
  simp [writeOne, MsgQ.qproduce, h]

theorem writeOne_room {u : UserMsg} {s : Chan (Sja1000 t)} (h : s.txq.full = false) :
    writeOne t u s = (true, kickIdle t (s.enqueue u)) := by
  simp [writeOne, MsgQ.qproduce, h, Chan.enqueue]

/-- An idle queue hands the role of the consumer to the writer, who keeps it while the
    message waits or is sent. -/
theorem kickIdle_enqueue {u : UserMsg} {s : Chan (Sja1000 t)} (h : s.txq.idle = true) :
    kickIdle t (s.enqueue u) =
      txConsume t { s.enqueue u with txq := (s.enqueue u).txq.setIdle false } := by
  have hidle : (s.enqueue u).txq.idle = true := h
  rw [kickIdle, if_pos hidle]

theorem kickIdle_busy {u : UserMsg} {s : Chan (Sja1000 t)} (h : s.txq.idle = true)
    (hne : (s.enqueue u).txq.empty = false) : (kickIdle t (s.enqueue u)).txq.idle = false := by
  have hne' : ((s.enqueue u).txq.setIdle false).empty = false := hne
  rw [kickIdle_enqueue h]
  rcases txConsume_cases { s.enqueue u with txq := (s.enqueue u).txq.setIdle false } with
    ⟨he, -⟩ | ⟨-, -, heq⟩ | ⟨-, -, heq⟩
  · exact absurd he (by simp [hne'])
  · rw [heq]
    rfl
  · rw [heq]
    rfl

section WriteRule

variable {σ : Type} [Chip σ] {P : Chan σ → Prop}

/-- What every round of `can_write` preserves, its loop preserves. -/
theorem writeLoop_rule (hone : ∀ u s, P s → P (writeOne t u s).2) {s : Chan σ} (hs : P s)
    (us : List UserMsg) : P (writeLoop t us s).2 := by
  induction us generalizing s with
  | nil => exact hs
  | cons u us ih =>
      simp only [writeLoop]
      split
      · exact ih (hone u s hs)
      · exact hone u s hs

/-- What every round of `can_write` preserves, the call preserves. -/
theorem canWrite_rule (hone : ∀ u s, P s → P (writeOne t u s).2) {s : Chan σ} (hs : P s)
    (accessOk : Bool) (us : List UserMsg) : P (canWrite t accessOk us s).2 := by
  cases accessOk with
  | false => exact hs
  | true => exact writeLoop_rule hone hs us

/-- The rule for a call whose first round establishes what the others preserve. -/
theorem canWrite_cons_rule (hone : ∀ u s, P s → P (writeOne t u s).2) {u : UserMsg}
    {s : Chan σ} (hfirst : P (writeOne t u s).2) (us : List UserMsg) :
    P (canWrite t true (u :: us) s).2 := by
  show P (writeLoop t (u :: us) s).2
  simp only [writeLoop]
  split
  · exact writeLoop_rule hone hfirst us
  · exact hfirst

end WriteRule

end Can4linux
