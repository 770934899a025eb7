/-
  Can4linux.TxBuffer

  The transmit buffer of the controller, while the interrupt handler runs step by
  step.  Whoever runs the consumer of the transmit queue loads a frame, so at most
  one may be about to: the next writer (`idle`), the delay timer, the frame under
  transmission, its latched interrupt, or a handler that has read it.

  The recovery branch of the error warning makes up an interrupt from a status
  register that it reads later than `canirq`.  A frame that is sent in between
  counts twice: its own interrupt is latched and is still to be handled.
-/

import Can4linux.IrqSteps
import Can4linux.TxProgress

namespace Can4linux

variable {t : Target}

/-! ## The system -/

/-- An event of the controller. -/
def Op.isEvent : Op → Bool
  | .arrive _ | .txDone | .busEvent _ _ _ | .busOff => true
  | .open _ | .close | .write _ _ | .read _ _ | .command _ | .config _ _ _ | .irq _
  | .timer => false

/-- A channel, and where its handler stands. -/
structure TxBuf (t : Target) where
  chan : Chan (Sja1000 t)
  pc : IrqPc

namespace TxBuf

/-- One step; the handler makes one step of its own at a time. -/
def step (s : TxBuf t) : Op → Option (TxBuf t)
  | .irq tstamp =>
      let r := irqStep t tstamp s.chan s.pc
      some ⟨r.1, r.2⟩
  | .open _ | .close | .command _ => none
  | op => (s.chan.step op).map fun chan => { s with chan := chan }

/-- What the loads of a system rely on, in every run from `s₀`. -/
structure SafeLoads (step : TxBuf t → Op → Option (TxBuf t)) (s₀ : TxBuf t) : Prop where
  /-- a step loads at most one frame, and finds the transmit buffer accessible -/
  accessible : ∀ ops s op s', Run.exec step s₀ ops = some s → step s op = some s' →
    s'.chan.hist.loaded = s.chan.hist.loaded ∨
      ((∃ m, s'.chan.hist.loaded = s.chan.hist.loaded ++ [m]) ∧
        isSet s.chan.chip.statBits canTransmitBufferAccess = true)
  /-- between two loads the frame of the first one has been sent, or a bus-off has aborted it -/
  once : ∀ ops s op s' ops' u op' u', Run.exec step s₀ ops = some s → step s op = some s' →
    s'.chan.hist.loaded ≠ s.chan.hist.loaded → s.chan.chip.inReset = false →
    Run.exec step s' ops' = some u → step u op' = some u' →
    u'.chan.hist.loaded ≠ u.chan.hist.loaded → Op.txDone ∈ ops' ∨ Op.busOff ∈ ops'

/-! ## Who will run the consumer -/

end TxBuf

/-- The handler runs the consumer before it reads `canirq` again. -/
def IrqPc.carries : IrqPc → Bool
  | .rx irqsrc _ | .rxStat irqsrc _ | .rxClear irqsrc _ | .warn irqsrc _ | .undo irqsrc _
  | .undoWrite irqsrc _ _ | .warnStat irqsrc _ | .warnProg irqsrc _ | .warnAccess irqsrc _
  | .warnMsg irqsrc _ | .tx irqsrc _ => isSet irqsrc canTransmitInt
  | .txRun _ _ => true
  | .out | .ovr _ _ | .ovrMsg _ | .ovrClear => false

/-- Taking back a reset request does not make one. -/
def IrqPc.ModeOk : IrqPc → Prop
  | .undoWrite _ _ mode => isSet mode canResetRequest = false
  | _ => True

/-- How many outside the handler will have the consumer run. -/
def Chan.roles (s : Chan (Sja1000 t)) : Nat :=
  s.txq.idle.toNat + s.timerArmed.toNat + s.chip.tx.isSome.toNat +
    (isSet s.chip.irq canTransmitInt).toNat

namespace TxBuf

def holders (s : TxBuf t) : Nat := s.chan.roles + s.pc.carries.toNat

/-- The handler does not make up a transmit interrupt while another one is latched, or while
    the queue is idle or the timer armed. -/
def timely (s : TxBuf t) : Op → Bool
  | .irq _ =>
      match s.pc with
      | .warnAccess _ _ =>
          !(s.chan.txq.idle || s.chan.timerArmed || isSet s.chan.chip.irq canTransmitInt)
      | _ => true
  | _ => true

end TxBuf

section Roles

variable {s s' : Chan (Sja1000 t)}

theorem roles_of_txSide (h : s'.txSide = s.txSide) : s'.roles = s.roles := by
  have htxq : s'.txq = s.txq := congrArg TxSide.txq h
  have hdly : s'.delayedwork = s.delayedwork := congrArg TxSide.delayedwork h
  have hkapi : s'.kapi = s.kapi := congrArg TxSide.kapi h
  have htx : s'.chip.tx = s.chip.tx := congrArg TxSide.tx h
  have hirq : s'.chip.irq = s.chip.irq := congrArg TxSide.irq h
  simp only [Chan.roles, Chan.timerArmed, htxq, hdly, hkapi, htx, hirq]

/-- Running the consumer hands one role on, at most. -/
theorem roles_txConsume : (txConsume t s).roles ≤ s.roles + 1 := by
  rcases txConsume_cases s with ⟨-, heq⟩ | ⟨-, -, heq⟩ | ⟨-, -, heq⟩
  · have hidle := s.txq.idle.toNat_lt
    rw [heq]
    show true.toNat + s.timerArmed.toNat + s.chip.tx.isSome.toNat + _ ≤ _
    simp only [Chan.roles, Bool.toNat_true]
    omega
  · obtain ⟨dw, kapi, hframe⟩ :=
      kapiScheduleDelayed_frame s (remainingDelay s.sys.baud s.txq.head.capLength)
    rw [heq, hframe]
    have harmed := Bool.toNat_lt (Chan.timerArmed { s with delayedwork := dw, kapi := kapi })
    show s.txq.idle.toNat +
      (Chan.timerArmed { s with delayedwork := dw, kapi := kapi }).toNat +
      s.chip.tx.isSome.toNat + (isSet s.chip.irq canTransmitInt).toNat ≤ _
    simp only [Chan.roles]
    omega
  · have hpend := Bool.toNat_lt (s.chip.load s.txq.head.capLength).tx.isSome
    rw [heq]
    show s.txq.idle.toNat + s.timerArmed.toNat +
      (s.chip.load s.txq.head.capLength).tx.isSome.toNat +
      (isSet (s.chip.load s.txq.head.capLength).irq canTransmitInt).toNat ≤ _
    rw [Sja1000.load_irq]
    simp only [Chan.roles]
    omega

/-- Running the consumer loads a frame or leaves the controller alone. -/
theorem loads_txConsume :
    ((txConsume t s).hist.loaded = s.hist.loaded ∧ (txConsume t s).chip = s.chip) ∨
    ((∃ m, (txConsume t s).hist.loaded = s.hist.loaded ++ [m]) ∧
      (txConsume t s).txq.idle = s.txq.idle ∧
      (s.chip.inReset = false → (txConsume t s).chip.tx.isSome = true)) := by
  rcases txConsume_cases s with ⟨-, heq⟩ | ⟨-, -, heq⟩ | ⟨-, -, heq⟩
  · rw [heq]
    exact .inl ⟨rfl, rfl⟩
  · obtain ⟨dw, kapi, hframe⟩ :=
      kapiScheduleDelayed_frame s (remainingDelay s.sys.baud s.txq.head.capLength)
    rw [heq, hframe]
    exact .inl ⟨rfl, rfl⟩
  · rw [heq]
    refine .inr ⟨⟨_, rfl⟩, rfl, ?_⟩
    intro hop
    show (s.chip.load s.txq.head.capLength).tx.isSome = true
    rw [Sja1000.load, hop]
    rfl

/-- An event of the controller concerns nothing else, and gives nobody a new role. -/
theorem roles_event {op : Op} (hop : op.isEvent = true) (h : s.step op = some s') :
    s'.roles ≤ s.roles ∧ ∃ chip, s' = { s with chip := chip } := by
  cases op with
  | arrive f =>
      obtain ⟨-, rfl⟩ := Chan.step_arrive h
      exact ⟨Nat.le_refl _, _, rfl⟩
  | busEvent bits stat overrun =>
      obtain ⟨hbits, rfl⟩ := Chan.step_busEvent h
      refine ⟨?_, _, rfl⟩
      show s.txq.idle.toNat + s.timerArmed.toNat + s.chip.tx.isSome.toNat +
        (isSet (s.chip.irq ||| bits) canTransmitInt).toNat ≤ s.roles
      rw [isSet_or, hbits, Bool.or_false, Chan.roles]
  | txDone =>
      -- the frame passes its role on to its interrupt
      obtain ⟨hpend, rfl⟩ := Chan.step_txDone h
      have hbit := Bool.toNat_lt (isSet (s.chip.irq ||| canTransmitInt) canTransmitInt)
      refine ⟨?_, _, rfl⟩
      show s.txq.idle.toNat + s.timerArmed.toNat + 0 +
        (isSet (s.chip.irq ||| canTransmitInt) canTransmitInt).toNat ≤ s.roles
      rw [Chan.roles, hpend, Bool.toNat_true]
      omega
  | busOff =>
      obtain rfl := Chan.step_busOff h
      have hnone : s.chip.busOff.tx = none := by
        simp [Sja1000.busOff, Sja1000.setMode, Sja1000.or_reset]
      have hbit : isSet (s.chip.irq ||| canErrorWarnInt) canTransmitInt =
          isSet s.chip.irq canTransmitInt := by
        rw [isSet_or, show isSet canErrorWarnInt canTransmitInt = false by decide, Bool.or_false]
      refine ⟨?_, _, rfl⟩
      show s.txq.idle.toNat + s.timerArmed.toNat + s.chip.busOff.tx.isSome.toNat +
        (isSet (s.chip.irq ||| canErrorWarnInt) canTransmitInt).toNat ≤ s.roles
      rw [hnone, hbit, Chan.roles, Option.isSome_none, Bool.toNat_false]
      omega
  | «open» _ | close | write _ _ | read _ _ | command _ | config _ _ _ | irq _ | timer => cases hop

/-- After an open the next writer has the role, and nobody else but an old timer. -/
theorem roles_open {env : OpenEnv} (hstep : s.step (.open env) = some s')
    (htimer : s'.timerArmed = false) : s'.roles = 1 := by
  obtain ⟨-, ri, held, o, c, regs, rxb, txb, heq⟩ := Chan.step_open hstep
  have hidle : s'.txq.idle = true := congrArg (fun c => c.txq.idle) heq
  have htx : s'.chip.tx = none := congrArg (fun c => c.chip.tx) heq
  have hirq : s'.chip.irq = 0 := congrArg (fun c => c.chip.irq) heq
  rw [Chan.roles, hidle, htimer, htx, hirq]
  decide

end Roles

namespace TxBuf

/-! ## What a step does -/

/-- What a step does to the transmit buffer, a frame sent or aborted apart. -/
structure Fair (s s' : TxBuf t) : Prop where
  holders : s'.holders ≤ 1
  /-- a load finds the buffer accessible and, in operating mode, fills it -/
  loads : s'.chan.hist.loaded = s.chan.hist.loaded ∨
    (s.chan.chip.tx = none ∧ (∃ m, s'.chan.hist.loaded = s.chan.hist.loaded ++ [m]) ∧
      (s.chan.chip.inReset = false → s'.chan.chip.tx.isSome = true))
  pending : s.chan.chip.tx.isSome = true → s'.chan.chip.tx.isSome = true

/-- At most one will run the consumer. -/
structure Inv (s : TxBuf t) : Prop where
  one : s.holders ≤ 1
  mode : s.pc.ModeOk

variable {s s' : TxBuf t}

/-- Whoever runs the consumer is the only one, so that the buffer is accessible. -/
theorem tx_of_roles {c : Chan (Sja1000 t)} (h : c.roles = 0) : c.chip.tx = none := by
  have hpend : c.chip.tx.isSome.toNat = 0 := by
    rw [Chan.roles] at h
    omega
  cases htx : c.chip.tx with
  | none => rfl
  | some f =>
      rw [htx] at hpend
      cases hpend

/-- A step that loads no frame and gives nobody a role that was not there before. -/
structure Quiet (s s' : TxBuf t) : Prop where
  holders : s'.holders ≤ s.holders
  loaded : s'.chan.hist.loaded = s.chan.hist.loaded
  pending : s.pc.ModeOk → s.chan.chip.tx.isSome = true → s'.chan.chip.tx.isSome = true

theorem Fair.of_quiet (h : s.Inv) (hq : Quiet s s') : Fair s s' :=
  ⟨Nat.le_trans hq.holders h.one, .inl hq.loaded, hq.pending h.mode⟩

/-- A step that leaves the transmit side alone. -/
theorem Quiet.of_txSide (hside : s'.chan.txSide = s.chan.txSide)
    (hpc : s'.pc.carries.toNat ≤ s.pc.carries.toNat) : Quiet s s' := by
  have htx : s'.chan.chip.tx = s.chan.chip.tx := congrArg TxSide.tx hside
  refine ⟨?_, congrArg TxSide.loaded hside, ?_⟩
  · rw [TxBuf.holders, TxBuf.holders, roles_of_txSide hside]
    omega
  · rw [htx]
    exact fun _ => id

/-- A step that runs the consumer and gives up the only role for it. -/
theorem Fair.of_txConsume {c : Chan (Sja1000 t)} (hroles : c.roles = 0)
    (hchip : c.chip = s.chan.chip) (hloaded : c.hist.loaded = s.chan.hist.loaded)
    (hside : s'.chan.txSide = (txConsume t c).txSide) (hpc : s'.pc.carries = false) :
    Fair s s' := by
  have hnone := tx_of_roles hroles
  have hle := roles_txConsume (s := c)
  have hs' : s'.chan.hist.loaded = (txConsume t c).hist.loaded := congrArg TxSide.loaded hside
  have htx : s'.chan.chip.tx = (txConsume t c).chip.tx := congrArg TxSide.tx hside
  refine ⟨?_, ?_, ?_⟩
  · rw [TxBuf.holders, roles_of_txSide hside, hpc, Bool.toNat_false]
    omega
  · rw [hs', ← hloaded, ← hchip, htx]
    rcases loads_txConsume (s := c) with ⟨hsame, -⟩ | ⟨hnew, -, hpend⟩
    · exact .inl hsame
    · exact .inr ⟨hnone, hnew, hpend⟩
  · rw [← hchip, hnone]
    intro hpend
    cases hpend

/-- The status register shows an accessible buffer: the handler makes up an interrupt.  That
    is in order exactly if nobody else will run the consumer. -/
theorem holders_access {irqsrc : U8} {inf : Msginf} {tstamp : Timeval} (h : s.holders ≤ 1)
    (hpc : s.pc = .warnAccess irqsrc inf) (hstep : s.step (.irq tstamp) = some s') :
    s'.holders ≤ 1 ↔ s.timely (.irq tstamp) = true := by
  obtain rfl := Option.some.inj hstep
  -- the four roles outside the handler, and its own
  have hcount : ∀ a b p d e : Bool, a.toNat + b.toNat + p.toNat + d.toNat + e.toNat ≤ 1 →
      (a.toNat + b.toNat + p.toNat + d.toNat + (if p then e else true).toNat ≤ 1 ↔
        (!(a || b || d)) = true) := by
    decide
  have hmade : isSet (if isSet s.chan.chip.statBits canTransmitBufferAccess
      then irqsrc ||| canTransmitInt else irqsrc) canTransmitInt =
        if s.chan.chip.tx.isSome then isSet irqsrc canTransmitInt else true := by
    rw [Sja1000.statBits_transmitBuffer]
    cases s.chan.chip.tx with
    | none =>
        exact isSet_or_self irqsrc (by decide)
    | some f => rfl
  rw [TxBuf.holders, Chan.roles, hpc] at h
  simp only [timely, holders, hpc, irqStep, Sja1000.canIn_canstat, Chan.roles, IrqPc.carries,
    hmade] at h ⊢
  exact hcount _ _ _ _ _ h

/-- The handler loads nothing and makes up nothing, two places apart. -/
theorem Quiet.handler (tstamp : Timeval) {chan : Chan (Sja1000 t)} {pc : IrqPc}
    (haccess : ∀ irqsrc inf, pc ≠ .warnAccess irqsrc inf)
    (hrun : ∀ irqsrc inf, pc ≠ .txRun irqsrc inf) :
    Quiet ⟨chan, pc⟩ ⟨(irqStep t tstamp chan pc).1, (irqStep t tstamp chan pc).2⟩ := by
  cases pc with
  | warnAccess irqsrc inf => exact absurd rfl (haccess irqsrc inf)
  | txRun irqsrc inf => exact absurd rfl (hrun irqsrc inf)
  | out =>
      -- a latched interrupt passes its role on to the handler that reads it
      have hbit := chan.chip.irqBits_latched (b := canTransmitInt) (.inr (.inl rfl))
      simp only [irqStep, Sja1000.canIn_canirq]
      split
      · refine ⟨?_, rfl, fun _ => id⟩
        show chan.txq.idle.toNat + chan.timerArmed.toNat + chan.chip.tx.isSome.toNat +
          (isSet (0 : U8) canTransmitInt).toNat + 0 ≤ chan.roles + 0
        rw [isSet_zero, Bool.toNat_false, Chan.roles]
        omega
      · refine ⟨?_, rfl, fun _ => id⟩
        show chan.txq.idle.toNat + chan.timerArmed.toNat + chan.chip.tx.isSome.toNat +
          (isSet (0 : U8) canTransmitInt).toNat + (isSet chan.chip.irqBits canTransmitInt).toNat ≤
            chan.roles + 0
        rw [isSet_zero, Bool.toNat_false, hbit, Chan.roles]
        omega
  | undoWrite irqsrc inf mode =>
      simp only [irqStep, Chan.onChip, Sja1000.canOut_canmode, Sja1000.setMode]
      by_cases hmode : isSet mode canResetRequest = true
      · rw [if_pos hmode]
        refine ⟨?_, rfl, ?_⟩
        · show chan.txq.idle.toNat + chan.timerArmed.toNat + 0 +
            (isSet chan.chip.irq canTransmitInt).toNat + (isSet irqsrc canTransmitInt).toNat ≤
              chan.roles + (isSet irqsrc canTransmitInt).toNat
          rw [Chan.roles]
          omega
        · intro hok
          have hnot : isSet mode canResetRequest = false := hok
          rw [hmode] at hnot
          cases hnot
      · rw [if_neg hmode]
        exact ⟨Nat.le_refl _, rfl, fun _ => id⟩
  | rx irqsrc inf =>
      simp only [irqStep]
      split
      · refine Quiet.of_txSide (rxproduce_txSide _ ?_) (Nat.le_refl _)
        exact ⟨_, congrArg Prod.snd (chan.chip.readcanmsg_eq inf chan.rxq.freeSlot)⟩
      · exact Quiet.of_txSide rfl (Nat.le_refl _)
  | rxStat irqsrc inf | warnStat irqsrc inf =>
      simp only [irqStep, Sja1000.canIn_canstat]
      split
      · exact Quiet.of_txSide rfl (Nat.le_refl _)
      · exact Quiet.of_txSide rfl (Nat.le_refl _)
  | rxClear irqsrc inf =>
      simp only [irqStep, Chan.onChip, Sja1000.canOut_cancmd, Sja1000.command_clearOverrun]
      exact Quiet.of_txSide rfl (Nat.le_refl _)
  | warn irqsrc inf =>
      simp only [irqStep, Sja1000.canIn_canmode]
      split
      · split
        · exact Quiet.of_txSide rfl (Nat.le_refl _)
        · exact Quiet.of_txSide rfl (Nat.le_refl _)
      · exact Quiet.of_txSide rfl (Nat.le_refl _)
  | undo irqsrc inf =>
      simp only [irqStep, Sja1000.canIn_canmode]
      exact Quiet.of_txSide rfl (Nat.le_refl _)
  | warnProg irqsrc inf =>
      simp only [irqStep]
      split
      · exact Quiet.of_txSide rfl (Nat.le_refl _)
      · exact Quiet.of_txSide rfl (Nat.le_refl _)
  | warnMsg irqsrc inf => exact Quiet.of_txSide (rxproduceErr_txSide _ _) (Nat.le_refl _)
  | tx irqsrc inf =>
      by_cases hb : isSet irqsrc canTransmitInt = true
      · simp only [irqStep, if_pos hb]
        refine ⟨?_, rfl, fun _ => id⟩
        show chan.roles + 1 ≤ chan.roles + (isSet irqsrc canTransmitInt).toNat
        rw [hb, Bool.toNat_true]
      · simp only [irqStep, if_neg hb]
        exact Quiet.of_txSide rfl (Nat.zero_le _)
  | ovr irqsrc inf =>
      simp only [irqStep, Sja1000.canIn_canstat]
      split
      · exact Quiet.of_txSide rfl (Nat.le_refl _)
      · exact Quiet.of_txSide rfl (Nat.le_refl _)
  | ovrMsg inf => exact Quiet.of_txSide (rxproduceErr_txSide _ _) (Nat.le_refl _)
  | ovrClear =>
      simp only [irqStep, Chan.onChip, Sja1000.canOut_cancmd, Sja1000.command_clearOverrun]
      exact Quiet.of_txSide rfl (Nat.le_refl _)

/-- A step of the handler. -/
theorem Fair.handler (h : s.Inv) {tstamp : Timeval} (hg : s.timely (.irq tstamp) = true)
    (hstep : s.step (.irq tstamp) = some s') : Fair s s' := by
  obtain ⟨chan, pc⟩ := s
  by_cases haccess : ∃ irqsrc inf, pc = .warnAccess irqsrc inf
  · obtain ⟨irqsrc, inf, rfl⟩ := haccess
    have hle := (holders_access h.one rfl hstep).mpr hg
    obtain rfl := Option.some.inj hstep
    refine ⟨hle, .inl rfl, ?_⟩
    rw [irqStep, Sja1000.canIn_canstat]
    exact id
  · by_cases hrun : ∃ irqsrc inf, pc = .txRun irqsrc inf
    · obtain ⟨irqsrc, inf, rfl⟩ := hrun
      obtain rfl := Option.some.inj hstep
      -- the handler has the role, so nobody else has
      have hzero : chan.roles = 0 := by
        have hle : chan.roles + true.toNat ≤ 1 := h.one
        rw [Bool.toNat_true] at hle
        omega
      exact Fair.of_txConsume hzero rfl rfl (wakeWriters_txSide _) rfl
    · obtain rfl := Option.some.inj hstep
      exact Fair.of_quiet h (Quiet.handler tstamp (fun irqsrc inf he => haccess ⟨irqsrc, inf, he⟩)
        (fun irqsrc inf he => hrun ⟨irqsrc, inf, he⟩))

/-- What the rounds of a `can_write` have done to the channel it began with. -/
structure Rounds (carries : Bool) (s c : Chan (Sja1000 t)) : Prop where
  roles : c.roles + carries.toNat ≤ 1
  loads : (c.hist.loaded = s.hist.loaded ∧ c.chip = s.chip) ∨
    (s.chip.tx = none ∧ (∃ m, c.hist.loaded = s.hist.loaded ++ [m]) ∧ c.txq.idle = false ∧
      (s.chip.inReset = false → c.chip.tx.isSome = true))

/-- Only the first round that finds the queue idle can load a frame. -/
theorem Rounds.writeOne {carries : Bool} {s c : Chan (Sja1000 t)} (h : Rounds carries s c)
    (u : UserMsg) : Rounds carries s (writeOne t u c).2 := by
  cases hfull : c.txq.full with
  | true =>
      rw [writeOne_full hfull]
      exact h
  | false =>
      rw [writeOne_room hfull]
      cases hidle : c.txq.idle with
      | false =>
          have hbusy : (c.enqueue u).txq.idle = false := hidle
          rw [kickIdle, hbusy, if_neg Bool.false_ne_true]
          exact ⟨h.roles, h.loads⟩
      | true =>
          rw [kickIdle_enqueue hidle]
          -- the writer takes the only role over from the flag
          have hroles := h.roles
          rw [Chan.roles, hidle, Bool.toNat_true] at hroles
          obtain ⟨mid, hmid⟩ : ∃ mid : Chan (Sja1000 t),
              mid = { c.enqueue u with txq := (c.enqueue u).txq.setIdle false } := ⟨_, rfl⟩
          have hflag : mid.txq.idle = false := by
            rw [hmid]
            rfl
          have hchip : mid.chip = c.chip := by
            rw [hmid]
            rfl
          have hhist : mid.hist.loaded = c.hist.loaded := by
            rw [hmid]
            rfl
          have harmed : mid.timerArmed = c.timerArmed := by
            rw [hmid]
            rfl
          have hzero : mid.roles = 0 := by
            rw [Chan.roles, hflag, hchip, harmed, Bool.toNat_false]
            omega
          rw [← hmid]
          have hle := roles_txConsume (s := mid)
          constructor
          · show (txConsume t mid).roles + carries.toNat ≤ 1
            omega
          · rcases h.loads with ⟨hloaded, hsame⟩ | ⟨-, -, hbusy, -⟩
            · rw [← hloaded, ← hsame, ← hhist, ← hchip]
              rcases loads_txConsume (s := mid) with ⟨hold, hkeep⟩ | ⟨hnew, hkeep, hpend⟩
              · exact .inl ⟨hold, hkeep⟩
              · exact .inr ⟨tx_of_roles hzero, hnew, hkeep.trans hflag, hpend⟩
            · rw [hidle] at hbusy
              cases hbusy

/-- A call of `can_write`. -/
theorem Fair.write (h : s.holders ≤ 1) {accessOk : Bool} {us : List UserMsg}
    (hstep : s.step (.write accessOk us) = some s') : Fair s s' := by
  obtain ⟨chan, hchan, rfl⟩ := Option.map_eq_some_iff.mp hstep
  obtain ⟨-, rfl⟩ := Chan.whenOpen_eq_some.mp hchan
  have hrounds : Rounds s.pc.carries s.chan (canWrite t accessOk us s.chan).2 :=
    canWrite_rule (fun u _ hc => hc.writeOne u) ⟨h, .inl ⟨rfl, rfl⟩⟩ accessOk us
  rcases hrounds.loads with ⟨hloaded, hchip⟩ | ⟨hnone, hnew, -, hpend⟩
  · refine ⟨hrounds.roles, .inl hloaded, ?_⟩
    show s.chan.chip.tx.isSome = true → (canWrite t accessOk us s.chan).2.chip.tx.isSome = true
    rw [hchip]
    exact id
  · refine ⟨hrounds.roles, .inr ⟨hnone, hnew, hpend⟩, ?_⟩
    rw [hnone]
    intro hsome
    cases hsome

/-- The timer gives up its role for that of the consumer. -/
theorem Fair.timer (h : s.holders ≤ 1) (hstep : s.step .timer = some s') : Fair s s' := by
  obtain ⟨chan, hchan, rfl⟩ := Option.map_eq_some_iff.mp hstep
  obtain ⟨harmed, rfl⟩ := Chan.step_timer hchan
  have hoff := timerArmed_disarm s.chan
  obtain ⟨kapi, hframe⟩ := disarm_frame s.chan
  rw [TxBuf.holders, Chan.roles, harmed, Bool.toNat_true] at h
  have hzero : s.chan.disarm.roles = 0 := by
    rw [Chan.roles, hoff, Bool.toNat_false, hframe]
    show s.chan.txq.idle.toNat + 0 + s.chan.chip.tx.isSome.toNat +
      (isSet s.chan.chip.irq canTransmitInt).toNat = 0
    omega
  have hcarry : s.pc.carries = false := by
    cases hc : s.pc.carries with
    | false => rfl
    | true =>
        rw [hc, Bool.toNat_true] at h
        omega
  refine Fair.of_txConsume hzero ?_ ?_ (wakeWriters_txSide _) hcarry
  · rw [hframe]
  · rw [hframe]

/-- The pending frame has been sent, or a bus-off has aborted it. -/
def ends : Op → Bool
  | .txDone | .busOff => true
  | _ => false

/-- Every other step is fair. -/
theorem Fair.step (h : s.Inv) {op : Op} (hg : s.timely op = true) (hop : ends op = false)
    (hstep : s.step op = some s') : Fair s s' := by
  cases op with
  | «open» env => cases hstep
  | close => cases hstep
  | command cmd => cases hstep
  | irq tstamp => exact Fair.handler h hg hstep
  | write accessOk us => exact Fair.write h.one hstep
  | timer => exact Fair.timer h.one hstep
  | read accessOk count =>
      obtain ⟨chan, hchan, rfl⟩ := Option.map_eq_some_iff.mp hstep
      obtain ⟨-, rfl⟩ := Chan.whenOpen_eq_some.mp hchan
      exact Fair.of_quiet h (Quiet.of_txSide (canRead_txSide _ accessOk count) (Nat.le_refl _))
  | config target val1 val2 =>
      obtain ⟨chan, hchan, rfl⟩ := Option.map_eq_some_iff.mp hstep
      obtain ⟨-, rfl⟩ := Chan.whenOpen_eq_some.mp hchan
      obtain ⟨sys, acc, txbuf, regs, hframe⟩ := canConfig_chip s.chan target val1 val2
      rw [hframe]
      exact Fair.of_quiet h ⟨Nat.le_refl _, rfl, fun _ => id⟩
  | arrive f =>
      obtain ⟨chan, hchan, rfl⟩ := Option.map_eq_some_iff.mp hstep
      have hroles := (roles_event rfl hchan).1
      obtain ⟨-, rfl⟩ := Chan.step_arrive hchan
      exact Fair.of_quiet h ⟨Nat.add_le_add_right hroles _, rfl, fun _ => id⟩
  | busEvent bits stat overrun =>
      obtain ⟨chan, hchan, rfl⟩ := Option.map_eq_some_iff.mp hstep
      have hroles := (roles_event rfl hchan).1
      obtain ⟨-, rfl⟩ := Chan.step_busEvent hchan
      exact Fair.of_quiet h ⟨Nat.add_le_add_right hroles _, rfl, fun _ => id⟩
  | txDone => cases hop
  | busOff => cases hop

/-- A step of the controller. -/
theorem step_event {op : Op} (hop : op.isEvent = true) (hstep : s.step op = some s') :
    s.chan.step op = some s'.chan ∧ s'.pc = s.pc := by
  cases op with
  | arrive _ | txDone | busEvent _ _ _ =>
      obtain ⟨chan, hchan, rfl⟩ := Option.map_eq_some_iff.mp hstep
      exact ⟨hchan, rfl⟩
  | busOff =>
      obtain rfl := Option.some.inj hstep
      exact ⟨rfl, rfl⟩
  | «open» _ | close | write _ _ | read _ _ | command _ | config _ _ _ | irq _ | timer => cases hop

/-- A frame that leaves the controller gives its role to an interrupt, or to nobody. -/
theorem ends_step (h : s.holders ≤ 1) {op : Op} (hop : ends op = true)
    (hstep : s.step op = some s') :
    s'.holders ≤ 1 ∧ s'.chan.hist.loaded = s.chan.hist.loaded := by
  have hevent : op.isEvent = true := by
    cases op with
    | txDone | busOff => rfl
    | «open» _ | close | write _ _ | read _ _ | command _ | config _ _ _ | irq _ | timer
    | arrive _ | busEvent _ _ _ => cases hop
  obtain ⟨hchan, hpc⟩ := step_event hevent hstep
  obtain ⟨hroles, chip, hframe⟩ := roles_event hevent hchan
  rw [TxBuf.holders] at h ⊢
  refine ⟨?_, ?_⟩
  · rw [hpc]
    omega
  · rw [hframe]

/-- The handler writes a mode that makes no reset request. -/
theorem modeOk_irqStep (tstamp : Timeval) (c : Chan (Sja1000 t)) (pc : IrqPc) :
    (irqStep t tstamp c pc).2.ModeOk := by
  cases pc with
  | undo irqsrc inf => exact Sja1000.and_not_reset _
  | out | rx _ _ | rxStat _ _ | warnStat _ _ | warnProg _ _ | tx _ _ | ovr _ _ =>
      simp only [irqStep]
      split
      · trivial
      · trivial
  | warn irqsrc inf =>
      simp only [irqStep]
      split
      · simp only
        split
        · trivial
        · trivial
      · trivial
  | rxClear _ _ | undoWrite _ _ _ | warnAccess _ _ | warnMsg _ _ | txRun _ _ | ovrMsg _
  | ovrClear => trivial

theorem modeOk_step (h : s.pc.ModeOk) {op : Op} (hstep : s.step op = some s') : s'.pc.ModeOk := by
  cases op with
  | «open» _ | close | command _ => cases hstep
  | irq tstamp =>
      obtain rfl := Option.some.inj hstep
      exact modeOk_irqStep tstamp s.chan s.pc
  | busOff =>
      obtain rfl := Option.some.inj hstep
      exact h
  | write _ _ | read _ _ | config _ _ _ | timer | arrive _ | txDone | busEvent _ _ _ =>
      obtain ⟨chan, -, rfl⟩ := Option.map_eq_some_iff.mp hstep
      exact h

/-! ## Runs -/

/-- Every timely step keeps the invariant. -/
theorem Inv.step (h : s.Inv) {op : Op} (hg : s.timely op = true) (hstep : s.step op = some s') :
    s'.Inv := by
  refine ⟨?_, modeOk_step h.mode hstep⟩
  cases hop : ends op with
  | true => exact (ends_step h.one hop hstep).1
  | false => exact (Fair.step h hg hop hstep).holders

/-- The system in which the handler is timely. -/
def timelyStep (t : Target) : TxBuf t → Op → Option (TxBuf t) :=
  Run.restrict step fun s op => s.timely op = true

theorem Inv.run (h : s.Inv) {ops : List Op} (hrun : Run.exec (timelyStep t) s ops = some s') :
    s'.Inv :=
  Run.exec_restrict_invariant (fun _ _ _ hs hg hstep => hs.step hg hstep) h hrun

/-- A load finds the buffer accessible and, in operating mode, fills it. -/
theorem Inv.loads (h : s.Inv) {op : Op} (hstep : timelyStep t s op = some s') :
    s'.chan.hist.loaded = s.chan.hist.loaded ∨
    (s.chan.chip.tx = none ∧ (∃ m, s'.chan.hist.loaded = s.chan.hist.loaded ++ [m]) ∧
      (s.chan.chip.inReset = false → s'.chan.chip.tx.isSome = true)) := by
  obtain ⟨hg, hstep⟩ := Run.restrict_eq_some.mp hstep
  cases hop : ends op with
  | true => exact .inl (ends_step h.one hop hstep).2
  | false => exact (Fair.step h hg hop hstep).loads

/-- A pending frame stays pending until it is sent or aborted. -/
theorem Inv.pending (h : s.Inv) {ops : List Op} (hpend : s.chan.chip.tx.isSome = true)
    (hrun : Run.exec (timelyStep t) s ops = some s') :
    s'.chan.chip.tx.isSome = true ∨ Op.txDone ∈ ops ∨ Op.busOff ∈ ops := by
  induction ops generalizing s with
  | nil =>
      obtain rfl := Option.some.inj hrun
      exact .inl hpend
  | cons op ops ih =>
      rw [Run.exec_cons, Option.bind_eq_some_iff] at hrun
      obtain ⟨mid, hmid, hrest⟩ := hrun
      obtain ⟨hg, hstep⟩ := Run.restrict_eq_some.mp hmid
      cases hop : ends op with
      | true =>
          cases op with
          | txDone => exact .inr (.inl List.mem_cons_self)
          | busOff => exact .inr (.inr List.mem_cons_self)
          | «open» _ | close | write _ _ | read _ _ | command _ | config _ _ _ | irq _ | timer
          | arrive _ | busEvent _ _ _ => cases hop
      | false =>
          have hfair := Fair.step h hg hop hstep
          rcases ih (h.step hg hstep) (hfair.pending hpend) hrest with hp | hdone | hoff
          · exact .inl hp
          · exact .inr (.inl (List.mem_cons_of_mem _ hdone))
          · exact .inr (.inr (List.mem_cons_of_mem _ hoff))

theorem Inv.of_open {s : Chan (Sja1000 t)} {env : OpenEnv} (h0 : (canOpen t env s).1 = 0)
    (htimer : (canOpen t env s).2.timerArmed = false) : Inv ⟨(canOpen t env s).2, .out⟩ := by
  have hstep : s.step (.open env) = some { (canOpen t env s).2 with hist := Hist.empty } := by
    rw [Chan.step]
    exact if_pos h0
  -- the history that the step clears does not count
  have hroles : Chan.roles { (canOpen t env s).2 with hist := Hist.empty } = 1 :=
    roles_open hstep htimer
  exact ⟨Nat.le_of_eq hroles, trivial⟩

/-- **The handler loads into an accessible buffer.**  In every run of an opened device, no
    timer of an earlier session being armed, whose handler makes up a transmit interrupt only
    while none is latched, the queue is not idle and the timer is not armed. -/
theorem loads_accessible {s : Chan (Sja1000 t)} {env : OpenEnv} (h0 : (canOpen t env s).1 = 0)
    (htimer : (canOpen t env s).2.timerArmed = false) :
    SafeLoads (timelyStep t) ⟨(canOpen t env s).2, .out⟩ := by
  have hstart := Inv.of_open h0 htimer
  constructor
  · intro ops s op s' hrun hstep
    rcases (hstart.run hrun).loads hstep with hsame | ⟨hnone, hnew, -⟩
    · exact .inl hsame
    · refine .inr ⟨hnew, ?_⟩
      rw [Sja1000.statBits_transmitBuffer, hnone]
      rfl
  · intro ops s op s' ops' u op' u' hrun hstep hload hmode hrun' hstep' hload'
    have hinv := hstart.run hrun
    have hinv' := hinv.step (Run.restrict_eq_some.mp hstep).1 (Run.restrict_eq_some.mp hstep).2
    -- the first load makes its frame pending, the second one finds none
    have hpend : s'.chan.chip.tx.isSome = true := by
      rcases hinv.loads hstep with hsame | ⟨-, -, hpend⟩
      · exact absurd hsame hload
      · exact hpend hmode
    have hnone : u.chan.chip.tx = none := by
      rcases (hinv'.run hrun').loads hstep' with hsame | ⟨hnone, -⟩
      · exact absurd hsame hload'
      · exact hnone
    rcases hinv'.pending hpend hrun' with hsome | hends
    · rw [hnone] at hsome
      cases hsome
    · exact hends

theorem loads_accessible_firstOpened :
    SafeLoads (timelyStep .atcanminiPelican) ⟨firstOpened, .out⟩ :=
  loads_accessible (s := Chan.unopened) (by decide) (by decide)

/-- Three messages are written and an error warning comes.  The first frame is sent after the
    handler has read `canirq` and before it reads the status register for the second time:
    the made-up interrupt loads the second message, the real one then loads the third. -/
theorem second_load_locked : ¬ SafeLoads step ⟨firstOpened, .out⟩ := by
  have hrun : (Run.exec step ⟨firstOpened, .out⟩
      [.write true [.ofMsg Canmsg.zero, .ofMsg Canmsg.zero, .ofMsg Canmsg.zero],
        .busEvent canErrorWarnInt 0 false,
        .irq ⟨0, 0⟩, .irq ⟨0, 0⟩, .irq ⟨0, 0⟩, .irq ⟨0, 0⟩, .irq ⟨0, 0⟩, .txDone,
        .irq ⟨0, 0⟩, .irq ⟨0, 0⟩, .irq ⟨0, 0⟩, .irq ⟨0, 0⟩, .irq ⟨0, 0⟩,
        .irq ⟨0, 1⟩, .irq ⟨0, 1⟩, .irq ⟨0, 1⟩, .irq ⟨0, 1⟩]).map
      (fun s => (s.chan.hist.loaded.length,
        isSet s.chan.chip.statBits canTransmitBufferAccess,
        (s.step (.irq ⟨0, 1⟩)).map fun s' => s'.chan.hist.loaded.length)) =
      some (2, false, some 3) := by
    decide +kernel
  intro h
  obtain ⟨s, hs, hval⟩ := Option.map_eq_some_iff.mp hrun
  simp only [Prod.mk.injEq, Option.map_eq_some_iff] at hval
  obtain ⟨htwo, hlocked, s', hs', hthree⟩ := hval
  rcases h.accessible _ s _ s' hs hs' with hsame | ⟨-, hfree⟩
  · rw [hsame, htwo] at hthree
    cases hthree
  · rw [hlocked] at hfree
    cases hfree

end TxBuf

end Can4linux
