/-
  Can4linux.TxProgress

  Progress of the transmit queue.  The role of its consumer is always with
  somebody: with the next writer (`idle`), with the delay timer, with a frame
  in the controller, or with an interrupt that is latched there.  An interrupt
  passes the role on; a stop, a reset, a start or an error state may make it
  disappear.  In runs that avoid these steps the queue is never stranded.
-/

import Can4linux.Flow

namespace Can4linux

variable {t : Target}

/-! ## Timers -/

section Timer

variable {s : Chan (Sja1000 t)}

theorem timerArmed_schedule (h : s.HasSlot) (usec : CInt) :
    (s.kapiScheduleDelayed usec).timerArmed = true := by
  unfold Chan.kapiScheduleDelayed
  cases hd : s.delayedwork with
  | none =>
      have hslot : s.kapi.idly ≠ maxChannels := h hd
      simp [Chan.timerArmed, hslot]
  | some i => simp [Chan.timerArmed, Chan.setTimer, hd]

theorem hasSlot_schedule (h : s.HasSlot) (usec : CInt) : (s.kapiScheduleDelayed usec).HasSlot := by
  unfold Chan.kapiScheduleDelayed
  cases hd : s.delayedwork with
  | none =>
      have hslot : s.kapi.idly ≠ maxChannels := h hd
      simp [Chan.HasSlot, hslot]
  | some i => simp [Chan.HasSlot, Chan.setTimer, hd]

theorem hasSlot_disarm (h : s.HasSlot) : s.disarm.HasSlot := by
  unfold Chan.disarm
  cases hd : s.delayedwork with
  | none => exact h
  | some i => simp [Chan.HasSlot, Chan.setTimer, hd]

theorem timerArmed_disarm (s : Chan (Sja1000 t)) : s.disarm.timerArmed = false := by
  unfold Chan.disarm
  cases hd : s.delayedwork with
  | none => simp [Chan.timerArmed, hd]
  | some i => simp [Chan.timerArmed, Chan.setTimer, hd]

end Timer

/-! ## Every device finds a timer -/

section Slot

variable {s s' : Chan (Sja1000 t)}

theorem hasSlot_of_txSide (h : s.HasSlot) (hside : s'.txSide = s.txSide) : s'.HasSlot := by
  have hdly : s'.delayedwork = s.delayedwork := congrArg TxSide.delayedwork hside
  have hkapi : s'.kapi = s.kapi := congrArg TxSide.kapi hside
  rw [Chan.HasSlot, hdly, hkapi]
  exact h

theorem hasSlot_txConsume (h : s.HasSlot) : (txConsume t s).HasSlot := by
  rcases txConsume_cases s with ⟨-, heq⟩ | ⟨-, -, heq⟩ | ⟨-, -, heq⟩
  · rw [heq]
    exact h
  · have hslot := hasSlot_schedule h (remainingDelay s.sys.baud s.txq.head.capLength)
    rw [heq]
    exact hslot
  · rw [heq]
    exact h

theorem hasSlot_writeOne (u : UserMsg) (h : s.HasSlot) : (writeOne t u s).2.HasSlot := by
  cases hfull : s.txq.full with
  | true =>
      rw [writeOne_full hfull]
      exact h
  | false =>
      have henq : (s.enqueue u).HasSlot := h
      rw [writeOne_room hfull, kickIdle]
      split
      · have hidle : Chan.HasSlot
            { s.enqueue u with txq := (s.enqueue u).txq.setIdle false } := h
        exact hasSlot_txConsume hidle
      · exact henq

theorem hasSlot_irq (tstamp : Timeval) (h : s.HasSlot) : (irqIteration t tstamp s).HasSlot := by
  obtain ⟨mid, hmid, hside⟩ := irqIteration_txSide tstamp s
  have hentry : s.irqEntry.HasSlot := by
    obtain ⟨mode, hframe⟩ := s.irqEntry_frame
    rw [hframe]
    exact h
  have hm : mid.HasSlot := hasSlot_of_txSide hentry hmid
  refine hasSlot_of_txSide ?_ hside
  split
  · have hclear : Chan.HasSlot { mid with txinprogress := 0 } := hm
    exact hasSlot_txConsume hclear
  · exact hm

/-- A slot once taken is kept, so no step leaves the device without one. -/
theorem hasSlot_step {op : Op} (h : s.HasSlot) (hstep : s.step op = some s') : s'.HasSlot := by
  cases op with
  | «open» env =>
      obtain ⟨-, ri, held, o, c, regs, rxb, txb, rfl⟩ := Chan.step_open hstep
      exact h
  | close =>
      obtain ⟨hopen, rfl⟩ := Chan.whenOpen_eq_some.mp hstep
      obtain ⟨held, hframe⟩ := canClose_frame t s hopen
      rw [hframe]
      exact h
  | write accessOk us =>
      obtain ⟨-, rfl⟩ := Chan.whenOpen_eq_some.mp hstep
      exact canWrite_rule (fun u c hc => hasSlot_writeOne u hc) h accessOk us
  | read accessOk count =>
      obtain ⟨-, rfl⟩ := Chan.whenOpen_eq_some.mp hstep
      exact hasSlot_of_txSide h (canRead_txSide s accessOk count)
  | command cmd =>
      obtain ⟨-, rfl⟩ := Chan.whenOpen_eq_some.mp hstep
      obtain ⟨held, sys, c, hframe⟩ := canCommand_frame t s cmd
      rw [hframe]
      exact h
  | config target val1 val2 =>
      obtain ⟨-, rfl⟩ := Chan.whenOpen_eq_some.mp hstep
      obtain ⟨sys, c, hframe⟩ := canConfig_frame t s target val1 val2
      rw [hframe]
      exact h
  | irq tstamp =>
      obtain ⟨-, rfl⟩ := Chan.whenOpen_eq_some.mp hstep
      exact hasSlot_irq tstamp h
  | timer =>
      obtain ⟨-, rfl⟩ := Chan.step_timer hstep
      exact hasSlot_of_txSide (hasSlot_txConsume (hasSlot_disarm h)) (wakeWriters_txSide _)
  | arrive f =>
      obtain ⟨-, rfl⟩ := Chan.step_arrive hstep
      exact h
  | txDone =>
      obtain ⟨-, rfl⟩ := Chan.step_txDone hstep
      exact h
  | busEvent bits stat overrun =>
      obtain ⟨-, rfl⟩ := Chan.step_busEvent hstep
      exact h
  | busOff =>
      obtain rfl := Chan.step_busOff hstep
      exact h

/-- In every reachable state the device has its timer slot, or there is one left for it. -/
theorem Reached.hasSlot (h : Reached s) : s.HasSlot := by
  obtain ⟨minor, irq, base, chip, ops, hrun⟩ := h
  have hinit : (Chan.coreInit t minor irq base chip).HasSlot :=
    fun _ => show (0 : Nat) ≠ maxChannels by decide
  exact Run.exec_invariant (fun _ _ _ hs hstep => hasSlot_step hs hstep) hinit hrun

end Slot

/-! ## Who holds the role of the consumer -/

/-- The writer, the timer or a frame in the controller holds it: no step on the controller's
    interrupts changes that. -/
def Chan.roleHeld (s : Chan (Sja1000 t)) : Bool :=
  s.txq.idle || s.timerArmed || s.chip.tx.isSome

/-- The role of the consumer is with somebody. -/
structure TxLive (s : Chan (Sja1000 t)) : Prop where
  idleEmpty : s.txq.idle = true → s.txq.empty = true
  role : s.roleHeld = true ∨ isSet s.chip.irq canTransmitInt = true ∨
    (isSet s.chip.irq canErrorWarnInt = true ∧ s.txinprogress ≠ 0)
  /-- a pending frame is marked as in progress, or the role is elsewhere anyhow -/
  progress : s.chip.tx.isSome = true →
    s.txinprogress ≠ 0 ∨ s.txq.idle = true ∨ s.timerArmed = true
  slot : s.HasSlot

namespace TxLive

variable {s s' : Chan (Sja1000 t)}

theorem of_eq (h : TxLive s) (htxq : s'.txq = s.txq) (hprog : s'.txinprogress = s.txinprogress)
    (hdly : s'.delayedwork = s.delayedwork) (hkapi : s'.kapi = s.kapi)
    (htx : s'.chip.tx = s.chip.tx) (hirq : s'.chip.irq = s.chip.irq) : TxLive s' := by
  have harmed : s'.timerArmed = s.timerArmed := by
    rw [Chan.timerArmed, hdly, hkapi]
    rfl
  refine ⟨?_, ?_, ?_, ?_⟩
  · rw [htxq]
    exact h.idleEmpty
  · rw [Chan.roleHeld, htxq, harmed, htx, hirq, hprog]
    exact h.role
  · rw [htx, hprog, htxq, harmed]
    exact h.progress
  · rw [Chan.HasSlot, hdly, hkapi]
    exact h.slot

theorem of_txSide (h : TxLive s) (hside : s'.txSide = s.txSide) : TxLive s' :=
  h.of_eq (congrArg TxSide.txq hside) (congrArg TxSide.txinprogress hside)
    (congrArg TxSide.delayedwork hside) (congrArg TxSide.kapi hside) (congrArg TxSide.tx hside)
    (congrArg TxSide.irq hside)

/-- Running the consumer gives the role on: to the writer, to the timer, or to the frame
    that is loaded in operating mode. -/
theorem of_txConsume (hidle : s.txq.idle = true → s.txq.empty = true) (hslot : s.HasSlot)
    (hop : s.consumes = true → s.chip.inReset = false) : TxLive (txConsume t s) := by
  rcases txConsume_cases s with ⟨hempty, heq⟩ | ⟨hne, -, heq⟩ | ⟨hne, hw, heq⟩
  · -- nothing is queued: the next writer has the role
    rw [heq]
    exact ⟨fun _ => hempty, .inl rfl, fun _ => .inr (.inl rfl), hslot⟩
  · have hbusy : s.txq.idle ≠ true := by
      intro hi
      rw [hidle hi] at hne
      cases hne
    -- the head message waits: the timer has the role
    have harmed := timerArmed_schedule hslot (remainingDelay s.sys.baud s.txq.head.capLength)
    have hslot' := hasSlot_schedule hslot (remainingDelay s.sys.baud s.txq.head.capLength)
    obtain ⟨dw, kapi, hframe⟩ :=
      kapiScheduleDelayed_frame s (remainingDelay s.sys.baud s.txq.head.capLength)
    rw [hframe] at harmed hslot'
    rw [heq, hframe]
    refine ⟨fun hi => absurd hi hbusy, .inl ?_, fun _ => .inr (.inr harmed), hslot'⟩
    rw [Chan.roleHeld, Bool.or_eq_true, Bool.or_eq_true]
    exact .inl (.inr harmed)
  · have hbusy : s.txq.idle ≠ true := by
      intro hi
      rw [hidle hi] at hne
      cases hne
    -- the head message is loaded: its frame has the role
    have hload : s.chip.inReset = false := hop (by simp [Chan.consumes, hne, hw])
    have hpend : (s.chip.load s.txq.head.capLength).tx.isSome = true := by
      rw [Sja1000.load, hload]
      rfl
    rw [heq]
    refine ⟨fun hi => absurd hi hbusy, .inl ?_, fun _ => .inl (show (1#32) ≠ 0 by decide), hslot⟩
    rw [Chan.roleHeld, Bool.or_eq_true, Bool.or_eq_true]
    exact .inr hpend

/-! ### The steps -/

/-- A queue that is idle is empty, so a message put into it is there. -/
theorem enqueue_ne_empty (h : TxLive s) (hidle : s.txq.idle = true) (u : UserMsg) :
    (s.enqueue u).txq.empty = false := by
  have hempty : s.txq.produced = s.txq.consumed := by
    simpa [MsgQ.empty] using h.idleEmpty hidle
  have hne : s.txq.produced + 1 ≠ s.txq.consumed := by
    rw [← hempty]
    bv_omega
  simpa [Chan.enqueue, MsgQ.empty, MsgQ.fill, MsgQ.publish] using hne

theorem write (h : TxLive s) {accessOk : Bool} {us : List UserMsg}
    (hload : s.loadsInReset (.write accessOk us) = false) :
    TxLive (canWrite t accessOk us s).2 := by
  refine Chan.canWrite_operating_rule ?_ ?_ ?_ h hload
  · intro u c hc _ hbusy
    -- a busy queue only grows
    have hnot : (c.enqueue u).txq.idle ≠ true := by
      rw [show (c.enqueue u).txq.idle = c.txq.idle from rfl, hbusy]
      exact Bool.false_ne_true
    exact ⟨fun hi => absurd hi hnot, hc.role, hc.progress, hc.slot⟩
  · intro u c hc _ hidle hop
    rw [kickIdle_enqueue hidle]
    -- the writer takes the role from the flag and runs the consumer with it
    refine of_txConsume ?_ hc.slot hop
    intro hi
    cases hi
  · intro u c hc _ hidle
    exact kickIdle_busy hidle (hc.enqueue_ne_empty hidle u)

/-- A late or early expiry runs the consumer. -/
theorem timer (h : TxLive s) (hload : s.loadsInReset .timer = false) :
    TxLive (delayedmsgworker t s.disarm) := by
  have hslot := hasSlot_disarm h.slot
  obtain ⟨kapi, hdis⟩ := disarm_frame s
  have hcons : TxLive (Can4linux.txConsume t s.disarm) := by
    rw [hdis] at hslot ⊢
    refine of_txConsume h.idleEmpty hslot ?_
    intro hc
    have hc' : s.consumes = true := hc
    simpa [Chan.loadsInReset, hc'] using hload
  exact hcons.of_txSide (wakeWriters_txSide _)

/-- An iteration passes the role on, unless an error state makes it ignore a transmission
    that is gone. -/
theorem irq (h : TxLive s) (tstamp : Timeval) (hload : s.loadsInReset (.irq tstamp) = false)
    (herr : s.roleHeld = true ∨ isSet s.chip.irq canTransmitInt = true ∨
      errFlags s.chip.stat = 0 ∨ isSet s.chip.irq canErrorWarnInt = false) :
    TxLive (irqIteration t tstamp s) := by
  obtain ⟨mid, hmid, hside⟩ := irqIteration_txSide tstamp s
  obtain ⟨mode, hframe⟩ := s.irqEntry_frame
  refine TxLive.of_txSide ?_ hside
  split
  · rename_i hsig
    have htxq : mid.txq = s.txq := by
      rw [show mid.txq = s.irqEntry.txq from congrArg TxSide.txq hmid, hframe]
      rfl
    have hdly : mid.delayedwork = s.delayedwork := by
      rw [show mid.delayedwork = s.irqEntry.delayedwork from congrArg TxSide.delayedwork hmid,
        hframe]
      rfl
    have hkapi : mid.kapi = s.kapi := by
      rw [show mid.kapi = s.irqEntry.kapi from congrArg TxSide.kapi hmid, hframe]
      rfl
    refine of_txConsume ?_ ?_ ?_
    · show mid.txq.idle = true → mid.txq.empty = true
      rw [htxq]
      exact h.idleEmpty
    · show mid.delayedwork = none → mid.kapi.idly ≠ maxChannels
      rw [hdly, hkapi]
      exact h.slot
    · intro hcons
      have hop : mid.chip.inReset = false := Chan.irq_loads_operating hload hmid hsig hcons
      exact hop
  · -- the consumer does not run, so the role must be with somebody else
    rename_i hsig
    have hheld : s.roleHeld = true := by
      rcases h.role with hheld | htx | ⟨hew, hprog⟩
      · exact hheld
      · exact absurd (by simp [Chan.txSignalled, htx]) hsig
      · -- a lost transmission is signalled, unless a frame is pending or the state is bad
        cases hpend : s.chip.tx with
        | some f => simp [Chan.roleHeld, hpend]
        | none =>
            rcases herr with hheld | htx | hgood | hno
            · exact hheld
            · exact absurd (by simp [Chan.txSignalled, htx]) hsig
            · have hmark : ¬ s.txinprogress = 0#32 := hprog
              exact absurd (by simp [Chan.txSignalled, hew, hmark, hpend, hgood]) hsig
            · rw [hew] at hno
              cases hno
    have hentry : TxLive s.irqEntry := by
      rw [hframe]
      exact ⟨h.idleEmpty, .inl hheld, h.progress, h.slot⟩
    exact hentry.of_txSide hmid

/-- Reset mode drops a pending frame; a latched error warning makes up for it. -/
theorem abort (h : TxLive s) (htxq : s'.txq = s.txq) (hprog : s'.txinprogress = s.txinprogress)
    (hdly : s'.delayedwork = s.delayedwork) (hkapi : s'.kapi = s.kapi)
    (htx : s'.chip.tx = none)
    (hirq : ∀ b, isSet s.chip.irq b = true → isSet s'.chip.irq b = true)
    (hkeep : s.chip.tx = none ∨ isSet s'.chip.irq canErrorWarnInt = true ∨
      s.txq.idle = true ∨ s.timerArmed = true) : TxLive s' := by
  have harmed : s'.timerArmed = s.timerArmed := by
    rw [Chan.timerArmed, hdly, hkapi]
    rfl
  have hheld : s.txq.idle = true ∨ s.timerArmed = true → s'.roleHeld = true := by
    rintro (hi | ha)
    · simp [Chan.roleHeld, htxq, hi]
    · simp [Chan.roleHeld, harmed, ha]
  refine ⟨?_, ?_, ?_, ?_⟩
  · rw [htxq]
    exact h.idleEmpty
  · rcases h.role with hrole | htxi | ⟨hew, hp⟩
    · rw [Chan.roleHeld, Bool.or_eq_true, Bool.or_eq_true] at hrole
      rcases hrole with hrole | hpend
      · exact .inl (hheld hrole)
      · rcases hkeep with hnone | hew | hrole
        · rw [hnone] at hpend
          cases hpend
        · -- the aborted frame was marked as in progress
          rcases h.progress hpend with hp | hrole
          · exact .inr (.inr ⟨hew, by rwa [hprog]⟩)
          · exact .inl (hheld hrole)
        · exact .inl (hheld hrole)
    · exact .inr (.inl (hirq _ htxi))
    · exact .inr (.inr ⟨hirq _ hew, by rwa [hprog]⟩)
  · rw [htx]
    intro hpend
    cases hpend
  · rw [Chan.HasSlot, hdly, hkapi]
    exact h.slot

end TxLive

/-! ## Runs -/

/-- The step does not make the role disappear: no frame is loaded in reset mode; a stop or a
    reset does not abort a pending frame, unless an error warning is latched; a start does
    not drop a latched interrupt that somebody waits for; an interrupt in a bad error state
    does not find a transmission gone. -/
def Chan.keepsRole (s : Chan (Sja1000 t)) : Op → Bool
  | .open _ | .close => false
  | .command cmd =>
      if cmd = cmdStart then
        s.roleHeld ||
          !(isSet s.chip.irq canTransmitInt || isSet s.chip.irq canErrorWarnInt)
      else if cmd = cmdStop ∨ cmd = cmdReset then
        s.chip.tx.isNone || isSet s.chip.irq canErrorWarnInt || s.txq.idle || s.timerArmed
      else true
  | .irq tstamp =>
      !s.loadsInReset (.irq tstamp) &&
        (s.roleHeld || isSet s.chip.irq canTransmitInt || errFlags s.chip.stat = 0 ||
          !isSet s.chip.irq canErrorWarnInt)
  | op => !s.loadsInReset op

/-- A start drops every latched interrupt. -/
theorem TxLive.start {s : Chan (Sja1000 t)} (h : TxLive s) (hheld : s.roleHeld = true) :
    TxLive (canStartChip t s) := by
  obtain ⟨regs, hstart⟩ := canStartChip_eq s
  rw [hstart]
  exact ⟨h.idleEmpty, .inl hheld, h.progress, h.slot⟩

theorem TxLive.command {s : Chan (Sja1000 t)} (h : TxLive s) {cmd : CInt}
    (hguard : s.keepsRole (.command cmd) = true) : TxLive (canCommand t cmd s).2 := by
  simp only [Chan.keepsRole] at hguard
  unfold canCommand
  by_cases hstart : cmd = cmdStart
  · rw [if_pos hstart] at hguard ⊢
    refine h.start ?_
    rcases h.role with hheld | htx | ⟨hew, -⟩
    · exact hheld
    · simpa [htx] using hguard
    · simpa [hew] using hguard
  rw [if_neg hstart] at hguard ⊢
  by_cases hreset : cmd = cmdStop ∨ cmd = cmdReset
  · rw [if_pos hreset] at hguard
    have hkeep : s.chip.tx = none ∨ isSet s.chip.irq canErrorWarnInt = true ∨
        s.txq.idle = true ∨ s.timerArmed = true := by
      simpa [or_assoc] using hguard
    by_cases hstop : cmd = cmdStop
    · rw [if_pos hstop, canStopChip_eq]
      exact h.abort rfl rfl rfl rfl rfl (fun b hb => hb) hkeep
    · obtain ⟨o, regs, hres⟩ := canChipReset_eq s
      rw [if_neg hstop, if_pos (hreset.resolve_left hstop), hres]
      exact h.abort rfl rfl rfl rfl rfl (fun b hb => hb) hkeep
  · rw [if_neg (fun hc => hreset (.inl hc)), if_neg (fun hc => hreset (.inr hc))]
    exact h

/-- A latched interrupt stays latched until it is read. -/
theorem Sja1000.busEvent_irq (c : Sja1000 t) (bits stat : U8) (overrun : Bool) {b : U8}
    (hb : isSet c.irq b = true) : isSet (c.busEvent bits stat overrun).irq b = true := by
  rw [Sja1000.busEvent, isSet_or, hb, Bool.true_or]

theorem TxLive.step {s s' : Chan (Sja1000 t)} {op : Op} (h : TxLive s)
    (hguard : s.keepsRole op = true) (hstep : s.step op = some s') : TxLive s' := by
  cases op with
  | «open» env => cases hguard
  | close => cases hguard
  | write accessOk us =>
      obtain ⟨-, rfl⟩ := Chan.whenOpen_eq_some.mp hstep
      exact h.write (by simpa [Chan.keepsRole] using hguard)
  | read accessOk count =>
      obtain ⟨-, rfl⟩ := Chan.whenOpen_eq_some.mp hstep
      exact h.of_txSide (canRead_txSide s accessOk count)
  | command cmd =>
      obtain ⟨-, rfl⟩ := Chan.whenOpen_eq_some.mp hstep
      exact h.command hguard
  | config target val1 val2 =>
      obtain ⟨-, rfl⟩ := Chan.whenOpen_eq_some.mp hstep
      obtain ⟨sys, acc, txbuf, regs, hframe⟩ := canConfig_chip s target val1 val2
      rw [hframe]
      exact h.of_eq rfl rfl rfl rfl rfl rfl
  | irq tstamp =>
      obtain ⟨-, rfl⟩ := Chan.whenOpen_eq_some.mp hstep
      simp only [Chan.keepsRole, Bool.and_eq_true, Bool.not_eq_true'] at hguard
      obtain ⟨hload, herr⟩ := hguard
      refine h.irq tstamp hload ?_
      simpa [or_assoc] using herr
  | timer =>
      obtain ⟨-, rfl⟩ := Chan.step_timer hstep
      exact h.timer (by simpa [Chan.keepsRole] using hguard)
  | arrive f =>
      obtain ⟨-, rfl⟩ := Chan.step_arrive hstep
      exact h.of_eq rfl rfl rfl rfl rfl rfl
  | txDone =>
      obtain ⟨hpend, rfl⟩ := Chan.step_txDone hstep
      have hbit : isSet (s.chip.irq ||| canTransmitInt) canTransmitInt = true :=
        isSet_or_self _ (by decide)
      refine ⟨h.idleEmpty, .inr (.inl hbit), ?_, h.slot⟩
      intro hnone
      cases hnone
  | busEvent bits stat overrun =>
      obtain ⟨-, rfl⟩ := Chan.step_busEvent hstep
      refine ⟨h.idleEmpty, ?_, h.progress, h.slot⟩
      rcases h.role with hheld | htx | ⟨hew, hprog⟩
      · exact .inl hheld
      · exact .inr (.inl (Sja1000.busEvent_irq _ bits stat overrun htx))
      · exact .inr (.inr ⟨Sja1000.busEvent_irq _ bits stat overrun hew, hprog⟩)
  | busOff =>
      obtain rfl := Chan.step_busOff hstep
      -- the frame is gone, and the error warning says so
      have hbit : isSet (s.chip.irq ||| canErrorWarnInt) canErrorWarnInt = true :=
        isSet_or_self _ (by decide)
      have hnone : s.chip.busOff.tx = none := by
        simp [Sja1000.busOff, Sja1000.setMode, Sja1000.or_reset]
      refine h.abort rfl rfl rfl rfl hnone ?_ (.inr (.inl hbit))
      intro b hb
      rw [show (s.onChip Sja1000.busOff).chip.irq = s.chip.irq ||| canErrorWarnInt from rfl,
        isSet_or, hb, Bool.true_or]

/-- A device with an empty, idle transmit queue and nothing in its controller. -/
structure AtRest (s : Chan (Sja1000 t)) : Prop where
  idle : s.txq.idle = true
  empty : s.txq.empty = true
  pending : s.chip.tx = none
  slot : s.HasSlot

/-- A device that was settled is at rest after an open. -/
theorem AtRest.of_open {s s' : Chan (Sja1000 t)} {env : OpenEnv} (hreached : Reached s)
    (hempty : s.txq.empty = true) (hstep : s.step (.open env) = some s') : AtRest s' := by
  have hslot := hreached.hasSlot
  obtain ⟨-, ri, held, o, c, regs, rxb, txb, rfl⟩ := Chan.step_open hstep
  exact ⟨MsgQ.qcreate_idle _ _ _ _, (MsgQ.qcreate_empty _ _ _ _).trans hempty, rfl, hslot⟩

/-- **The transmit queue is never stranded.**  In every run from a device at rest whose
    steps keep the role of the consumer: with no frame pending, no transmit or error-warning
    interrupt latched and no timer armed, the queue is empty and idle, so that the next
    write starts transmission again. -/
theorem queue_not_stranded {s s' : Chan (Sja1000 t)} {ops : List Op} (hrest : AtRest s)
    (hrun : Run.exec (Run.restrict Chan.step fun s op => s.keepsRole op = true) s ops = some s')
    (hpend : s'.chip.tx = none) (htx : isSet s'.chip.irq canTransmitInt = false)
    (hew : isSet s'.chip.irq canErrorWarnInt = false) (htimer : s'.timerArmed = false) :
    s'.txq.empty = true ∧ s'.txq.idle = true := by
  have hstart : TxLive s := by
    refine ⟨fun _ => hrest.empty, .inl ?_, fun _ => .inr (.inl hrest.idle), hrest.slot⟩
    simp [Chan.roleHeld, hrest.idle]
  have hlive := Run.exec_restrict_invariant (fun s op s' h hg hstep => h.step hg hstep) hstart hrun
  have hidle : s'.txq.idle = true := by
    rcases hlive.role with hheld | hbit | ⟨hbit, -⟩
    · simpa [Chan.roleHeld, htimer, hpend] using hheld
    · rw [htx] at hbit
      cases hbit
    · rw [hew] at hbit
      cases hbit
  exact ⟨hlive.idleEmpty hidle, hidle⟩

/-- Two messages are sent, the device is stopped and started between them. -/
theorem queue_not_stranded_stopped : ∃ s', Run.exec
    (Run.restrict Chan.step fun s op => s.keepsRole op = true) Chan.opened
    [.write true [.ofMsg Canmsg.zero], .txDone, .irq ⟨0, 0⟩, .irq ⟨0, 1⟩, .command cmdStop,
      .command cmdStart, .write true [.ofMsg Canmsg.zero], .txDone, .irq ⟨0, 2⟩] = some s' ∧
    s'.txq.empty = true ∧ s'.txq.idle = true := by
  obtain ⟨s', hs', hquiet⟩ := Option.map_eq_some_iff.mp (show (Run.exec
    (Run.restrict Chan.step fun s op => s.keepsRole op = true) Chan.opened
    [.write true [.ofMsg Canmsg.zero], .txDone, .irq ⟨0, 0⟩, .irq ⟨0, 1⟩, .command cmdStop,
      .command cmdStart, .write true [.ofMsg Canmsg.zero], .txDone, .irq ⟨0, 2⟩]).map
      (fun s => (s.chip.tx, isSet s.chip.irq canTransmitInt,
        isSet s.chip.irq canErrorWarnInt, s.timerArmed)) = some (none, false, false, false) by
    decide)
  simp only [Prod.mk.injEq] at hquiet
  obtain ⟨hpend, htx, hew, htimer⟩ := hquiet
  exact ⟨s', hs', queue_not_stranded ⟨by decide, by decide, by decide, by decide⟩ hs' hpend htx
    hew htimer⟩

/-- A stop aborts the pending frame, and nothing makes up for it: after the start the queue
    is not idle, and what is written then stays in it. -/
theorem queue_stranded :
    (Run.exec Chan.step Chan.opened
      [.write true [.ofMsg Canmsg.zero], .command cmdStop, .command cmdStart,
        .write true [.ofMsg Canmsg.zero]]).map
      (fun s =>
        (s.chip.inReset, s.chip.tx.isSome, s.chip.irq, s.timerArmed, s.txq.idle, s.txq.qlen)) =
      some (false, false, 0, false, false, 1) := by
  decide +kernel

end Can4linux
