/-
  Can4linux.System

  One channel as a system: file operations, interrupt iterations, the expiry of
  the delay timer and the events of the bus, each one atomic step.  An iteration
  of the interrupt loop is a step of its own, so that everything else may fall
  between two of them.

  File operations and interrupts are enabled while the device is open; a timer
  that was armed may run out at any time, also after a close.  An open clears
  the history: from then on it speaks about the present session.
-/

import Can4linux.Sides
import Can4linux.Lib.Run

namespace Can4linux

/-- The atomic steps. -/
inductive Op where
  /-- a successful `can_open` -/
  | open (env : OpenEnv)
  | close
  | write (accessOk : Bool) (us : List UserMsg)
  | read (accessOk : Bool) (count : Nat)
  | command (cmd : CInt)
  | config (target : CInt) (val1 val2 : CLong)
  /-- one iteration of the interrupt loop, at the given time -/
  | irq (tstamp : Timeval)
  /-- the delay timer runs out -/
  | timer
  /-- a frame passes the acceptance filter -/
  | arrive (f : Frame)
  /-- the pending frame has been sent -/
  | txDone
  /-- an error state changes or an overrun occurs -/
  | busEvent (bits stat : U8) (overrun : Bool)
  | busOff

variable {t : Target}

/-- An open that is granted everything, the memory of the queues filled with `junk`. -/
def OpenEnv.granted (junk : Canmsg) : OpenEnv :=
  ⟨true, true, some (1, fun _ => junk), some (2, fun _ => junk)⟩

namespace Chan

/-- A step that needs the device to be open. -/
def whenOpen (s s' : Chan (Sja1000 t)) : Option (Chan (Sja1000 t)) :=
  if s.isopen = 1 then some s' else none

/-- One step of the channel. -/
def step (s : Chan (Sja1000 t)) : Op → Option (Chan (Sja1000 t))
  | .open env =>
      let r := canOpen t env s
      if r.1 = 0 then some { r.2 with hist := Hist.empty } else none
  | .close => s.whenOpen (canClose t s).2
  | .write accessOk us => s.whenOpen (canWrite t accessOk us s).2
  | .read accessOk count => s.whenOpen (canRead accessOk count s).2.2
  | .command cmd => s.whenOpen (canCommand t cmd s).2
  | .config target val1 val2 => s.whenOpen (canConfig t target val1 val2 s).2
  | .irq tstamp => s.whenOpen (irqIteration t tstamp s)
  | .timer => if s.timerArmed then some (delayedmsgworker t s.disarm) else none
  -- a controller in reset mode takes no part in the traffic
  | .arrive f => if s.chip.inReset then none else some (s.onChip (Sja1000.arrive f))
  | .txDone => s.chip.txDone.map fun c => { s with chip := c }
  | .busEvent bits stat overrun =>
      -- a transmit interrupt comes with `txDone` only
      if isSet bits canTransmitInt then none
      else some (s.onChip (Sja1000.busEvent bits stat overrun))
  | .busOff => some (s.onChip Sja1000.busOff)

theorem whenOpen_eq_some {s s' s'' : Chan (Sja1000 t)} :
    s.whenOpen s' = some s'' ↔ s.isopen = 1 ∧ s' = s'' := by
  simp [whenOpen]

/-! ## Example states -/

/-- A channel of the AT-CAN-MINI build before its first open. -/
def unopened : Chan (Sja1000 .atcanminiPelican) :=
  coreInit .atcanminiPelican 0 5 0x320 Sja1000.powerOn

/-- The same channel right after its first open, at rest. -/
def opened : Chan (Sja1000 .atcanminiPelican) :=
  (unopened.step (.open (.granted Canmsg.zero))).getD unopened

theorem step_opened : unopened.step (.open (.granted Canmsg.zero)) = some opened := by
  obtain ⟨s, hs⟩ := Option.isSome_iff_exists.mp
    (show (unopened.step (.open (.granted Canmsg.zero))).isSome = true by decide)
  rw [opened, hs]
  rfl

/-! ## What a step does -/

variable {s s' : Chan (Sja1000 t)}

/-- A successful open of a device that is not open: the queues are created, whatever their
    counters are, the controller is reset, configured and started. -/
theorem step_open {env : OpenEnv} (h : s.step (.open env) = some s') :
    s.isopen ≠ 1 ∧ ∃ (ri : CInt) (held : Held) (o : CInt) (c : Sja1000 t) (regs : Nat → U8)
      (rxb txb : Nat × (CInt → Canmsg)),
      s' = { s with
        isopen := 1, canRange := t.canRange, requestedIrq := ri, wq := 0, held := held
        rxq := (s.rxq.qcreate maxRxBufsize false (some rxb)).1
        txq := (s.txq.qcreate maxTxBufsize true (some txb)).1
        sys := { s.sys with outc := o, rxErr := 0, txErr := 0 }
        hist := Hist.empty
        chip := { c with
          mode := canModeDef, irq := 0, tx := none
          acc := Sja1000.maskFrame s.sys.accCode s.sys.accMask c.acc, regs := regs } } := by
  simp only [step] at h
  split at h
  · rename_i h0
    obtain ⟨ri, held, c, rxb, txb, -, -, hclosed, -, hopen⟩ := canOpen_success t s h0
    obtain ⟨o, r1, hreset⟩ := canChipReset_eq (t := t)
      { s with
        isopen := 1, canRange := t.canRange, requestedIrq := ri, wq := 0
        held := held, chip := c
        rxq := (s.rxq.qcreate maxRxBufsize false (some rxb)).1
        txq := (s.txq.qcreate maxTxBufsize true (some txb)).1 }
    rw [hreset] at hopen
    obtain ⟨r2, hstart⟩ := canStartChip_eq _
    rw [hstart] at hopen
    refine ⟨hclosed, ri, held, o, c, r2, rxb, txb, ?_⟩
    -- the start takes back the request that the reset has given
    have hmode : (canResetRequest + canModeDef) &&& ~~~canResetRequest = canModeDef := by
      decide
    rw [← Option.some.inj h, hopen]
    simp only [Sja1000.leaveReset, hmode]
  · cases h

theorem step_timer (h : s.step .timer = some s') :
    s.timerArmed = true ∧ s' = delayedmsgworker t s.disarm := by
  simp only [step] at h
  split at h
  · rename_i harmed
    exact ⟨harmed, (Option.some.inj h).symm⟩
  · cases h

theorem step_arrive {f : Frame} (h : s.step (.arrive f) = some s') :
    s.chip.inReset = false ∧ s' = s.onChip (Sja1000.arrive f) := by
  simp only [step] at h
  split at h
  · cases h
  · rename_i hop
    exact ⟨Bool.eq_false_of_not_eq_true hop, (Option.some.inj h).symm⟩

/-- Only a pending frame is sent; then the transmit bit is set. -/
theorem step_txDone (h : s.step .txDone = some s') :
    s.chip.tx.isSome = true ∧
      s' = s.onChip fun c => { c with tx := none, irq := c.irq ||| canTransmitInt } := by
  simp only [step, Option.map_eq_some_iff] at h
  obtain ⟨c, hc, rfl⟩ := h
  unfold Sja1000.txDone at hc
  split at hc
  · rename_i f htx
    obtain rfl := Option.some.inj hc
    exact ⟨by rw [htx]; rfl, rfl⟩
  · cases hc

theorem step_busEvent {bits stat : U8} {overrun : Bool}
    (h : s.step (.busEvent bits stat overrun) = some s') :
    isSet bits canTransmitInt = false ∧ s' = s.onChip (Sja1000.busEvent bits stat overrun) := by
  simp only [step] at h
  split at h
  · cases h
  · rename_i hbits
    exact ⟨Bool.eq_false_of_not_eq_true hbits, (Option.some.inj h).symm⟩

theorem step_busOff (h : s.step .busOff = some s') : s' = s.onChip Sja1000.busOff :=
  (Option.some.inj h).symm

/-- Only an open and a close change whether the device is open. -/
theorem step_isopen {op : Op} (hopen : ∀ env, op ≠ .open env) (hclose : op ≠ .close)
    (h : s.step op = some s') : s'.isopen = s.isopen := by
  cases op with
  | «open» env => exact absurd rfl (hopen env)
  | close => exact absurd rfl hclose
  | write accessOk us =>
      obtain ⟨-, rfl⟩ := whenOpen_eq_some.mp h
      refine canWrite_rule (P := fun c => c.isopen = s.isopen) ?_ rfl accessOk us
      intro u c hc
      exact (writeOne_isopen u c).trans hc
  | read accessOk count =>
      obtain ⟨-, rfl⟩ := whenOpen_eq_some.mp h
      exact congrArg TxSide.isopen (canRead_txSide s accessOk count)
  | command cmd =>
      obtain ⟨-, rfl⟩ := whenOpen_eq_some.mp h
      obtain ⟨held, sys, c, hframe⟩ := canCommand_frame t s cmd
      rw [hframe]
  | config target val1 val2 =>
      obtain ⟨-, rfl⟩ := whenOpen_eq_some.mp h
      obtain ⟨sys, c, hframe⟩ := canConfig_frame t s target val1 val2
      rw [hframe]
  | irq tstamp =>
      obtain ⟨-, rfl⟩ := whenOpen_eq_some.mp h
      exact irqIteration_isopen tstamp s
  | timer =>
      obtain ⟨-, rfl⟩ := step_timer h
      obtain ⟨kapi, hdis⟩ := disarm_frame s
      obtain ⟨n, hwake⟩ := wakeWriters_frame (txConsume t s.disarm)
      rw [delayedmsgworker, hwake]
      exact (txConsume_isopen s.disarm).trans (by rw [hdis])
  | arrive f =>
      obtain ⟨-, rfl⟩ := step_arrive h
      rfl
  | txDone =>
      obtain ⟨-, rfl⟩ := step_txDone h
      rfl
  | busEvent bits stat overrun =>
      obtain ⟨-, rfl⟩ := step_busEvent h
      rfl
  | busOff =>
      obtain rfl := step_busOff h
      rfl

/-! ## Loads in reset mode -/

/-- Running the consumer would load a frame. -/
def consumes (s : Chan (Sja1000 t)) : Bool := !s.txq.empty && !s.headWaits

/-- The step loads a frame while the controller is in reset mode.  Of a `can_write` only
    the first message can be loaded at once; an error warning takes the reset back before
    the consumer runs. -/
def loadsInReset (s : Chan (Sja1000 t)) : Op → Bool
  | .write accessOk (u :: _) =>
      s.chip.inReset && accessOk && !s.txq.full && s.txq.idle && (s.enqueue u).consumes
  | .irq _ =>
      s.chip.inReset && isSet s.chip.irq canTransmitInt && !isSet s.chip.irq canErrorWarnInt &&
        s.consumes
  | .timer => s.chip.inReset && s.consumes
  | _ => false

/-- Where an iteration runs the consumer and loads a frame, the controller operates. -/
theorem irq_loads_operating {mid : Chan (Sja1000 t)} {tstamp : Timeval}
    (hload : s.loadsInReset (.irq tstamp) = false) (hmid : mid.txSide = s.irqEntry.txSide)
    (hsig : s.txSignalled = true) (hcons : mid.consumes = true) : mid.chip.inReset = false := by
  have hmode : mid.chip.mode = s.irqEntry.chip.mode := congrArg TxSide.mode hmid
  show isSet mid.chip.mode canResetRequest = false
  rw [hmode]
  by_cases hew : isSet s.chip.irq canErrorWarnInt
  · rw [irqEntry, if_pos hew]
    exact s.clearIrq.chip.inReset_leaveReset
  · -- the interrupt is a transmit interrupt alone: the guard speaks about it
    have hcons' : s.consumes = true := by
      have htxq : mid.txq = s.irqEntry.txq := congrArg TxSide.txq hmid
      have hbaud : mid.sys.baud = s.irqEntry.sys.baud := congrArg TxSide.baud hmid
      rw [irqEntry, if_neg hew] at htxq hbaud
      simpa [consumes, headWaits, htxq, hbaud, clearIrq, onChip] using hcons
    have htx : isSet s.chip.irq canTransmitInt = true := by
      simpa [txSignalled, hew] using hsig
    rw [irqEntry, if_neg hew]
    show s.chip.inReset = false
    simpa [loadsInReset, hew, htx, hcons'] using hload

/-- The rule for `can_write` where no frame is loaded in reset mode: what enqueueing
    preserves, and running the consumer on a message that waits or in operating mode. -/
theorem canWrite_operating_rule {P : Chan (Sja1000 t) → Prop}
    (hqueue : ∀ u s, P s → s.txq.full = false → s.txq.idle = false → P (s.enqueue u))
    (hkick : ∀ u s, P s → s.txq.full = false → s.txq.idle = true →
      ((s.enqueue u).consumes = true → s.chip.inReset = false) → P (kickIdle t (s.enqueue u)))
    (hbusy : ∀ u s, P s → s.txq.full = false → s.txq.idle = true →
      (kickIdle t (s.enqueue u)).txq.idle = false)
    {accessOk : Bool} {us : List UserMsg} (hs : P s)
    (hload : s.loadsInReset (.write accessOk us) = false) : P (canWrite t accessOk us s).2 := by
  -- behind the first round a frame is loaded in operating mode only: in reset mode the
  -- queue is busy then, or the round found it full
  have hone : ∀ u c, (P c ∧ (c.chip.inReset = false ∨ c.txq.idle = false ∨ c.txq.full = true)) →
      P (writeOne t u c).2 ∧ ((writeOne t u c).2.chip.inReset = false ∨
        (writeOne t u c).2.txq.idle = false ∨ (writeOne t u c).2.txq.full = true) := by
    rintro u c ⟨hc, hmode⟩
    cases hfull : c.txq.full with
    | true =>
        rw [writeOne_full hfull]
        exact ⟨hc, .inr (.inr hfull)⟩
    | false =>
        rw [writeOne_room hfull]
        cases hidle : c.txq.idle with
        | true =>
            have hop : c.chip.inReset = false := by
              simpa [hidle, hfull] using hmode
            exact ⟨hkick u c hc hfull hidle fun _ => hop, .inr (.inl (hbusy u c hc hfull hidle))⟩
        | false =>
            have hbusy' : (c.enqueue u).txq.idle = false := hidle
            have hskip : kickIdle t (c.enqueue u) = c.enqueue u := by
              rw [kickIdle, hbusy', if_neg Bool.false_ne_true]
            rw [hskip]
            exact ⟨hqueue u c hc hfull hidle, .inr (.inl hidle)⟩
  cases accessOk with
  | false => exact hs
  | true =>
      cases us with
      | nil => exact hs
      | cons u us =>
          -- the guard speaks about the first round
          refine (canWrite_cons_rule hone ?_ us).1
          by_cases hfirst : s.txq.full = false ∧ s.txq.idle = true
          · obtain ⟨hfull, hidle⟩ := hfirst
            have hop : (s.enqueue u).consumes = true → s.chip.inReset = false := by
              intro hcons
              simpa [loadsInReset, hfull, hidle, hcons] using hload
            rw [writeOne_room hfull]
            exact ⟨hkick u s hs hfull hidle hop, .inr (.inl (hbusy u s hs hfull hidle))⟩
          · refine hone u s ⟨hs, .inr ?_⟩
            cases hidle : s.txq.idle with
            | false => exact .inl rfl
            | true =>
                refine .inr (Bool.eq_true_of_not_eq_false ?_)
                intro hfull
                exact hfirst ⟨hfull, hidle⟩

end Chan

end Can4linux
