/-
  Can4linux.Sides

  A channel has two sides that share nothing but the controller's mode and its
  interrupt register: reception and transmission.  `rxSide` and `txSide` are
  what each of them consists of; a function that works on one side leaves the
  other as it is.

  An iteration of the interrupt handler works on both.  `irqIteration_txSide`
  says what is left of it on the transmit side: the interrupt register is read,
  a reset request may be taken back, and the consumer may be run.
-/

import Can4linux.Effects

namespace Can4linux

variable {t : Target}

/-! ## The sides -/

/-- What concerns reception. -/
structure RxSide where
  rxq : MsgQ Canmsg
  rxfifo : List Frame
  irq : U8
  mode : U8
  rxstatus : CInt
  received : List Canmsg
  returned : List Canmsg

/-- What concerns transmission. -/
structure TxSide where
  isopen : CInt
  txq : MsgQ Canmsg
  txinprogress : CInt
  delayedwork : Option Nat
  kapi : Kapi
  baud : CInt
  accCode : CInt
  accMask : CInt
  tx : Option Frame
  acc : Frame
  irq : U8
  mode : U8
  stat : U8
  accepted : List Canmsg
  loaded : List Canmsg

namespace Chan

/-- The receive side of a channel. -/
def rxSide (s : Chan (Sja1000 t)) : RxSide where
  rxq := s.rxq
  rxfifo := s.chip.rxfifo
  irq := s.chip.irq
  mode := s.chip.mode
  rxstatus := s.rxstatus
  received := s.hist.received
  returned := s.hist.returned

/-- The transmit side of a channel. -/
def txSide (s : Chan (Sja1000 t)) : TxSide where
  isopen := s.isopen
  txq := s.txq
  txinprogress := s.txinprogress
  delayedwork := s.delayedwork
  kapi := s.kapi
  baud := s.sys.baud
  accCode := s.sys.accCode
  accMask := s.sys.accMask
  tx := s.chip.tx
  acc := s.chip.acc
  irq := s.chip.irq
  mode := s.chip.mode
  stat := s.chip.stat
  accepted := s.hist.accepted
  loaded := s.hist.loaded

end Chan

/-! ## Transmission leaves reception alone -/

section RxSide

variable (s : Chan (Sja1000 t))

theorem wakeWriters_rxSide : s.wakeWriters.rxSide = s.rxSide := by
  obtain ⟨n, hframe⟩ := wakeWriters_frame s
  rw [hframe]
  rfl

theorem disarm_rxSide : s.disarm.rxSide = s.rxSide := by
  obtain ⟨kapi, hframe⟩ := disarm_frame s
  rw [hframe]
  rfl

/-- Running the consumer of the transmit queue leaves the receive side alone. -/
theorem txConsume_rxSide : (txConsume t s).rxSide = s.rxSide := by
  rcases txConsume_cases s with ⟨-, heq⟩ | ⟨-, -, heq⟩ | ⟨-, -, heq⟩
  · rw [heq]
    rfl
  · obtain ⟨dw, kapi, hframe⟩ :=
      kapiScheduleDelayed_frame s (remainingDelay s.sys.baud s.txq.head.capLength)
    rw [heq, hframe]
    rfl
  · rw [heq]
    simp only [Chan.rxSide, Sja1000.load_rxfifo, Sja1000.load_irq, Sja1000.load_mode]

theorem txIrq_rxSide (irqsrc : U8) : (txIrq t irqsrc s).rxSide = s.rxSide := by
  unfold txIrq
  split
  · rw [wakeWriters_rxSide, txConsume_rxSide]
    rfl
  · rfl

theorem delayedmsgworker_rxSide : (delayedmsgworker t s).rxSide = s.rxSide := by
  rw [delayedmsgworker, wakeWriters_rxSide, txConsume_rxSide]

theorem writeOne_rxSide (u : UserMsg) : (writeOne t u s).2.rxSide = s.rxSide := by
  cases hfull : s.txq.full with
  | true => rw [writeOne_full hfull]
  | false =>
      rw [writeOne_room hfull, kickIdle]
      split
      · rw [txConsume_rxSide]
        rfl
      · rfl

end RxSide

/-! ## Reception leaves transmission alone -/

section TxSide

variable (s : Chan (Sja1000 t))

theorem wakeWriters_txSide : s.wakeWriters.txSide = s.txSide := by
  obtain ⟨n, hframe⟩ := wakeWriters_frame s
  rw [hframe]
  rfl

/-- Producing a message leaves the transmit side alone, if the callback does. -/
theorem rxproduce_txSide {produce : Canmsg → Sja1000 t → Canmsg × Sja1000 t}
    (hc : ∃ fifo, (produce s.rxq.freeSlot s.chip).2 = { s.chip with rxfifo := fifo }) :
    (rxproduce produce s).txSide = s.txSide := by
  obtain ⟨fifo, hc⟩ := hc
  cases hfull : s.rxq.full with
  | true =>
      rw [rxproduce_full hfull]
      rfl
  | false =>
      rw [rxproduce_room hfull, hc]
      rfl

theorem rxproduceErr_txSide (inf : Msginf) : (rxproduceErr inf s).txSide = s.txSide :=
  rxproduce_txSide s ⟨s.chip.rxfifo, rfl⟩

theorem clearOverrun_txSide : (s.onChip Sja1000.clearOverrun).txSide = s.txSide := rfl

theorem rxIrq_txSide (irqsrc : U8) (inf : Msginf) : (rxIrq t irqsrc inf s).txSide = s.txSide := by
  by_cases h : isSet irqsrc canReceiveInt
  · have hread : (readcanmsg t inf s.rxq.freeSlot s.chip).2 =
        { s.chip with rxfifo := s.chip.rxfifo.tail } := by
      rw [s.chip.readcanmsg_eq]
    rw [rxIrq_eq inf s h, clearOverrun_txSide, rxproduce_txSide s ⟨_, hread⟩]
  · rw [rxIrq, if_neg h]

theorem overrunIrq_txSide (irqsrc : U8) (inf : Msginf) :
    (overrunIrq t irqsrc inf s).txSide = s.txSide := by
  by_cases h : isSet irqsrc canOverrunInt
  · rw [overrunIrq_eq inf s h, clearOverrun_txSide, rxproduceErr_txSide]
    rfl
  · rw [overrunIrq, if_neg h]

theorem canRead_txSide (accessOk : Bool) (count : Nat) :
    (canRead accessOk count s).2.2.txSide = s.txSide := by
  cases accessOk with
  | false => rfl
  | true =>
      obtain ⟨rxq, hs, -, -⟩ := readLoop_spec count s
      simp only [canRead, Bool.not_true, Bool.false_eq_true, if_false, hs]
      rfl

end TxSide

/-- No consumer opens or closes the device. -/
theorem txConsume_isopen (s : Chan (Sja1000 t)) : (txConsume t s).isopen = s.isopen := by
  rcases txConsume_cases s with ⟨-, heq⟩ | ⟨-, -, heq⟩ | ⟨-, -, heq⟩
  · rw [heq]
  · obtain ⟨dw, kapi, hframe⟩ :=
      kapiScheduleDelayed_frame s (remainingDelay s.sys.baud s.txq.head.capLength)
    rw [heq, hframe]
  · rw [heq]

theorem writeOne_isopen (u : UserMsg) (s : Chan (Sja1000 t)) :
    (writeOne t u s).2.isopen = s.isopen := by
  cases hfull : s.txq.full with
  | true => rw [writeOne_full hfull]
  | false =>
      rw [writeOne_room hfull, kickIdle]
      split
      · rw [txConsume_isopen]
        rfl
      · rfl

/-! ## An iteration on the transmit side -/

section Irq

/-- The channel when an iteration has read the interrupt register, and an error warning
    has taken back a reset request. -/
def Chan.irqEntry (s : Chan (Sja1000 t)) : Chan (Sja1000 t) :=
  if isSet s.chip.irq canErrorWarnInt then s.clearIrq.onChip Sja1000.leaveReset else s.clearIrq

theorem Chan.irqEntry_frame (s : Chan (Sja1000 t)) :
    ∃ mode, s.irqEntry = s.onChip fun c => { c with irq := 0, mode := mode } := by
  unfold Chan.irqEntry
  split
  · exact ⟨_, rfl⟩
  · exact ⟨s.chip.mode, rfl⟩

/-- Whether an iteration runs the consumer: on a transmit interrupt, or on an error warning
    that finds a transmission gone without one. -/
def Chan.txSignalled (s : Chan (Sja1000 t)) : Bool :=
  isSet s.chip.irq canTransmitInt ||
    (isSet s.chip.irq canErrorWarnInt &&
      (errFlags s.chip.stat = 0 && s.txinprogress != 0 && s.chip.tx.isNone))

/-- The error state is in the two highest status bits. -/
theorem errFlags_statBits (c : Sja1000 t) : errFlags c.statBits = errFlags c.stat := by
  rw [errFlags, errFlags, c.statBits_state.1, c.statBits_state.2]

/-- Behind the error-warning branch, the interrupt source has the transmit bit exactly when
    the consumer is to be run. -/
theorem errWarnIrq_txSide (s mid : Chan (Sja1000 t)) (inf : Msginf)
    (hmid : mid.txSide = s.clearIrq.txSide) :
    (errWarnIrq t s.chip.irqBits inf mid).2.2.txSide = s.irqEntry.txSide ∧
      isSet (errWarnIrq t s.chip.irqBits inf mid).1 canTransmitInt = s.txSignalled := by
  have htx := s.chip.irqBits_latched (b := canTransmitInt) (.inr (.inl rfl))
  have hew := s.chip.irqBits_latched (b := canErrorWarnInt) (.inl rfl)
  have hstat : mid.chip.stat = s.chip.stat := congrArg TxSide.stat hmid
  have hprog : mid.txinprogress = s.txinprogress := congrArg TxSide.txinprogress hmid
  have hpend : mid.chip.tx = s.chip.tx := congrArg TxSide.tx hmid
  have hmode : mid.chip.mode = s.chip.mode := congrArg TxSide.mode hmid
  by_cases h : isSet s.chip.irq canErrorWarnInt
  · rw [errWarnIrq_eq inf mid (hew.trans h), rxproduceErr_txSide]
    refine ⟨?_, ?_⟩
    · -- the error message concerns reception, taking the reset back does not
      have hleave : (mid.onChip Sja1000.leaveReset).txSide =
          { mid.txSide with mode := mid.txSide.mode &&& ~~~canResetRequest } := rfl
      rw [hleave, hmid, Chan.irqEntry, if_pos h]
      rfl
    · have hbit : ∀ x : U8, isSet (x ||| canTransmitInt) canTransmitInt = true :=
        fun x => isSet_or_self x (by decide)
      have hfake : mid.fakeTxInt s.chip.irqBits =
          (errFlags s.chip.stat = 0 && (s.txinprogress != 0 &&
            !isSet s.chip.irq canTransmitInt) && s.chip.tx.isNone) := by
        rw [Chan.fakeTxInt, errFlags_statBits, hstat, hprog, hpend, htx]
      simp only [Chan.txSignalled, h, hfake, Bool.true_and]
      split
      · rename_i hcond
        simp only [Bool.and_eq_true] at hcond
        simp only [hbit, hcond, Bool.and_self, Bool.or_true]
      · rename_i hcond
        rw [htx]
        -- without the simulated bit only the latched one is left
        cases hb : isSet s.chip.irq canTransmitInt with
        | true => rfl
        | false =>
            rw [hb] at hcond
            simpa [Option.isSome_iff_ne_none] using hcond
  · have hsrc : ¬ isSet s.chip.irqBits canErrorWarnInt = true := by
      rw [hew]
      exact h
    rw [errWarnIrq, if_neg hsrc]
    refine ⟨?_, ?_⟩
    · rw [Chan.irqEntry, if_neg h]
      exact hmid
    · simp only [Chan.txSignalled, h, htx, Bool.false_and, Bool.or_false]

/-- What is left of an iteration on the transmit side. -/
theorem irqIteration_txSide (tstamp : Timeval) (s : Chan (Sja1000 t)) :
    ∃ mid : Chan (Sja1000 t), mid.txSide = s.irqEntry.txSide ∧
      (irqIteration t tstamp s).txSide =
        (if s.txSignalled then txConsume t { mid with txinprogress := 0 } else mid).txSide := by
  have htx := s.chip.irqBits_latched (b := canTransmitInt) (.inr (.inl rfl))
  have hew := s.chip.irqBits_latched (b := canErrorWarnInt) (.inl rfl)
  rw [irqIteration_eq]
  split
  · rename_i hzero
    -- no bit is set, so neither branch is taken
    rw [hzero, isSet_zero] at htx hew
    refine ⟨s.clearIrq, ?_, ?_⟩
    · simp [Chan.irqEntry, ← hew]
    · simp [Chan.txSignalled, ← hew, ← htx]
  · obtain ⟨hmid, hsrc⟩ := errWarnIrq_txSide s
      (rxIrq t s.chip.irqBits ⟨presetFlags s.clearIrq.rxstatus, tstamp⟩ s.clearIrq)
      ⟨presetFlags s.clearIrq.rxstatus, tstamp⟩ (rxIrq_txSide _ _ _)
    -- the transmit branch sees the bit that the branch before may have added
    refine ⟨_, hmid, ?_⟩
    rw [irqBody, overrunIrq_txSide, txIrq, hsrc]
    split
    · rw [wakeWriters_txSide]
    · rfl

theorem irqIteration_isopen (tstamp : Timeval) (s : Chan (Sja1000 t)) :
    (irqIteration t tstamp s).isopen = s.isopen := by
  obtain ⟨mid, hmid, hside⟩ := irqIteration_txSide tstamp s
  have hentry : s.irqEntry.isopen = s.isopen := by
    obtain ⟨mode, hframe⟩ := s.irqEntry_frame
    rw [hframe]
    rfl
  have hopen : mid.isopen = s.isopen := (congrArg TxSide.isopen hmid).trans hentry
  refine (congrArg TxSide.isopen hside).trans ?_
  split
  · exact (txConsume_isopen _).trans hopen
  · exact hopen

end Irq

end Can4linux
