/-
  Can4linux.ErrorFlags

  Which error flags reach the application.

  Four branches of an iteration share one word of flags.  The receive branch
  clears the data-overrun status that the overrun branch tests, and the
  error-warning branch assigns the bus-off flag over the passive flag.  An
  iteration keeps its flags unless one of the two happens and the message
  concerned finds room in the queue.
-/

import Can4linux.Driver
import Can4linux.IrqTermination

namespace Can4linux

variable {t : Target}

/-! ## An iteration, branch by branch -/

section Branches

variable (tstamp : Timeval) (s : Chan (Sja1000 t))

/-- `msginf` at the head of the iteration. -/
def Chan.presetInf : Msginf := ⟨presetFlags s.rxstatus, tstamp⟩

/-- Behind the receive branch. -/
def Chan.afterRx : Chan (Sja1000 t) := rxIrq t s.chip.irqBits (s.presetInf tstamp) s.clearIrq

/-- What the error-warning branch leaves: `irqsrc`, `msginf` and the channel. -/
def Chan.afterWarn : U8 × Msginf × Chan (Sja1000 t) :=
  errWarnIrq t s.chip.irqBits (s.presetInf tstamp) (s.afterRx tstamp)

/-- Behind the transmit branch. -/
def Chan.afterTx : Chan (Sja1000 t) := txIrq t (s.afterWarn tstamp).1 (s.afterWarn tstamp).2.2

/-- Behind the overrun branch. -/
def Chan.afterOverrun : Chan (Sja1000 t) :=
  overrunIrq t (s.afterWarn tstamp).1 (s.afterWarn tstamp).2.1 (s.afterTx tstamp)

theorem irqIteration_afterOverrun (h : s.chip.irqBits ≠ 0) :
    irqIteration t tstamp s = s.afterOverrun tstamp := by
  rw [irqIteration_eq, if_neg h]
  rfl

/-- The status that the error-warning branch reads. -/
def Chan.warnStat : U8 := (canIn t .canstat (undoReset t (s.afterRx tstamp).chip)).1

/-- The messages that a piece of code has put into the receive queue. -/
def added {σ : Type} (s s' : Chan σ) : List Canmsg :=
  s'.hist.received.drop s.hist.received.length

/-- The error messages of an iteration have all their flags: those of an error warning the two
    of the status that was read for it, those of an overrun the overrun flag if the status shows
    one. -/
structure FullFlags : Prop where
  warn : isSet s.chip.irqBits canErrorWarnInt = true →
    ∀ m ∈ added (s.afterRx tstamp) (s.afterWarn tstamp).2.2,
      isSet m.flags msgPassive = isSet (s.warnStat tstamp) canErrorStatus ∧
      isSet m.flags msgBusoff = isSet (s.warnStat tstamp) canBusStatus
  overrun : isSet s.chip.irqBits canOverrunInt = true →
    isSet s.chip.statBits canDataOverrun = true →
    ∀ m ∈ added (s.afterTx tstamp) (s.afterOverrun tstamp), isSet m.flags msgOvr = true

end Branches

/-! ## The condition -/

section Condition

variable (s : Chan (Sja1000 t))

/-- The messages that the receive queue has room for. -/
def Chan.rxRoom : Nat := 2 ^ 11 - s.rxq.contents.length

/-- An error warning with both status bits set, and room for its message behind the one of
    the receive branch. -/
def Chan.BothStates : Prop :=
  isSet s.chip.irqBits canErrorWarnInt = true ∧
  isSet s.chip.statBits canErrorStatus = true ∧ isSet s.chip.statBits canBusStatus = true ∧
  bitCount s.chip.irqBits canReceiveInt < s.rxRoom

/-- An overrun together with a received frame, and room for its message behind those of the
    receive branch and the error-warning branch. -/
def Chan.OverrunWithFrame : Prop :=
  isSet s.chip.irqBits canOverrunInt = true ∧
  isSet s.chip.statBits canDataOverrun = true ∧ isSet s.chip.irqBits canReceiveInt = true ∧
  1 + bitCount s.chip.irqBits canErrorWarnInt < s.rxRoom

/-- Neither of the two combinations that lose a flag. -/
def Chan.KeepsFlags : Prop := ¬ s.BothStates ∧ ¬ s.OverrunWithFrame

end Condition

/-! ## Flags -/

theorem presetFlags_cases (rxstatus : CInt) :
    presetFlags rxstatus = msgBovr ∨ presetFlags rxstatus = 0 := by
  unfold presetFlags
  split
  · exact .inl rfl
  · exact .inr rfl

/-- The flags of an error warning tell both states unless both are set. -/
theorem warnFlags_iff (rxstatus : CInt) (stat : U8) :
    (isSet (presetFlags rxstatus + errFlags stat) msgPassive = isSet stat canErrorStatus ∧
      isSet (presetFlags rxstatus + errFlags stat) msgBusoff = isSet stat canBusStatus) ↔
    ¬ (isSet stat canErrorStatus = true ∧ isSet stat canBusStatus = true) := by
  unfold errFlags
  generalize isSet stat canErrorStatus = passive
  generalize isSet stat canBusStatus = busoff
  rcases presetFlags_cases rxstatus with h | h
  · rw [h]
    revert passive busoff
    decide
  · rw [h]
    revert passive busoff
    decide

/-- The overrun flag is in the word exactly if the overrun branch has put it there. -/
theorem overrunFlags (rxstatus : CInt) (stat : U8) :
    isSet (presetFlags rxstatus + errFlags stat + msgOvr) msgOvr = true ∧
      isSet (presetFlags rxstatus + errFlags stat) msgOvr = false ∧
      isSet (presetFlags rxstatus + msgOvr) msgOvr = true ∧
      isSet (presetFlags rxstatus) msgOvr = false := by
  unfold errFlags
  generalize isSet stat canErrorStatus = passive
  generalize isSet stat canBusStatus = busoff
  rcases presetFlags_cases rxstatus with h | h
  · rw [h]
    revert passive busoff
    decide
  · rw [h]
    revert passive busoff
    decide

/-! ## Messages -/

theorem added_of_eq {σ : Type} {s s' : Chan σ} (h : s'.hist.received = s.hist.received) :
    added s s' = [] := by
  rw [added, h, List.drop_length]

/-- A message that is offered is added if there is room for it. -/
theorem added_rxproduce {σ : Type} {produce : Canmsg → σ → Canmsg × σ} {s r s' : Chan σ}
    (hr : r.hist.received = s.hist.received)
    (hs' : s'.hist.received = (rxproduce produce r).hist.received) :
    added s s' = if r.rxq.full then [] else [(produce r.rxq.freeSlot r.chip).1] := by
  cases hfull : r.rxq.full with
  | true =>
      rw [rxproduce_full hfull] at hs'
      rw [if_pos rfl]
      exact added_of_eq (hs'.trans hr)
  | false =>
      have hrec : s'.hist.received =
          s.hist.received ++ [(produce r.rxq.freeSlot r.chip).1] := by
        rw [hs', rxproduce_room hfull, ← hr]
        rfl
      rw [if_neg Bool.false_ne_true, added, hrec, List.drop_left]

theorem added_rxproduceErr {σ : Type} {s r s' : Chan σ} {inf : Msginf}
    (hr : r.hist.received = s.hist.received)
    (hs' : s'.hist.received = (rxproduceErr inf r).hist.received) :
    added s s' = if r.rxq.full then [] else [errmsg inf r.rxq.freeSlot] :=
  added_rxproduce hr hs'

/-! ## What the branches leave alone -/

theorem txIrq_received (irqsrc : U8) (s : Chan (Sja1000 t)) :
    (txIrq t irqsrc s).hist.received = s.hist.received ∧
      (txIrq t irqsrc s).chip.overrun = s.chip.overrun := by
  unfold txIrq
  split
  · obtain ⟨n, hwake⟩ := wakeWriters_frame (txConsume t { s with txinprogress := 0 })
    rw [hwake]
    rcases txConsume_cases { s with txinprogress := 0 } with
      ⟨-, heq⟩ | ⟨-, -, heq⟩ | ⟨-, -, heq⟩
    · rw [heq]
      exact ⟨rfl, rfl⟩
    · obtain ⟨dw, kapi, hframe⟩ := kapiScheduleDelayed_frame
        { s with txinprogress := 0 } (remainingDelay s.sys.baud s.txq.head.capLength)
      rw [heq, hframe]
      exact ⟨rfl, rfl⟩
    · rw [heq]
      refine ⟨rfl, ?_⟩
      show (s.chip.load s.txq.head.capLength).overrun = s.chip.overrun
      unfold Sja1000.load
      split
      · rfl
      · rfl
  · exact ⟨rfl, rfl⟩

/-! ## One iteration -/

section Iteration

variable (tstamp : Timeval) {s : Chan (Sja1000 t)}

/-- The error-warning branch finds the two state bits as they were at the head. -/
theorem warnStat_state :
    s.warnStat tstamp = (s.afterRx tstamp).chip.statBits ∧
      isSet (s.warnStat tstamp) canErrorStatus = isSet s.chip.statBits canErrorStatus ∧
      isSet (s.warnStat tstamp) canBusStatus = isSet s.chip.statBits canBusStatus := by
  have hread : s.warnStat tstamp = (s.afterRx tstamp).chip.statBits := by
    rw [Chan.warnStat, Sja1000.undoReset_eq, Sja1000.canIn_canstat]
    rfl
  have hstat : (s.afterRx tstamp).chip.stat = s.chip.stat := (rxIrq_chip _ s.clearIrq _).1
  refine ⟨hread, ?_, ?_⟩
  · rw [hread, (Sja1000.statBits_state _).1, (Sja1000.statBits_state _).1, hstat]
  · rw [hread, (Sja1000.statBits_state _).2, (Sja1000.statBits_state _).2, hstat]

/-- The error-warning branch tells both states, unless both are set and its message is
    stored. -/
theorem warn_iff (h : s.rxq.WF 11) :
    (isSet s.chip.irqBits canErrorWarnInt = true →
      ∀ m ∈ added (s.afterRx tstamp) (s.afterWarn tstamp).2.2,
        isSet m.flags msgPassive = isSet (s.warnStat tstamp) canErrorStatus ∧
        isSet m.flags msgBusoff = isSet (s.warnStat tstamp) canBusStatus) ↔
    ¬ s.BothStates := by
  obtain ⟨hread, hpassive, hbusoff⟩ := warnStat_state tstamp (s := s)
  by_cases hb : isSet s.chip.irqBits canErrorWarnInt = true
  · have hfull : (s.afterRx tstamp).rxq.full = true ↔
        s.rxRoom - bitCount s.chip.irqBits canReceiveInt = 0 :=
      ((rxLevel_clearIrq h).rxIrq s.chip.irqBits (s.presetInf tstamp)).full_iff
    have hadded : added (s.afterRx tstamp) (s.afterWarn tstamp).2.2 =
        if (s.afterRx tstamp).rxq.full then []
        else [errmsg ((s.presetInf tstamp).addErr (s.afterRx tstamp).chip)
          (s.afterRx tstamp).rxq.freeSlot] := by
      refine added_rxproduceErr (r := (s.afterRx tstamp).onChip Sja1000.leaveReset) rfl ?_
      rw [Chan.afterWarn, errWarnIrq_eq _ _ hb]
    have hflags := warnFlags_iff s.rxstatus (s.warnStat tstamp)
    rw [hadded]
    by_cases hroom : bitCount s.chip.irqBits canReceiveInt < s.rxRoom
    · have hne : ¬ (s.afterRx tstamp).rxq.full = true := by
        rw [hfull]
        omega
      rw [if_neg hne]
      simp only [hb, true_imp_iff, List.forall_mem_singleton, Chan.BothStates, true_and,
        hroom, and_true, ← hpassive, ← hbusoff, ← hflags]
      -- the flags of the message are the sum of the two words
      rw [hread]
      exact Iff.rfl
    · have hful : (s.afterRx tstamp).rxq.full = true := by
        rw [hfull]
        omega
      rw [if_pos hful]
      refine iff_of_true (fun _ m hm => ?_) (fun hboth => hroom hboth.2.2.2)
      exact absurd hm List.not_mem_nil
  · exact iff_of_true (fun hset => absurd hset hb) (fun hboth => hb hboth.1)

/-- `msginf` in the overrun branch, with the overrun status it has read. -/
def Msginf.addOvr (inf : Msginf) (ov : Bool) : Msginf :=
  if ov then { inf with flags := inf.flags + msgOvr } else inf

/-- The flags that reach the overrun branch tell no overrun by themselves; the branch adds
    the flag if the status is still set. -/
theorem addOvr_flags (ov : Bool) :
    isSet ((s.afterWarn tstamp).2.1.addOvr ov).flags msgOvr = ov := by
  obtain ⟨herr, herr', hplain, hplain'⟩ :=
    overrunFlags s.rxstatus (s.afterRx tstamp).chip.statBits
  by_cases hb : isSet s.chip.irqBits canErrorWarnInt = true
  · rw [Chan.afterWarn, errWarnIrq_eq _ _ hb]
    cases ov with
    | true => exact herr
    | false => exact herr'
  · rw [Chan.afterWarn, errWarnIrq, if_neg hb]
    cases ov with
    | true => exact hplain
    | false => exact hplain'

/-- The overrun status that the overrun branch finds: the receive branch has cleared it if
    it was executed. -/
theorem afterTx_overrun :
    (s.afterTx tstamp).chip.overrun =
      (s.chip.overrun && !isSet s.chip.irqBits canReceiveInt) := by
  have hrx : (s.afterRx tstamp).chip.overrun =
      (s.chip.overrun && !isSet s.chip.irqBits canReceiveInt) := (rxIrq_chip _ s.clearIrq _).2.1
  rw [Chan.afterTx, (txIrq_received _ _).2, ← hrx, Chan.afterWarn]
  by_cases hb : isSet s.chip.irqBits canErrorWarnInt = true
  · rw [errWarnIrq_eq _ _ hb, rxproduceErr]
    cases hfull : ((s.afterRx tstamp).onChip Sja1000.leaveReset).rxq.full with
    | true =>
        rw [rxproduce_full hfull]
        rfl
    | false =>
        rw [rxproduce_room hfull]
        rfl
  · rw [errWarnIrq, if_neg hb]

/-- The overrun branch tells the overrun, unless a frame was received as well and the
    message is stored. -/
theorem overrun_iff (h : s.rxq.WF 11) :
    (isSet s.chip.irqBits canOverrunInt = true → isSet s.chip.statBits canDataOverrun = true →
      ∀ m ∈ added (s.afterTx tstamp) (s.afterOverrun tstamp), isSet m.flags msgOvr = true) ↔
    ¬ s.OverrunWithFrame := by
  by_cases hb : isSet s.chip.irqBits canOverrunInt = true
  · by_cases hov : isSet s.chip.statBits canDataOverrun = true
    · have hb' : isSet (s.afterWarn tstamp).1 canOverrunInt = true := by
        rw [Chan.afterWarn, errWarnIrq_isSet _ _ _ (by decide)]
        exact hb
      have hfull : (s.afterTx tstamp).rxq.full = true ↔
          s.rxRoom - bitCount s.chip.irqBits canReceiveInt -
            bitCount s.chip.irqBits canErrorWarnInt = 0 :=
        ((((rxLevel_clearIrq h).rxIrq s.chip.irqBits (s.presetInf tstamp)).errWarnIrq
          s.chip.irqBits (s.presetInf tstamp)).txIrq _).full_iff
      have hadded : added (s.afterTx tstamp) (s.afterOverrun tstamp) =
          if (s.afterTx tstamp).rxq.full then []
          else [errmsg ((s.afterWarn tstamp).2.1.addOvr (s.afterTx tstamp).chip.overrun)
            (s.afterTx tstamp).rxq.freeSlot] := by
        refine added_rxproduceErr (r := { s.afterTx tstamp with sys :=
          { (s.afterTx tstamp).sys with overrun := (s.afterTx tstamp).sys.overrun + 1 } })
          rfl ?_
        rw [Chan.afterOverrun, overrunIrq_eq _ _ hb']
        rfl
      have hset : s.chip.overrun = true := by
        rw [← s.chip.statBits_dataOverrun]
        exact hov
      have hflag := addOvr_flags tstamp (s := s) (s.afterTx tstamp).chip.overrun
      rw [hadded]
      by_cases hroom : bitCount s.chip.irqBits canReceiveInt +
          bitCount s.chip.irqBits canErrorWarnInt < s.rxRoom
      · have hne : ¬ (s.afterTx tstamp).rxq.full = true := by
          rw [hfull]
          omega
        rw [if_neg hne]
        simp only [hb, hov, true_imp_iff, List.forall_mem_singleton]
        show isSet ((s.afterWarn tstamp).2.1.addOvr (s.afterTx tstamp).chip.overrun).flags
          msgOvr = true ↔ _
        rw [hflag, afterTx_overrun, hset, Bool.true_and, Bool.not_eq_true']
        cases hrx : isSet s.chip.irqBits canReceiveInt with
        | true =>
            rw [bitCount, hrx, if_pos rfl] at hroom
            exact iff_of_false (fun hf => Bool.noConfusion hf)
              (fun hnot => hnot ⟨hb, hov, hrx, hroom⟩)
        | false =>
            refine iff_of_true rfl (fun hboth => ?_)
            have hset' := hboth.2.2.1
            rw [hrx] at hset'
            cases hset'
      · have hful : (s.afterTx tstamp).rxq.full = true := by
          rw [hfull]
          omega
        rw [if_pos hful]
        refine iff_of_true (fun _ _ m hm => absurd hm List.not_mem_nil) (fun hboth => hroom ?_)
        rw [bitCount, hboth.2.2.1, if_pos rfl]
        exact hboth.2.2.2
    · exact iff_of_true (fun _ hset => absurd hset hov) (fun hboth => hov hboth.2.1)
  · exact iff_of_true (fun hset => absurd hset hb) (fun hboth => hb hboth.1)

/-- An iteration keeps its flags under exactly this condition. -/
theorem fullFlags_iff (h : s.rxq.WF 11) : FullFlags tstamp s ↔ s.KeepsFlags := by
  rw [Chan.KeepsFlags, ← warn_iff tstamp h, ← overrun_iff tstamp h]
  exact ⟨fun hf => ⟨hf.warn, hf.overrun⟩, fun hf => ⟨hf.1, hf.2⟩⟩

end Iteration

/-! ## Runs -/

/-- **Which error flags reach the application.**  Along a run from any state that the driver
    reaches, the error messages of every iteration carry their full flags if and only if no
    iteration meets an error warning with both state bits set, or an overrun together with a
    received frame, while there is room for the message. -/
theorem error_flags_iff {s : Chan (Sja1000 t)} (h : Reachable t s)
    (ops : List (DrvOp (Sja1000 t))) :
    Run.Along (Chan.drive t) (fun s op => ∀ tstamp, op = .irq tstamp → FullFlags tstamp s) s ops ↔
    Run.Along (Chan.drive t) (fun s op => ∀ tstamp, op = .irq tstamp → s.KeepsFlags) s ops := by
  refine Run.along_congr (I := Reachable t) (fun s op s' hs hstep => hs.step hstep) ?_ h
  intro s op s' hs hstep
  refine forall_congr' fun tstamp => forall_congr' fun hop => ?_
  subst hop
  exact fullFlags_iff tstamp (hs.sized (Chan.ifOpen_eq_some.mp hstep).1).rxWf

/-- A controller that has gone bus-off, has a frame stored and has lost another one. -/
def stormy : Sja1000 .atcanminiPelican :=
  oneFrame.busEvent (canErrorWarnInt ||| canOverrunInt) (canErrorStatus ||| canBusStatus) true

/-- The condition over the run in which the handler meets that controller. -/
theorem error_flags_iff_stormy :
    Run.Along (Chan.drive .atcanminiPelican)
      (fun s op => ∀ tstamp, op = .irq tstamp → FullFlags tstamp s) firstOpened
      [.device stormy, .irq ⟨0, 0⟩] ↔
    Run.Along (Chan.drive .atcanminiPelican)
      (fun s op => ∀ tstamp, op = .irq tstamp → s.KeepsFlags) firstOpened
      [.device stormy, .irq ⟨0, 0⟩] :=
  error_flags_iff reachable_firstOpened _

/-- The handler meets that controller: the message of the error warning does not tell that
    the controller is error passive, and the message of the overrun does not tell the
    overrun. -/
theorem stormy_loses_flags :
    Reachable .atcanminiPelican { firstOpened with chip := stormy } ∧
    isSet stormy.irqBits canErrorWarnInt = true ∧ isSet stormy.irqBits canOverrunInt = true ∧
    isSet stormy.statBits canErrorStatus = true ∧ isSet stormy.statBits canBusStatus = true ∧
    isSet stormy.statBits canDataOverrun = true ∧
    (added (Chan.afterRx ⟨0, 0⟩ { firstOpened with chip := stormy })
      (Chan.afterWarn ⟨0, 0⟩ { firstOpened with chip := stormy }).2.2).map (fun m => m.flags) =
      [msgBusoff] ∧
    (added (Chan.afterTx ⟨0, 0⟩ { firstOpened with chip := stormy })
      (Chan.afterOverrun ⟨0, 0⟩ { firstOpened with chip := stormy })).map (fun m => m.flags) =
      [msgBusoff] ∧
    ¬ FullFlags ⟨0, 0⟩ { firstOpened with chip := stormy } := by
  have hdevice : firstOpened.drive .atcanminiPelican (.device stormy) =
      some { firstOpened with chip := stormy } := rfl
  refine ⟨reachable_firstOpened.step hdevice, by decide, by decide, by decide, by decide, by decide,
    by decide, by decide, ?_⟩
  intro h
  exact absurd (h.warn (by decide)) (by decide)

end Can4linux
