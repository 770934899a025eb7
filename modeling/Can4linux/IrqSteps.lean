/-
  Can4linux.IrqSteps

  The interrupt handler step by step.  Each register access of `CAN_Interrupt`,
  each attempt to produce into the receive queue and each run of the consumer is
  a step of its own, so that a file operation or an event of the controller may
  come between any two of them.  `IrqPc` is where the handler stands, with its
  local variables `irqsrc` and `msginf`.

  Taken one after the other, the steps of an iteration are `irqIteration`.
-/

import Mathlib.Logic.Relation
import Can4linux.Driver

namespace Can4linux

/-- Where `CAN_Interrupt` stands. -/
inductive IrqPc where
  /-- at the read of `canirq` -/
  | out
  /-- `if (irqsrc & CAN_RECEIVE_INT)` -/
  | rx (irqsrc : U8) (inf : Msginf)
  /-- the frame has been offered to the queue -/
  | rxStat (irqsrc : U8) (inf : Msginf)
  | rxClear (irqsrc : U8) (inf : Msginf)
  /-- `if (irqsrc & CAN_ERROR_WARN_INT)` -/
  | warn (irqsrc : U8) (inf : Msginf)
  /-- `CANreset` reads the mode register -/
  | undo (irqsrc : U8) (inf : Msginf)
  /-- `CANreset` writes the mode register -/
  | undoWrite (irqsrc : U8) (inf : Msginf) (mode : U8)
  | warnStat (irqsrc : U8) (inf : Msginf)
  /-- error active: is a transmission in progress? -/
  | warnProg (irqsrc : U8) (inf : Msginf)
  /-- and is the transmit buffer accessible? -/
  | warnAccess (irqsrc : U8) (inf : Msginf)
  | warnMsg (irqsrc : U8) (inf : Msginf)
  /-- `if (irqsrc & CAN_TRANSMIT_INT)` -/
  | tx (irqsrc : U8) (inf : Msginf)
  /-- `txinprogress` is cleared, the consumer is to be run -/
  | txRun (irqsrc : U8) (inf : Msginf)
  /-- `if (irqsrc & CAN_OVERRUN_INT)` -/
  | ovr (irqsrc : U8) (inf : Msginf)
  | ovrMsg (inf : Msginf)
  | ovrClear

variable {σ : Type} [Chip σ] (t : Target)

/-- One step of the handler; `tstamp` is what `do_gettimeofday` returns at the head. -/
def irqStep (tstamp : Timeval) (s : Chan σ) : IrqPc → Chan σ × IrqPc
  | .out =>
      let rd := canIn t .canirq s.chip
      if rd.1 = 0 then ({ s with chip := rd.2 }, .out)
      else ({ s with chip := rd.2 }, .rx rd.1 ⟨presetFlags s.rxstatus, tstamp⟩)
  | .rx irqsrc inf =>
      if isSet irqsrc canReceiveInt then (rxproduce (readcanmsg t inf) s, .rxStat irqsrc inf)
      else (s, .warn irqsrc inf)
  | .rxStat irqsrc inf =>
      let rd := canIn t .canstat s.chip
      ({ s with chip := rd.2 },
        if isSet rd.1 canDataOverrun then .rxClear irqsrc inf else .warn irqsrc inf)
  | .rxClear irqsrc inf =>
      (s.onChip (canOut t .cancmd canClearOverrunStatus), .warn irqsrc inf)
  | .warn irqsrc inf =>
      if isSet irqsrc canErrorWarnInt then
        let rd := canIn t .canmode s.chip
        ({ s with chip := rd.2 },
          if isSet rd.1 canResetRequest then .undo irqsrc inf else .warnStat irqsrc inf)
      else (s, .tx irqsrc inf)
  | .undo irqsrc inf =>
      let rd := canIn t .canmode s.chip
      ({ s with chip := rd.2 }, .undoWrite irqsrc inf (rd.1 &&& ~~~canResetRequest))
  | .undoWrite irqsrc inf mode => (s.onChip (canOut t .canmode mode), .warnStat irqsrc inf)
  | .warnStat irqsrc inf =>
      let rd := canIn t .canstat s.chip
      let err := errFlags rd.1
      ({ s with chip := rd.2 },
        if err = 0 then .warnProg irqsrc inf
        else .warnMsg irqsrc { inf with flags := inf.flags + err })
  | .warnProg irqsrc inf =>
      (s, if s.txinprogress != 0 && !isSet irqsrc canTransmitInt then .warnAccess irqsrc inf
        else .warnMsg irqsrc inf)
  | .warnAccess irqsrc inf =>
      let rd := canIn t .canstat s.chip
      ({ s with chip := rd.2 },
        .warnMsg (if isSet rd.1 canTransmitBufferAccess then irqsrc ||| canTransmitInt
          else irqsrc) inf)
  | .warnMsg irqsrc inf => (rxproduceErr inf s, .tx irqsrc inf)
  | .tx irqsrc inf =>
      if isSet irqsrc canTransmitInt then ({ s with txinprogress := 0 }, .txRun irqsrc inf)
      else (s, .ovr irqsrc inf)
  | .txRun irqsrc inf => ((txConsume t s).wakeWriters, .ovr irqsrc inf)
  | .ovr irqsrc inf =>
      if isSet irqsrc canOverrunInt then
        let s := { s with sys := { s.sys with overrun := s.sys.overrun + 1 } }
        let rd := canIn t .canstat s.chip
        ({ s with chip := rd.2 },
          .ovrMsg (if isSet rd.1 canDataOverrun then { inf with flags := inf.flags + msgOvr }
            else inf))
      else (s, .out)
  | .ovrMsg inf => (rxproduceErr inf s, .ovrClear)
  | .ovrClear => (s.onChip (canOut t .cancmd canClearOverrunStatus), .out)

/-! ## The steps that touch the queues -/

variable (σ) in
/-- Where the handler is about to offer a message to the receive queue: the callback that
    `qproduce` gets, and where the handler goes on. -/
def IrqPc.offer : IrqPc → Option ((Canmsg → σ → Canmsg × σ) × IrqPc)
  | .rx irqsrc inf =>
      if isSet irqsrc canReceiveInt then some (readcanmsg t inf, .rxStat irqsrc inf) else none
  | .warnMsg irqsrc inf => some (fun msg c => (errmsg inf msg, c), .tx irqsrc inf)
  | .ovrMsg inf => some (fun msg c => (errmsg inf msg, c), .ovrClear)
  | .out | .rxStat _ _ | .rxClear _ _ | .warn _ _ | .undo _ _ | .undoWrite _ _ _ | .warnStat _ _
  | .warnProg _ _ | .warnAccess _ _ | .tx _ _ | .txRun _ _ | .ovr _ _ | .ovrClear => none

variable {t} in
theorem irqStep_offer {tstamp : Timeval} {s : Chan σ} {pc next : IrqPc}
    {produce : Canmsg → σ → Canmsg × σ} (h : pc.offer σ t = some (produce, next)) :
    irqStep t tstamp s pc = (rxproduce produce s, next) := by
  cases pc with
  | rx irqsrc inf =>
      simp only [IrqPc.offer] at h
      split at h
      · rename_i hb
        obtain ⟨rfl, rfl⟩ := Prod.mk.inj (Option.some.inj h)
        simp only [irqStep, if_pos hb]
      · cases h
  | warnMsg irqsrc inf =>
      obtain ⟨rfl, rfl⟩ := Prod.mk.inj (Option.some.inj h)
      rfl
  | ovrMsg inf =>
      obtain ⟨rfl, rfl⟩ := Prod.mk.inj (Option.some.inj h)
      rfl
  | out | rxStat _ _ | rxClear _ _ | warn _ _ | undo _ _ | undoWrite _ _ _ | warnStat _ _
  | warnProg _ _ | warnAccess _ _ | tx _ _ | txRun _ _ | ovr _ _ | ovrClear => cases h

variable {t} in
/-- Every other step leaves both queues alone, the run of the consumer apart. -/
theorem irqStep_frame {tstamp : Timeval} {s : Chan σ} {pc : IrqPc} (h : pc.offer σ t = none)
    (hrun : ∀ irqsrc inf, pc ≠ .txRun irqsrc inf) :
    ∃ prog sys chip, (irqStep t tstamp s pc).1 =
      { s with txinprogress := prog, sys := sys, chip := chip } := by
  cases pc with
  | txRun irqsrc inf => exact absurd rfl (hrun irqsrc inf)
  | warnMsg _ _ | ovrMsg _ => cases h
  | rx irqsrc inf =>
      simp only [IrqPc.offer] at h
      split at h
      · cases h
      · rename_i hb
        simp only [irqStep, if_neg hb]
        exact ⟨_, _, _, rfl⟩
  | out | warn _ _ | tx _ _ | ovr _ _ =>
      simp only [irqStep]
      split
      · exact ⟨_, _, _, rfl⟩
      · exact ⟨_, _, _, rfl⟩
  | rxStat _ _ | rxClear _ _ | undo _ _ | undoWrite _ _ _ | warnStat _ _ | warnProg _ _
  | warnAccess _ _ | ovrClear => exact ⟨_, _, _, rfl⟩

/-! ## The steps of an iteration -/

/-- The handler alone, from one place to another. -/
def IrqLeads (tstamp : Timeval) (a b : Chan σ × IrqPc) : Prop :=
  Relation.ReflTransGen (fun a b => b = irqStep t tstamp a.1 a.2) a b

variable {t} {tstamp : Timeval} {irqsrc : U8} {inf : Msginf} {s : Chan σ}

namespace IrqLeads

variable {a b c : Chan σ × IrqPc}

/-- The next step of the handler, and what follows. -/
theorem head (h : IrqLeads t tstamp (irqStep t tstamp a.1 a.2) c) : IrqLeads t tstamp a c :=
  Relation.ReflTransGen.head rfl h

theorem refl : IrqLeads t tstamp a a := Relation.ReflTransGen.refl

theorem trans (h : IrqLeads t tstamp a b) (h' : IrqLeads t tstamp b c) :
    IrqLeads t tstamp a c :=
  Relation.ReflTransGen.trans h h'

end IrqLeads

theorem rxIrq_steps :
    IrqLeads t tstamp (s, .rx irqsrc inf) (rxIrq t irqsrc inf s, .warn irqsrc inf) := by
  unfold rxIrq
  by_cases hb : isSet irqsrc canReceiveInt = true
  · refine IrqLeads.head ?_
    simp only [irqStep, if_pos hb]
    refine IrqLeads.head ?_
    by_cases hov : isSet (canIn t .canstat (rxproduce (readcanmsg t inf) s).chip).1
        canDataOverrun = true
    · simp only [irqStep, if_pos hov]
      exact IrqLeads.head IrqLeads.refl
    · simp only [irqStep, if_neg hov]
      exact IrqLeads.refl
  · refine IrqLeads.head ?_
    simp only [irqStep, if_neg hb]
    exact IrqLeads.refl

theorem undoReset_steps (hb : isSet irqsrc canErrorWarnInt = true) :
    IrqLeads t tstamp (s, .warn irqsrc inf)
      ({ s with chip := undoReset t s.chip }, .warnStat irqsrc inf) := by
  unfold undoReset canReset
  refine IrqLeads.head ?_
  by_cases hres : isSet (canIn t .canmode s.chip).1 canResetRequest = true
  · simp only [irqStep, if_pos hb, if_pos hres]
    -- `CANreset` reads the register once more
    refine IrqLeads.head ?_
    exact IrqLeads.head IrqLeads.refl
  · simp only [irqStep, if_pos hb, if_neg hres]
    exact IrqLeads.refl

theorem errWarnIrq_steps :
    IrqLeads t tstamp (s, .warn irqsrc inf)
      ((errWarnIrq t irqsrc inf s).2.2,
        .tx (errWarnIrq t irqsrc inf s).1 (errWarnIrq t irqsrc inf s).2.1) := by
  unfold errWarnIrq lostTxInt
  by_cases hb : isSet irqsrc canErrorWarnInt = true
  · refine (undoReset_steps hb).trans ?_
    rw [if_pos hb]
    refine IrqLeads.head ?_
    by_cases herr : errFlags (canIn t .canstat (undoReset t s.chip)).1 = 0
    · simp only [irqStep, if_pos herr]
      refine IrqLeads.head ?_
      by_cases hprog : (s.txinprogress != 0 && !isSet irqsrc canTransmitInt) = true
      · simp only [irqStep, if_pos hprog]
        refine IrqLeads.head ?_
        exact IrqLeads.head IrqLeads.refl
      · simp only [irqStep, if_neg hprog]
        exact IrqLeads.head IrqLeads.refl
    · simp only [irqStep, if_neg herr]
      exact IrqLeads.head IrqLeads.refl
  · rw [if_neg hb]
    refine IrqLeads.head ?_
    simp only [irqStep, if_neg hb]
    exact IrqLeads.refl

theorem txIrq_steps :
    IrqLeads t tstamp (s, .tx irqsrc inf) (txIrq t irqsrc s, .ovr irqsrc inf) := by
  unfold txIrq
  refine IrqLeads.head ?_
  by_cases hb : isSet irqsrc canTransmitInt = true
  · simp only [irqStep, if_pos hb]
    exact IrqLeads.head IrqLeads.refl
  · simp only [irqStep, if_neg hb]
    exact IrqLeads.refl

theorem overrunIrq_steps :
    IrqLeads t tstamp (s, .ovr irqsrc inf) (overrunIrq t irqsrc inf s, .out) := by
  unfold overrunIrq
  refine IrqLeads.head ?_
  by_cases hb : isSet irqsrc canOverrunInt = true
  · simp only [irqStep, if_pos hb]
    refine IrqLeads.head ?_
    exact IrqLeads.head IrqLeads.refl
  · simp only [irqStep, if_neg hb]
    exact IrqLeads.refl

/-- The handler that nothing interrupts performs an iteration of the loop. -/
theorem irqIteration_steps :
    IrqLeads t tstamp (s, .out) (irqIteration t tstamp s, .out) := by
  unfold irqIteration
  refine IrqLeads.head ?_
  by_cases hzero : (canIn t .canirq s.chip).1 = 0
  · simp only [irqStep, if_pos hzero]
    exact IrqLeads.refl
  · simp only [irqStep, if_neg hzero]
    exact ((rxIrq_steps.trans errWarnIrq_steps).trans txIrq_steps).trans overrunIrq_steps

end Can4linux
