/-
  Can4linux.Reports

  Whether the application learns that messages were dropped.

  `rxstatus` remembers the last attempt to store a message; the flag that tells
  the application is taken from it at the head of an iteration, for the up to
  three attempts of that iteration.  A read between two of them can make the
  later one succeed with a flag that is out of date.  The handler runs step by
  step (`irqStep`), over any device.
-/

import Can4linux.IrqSteps
import Can4linux.ErrorFlags

namespace Can4linux

variable {σ : Type} {t : Target}

/-! ## The system -/

/-- A channel and its handler; whether a message has been missed since the last one that was
    stored, and whether one was then stored that does not say so. -/
structure Report (σ : Type) where
  chan : Chan σ
  pc : IrqPc
  missed : Bool
  silent : Bool

/-- The atomic steps. -/
inductive ReportOp (σ : Type) where
  /-- the handler, at the given time -/
  | handler (tstamp : Timeval)
  | read (accessOk : Bool) (count : Nat)
  /-- the device does something of its own -/
  | device (c : σ)

/-- The handler is about to offer a message to the receive queue. -/
def IrqPc.attempts : IrqPc → Bool
  | .rx irqsrc _ => isSet irqsrc canReceiveInt
  | .warnMsg _ _ | .ovrMsg _ => true
  | .out | .rxStat _ _ | .rxClear _ _ | .warn _ _ | .undo _ _ | .undoWrite _ _ _ | .warnStat _ _
  | .warnProg _ _ | .warnAccess _ _ | .tx _ _ | .txRun _ _ | .ovr _ _ | .ovrClear => false

namespace Report

/-- The handler has come to `r`: a message has been stored, or an attempt was in vain. -/
def account (s : Report σ) (r : Chan σ × IrqPc) : Report σ :=
  match added s.chan r.1 with
  | [] => ⟨r.1, r.2, s.missed || s.pc.attempts, s.silent⟩
  | m :: _ => ⟨r.1, r.2, false, s.silent || (s.missed && !isSet m.flags msgBovr)⟩

/-- One step. -/
def step [Chip σ] (t : Target) (s : Report σ) : ReportOp σ → Option (Report σ)
  | .handler tstamp => some (s.account (irqStep t tstamp s.chan s.pc))
  | .read accessOk count => some { s with chan := (canRead accessOk count s.chan).2.2 }
  | .device c => some { s with chan := { s.chan with chip := c } }

/-- Outside the handler; if a message has been missed, `rxstatus` says so. -/
structure Starts (s : Report σ) : Prop where
  out : s.pc = .out
  missed : s.missed = true → isSet s.chan.rxstatus bufOverrun = true
  silent : s.silent = false

end Report

/-! ## Reads that come at a bad moment -/

/-- `msginf.flags`, as long as a message may still be stored with them. -/
def IrqPc.flags : IrqPc → Option CInt
  | .rx _ inf | .rxStat _ inf | .rxClear _ inf | .warn _ inf | .undo _ inf | .undoWrite _ inf _
  | .warnStat _ inf | .warnProg _ inf | .warnAccess _ inf | .warnMsg _ inf | .tx _ inf
  | .txRun _ inf | .ovr _ inf | .ovrMsg inf => some inf.flags
  | .out | .ovrClear => none

/-- The iteration will still offer a message. -/
def IrqPc.more : IrqPc → Bool
  | .rx irqsrc _ =>
      isSet irqsrc canReceiveInt || isSet irqsrc canErrorWarnInt || isSet irqsrc canOverrunInt
  | .rxStat irqsrc _ | .rxClear irqsrc _ | .warn irqsrc _ =>
      isSet irqsrc canErrorWarnInt || isSet irqsrc canOverrunInt
  | .undo _ _ | .undoWrite _ _ _ | .warnStat _ _ | .warnProg _ _ | .warnAccess _ _
  | .warnMsg _ _ | .ovrMsg _ => true
  | .tx irqsrc _ | .txRun irqsrc _ | .ovr irqsrc _ => isSet irqsrc canOverrunInt
  | .out | .ovrClear => false

/-- The handler stands in an iteration whose flags do not tell of an overflow, one of its
    attempts has failed, and it will make another one. -/
def Report.window (s : Report σ) : Bool :=
  s.missed && s.pc.flags.any (fun f => !isSet f msgBovr) && s.pc.more

/-- No read takes messages out of the queue in that window. -/
def Report.InTime (s : Report σ) : ReportOp σ → Prop
  | .read accessOk count => (accessOk && count != 0 && s.window) = false
  | .handler _ | .device _ => True

instance (s : Report σ) : ∀ op, Decidable (s.InTime op)
  | .read accessOk count =>
      inferInstanceAs (Decidable ((accessOk && count != 0 && s.window) = false))
  | .handler _ | .device _ => isTrue trivial

/-! ## Flags -/

theorem bovr_preset (rxstatus : CInt) :
    isSet (presetFlags rxstatus) msgBovr = isSet rxstatus bufOverrun := by
  unfold presetFlags
  cases isSet rxstatus bufOverrun with
  | true => decide
  | false => decide

/-- What the branches add to the flags leaves the overflow flag alone. -/
theorem bovr_add (rxstatus : CInt) (stat : U8) :
    isSet (presetFlags rxstatus + errFlags stat) msgBovr = isSet (presetFlags rxstatus) msgBovr ∧
      isSet (presetFlags rxstatus + errFlags stat + msgOvr) msgBovr =
        isSet (presetFlags rxstatus) msgBovr := by
  unfold errFlags
  generalize isSet stat canErrorStatus = passive
  generalize isSet stat canBusStatus = busoff
  rcases presetFlags_cases rxstatus with h | h
  · rw [h]
    revert passive busoff
    decide
  · rw [h]
    revert passive busoff
    decide

/-- A received message has the overflow flag of the iteration. -/
theorem bovr_readcanmsg [Chip σ] (inf : Msginf) (msg : Canmsg) (c : σ) :
    isSet (readcanmsg t inf msg c).1.flags msgBovr = isSet inf.flags msgBovr := by
  have hrtr : isSet msgRtr msgBovr = false := by
    decide
  have hext : isSet msgExt msgBovr = false := by
    decide
  show isSet (inf.flags ||| (if isSet (canIn t .frameinfo c).1 canRtr then msgRtr else 0) |||
    (if isSet (canIn t .frameinfo c).1 canEff then msgExt else 0)) msgBovr = _
  rw [isSet_or, isSet_or, isSet_if, isSet_if, hrtr, hext, Bool.and_false, Bool.and_false,
    Bool.or_false, Bool.or_false]

/-- How the flags of the iteration have been made up so far. -/
def IrqPc.FlagsOk : IrqPc → Prop
  | .rx _ inf | .rxStat _ inf | .rxClear _ inf | .warn _ inf | .undo _ inf | .undoWrite _ inf _
  | .warnStat _ inf => ∃ rxstatus, inf.flags = presetFlags rxstatus
  | .warnProg _ inf | .warnAccess _ inf | .warnMsg _ inf | .tx _ inf | .txRun _ inf
  | .ovr _ inf => ∃ rxstatus stat, inf.flags = presetFlags rxstatus + errFlags stat
  | .ovrMsg _ | .out | .ovrClear => True

/-! ## Steps of the handler -/

section Steps

variable [Chip σ] {s : Chan σ} {pc next : IrqPc} {produce : Canmsg → σ → Canmsg × σ}

theorem attempts_of_offer (h : pc.offer σ t = some (produce, next)) : pc.attempts = true := by
  cases pc with
  | rx irqsrc inf =>
      simp only [IrqPc.offer] at h
      split at h
      · assumption
      · cases h
  | warnMsg _ _ | ovrMsg _ => rfl
  | out | rxStat _ _ | rxClear _ _ | warn _ _ | undo _ _ | undoWrite _ _ _ | warnStat _ _
  | warnProg _ _ | warnAccess _ _ | tx _ _ | txRun _ _ | ovr _ _ | ovrClear => cases h

theorem attempts_of_offer_none (h : pc.offer σ t = none) : pc.attempts = false := by
  cases pc with
  | rx irqsrc inf =>
      simp only [IrqPc.offer] at h
      split at h
      · cases h
      · exact Bool.eq_false_of_not_eq_true ‹_›
  | warnMsg _ _ | ovrMsg _ => cases h
  | out | rxStat _ _ | rxClear _ _ | warn _ _ | undo _ _ | undoWrite _ _ _ | warnStat _ _
  | warnProg _ _ | warnAccess _ _ | tx _ _ | txRun _ _ | ovr _ _ | ovrClear => rfl

/-- A message is offered with the overflow flag of the iteration. -/
theorem flags_of_offer (h : pc.offer σ t = some (produce, next)) :
    pc.more = true ∧ ∃ f, pc.flags = some f ∧
      ∀ msg c, isSet (produce msg c).1.flags msgBovr = isSet f msgBovr := by
  have hattempts := attempts_of_offer h
  cases pc with
  | rx irqsrc inf =>
      have hb : isSet irqsrc canReceiveInt = true := hattempts
      simp only [IrqPc.offer, if_pos hb] at h
      obtain ⟨rfl, rfl⟩ := Prod.mk.inj (Option.some.inj h)
      refine ⟨?_, _, rfl, bovr_readcanmsg inf⟩
      simp only [IrqPc.more, hb, Bool.true_or]
  | warnMsg irqsrc inf | ovrMsg inf =>
      obtain ⟨rfl, rfl⟩ := Prod.mk.inj (Option.some.inj h)
      exact ⟨rfl, _, rfl, fun _ _ => rfl⟩
  | out | rxStat _ _ | rxClear _ _ | warn _ _ | undo _ _ | undoWrite _ _ _ | warnStat _ _
  | warnProg _ _ | warnAccess _ _ | tx _ _ | txRun _ _ | ovr _ _ | ovrClear => cases h

theorem flagsOk_of_offer (h : pc.offer σ t = some (produce, next)) (hflags : pc.FlagsOk) :
    next.FlagsOk := by
  have hattempts := attempts_of_offer h
  cases pc with
  | rx irqsrc inf =>
      simp only [IrqPc.offer, if_pos (show isSet irqsrc canReceiveInt = true from hattempts)] at h
      obtain ⟨-, rfl⟩ := Prod.mk.inj (Option.some.inj h)
      exact hflags
  | warnMsg irqsrc inf | ovrMsg inf =>
      obtain ⟨-, rfl⟩ := Prod.mk.inj (Option.some.inj h)
      exact hflags
  | out | rxStat _ _ | rxClear _ _ | warn _ _ | undo _ _ | undoWrite _ _ _ | warnStat _ _
  | warnProg _ _ | warnAccess _ _ | tx _ _ | txRun _ _ | ovr _ _ | ovrClear => cases h

/-- A step that offers no message leaves the receive queue and its status alone. -/
theorem irqStep_rx (tstamp : Timeval) (h : pc.offer σ t = none) :
    (irqStep t tstamp s pc).1.rxq = s.rxq ∧ (irqStep t tstamp s pc).1.rxstatus = s.rxstatus ∧
      (irqStep t tstamp s pc).1.hist.received = s.hist.received := by
  by_cases hrun : ∃ irqsrc inf, pc = .txRun irqsrc inf
  · obtain ⟨irqsrc, inf, rfl⟩ := hrun
    obtain ⟨n, hwake⟩ := wakeWriters_frame (txConsume t s)
    simp only [irqStep, hwake]
    exact txConsume_rx t s
  · obtain ⟨prog, sys, chip, hframe⟩ : ∃ prog sys chip, (irqStep t tstamp s pc).1 =
        { s with txinprogress := prog, sys := sys, chip := chip } :=
      irqStep_frame h fun irqsrc inf he => hrun ⟨irqsrc, inf, he⟩
    rw [hframe]
    exact ⟨rfl, rfl, rfl⟩

/-- It keeps the overflow flag of the iteration, which is that of `rxstatus` at its head, and
    the attempts still to come were to come before. -/
theorem irqStep_flags (tstamp : Timeval) (h : pc.offer σ t = none) (hflags : pc.FlagsOk) :
    (irqStep t tstamp s pc).2.FlagsOk ∧
    ((irqStep t tstamp s pc).2.more = true → pc ≠ .out → pc.more = true) ∧
    ∀ f' ∈ (irqStep t tstamp s pc).2.flags, isSet f' msgBovr =
      pc.flags.elim (isSet s.rxstatus bufOverrun) fun f => isSet f msgBovr := by
  have hsame : ∀ f f' : CInt, f' ∈ some f → isSet f' msgBovr = isSet f msgBovr :=
    fun f f' hf' => congrArg (isSet · msgBovr) (Option.some.inj hf').symm
  cases pc with
  | out =>
      simp only [irqStep]
      split
      · exact ⟨trivial, fun _ ho => absurd rfl ho, fun f' hf' => by cases hf'⟩
      · refine ⟨⟨_, rfl⟩, fun _ ho => absurd rfl ho, ?_⟩
        intro f' hf'
        rw [← Option.some.inj hf']
        exact bovr_preset s.rxstatus
  | rx irqsrc inf =>
      have hb : ¬ isSet irqsrc canReceiveInt = true := by
        rw [show isSet irqsrc canReceiveInt = false from attempts_of_offer_none h]
        exact Bool.false_ne_true
      simp only [irqStep, if_neg hb]
      refine ⟨hflags, ?_, hsame _⟩
      intro hm _
      simp only [IrqPc.more, Bool.or_assoc] at hm ⊢
      rw [hm, Bool.or_true]
  | rxStat irqsrc inf =>
      simp only [irqStep]
      split
      · exact ⟨hflags, fun hm _ => hm, hsame _⟩
      · exact ⟨hflags, fun hm _ => hm, hsame _⟩
  | warn irqsrc inf =>
      by_cases hb : isSet irqsrc canErrorWarnInt = true
      · have hmore : (IrqPc.warn irqsrc inf).more = true := by
          simp only [IrqPc.more, hb, Bool.true_or]
        simp only [irqStep, if_pos hb]
        split
        · exact ⟨hflags, fun _ _ => hmore, hsame _⟩
        · exact ⟨hflags, fun _ _ => hmore, hsame _⟩
      · obtain ⟨r, hr⟩ := hflags
        simp only [irqStep, if_neg hb]
        refine ⟨⟨r, 0, ?_⟩, fun hm _ => ?_, hsame _⟩
        · rw [hr]
          exact (BitVec.add_zero _).symm
        · exact Bool.or_eq_true _ _ ▸ .inr hm
  | warnStat irqsrc inf =>
      obtain ⟨r, hr⟩ := hflags
      simp only [irqStep]
      split
      · refine ⟨⟨r, 0, ?_⟩, fun _ _ => rfl, hsame _⟩
        rw [hr]
        exact (BitVec.add_zero _).symm
      · -- the error flags come on top of the flags as they were preset
        refine ⟨⟨r, _, by rw [hr]⟩, fun _ _ => rfl, ?_⟩
        intro f' hf'
        rw [← Option.some.inj hf', hr]
        show _ = isSet inf.flags msgBovr
        rw [hr]
        exact (bovr_add r _).1
  | warnProg irqsrc inf =>
      simp only [irqStep]
      split
      · exact ⟨hflags, fun _ _ => rfl, hsame _⟩
      · exact ⟨hflags, fun _ _ => rfl, hsame _⟩
  | tx irqsrc inf =>
      simp only [irqStep]
      split
      · exact ⟨hflags, fun hm _ => hm, hsame _⟩
      · exact ⟨hflags, fun hm _ => hm, hsame _⟩
  | ovr irqsrc inf =>
      obtain ⟨r, st, hr⟩ := hflags
      by_cases hb : isSet irqsrc canOverrunInt = true
      · simp only [irqStep, if_pos hb]
        split
        · refine ⟨trivial, fun _ _ => hb, ?_⟩
          intro f' hf'
          rw [← Option.some.inj hf']
          show isSet (inf.flags + msgOvr) msgBovr = isSet inf.flags msgBovr
          rw [hr, (bovr_add r st).1]
          exact (bovr_add r st).2
        · exact ⟨trivial, fun _ _ => hb, hsame _⟩
      · simp only [irqStep, if_neg hb]
        exact ⟨trivial, fun hm => (by cases hm), fun f' hf' => by cases hf'⟩
  | rxClear irqsrc inf | undo irqsrc inf | undoWrite irqsrc inf mode | txRun irqsrc inf =>
      exact ⟨hflags, fun hm _ => hm, hsame _⟩
  | warnAccess irqsrc inf => exact ⟨hflags, fun _ _ => rfl, hsame _⟩
  | ovrClear => exact ⟨trivial, fun hm => (by cases hm), fun f' hf' => by cases hf'⟩
  | warnMsg _ _ | ovrMsg _ => cases h

end Steps

/-! ## What a step preserves -/

/-- As long as a message is missed, `rxstatus` says so, and the iteration either tells it or
    finds the queue full at each of its attempts. -/
structure Report.Inv (s : Report σ) : Prop where
  status : s.missed = true → isSet s.chan.rxstatus bufOverrun = true
  flags : s.pc.FlagsOk
  told : s.missed = true → ∀ f ∈ s.pc.flags,
    isSet f msgBovr = true ∨ (s.pc.more = true → s.chan.rxq.full = true)
  silent : s.silent = false

namespace Report.Inv

variable {s s' : Report σ}

theorem of_starts (h : s.Starts) : s.Inv := by
  refine ⟨h.missed, ?_, ?_, h.silent⟩
  · rw [h.out]
    trivial
  · intro _ f hf
    rw [h.out] at hf
    cases hf

/-- A step that offers no message. -/
theorem quiet (h : s.Inv) {c : Chan σ} {pc : IrqPc} (hattempts : s.pc.attempts = false)
    (hrxq : c.rxq = s.chan.rxq) (hstatus : c.rxstatus = s.chan.rxstatus)
    (hreceived : c.hist.received = s.chan.hist.received) (hflags : pc.FlagsOk)
    (htold : s.missed = true → ∀ f ∈ pc.flags,
      isSet f msgBovr = true ∨ (pc.more = true → s.chan.rxq.full = true)) :
    (s.account (c, pc)).Inv := by
  have hsame : s.account (c, pc) = ⟨c, pc, s.missed, s.silent⟩ := by
    simp only [Report.account, added_of_eq hreceived, hattempts, Bool.or_false]
  rw [hsame]
  refine ⟨?_, hflags, ?_, h.silent⟩
  · intro hmissed
    rw [show (c.rxstatus : CInt) = s.chan.rxstatus from hstatus]
    exact h.status hmissed
  · intro hmissed f hf
    show isSet f msgBovr = true ∨ (pc.more = true → c.rxq.full = true)
    rw [hrxq]
    exact htold hmissed f hf

variable [Chip σ]

/-- A step that offers a message. -/
theorem offer (h : s.Inv) {produce : Canmsg → σ → Canmsg × σ} {pc : IrqPc}
    (hoffer : s.pc.offer σ t = some (produce, pc)) :
    (s.account (rxproduce produce s.chan, pc)).Inv := by
  have hattempts := attempts_of_offer hoffer
  obtain ⟨hmore, f, hf, hbovr⟩ := flags_of_offer hoffer
  have hflags := flagsOk_of_offer hoffer h.flags
  have hadded : added s.chan (rxproduce produce s.chan) = _ := added_rxproduce rfl rfl
  cases hfull : s.chan.rxq.full with
  | true =>
      -- the message is missed; the queue is still full
      rw [hfull, if_pos rfl] at hadded
      have hsame : s.account (rxproduce produce s.chan, pc) =
          ⟨{ s.chan with rxstatus := bufOverrun }, pc, true, s.silent⟩ := by
        simp only [Report.account, hadded, hattempts, Bool.or_true]
        rw [rxproduce_full hfull]
      rw [hsame]
      refine ⟨?_, hflags, ?_, h.silent⟩
      · intro _
        show isSet bufOverrun bufOverrun = true
        decide
      · intro _ _ _
        exact .inr (fun _ => hfull)
  | false =>
      -- the message is stored; if one was missed before, its flags say so
      rw [hfull, if_neg Bool.false_ne_true] at hadded
      have hsilent : (s.missed &&
          !isSet (produce s.chan.rxq.freeSlot s.chan.chip).1.flags msgBovr) = false := by
        cases hmissed : s.missed with
        | false => rfl
        | true =>
            rcases h.told hmissed f hf with hset | hnot
            · rw [hbovr, hset]
              rfl
            · rw [hnot hmore] at hfull
              cases hfull
      have hsame : s.account (rxproduce produce s.chan, pc) =
          ⟨rxproduce produce s.chan, pc, false, false⟩ := by
        simp only [Report.account, hadded, hsilent, h.silent, Bool.or_false]
      rw [hsame]
      refine ⟨?_, hflags, ?_, rfl⟩
      · intro hmissed
        cases hmissed
      · intro hmissed
        cases hmissed

/-- A step of the handler. -/
theorem handler (h : s.Inv) (tstamp : Timeval) :
    (s.account (irqStep t tstamp s.chan s.pc)).Inv := by
  cases hoffer : s.pc.offer σ t with
  | some r =>
      rw [irqStep_offer hoffer]
      exact h.offer hoffer
  | none =>
      obtain ⟨hflags, hmore, hbovr⟩ := irqStep_flags (s := s.chan) tstamp hoffer h.flags
      obtain ⟨hrxq, hstatus, hreceived⟩ := irqStep_rx (s := s.chan) tstamp hoffer
      refine h.quiet (attempts_of_offer_none hoffer) hrxq hstatus hreceived hflags ?_
      intro hmissed f' hf'
      rw [hbovr f' hf']
      cases hf : s.pc.flags with
      | none => exact .inl (h.status hmissed)
      | some f =>
          refine (h.told hmissed f hf).imp_right fun hfull hm => hfull (hmore hm ?_)
          intro hout
          rw [hout] at hf
          cases hf

omit [Chip σ] in
/-- A read outside the window. -/
theorem read (h : s.Inv) (accessOk : Bool) (count : Nat)
    (hin : s.InTime (.read accessOk count)) :
    Report.Inv { s with chan := (canRead accessOk count s.chan).2.2 } := by
  cases accessOk with
  | false => exact h
  | true =>
      obtain ⟨rxq, hs, -, -⟩ := readLoop_spec count s.chan
      have hstatus : (readLoop count s.chan).2.rxstatus = s.chan.rxstatus := by rw [hs]
      refine ⟨?_, h.flags, ?_, h.silent⟩
      · intro hmissed
        show isSet (readLoop count s.chan).2.rxstatus bufOverrun = true
        rw [hstatus]
        exact h.status hmissed
      · intro hmissed f hf
        by_cases hcount : count = 0
        · subst hcount
          exact h.told hmissed f hf
        · -- either the iteration tells the overflow, or it offers nothing more
          cases hset : isSet f msgBovr with
          | true => exact .inl rfl
          | false =>
              refine .inr (fun hm => ?_)
              have hwindow : s.window = true := by
                rw [Report.window, hmissed, show s.pc.flags = some f from hf, hm]
                simp [hset]
              simp [Report.InTime, hcount, hwindow] at hin

theorem step (h : s.Inv) {op : ReportOp σ} (hstep : s.step t op = some s')
    (hin : s.InTime op) : s'.Inv := by
  cases op with
  | handler tstamp =>
      obtain rfl := Option.some.inj hstep
      exact h.handler tstamp
  | read accessOk count =>
      obtain rfl := Option.some.inj hstep
      exact h.read accessOk count hin
  | device c =>
      obtain rfl := Option.some.inj hstep
      exact ⟨h.status, h.flags, h.told, h.silent⟩

end Report.Inv

/-! ## The window is exact -/

/-- Where the handler is about to offer a message, the loss is hidden exactly if the window
    is open and the queue has room. -/
theorem attempt_silent_iff [Chip σ] {s : Report σ} (tstamp : Timeval)
    (hattempts : s.pc.attempts = true) (hsilent : s.silent = false) :
    (s.account (irqStep t tstamp s.chan s.pc)).silent = true ↔
      s.window = true ∧ s.chan.rxq.full = false := by
  cases hoffer : s.pc.offer σ t with
  | none =>
      rw [attempts_of_offer_none hoffer] at hattempts
      cases hattempts
  | some r =>
      obtain ⟨produce, next⟩ := r
      obtain ⟨hmore, f, hf, hbovr⟩ := flags_of_offer hoffer
      have hadded : added s.chan (rxproduce produce s.chan) = _ := added_rxproduce rfl rfl
      have hwindow : s.window = (s.missed && !isSet f msgBovr) := by
        simp [Report.window, hf, hmore]
      rw [irqStep_offer hoffer, hwindow]
      cases hfull : s.chan.rxq.full with
      | true =>
          rw [hfull, if_pos rfl] at hadded
          simp [Report.account, hadded, hsilent]
      | false =>
          rw [hfull, if_neg Bool.false_ne_true] at hadded
          simp [Report.account, hadded, hsilent, hbovr]

/-! ## Every dropped message is reported -/

/-- **Every dropped message is reported**, as long as no read takes messages out of the
    queue in the window: in every run of the handler, step by step, and of reads, the next
    message that is stored after an attempt that has failed carries `MSG_BOVR`. -/
theorem drops_reported [Chip σ] {s₀ s : Report σ} {ops : List (ReportOp σ)} (h₀ : s₀.Starts)
    (hrun : Run.exec (Run.restrict (Report.step t) Report.InTime) s₀ ops = some s) :
    s.silent = false :=
  (Run.exec_restrict_invariant (fun _ _ _ h hin hstep => h.step hstep hin)
    (Report.Inv.of_starts h₀) hrun).silent

/-- A channel whose receive queue is full; the controller has a frame and an error warning. -/
def fullReport : Report (Sja1000 .atcanminiPelican) where
  chan := { fullChan with chip := { fullChan.chip with irq := canErrorWarnInt } }
  pc := .out
  missed := false
  silent := false

theorem fullReport_starts : fullReport.Starts := ⟨rfl, fun h => Bool.noConfusion h, rfl⟩

/-- The handler, a number of steps. -/
def handlerSteps {σ : Type} (n : Nat) : List (ReportOp σ) := List.replicate n (.handler ⟨0, 0⟩)

/-- Both attempts of the iteration fail; the frame is stored in the next one, behind a read. -/
theorem drops_reported_full : ∃ s,
    Run.exec (Run.restrict (Report.step .atcanminiPelican) Report.InTime) fullReport
      (handlerSteps 9 ++ [.read true 1] ++ handlerSteps 2) = some s ∧ s.silent = false := by
  obtain ⟨s, hs⟩ := Option.isSome_iff_exists.mp
    (show (Run.exec (Run.restrict (Report.step .atcanminiPelican) Report.InTime) fullReport
      (handlerSteps 9 ++ [.read true 1] ++ handlerSteps 2)).isSome = true by decide)
  exact ⟨s, hs, drops_reported fullReport_starts hs⟩

/-- A read between the two attempts: the frame has been missed, and the error message, which
    is the next one that is stored, has no flags at all. -/
theorem silent_drop : fullReport.Starts ∧
    (Run.exec (Report.step .atcanminiPelican) fullReport (handlerSteps 3)).map
      (fun s => (s.missed, s.silent)) = some (true, false) ∧
    (Run.exec (Report.step .atcanminiPelican) fullReport
      (handlerSteps 3 ++ [.read true 1] ++ handlerSteps 4)).map
      (fun s => (s.silent, s.chan.hist.received.map fun m => m.flags)) = some (true, [0]) :=
  ⟨fullReport_starts, by decide, by decide⟩

end Can4linux
