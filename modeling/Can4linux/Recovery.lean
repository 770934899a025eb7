/-
  Can4linux.Recovery

  Transmission across bus-off.  The controller drops the pending frame, enters
  reset mode and raises an error warning; the handler takes the reset back, and
  when the controller is error active again, makes up for the transmit interrupt
  that has not come.  Until the handler has run, a message that is loaded goes
  into a controller in reset mode, and is lost as well.

  A bus-off costs one message at most, the pending one or one that is loaded
  before the handler runs, never both; and it never strands the queue.
-/

import Mathlib.Data.List.ReduceOption
import Can4linux.Calm

namespace Can4linux

variable {t : Target}

/-- The steps of a device that is neither stopped, reset, reconfigured nor closed, but may go
    off the bus.  The controller announces with an error warning that it is error active again. -/
def Chan.weathers (s : Chan (Sja1000 t)) : Op → Bool
  | .open _ | .close | .command _ | .config _ _ _ => false
  | .busEvent bits stat _ =>
      isSet bits canErrorWarnInt || errFlags stat != 0 || errFlags s.chip.stat == 0
  | .write _ _ | .read _ _ | .irq _ | .timer | .arrive _ | .txDone | .busOff => true

/-- The system of these steps. -/
def Chan.weatherStep : Chan (Sja1000 t) → Op → Option (Chan (Sja1000 t)) :=
  Run.restrict Chan.step fun s op => s.weathers op = true

/-! ## The role of the consumer -/

/-- The role is with the writer, with the timer or with a transmission in progress.  The last
    has a frame in the controller, its interrupt, or an error warning that has come or will
    come; and a controller that has gone off the bus has raised one. -/
structure Weathers (s : Chan (Sja1000 t)) : Prop where
  one : s.txq.idle.toNat + s.timerArmed.toNat + (s.txinprogress != 0).toNat = 1
  idleEmpty : s.txq.idle = true → s.txq.empty = true
  frame : s.chip.tx.isSome = true ∨ isSet s.chip.irq canTransmitInt = true → s.txinprogress ≠ 0
  single : s.chip.tx.isSome = true → isSet s.chip.irq canTransmitInt = false
  owed : s.txinprogress ≠ 0 → s.chip.tx.isSome = true ∨ isSet s.chip.irq canTransmitInt = true ∨
    isSet s.chip.irq canErrorWarnInt = true ∨ errFlags s.chip.stat ≠ 0
  reset : s.chip.inReset = true → isSet s.chip.irq canErrorWarnInt = true
  slot : s.HasSlot

/-- The role is with nobody: the consumer is about to be run. -/
structure Unheld (s : Chan (Sja1000 t)) : Prop where
  idle : s.txq.idle = false
  unarmed : s.timerArmed = false
  progress : s.txinprogress = 0
  pending : s.chip.tx = none
  irq : isSet s.chip.irq canTransmitInt = false
  reset : s.chip.inReset = true → isSet s.chip.irq canErrorWarnInt = true
  slot : s.HasSlot

/-- A message that the next holder of the role would lose. -/
def Chan.atRisk (s : Chan (Sja1000 t)) : Nat :=
  (s.chip.inReset && (s.txq.idle || s.timerArmed)).toNat

/-- The role is with somebody, and of the messages loaded none but one a bus-off is lost. -/
structure Accounts (sent : List Frame) (offs : Nat) (s : Chan (Sja1000 t)) : Prop where
  weathers : Weathers s
  lost : s.hist.loaded.length + s.atRisk ≤ sent.length + s.chip.tx.isSome.toNat + offs

section Holders

variable {s s' : Chan (Sja1000 t)}

theorem Weathers.of_txSide (h : Weathers s) (hside : s'.txSide = s.txSide) : Weathers s' := by
  have htxq : s'.txq = s.txq := congrArg TxSide.txq hside
  have htx : s'.chip.tx = s.chip.tx := congrArg TxSide.tx hside
  have hirq : s'.chip.irq = s.chip.irq := congrArg TxSide.irq hside
  have hstat : s'.chip.stat = s.chip.stat := congrArg TxSide.stat hside
  have hmode : s'.chip.mode = s.chip.mode := congrArg TxSide.mode hside
  have hprog : s'.txinprogress = s.txinprogress := congrArg TxSide.txinprogress hside
  have harmed := timerArmed_of_txSide hside
  refine ⟨?_, ?_, ?_, ?_, ?_, ?_, hasSlot_of_txSide h.slot hside⟩
  · rw [htxq, harmed, hprog]
    exact h.one
  · rw [htxq]
    exact h.idleEmpty
  · rw [htx, hirq, hprog]
    exact h.frame
  · rw [htx, hirq]
    exact h.single
  · rw [hprog, htx, hirq, hstat]
    exact h.owed
  · rw [Sja1000.inReset, hmode, hirq]
    exact h.reset

theorem Accounts.of_txSide {sent : List Frame} {offs : Nat} (h : Accounts sent offs s)
    (hside : s'.txSide = s.txSide) : Accounts sent offs s' := by
  have htxq : s'.txq = s.txq := congrArg TxSide.txq hside
  have htx : s'.chip.tx = s.chip.tx := congrArg TxSide.tx hside
  have hmode : s'.chip.mode = s.chip.mode := congrArg TxSide.mode hside
  have hloaded : s'.hist.loaded = s.hist.loaded := congrArg TxSide.loaded hside
  refine ⟨h.weathers.of_txSide hside, ?_⟩
  rw [Chan.atRisk, Sja1000.inReset, hmode, htxq, timerArmed_of_txSide hside, hloaded, htx]
  exact h.lost

namespace Weathers

/-- While the writer or the timer has the role nothing is in the controller. -/
theorem unheld (h : Weathers s) (hprog : s.txinprogress = 0) :
    s.chip.tx = none ∧ isSet s.chip.irq canTransmitInt = false := by
  refine ⟨?_, ?_⟩
  · by_contra hne
    exact h.frame (.inl (Option.isSome_iff_ne_none.mpr hne)) hprog
  · by_contra hne
    exact h.frame (.inr (Bool.eq_true_of_not_eq_false hne)) hprog

/-- Who has the role has it alone. -/
theorem alone : ∀ {a b c : Bool}, a.toNat + b.toNat + c.toNat = 1 →
    (a = true → b = false ∧ c = false) ∧ (b = true → a = false ∧ c = false) ∧
      (c = true → a = false ∧ b = false) := by
  decide

theorem of_idle (h : Weathers s) (hidle : s.txq.idle = true) :
    s.timerArmed = false ∧ s.txinprogress = 0 := by
  obtain ⟨harmed, hprog⟩ := (alone h.one).1 hidle
  exact ⟨harmed, by simpa using hprog⟩

theorem of_armed (h : Weathers s) (harmed : s.timerArmed = true) :
    s.txq.idle = false ∧ s.txinprogress = 0 := by
  obtain ⟨hidle, hprog⟩ := (alone h.one).2.1 harmed
  exact ⟨hidle, by simpa using hprog⟩

theorem of_progress (h : Weathers s) (hprog : s.txinprogress ≠ 0) :
    s.txq.idle = false ∧ s.timerArmed = false :=
  (alone h.one).2.2 (bne_iff_ne.mpr hprog)

/-- A transmission that is signalled has come to its end, in whatever way. -/
theorem of_signalled (h : Weathers s) (hsig : s.txSignalled = true) :
    s.txq.idle = false ∧ s.timerArmed = false ∧ s.chip.tx = none := by
  rw [Chan.txSignalled, Bool.or_eq_true] at hsig
  rcases hsig with htx | hfake
  · obtain ⟨hidle, harmed⟩ := h.of_progress (h.frame (.inr htx))
    refine ⟨hidle, harmed, ?_⟩
    by_contra hne
    rw [h.single (Option.isSome_iff_ne_none.mpr hne)] at htx
    cases htx
  · simp only [Bool.and_eq_true, Option.isNone_iff_eq_none] at hfake
    obtain ⟨hidle, harmed⟩ := h.of_progress (bne_iff_ne.mp hfake.2.1.2)
    exact ⟨hidle, harmed, hfake.2.2⟩

/-- One that is not signalled goes on, or the controller is in an error state. -/
theorem of_not_signalled (h : Weathers s) (hsig : s.txSignalled = false)
    (hprog : s.txinprogress ≠ 0) : s.chip.tx.isSome = true ∨ errFlags s.chip.stat ≠ 0 := by
  obtain ⟨htx, hfake⟩ := Bool.or_eq_false_iff.mp hsig
  rcases h.owed hprog with hpend | hirq | hew | herr
  · exact .inl hpend
  · rw [htx] at hirq
    cases hirq
  · -- the handler looks for a lost transmission, unless there is an error
    by_cases herr : errFlags s.chip.stat = 0
    · rw [hew, bne_iff_ne.mpr hprog, decide_eq_true herr] at hfake
      simp only [Bool.and_self, Bool.true_and, Option.isNone_eq_false_iff] at hfake
      exact .inl hfake
    · exact .inr herr
  · exact .inr herr

end Weathers

end Holders

/-! ## Running the consumer -/

namespace Unheld

variable {sent : List Frame} {offs : Nat} {s : Chan (Sja1000 t)} (h : Unheld s)
  (hlost : s.hist.loaded.length + s.chip.inReset.toNat ≤ sent.length + offs)

include h hlost

/-- The next writer gets the role. -/
theorem txConsume_empty (hempty : s.txq.empty = true) : Accounts sent offs (txConsume t s) := by
  rw [Can4linux.txConsume_empty s hempty]
  refine ⟨⟨?_, fun _ => hempty, ?_, ?_, fun hprog => absurd h.progress hprog, h.reset, h.slot⟩, ?_⟩
  · show true.toNat + s.timerArmed.toNat + (s.txinprogress != 0).toNat = 1
    rw [h.unarmed, h.progress]
    rfl
  · show s.chip.tx.isSome = true ∨ isSet s.chip.irq canTransmitInt = true → _
    simp [h.pending, h.irq]
  · show s.chip.tx.isSome = true → _
    simp [h.pending]
  · show s.hist.loaded.length + (s.chip.inReset && (true || s.timerArmed)).toNat ≤
      sent.length + s.chip.tx.isSome.toNat + offs
    rw [Bool.true_or, Bool.and_true, h.pending]
    exact hlost

/-- The timer gets it. -/
theorem txConsume_waits (hempty : s.txq.empty = false) (hw : s.headWaits = true) :
    Accounts sent offs (txConsume t s) := by
  have harm := timerArmed_schedule h.slot (remainingDelay s.sys.baud s.txq.head.capLength)
  have hslot := hasSlot_schedule h.slot (remainingDelay s.sys.baud s.txq.head.capLength)
  obtain ⟨dw, kapi, hframe⟩ :=
    kapiScheduleDelayed_frame s (remainingDelay s.sys.baud s.txq.head.capLength)
  rw [hframe] at harm hslot
  rw [Can4linux.txConsume_waits s hempty hw, hframe]
  have harm' : Chan.timerArmed (σ := Sja1000 t)
      { s with
        txq := s.txq.setHead s.txq.head.capLength.clearDelay
        delayedwork := dw, kapi := kapi } = true := harm
  refine ⟨⟨?_, ?_, ?_, ?_, fun hprog => absurd h.progress hprog, h.reset, hslot⟩, ?_⟩
  · show s.txq.idle.toNat + (Chan.timerArmed (σ := Sja1000 t) _).toNat +
      (s.txinprogress != 0).toNat = 1
    rw [harm', h.idle, h.progress]
    rfl
  · intro hidle
    have hbusy := h.idle
    rw [show s.txq.idle = true from hidle] at hbusy
    cases hbusy
  · show s.chip.tx.isSome = true ∨ isSet s.chip.irq canTransmitInt = true → _
    simp [h.pending, h.irq]
  · show s.chip.tx.isSome = true → _
    simp [h.pending]
  · show s.hist.loaded.length +
      (s.chip.inReset && (s.txq.idle || Chan.timerArmed (σ := Sja1000 t) _)).toNat ≤
        sent.length + s.chip.tx.isSome.toNat + offs
    rw [harm', Bool.or_true, Bool.and_true, h.pending]
    exact hlost

/-- The transmission gets it.  In operating mode its frame is pending; in reset mode the
    message is lost, and there is an error warning. -/
theorem txConsume_loads (hempty : s.txq.empty = false) (hw : s.headWaits = false) :
    Accounts sent offs (txConsume t s) := by
  have hreset : (s.chip.load s.txq.head.capLength).inReset = s.chip.inReset := by
    rw [Sja1000.inReset, Sja1000.load_mode, Sja1000.inReset]
  have hpend : (s.chip.load s.txq.head.capLength).tx.isSome = !s.chip.inReset := by
    rw [Sja1000.load]
    cases s.chip.inReset with
    | true =>
        rw [if_pos rfl]
        exact congrArg Option.isSome h.pending
    | false => rfl
  rw [Can4linux.txConsume_loads s hempty hw]
  refine ⟨⟨?_, ?_, fun _ => show (1#32) ≠ 0 by decide, ?_, ?_, ?_, h.slot⟩, ?_⟩
  · show s.txq.idle.toNat + s.timerArmed.toNat + (1#32 != 0).toNat = 1
    rw [h.idle, h.unarmed]
    rfl
  · intro hidle
    have hbusy := h.idle
    rw [show s.txq.idle = true from hidle] at hbusy
    cases hbusy
  · intro _
    show isSet (s.chip.load s.txq.head.capLength).irq canTransmitInt = false
    rw [Sja1000.load_irq]
    exact h.irq
  · intro _
    show (s.chip.load s.txq.head.capLength).tx.isSome = true ∨ _ ∨
      isSet (s.chip.load s.txq.head.capLength).irq canErrorWarnInt = true ∨ _
    rw [hpend, Sja1000.load_irq]
    cases hres : s.chip.inReset with
    | true => exact .inr (.inr (.inl (h.reset hres)))
    | false => exact .inl rfl
  · show (s.chip.load s.txq.head.capLength).inReset = true →
      isSet (s.chip.load s.txq.head.capLength).irq canErrorWarnInt = true
    rw [hreset, Sja1000.load_irq]
    exact h.reset
  · show (s.hist.loaded ++ [s.txq.head.onWire]).length +
      ((s.chip.load s.txq.head.capLength).inReset && (s.txq.idle || s.timerArmed)).toNat ≤
        sent.length + (s.chip.load s.txq.head.capLength).tx.isSome.toNat + offs
    rw [h.idle, h.unarmed, Bool.or_self, Bool.and_false, List.length_append,
      List.length_singleton, hpend]
    cases hres : s.chip.inReset <;> rw [hres] at hlost <;>
      simp only [Bool.toNat_true, Bool.toNat_false, Bool.not_true, Bool.not_false] at hlost ⊢ <;>
      omega

/-- Whatever it finds, the consumer gives the role to somebody. -/
theorem txConsume : Accounts sent offs (txConsume t s) := by
  cases hempty : s.txq.empty with
  | true => exact h.txConsume_empty hlost hempty
  | false =>
      cases hw : s.headWaits with
      | true => exact h.txConsume_waits hlost hempty hw
      | false => exact h.txConsume_loads hlost hempty hw

end Unheld

/-! ## The steps -/

namespace Accounts

variable {sent : List Frame} {offs : Nat} {s : Chan (Sja1000 t)}

/-- A writer that finds the queue idle takes the role and runs the consumer with it. -/
theorem writeOne (h : Accounts sent offs s) (u : UserMsg) :
    Accounts sent offs (writeOne t u s).2 := by
  cases hfull : s.txq.full with
  | true =>
      rw [writeOne_full hfull]
      exact h
  | false =>
      rw [writeOne_room hfull]
      have hlost := h.lost
      cases hidle : s.txq.idle with
      | true =>
          obtain ⟨harmed, hprog⟩ := h.weathers.of_idle hidle
          obtain ⟨htx, hirq⟩ := h.weathers.unheld hprog
          rw [kickIdle_enqueue hidle]
          have hfree : Unheld { s.enqueue u with txq := (s.enqueue u).txq.setIdle false } :=
            ⟨rfl, harmed, hprog, htx, hirq, h.weathers.reset, h.weathers.slot⟩
          refine hfree.txConsume ?_
          rw [Chan.atRisk, hidle, Bool.true_or, Bool.and_true, htx] at hlost
          exact hlost
      | false =>
          have hbusy : (s.enqueue u).txq.idle = false := hidle
          rw [kickIdle, hbusy, if_neg Bool.false_ne_true]
          refine ⟨⟨h.weathers.one, ?_, h.weathers.frame, h.weathers.single, h.weathers.owed,
            h.weathers.reset, h.weathers.slot⟩, hlost⟩
          intro hi
          rw [hbusy] at hi
          cases hi

/-- The timer runs out and runs the consumer. -/
theorem timer (h : Accounts sent offs s) (harmed : s.timerArmed = true) :
    Accounts sent offs (delayedmsgworker t s.disarm) := by
  obtain ⟨hidle, hprog⟩ := h.weathers.of_armed harmed
  obtain ⟨htx, hirq⟩ := h.weathers.unheld hprog
  have hlost := h.lost
  have hoff := timerArmed_disarm s
  have hslot := hasSlot_disarm h.weathers.slot
  rw [Chan.atRisk, harmed, Bool.or_true, Bool.and_true, htx] at hlost
  refine Accounts.of_txSide ?_ (wakeWriters_txSide _)
  obtain ⟨kapi, hdis⟩ := disarm_frame s
  rw [hdis] at hoff hslot ⊢
  have hfree : Unheld { s with kapi := kapi } :=
    ⟨hidle, hoff, hprog, htx, hirq, h.weathers.reset, hslot⟩
  exact hfree.txConsume hlost

/-- The handler takes a reset back that the controller has entered. -/
theorem operating_irqEntry (h : Weathers s) : s.irqEntry.chip.inReset = false := by
  unfold Chan.irqEntry
  split
  · exact s.clearIrq.chip.inReset_leaveReset
  · rename_i hew
    exact Bool.eq_false_of_not_eq_true fun hres => hew (h.reset hres)

/-- A transmission that has come to its end hands the role to the handler, which has read the
    interrupt register and taken a reset back. -/
theorem unheld_irq (h : Weathers s) (hsig : s.txSignalled = true) {mid : Chan (Sja1000 t)}
    (hmid : mid.txSide = s.irqEntry.txSide) : Unheld { mid with txinprogress := 0 } := by
  obtain ⟨hidle, harmed, htx⟩ := h.of_signalled hsig
  have hop := operating_irqEntry h
  obtain ⟨mode, hframe⟩ := s.irqEntry_frame
  rw [hframe] at hmid hop
  have hslot : (s.onChip fun c => { c with irq := 0, mode := mode }).HasSlot := h.slot
  have hmidslot : mid.HasSlot := hasSlot_of_txSide hslot hmid
  have htxq : mid.txq = s.txq := congrArg TxSide.txq hmid
  have hpend : mid.chip.tx = s.chip.tx := congrArg TxSide.tx hmid
  have hirq : mid.chip.irq = 0 := congrArg TxSide.irq hmid
  have hmode : mid.chip.mode = mode := congrArg TxSide.mode hmid
  refine ⟨?_, (timerArmed_of_txSide hmid).trans harmed, rfl, hpend.trans htx, ?_, ?_, hmidslot⟩
  · show mid.txq.idle = false
    rw [htxq]
    exact hidle
  · show isSet mid.chip.irq canTransmitInt = false
    rw [hirq]
    exact isSet_zero _
  · intro hres
    have hset : isSet mid.chip.mode canResetRequest = true := hres
    rw [hmode] at hset
    rw [show isSet mode canResetRequest = false from hop] at hset
    cases hset

/-- One that has not stays in progress. -/
theorem weathers_irq (h : Weathers s) (hsig : s.txSignalled = false) : Weathers s.irqEntry := by
  have hop := operating_irqEntry h
  obtain ⟨mode, hframe⟩ := s.irqEntry_frame
  rw [hframe] at hop ⊢
  have hzero : isSet (0 : U8) canTransmitInt = false := isSet_zero _
  refine ⟨h.one, h.idleEmpty, ?_, fun _ => hzero, ?_, ?_, h.slot⟩
  · rintro (hpend | hirq)
    · exact h.frame (.inl hpend)
    · rw [show isSet (0 : U8) canTransmitInt = true from hirq] at hzero
      cases hzero
  · intro hprog
    rcases h.of_not_signalled hsig hprog with hpend | herr
    · exact .inl hpend
    · exact .inr (.inr (.inr herr))
  · intro hres
    rw [hop] at hres
    cases hres

/-- The handler runs the consumer for a transmission that has come to its end; behind it the
    controller operates. -/
theorem irq (h : Accounts sent offs s) (tstamp : Timeval) :
    Accounts sent offs (irqIteration t tstamp s) := by
  obtain ⟨mid, hmid, hside⟩ := irqIteration_txSide tstamp s
  have hop := operating_irqEntry h.weathers
  have hlost : s.hist.loaded.length ≤ sent.length + s.chip.tx.isSome.toNat + offs :=
    (Nat.le_add_right _ _).trans h.lost
  have hentry : s.irqEntry.hist = s.hist ∧ s.irqEntry.chip.tx = s.chip.tx := by
    obtain ⟨mode, hframe⟩ := s.irqEntry_frame
    rw [hframe]
    exact ⟨rfl, rfl⟩
  refine Accounts.of_txSide ?_ hside
  cases hsig : s.txSignalled with
  | true =>
      obtain ⟨-, -, htx⟩ := h.weathers.of_signalled hsig
      have hloaded : mid.hist.loaded = s.irqEntry.hist.loaded := congrArg TxSide.loaded hmid
      have hmode : mid.chip.mode = s.irqEntry.chip.mode := congrArg TxSide.mode hmid
      rw [if_pos rfl]
      refine (unheld_irq h.weathers hsig hmid).txConsume ?_
      show mid.hist.loaded.length + (isSet mid.chip.mode canResetRequest).toNat ≤ _
      rw [hmode, hloaded, hentry.1]
      rw [Sja1000.inReset] at hop
      rw [hop]
      rw [htx] at hlost
      exact hlost
  | false =>
      rw [if_neg Bool.false_ne_true]
      refine Accounts.of_txSide ⟨weathers_irq h.weathers hsig, ?_⟩ hmid
      rw [Chan.atRisk, hop, Bool.false_and, hentry.1, hentry.2]
      exact hlost

/-- The controller drops the pending frame, or puts the next message at risk. -/
theorem busOff (h : Accounts sent offs s) :
    Accounts sent (offs + 1) (s.onChip Sja1000.busOff) := by
  have hbit : isSet (s.chip.irq ||| canErrorWarnInt) canErrorWarnInt = true :=
    isSet_or_self _ (by decide)
  have htxbit : isSet (s.chip.irq ||| canErrorWarnInt) canTransmitInt =
      isSet s.chip.irq canTransmitInt := by
    rw [isSet_or]
    exact Bool.or_false _
  have hnone : (s.onChip Sja1000.busOff).chip.tx = none := by
    simp [Chan.onChip, Sja1000.busOff, Sja1000.setMode, Sja1000.or_reset]
  refine ⟨⟨h.weathers.one, h.weathers.idleEmpty, ?_, ?_, fun _ => .inr (.inr (.inl hbit)),
    fun _ => hbit, h.weathers.slot⟩, ?_⟩
  · rintro (hpend | hirq)
    · rw [hnone] at hpend
      cases hpend
    · exact h.weathers.frame (.inr (htxbit.symm.trans hirq))
  · intro hpend
    rw [hnone] at hpend
    cases hpend
  · have hlost := h.lost
    rw [hnone]
    show s.hist.loaded.length + ((s.onChip Sja1000.busOff).chip.inReset &&
      (s.txq.idle || s.timerArmed)).toNat ≤ sent.length + 0 + (offs + 1)
    -- where a frame is pending, neither the writer nor the timer has the role
    cases hpend : s.chip.tx with
    | none =>
        rw [hpend] at hlost
        have hle := Bool.toNat_le ((s.onChip Sja1000.busOff).chip.inReset &&
          (s.txq.idle || s.timerArmed))
        simp only [Option.isSome_none, Bool.toNat_false] at hlost
        omega
    | some f =>
        obtain ⟨hidle, harmed⟩ :=
          h.weathers.of_progress (h.weathers.frame (.inl (by rw [hpend]; rfl)))
        rw [hidle, harmed, Bool.or_self, Bool.and_false, Bool.toNat_false]
        rw [hpend] at hlost
        simp only [Option.isSome_some, Bool.toNat_true] at hlost
        omega

theorem txDone (h : Accounts sent offs s) {f : Frame} (htx : s.chip.tx = some f) :
    Accounts (sent ++ [f]) offs
      (s.onChip fun c => { c with tx := none, irq := c.irq ||| canTransmitInt }) := by
  have hbit : isSet (s.chip.irq ||| canTransmitInt) canTransmitInt = true :=
    isSet_or_self _ (by decide)
  have hprog := h.weathers.frame (.inl (by rw [htx]; rfl))
  refine ⟨⟨h.weathers.one, h.weathers.idleEmpty, fun _ => hprog, ?_, fun _ => .inr (.inl hbit),
    ?_, h.weathers.slot⟩, ?_⟩
  · intro hpend
    cases hpend
  · intro hres
    show isSet (s.chip.irq ||| canTransmitInt) canErrorWarnInt = true
    rw [isSet_or, h.weathers.reset hres, Bool.true_or]
  · have hlost := h.lost
    rw [htx, Option.isSome_some, Bool.toNat_true] at hlost
    rw [List.length_append, List.length_singleton]
    exact hlost

theorem busEvent (h : Accounts sent offs s) {bits stat : U8} (overrun : Bool)
    (hbits : isSet bits canTransmitInt = false)
    (hwarn : isSet bits canErrorWarnInt = true ∨ errFlags stat ≠ 0 ∨ errFlags s.chip.stat = 0) :
    Accounts sent offs (s.onChip (Sja1000.busEvent bits stat overrun)) := by
  have htx : isSet (s.chip.irq ||| bits) canTransmitInt = isSet s.chip.irq canTransmitInt := by
    rw [isSet_or, hbits, Bool.or_false]
  have hew : isSet s.chip.irq canErrorWarnInt = true →
      isSet (s.chip.irq ||| bits) canErrorWarnInt = true := by
    intro hset
    rw [isSet_or, hset, Bool.true_or]
  refine ⟨⟨h.weathers.one, h.weathers.idleEmpty, ?_, ?_, ?_, fun hres => hew (h.weathers.reset hres),
    h.weathers.slot⟩, h.lost⟩
  · show s.chip.tx.isSome = true ∨ isSet (s.chip.irq ||| bits) canTransmitInt = true → _
    rw [htx]
    exact h.weathers.frame
  · show s.chip.tx.isSome = true → isSet (s.chip.irq ||| bits) canTransmitInt = false
    rw [htx]
    exact h.weathers.single
  · intro hprog
    show s.chip.tx.isSome = true ∨ isSet (s.chip.irq ||| bits) canTransmitInt = true ∨
      isSet (s.chip.irq ||| bits) canErrorWarnInt = true ∨ errFlags stat ≠ 0
    rw [htx]
    rcases h.weathers.owed hprog with hpend | hirq | hset | herr
    · exact .inl hpend
    · exact .inr (.inl hirq)
    · exact .inr (.inr (.inl (hew hset)))
    · -- the end of an error state is announced
      rcases hwarn with hset | herr' | hgood
      · exact .inr (.inr (.inl (by rw [isSet_or, hset, Bool.or_true])))
      · exact .inr (.inr (.inr herr'))
      · exact absurd hgood herr

end Accounts

/-! ## Runs -/

/-- What a step shows on the bus: a frame that is sent, or (`none`) that the controller goes
    off. -/
def Chan.shows (s : Chan (Sja1000 t)) : Op → List (Option Frame)
  | .txDone => s.chip.tx.toList.map some
  | .busOff => [none]
  | _ => []

/-- What a run shows on the bus. -/
def Chan.busTrace (s : Chan (Sja1000 t)) (ops : List Op) : List (Option Frame) :=
  Run.observe Chan.weatherStep Chan.shows s ops

theorem Chan.reduceOption_shows (s : Chan (Sja1000 t)) (op : Op) :
    (s.shows op).reduceOption = s.sends op := by
  cases op with
  | txDone =>
      show (s.chip.tx.toList.map some).reduceOption = s.chip.tx.toList
      cases s.chip.tx <;> rfl
  | _ => rfl

/-- Every step of a device that may go off the bus keeps the account. -/
theorem Accounts.step {trace : List (Option Frame)} {s s' : Chan (Sja1000 t)} {op : Op}
    (h : Accounts trace.reduceOption (trace.countP Option.isNone) s) (hop : s.weathers op = true)
    (hstep : s.step op = some s') :
    Accounts (trace ++ s.shows op).reduceOption
      ((trace ++ s.shows op).countP Option.isNone) s' := by
  rw [List.reduceOption_append, Chan.reduceOption_shows, List.countP_append]
  cases op with
  | «open» env => cases hop
  | close => cases hop
  | command cmd => cases hop
  | config target val1 val2 => cases hop
  | write accessOk us =>
      obtain ⟨-, rfl⟩ := Chan.whenOpen_eq_some.mp hstep
      simp only [Chan.sends, Chan.shows, List.append_nil, List.countP_nil, Nat.add_zero]
      exact canWrite_rule (fun u c hc => hc.writeOne u) h accessOk us
  | read accessOk count =>
      obtain ⟨-, rfl⟩ := Chan.whenOpen_eq_some.mp hstep
      simp only [Chan.sends, Chan.shows, List.append_nil, List.countP_nil, Nat.add_zero]
      exact h.of_txSide (canRead_txSide s accessOk count)
  | irq tstamp =>
      obtain ⟨-, rfl⟩ := Chan.whenOpen_eq_some.mp hstep
      simp only [Chan.sends, Chan.shows, List.append_nil, List.countP_nil, Nat.add_zero]
      exact h.irq tstamp
  | timer =>
      obtain ⟨harmed, rfl⟩ := Chan.step_timer hstep
      simp only [Chan.sends, Chan.shows, List.append_nil, List.countP_nil, Nat.add_zero]
      exact h.timer harmed
  | arrive f =>
      obtain ⟨-, rfl⟩ := Chan.step_arrive hstep
      simp only [Chan.sends, Chan.shows, List.append_nil, List.countP_nil, Nat.add_zero]
      exact h.of_txSide rfl
  | txDone =>
      obtain ⟨hpend, rfl⟩ := Chan.step_txDone hstep
      obtain ⟨f, htx⟩ := Option.isSome_iff_exists.mp hpend
      simp only [Chan.sends, Chan.shows, htx, Option.toList_some]
      exact h.txDone htx
  | busEvent bits stat overrun =>
      obtain ⟨hbits, rfl⟩ := Chan.step_busEvent hstep
      simp only [Chan.sends, Chan.shows, List.append_nil, List.countP_nil, Nat.add_zero]
      exact h.busEvent overrun hbits (by simpa [Chan.weathers, or_assoc] using hop)
  | busOff =>
      obtain rfl := Chan.step_busOff hstep
      simp only [Chan.sends, Chan.shows, List.append_nil]
      exact h.busOff

/-- A device that is ready has nothing on its account. -/
theorem Ready.accounts {s : Chan (Sja1000 t)} (h : Ready s) : Accounts [] 0 s := by
  refine ⟨⟨?_, fun _ => h.txEmpty, ?_, ?_, fun hprog => absurd h.progress hprog, ?_, h.slot⟩, ?_⟩
  · rw [h.idle, h.unarmed, h.progress]
    rfl
  · rw [h.pending, h.irq]
    rintro (hpend | hirq)
    · cases hpend
    · cases hirq
  · exact fun _ => h.irq
  · intro hres
    rw [h.operating] at hres
    cases hres
  · rw [Chan.atRisk, h.operating, Bool.false_and, h.hist]
    exact Nat.zero_le _

/-- **A bus-off costs one message at most, and strands nothing.**  Operate a device in any way
    after an open that found nothing left over, as long as it is neither stopped, reset,
    reconfigured nor closed; it may go off the bus at any time.  The frames that go out carry, in
    order, the messages accepted, but for those that are pending or queued and at most one for
    each bus-off.  When the controller is error active again and no interrupt, timer or frame is
    left, the queue is empty and the next write starts transmission. -/
theorem bus_off_costs_one {s₀ s : Chan (Sja1000 t)} {ops : List Op} (hready : Ready s₀)
    (hrun : Run.exec Chan.weatherStep s₀ ops = some s) :
    (∃ ms, ms.Sublist s.hist.accepted ∧
      List.Forall₂ Carries ms (s₀.busTrace ops).reduceOption ∧
      s.hist.accepted.length ≤ ms.length + s.chip.tx.isSome.toNat + s.txq.contents.length +
        (s₀.busTrace ops).countP Option.isNone) ∧
    (s.chip.tx = none → isSet s.chip.irq canTransmitInt = false →
      isSet s.chip.irq canErrorWarnInt = false → errFlags s.chip.stat = 0 →
      s.timerArmed = false → s.txq.contents = [] ∧ s.txq.idle = true) := by
  have hacc : Accounts (s₀.busTrace ops).reduceOption
      ((s₀.busTrace ops).countP Option.isNone) s ∧
      SentInOrder (s₀.busTrace ops).reduceOption s ∧ Flow [] [] s := by
    refine Run.exec_observe (v := []) (P := fun trace c =>
      Accounts trace.reduceOption (trace.countP Option.isNone) c ∧
        SentInOrder trace.reduceOption c ∧ Flow [] [] c) ?_ ⟨hready.accounts, ?_, ?_⟩ hrun
    · rintro trace c op c' ⟨hacc, hsent, hflow⟩ hstep
      obtain ⟨hop, hstep'⟩ := Run.restrict_eq_some.mp hstep
      have hopens : ∀ env, op ≠ .open env := by
        rintro env rfl
        cases hop
      refine ⟨hacc.step hop hstep', ?_, hflow.step hopens hstep'⟩
      rw [List.reduceOption_append, Chan.reduceOption_shows]
      exact hsent.step hopens hstep'
    · refine ⟨[], List.nil_sublist _, ?_⟩
      rw [hready.pending]
      exact .nil
    · exact hready.operates.flow
  obtain ⟨hacc, hsent, hflow⟩ := hacc
  have htx := hflow.tx
  rw [List.nil_append] at htx
  refine ⟨?_, fun hpend hirq hew hgood harmed => ?_⟩
  · obtain ⟨ms, hsub, hms⟩ := hsent.dropped
    have hpre : ms.Sublist (s.hist.accepted.map Canmsg.onWire) := by
      rw [← htx]
      exact hsub.trans (List.sublist_append_left _ _)
    obtain ⟨ms', hsub', rfl⟩ := List.sublist_map_iff.mp hpre
    rw [List.forall₂_map_left_iff] at hms
    refine ⟨ms', hsub', hms.imp fun m f h => carries_onWire.mp h, ?_⟩
    have hlen := congrArg List.length htx
    have hsentlen := hms.length_eq
    have hlost := hacc.lost
    rw [List.length_append, List.length_map, List.length_map] at hlen
    omega
  · -- a transmission in progress would have left something
    have hprog : s.txinprogress = 0 := by
      by_contra hne
      rcases hacc.weathers.owed hne with h | h | h | h
      · rw [hpend] at h
        cases h
      · rw [hirq] at h
        cases h
      · rw [hew] at h
        cases h
      · exact h hgood
    have hone := hacc.weathers.one
    rw [harmed, hprog] at hone
    have hidle : s.txq.idle = true := by simpa using hone
    exact ⟨MsgQ.empty_iff.mp (hacc.weathers.idleEmpty hidle), hidle⟩

/-- The controller goes off the bus with the first of three messages pending; it recovers, and the
    other two are sent. -/
theorem bus_off_costs_one_opened :
    let ops : List Op := [.write true [.ofMsg Canmsg.zero, .ofMsg { Canmsg.zero with id := 1 },
      .ofMsg { Canmsg.zero with id := 2 }], .busOff, .irq ⟨0, 0⟩,
      .busEvent canErrorWarnInt 0 false, .irq ⟨0, 1⟩, .txDone, .irq ⟨0, 2⟩, .txDone, .irq ⟨0, 3⟩]
    ∃ s, Run.exec Chan.weatherStep Chan.opened ops = some s ∧
      (∃ ms, ms.Sublist s.hist.accepted ∧
        List.Forall₂ Carries ms (Chan.opened.busTrace ops).reduceOption ∧
        s.hist.accepted.length ≤ ms.length + s.chip.tx.isSome.toNat + s.txq.contents.length +
          (Chan.opened.busTrace ops).countP Option.isNone) ∧
      s.txq.contents = [] ∧ s.txq.idle = true := by
  intro ops
  obtain ⟨s, hs, hquiet⟩ := Option.map_eq_some_iff.mp
    (show (Run.exec Chan.weatherStep Chan.opened ops).map
      (fun s => (s.chip.tx, isSet s.chip.irq canTransmitInt,
        isSet s.chip.irq canErrorWarnInt, errFlags s.chip.stat, s.timerArmed)) =
      some (none, false, false, 0, false) by decide +kernel)
  simp only [Prod.mk.injEq] at hquiet
  obtain ⟨hpend, hirq, hew, hgood, harmed⟩ := hquiet
  obtain ⟨hlost, hquiet⟩ := bus_off_costs_one ready_opened hs
  exact ⟨s, hs, hlost, hquiet hpend hirq hew hgood harmed⟩

end Can4linux
