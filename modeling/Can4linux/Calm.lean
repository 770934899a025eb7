/-
  Can4linux.Calm

  A device in calm operation: opened, and since then neither stopped, reset,
  reconfigured, closed nor off the bus.  Then the role of the consumer of the
  transmit queue is with exactly one: the next writer, the delay timer, the
  frame in the controller, or the transmit interrupt that is latched for it.
  Hence no frame is loaded over another, none is loaded in reset mode, and what
  has been loaded is what has been sent and the frame that is pending.
-/

import Can4linux.TxProgress
import Can4linux.RxPath
import Can4linux.Session
import Can4linux.Wire

namespace Can4linux

variable {t : Target}

/-! ## The one holder of the role -/

/-- How many hold the role of the consumer. -/
def Chan.holders (s : Chan (Sja1000 t)) : Nat :=
  s.txq.idle.toNat + s.timerArmed.toNat + s.chip.tx.isSome.toNat +
    (isSet s.chip.irq canTransmitInt).toNat

/-- Nobody holds it: the consumer is about to be run. -/
structure Vacant (acc : Frame) (s : Chan (Sja1000 t)) : Prop where
  operating : s.chip.inReset = false
  filter : s.chip.acc = acc
  none : s.holders = 0
  progress : s.txinprogress = 0
  slot : s.HasSlot

/-- Exactly one holds it; the acceptance filter is `acc`. -/
structure Calm (acc : Frame) (s : Chan (Sja1000 t)) : Prop where
  operating : s.chip.inReset = false
  filter : s.chip.acc = acc
  one : s.holders = 1
  idleEmpty : s.txq.idle = true → s.txq.empty = true
  progress : s.txinprogress ≠ 0 ↔
    s.chip.tx.isSome = true ∨ isSet s.chip.irq canTransmitInt = true
  slot : s.HasSlot

section Holders

variable {s s' : Chan (Sja1000 t)}

theorem holders_eq_zero : s.holders = 0 ↔
    s.txq.idle = false ∧ s.timerArmed = false ∧ s.chip.tx = none ∧
      isSet s.chip.irq canTransmitInt = false := by
  unfold Chan.holders
  cases s.txq.idle <;> cases s.timerArmed <;> cases s.chip.tx <;>
    cases isSet s.chip.irq canTransmitInt <;> simp

theorem timerArmed_of_txSide (hside : s'.txSide = s.txSide) : s'.timerArmed = s.timerArmed := by
  have hdly : s'.delayedwork = s.delayedwork := congrArg TxSide.delayedwork hside
  have hkapi : s'.kapi = s.kapi := congrArg TxSide.kapi hside
  rw [Chan.timerArmed, hdly, hkapi]
  rfl

theorem holders_of_txSide (hside : s'.txSide = s.txSide) : s'.holders = s.holders := by
  have htxq : s'.txq = s.txq := congrArg TxSide.txq hside
  have htx : s'.chip.tx = s.chip.tx := congrArg TxSide.tx hside
  have hirq : s'.chip.irq = s.chip.irq := congrArg TxSide.irq hside
  rw [Chan.holders, Chan.holders, timerArmed_of_txSide hside, htxq, htx, hirq]

end Holders

namespace Calm

variable {acc : Frame} {s s' : Chan (Sja1000 t)}

theorem of_txSide (h : Calm acc s) (hside : s'.txSide = s.txSide) : Calm acc s' := by
  have htxq : s'.txq = s.txq := congrArg TxSide.txq hside
  have htx : s'.chip.tx = s.chip.tx := congrArg TxSide.tx hside
  have hirq : s'.chip.irq = s.chip.irq := congrArg TxSide.irq hside
  have hmode : s'.chip.mode = s.chip.mode := congrArg TxSide.mode hside
  have hacc : s'.chip.acc = s.chip.acc := congrArg TxSide.acc hside
  have hprog : s'.txinprogress = s.txinprogress := congrArg TxSide.txinprogress hside
  refine ⟨?_, hacc.trans h.filter, (holders_of_txSide hside).trans h.one, ?_, ?_,
    hasSlot_of_txSide h.slot hside⟩
  · rw [Sja1000.inReset, hmode]
    exact h.operating
  · rw [htxq]
    exact h.idleEmpty
  · rw [hprog, htx, hirq]
    exact h.progress

/-- The others do not hold the role while the first one does. -/
theorem of_idle (h : Calm acc s) (hidle : s.txq.idle = true) :
    s.timerArmed = false ∧ s.chip.tx = none ∧ isSet s.chip.irq canTransmitInt = false := by
  have hone := h.one
  unfold Chan.holders at hone
  rw [hidle] at hone
  cases harm : s.timerArmed <;> cases htx : s.chip.tx <;>
    cases hirq : isSet s.chip.irq canTransmitInt <;> simp_all

theorem of_armed (h : Calm acc s) (harmed : s.timerArmed = true) :
    s.txq.idle = false ∧ s.chip.tx = none ∧ isSet s.chip.irq canTransmitInt = false := by
  have hone := h.one
  unfold Chan.holders at hone
  rw [harmed] at hone
  cases hidle : s.txq.idle <;> cases htx : s.chip.tx <;>
    cases hirq : isSet s.chip.irq canTransmitInt <;> simp_all

theorem of_interrupt (h : Calm acc s) (hirq : isSet s.chip.irq canTransmitInt = true) :
    s.txq.idle = false ∧ s.timerArmed = false ∧ s.chip.tx = none := by
  have hone := h.one
  unfold Chan.holders at hone
  rw [hirq] at hone
  cases hidle : s.txq.idle <;> cases harm : s.timerArmed <;> cases htx : s.chip.tx <;> simp_all

/-- Nothing is in progress while the role is with the writer or with the timer. -/
theorem not_progress (h : Calm acc s) (htx : s.chip.tx = none)
    (hirq : isSet s.chip.irq canTransmitInt = false) : s.txinprogress = 0 := by
  by_contra hne
  rcases h.progress.mp hne with hpend | hint
  · rw [htx] at hpend
    cases hpend
  · rw [hirq] at hint
    cases hint

end Calm

/-- Running the consumer gives the role to the writer, to the timer, or to the frame that
    is loaded. -/
theorem Vacant.txConsume {acc : Frame} {s : Chan (Sja1000 t)} (h : Vacant acc s) :
    Calm acc (txConsume t s) := by
  obtain ⟨hidle, harmed, htx, hirq⟩ := holders_eq_zero.mp h.none
  rcases txConsume_cases s with ⟨hempty, heq⟩ | ⟨-, -, heq⟩ | ⟨-, -, heq⟩
  · rw [heq]
    refine ⟨h.operating, h.filter, ?_, fun _ => hempty, ?_, h.slot⟩
    · show true.toNat + s.timerArmed.toNat + s.chip.tx.isSome.toNat +
        (isSet s.chip.irq canTransmitInt).toNat = 1
      rw [harmed, htx, hirq]
      rfl
    · show s.txinprogress ≠ 0 ↔ s.chip.tx.isSome = true ∨ isSet s.chip.irq canTransmitInt = true
      simp [h.progress, htx, hirq]
  · have harm := timerArmed_schedule h.slot (remainingDelay s.sys.baud s.txq.head.capLength)
    have hslot := hasSlot_schedule h.slot (remainingDelay s.sys.baud s.txq.head.capLength)
    obtain ⟨dw, kapi, hframe⟩ :=
      kapiScheduleDelayed_frame s (remainingDelay s.sys.baud s.txq.head.capLength)
    rw [hframe] at harm hslot
    rw [heq, hframe]
    refine ⟨h.operating, h.filter, ?_, ?_, ?_, hslot⟩
    · have harm' : Chan.timerArmed (σ := Sja1000 t)
          { s with
            txq := s.txq.setHead s.txq.head.capLength.clearDelay
            delayedwork := dw, kapi := kapi } = true := harm
      show s.txq.idle.toNat + (Chan.timerArmed (σ := Sja1000 t) _).toNat +
        s.chip.tx.isSome.toNat + (isSet s.chip.irq canTransmitInt).toNat = 1
      rw [harm', hidle, htx, hirq]
      rfl
    · intro hi
      rw [show s.txq.idle = true from hi] at hidle
      cases hidle
    · show s.txinprogress ≠ 0 ↔ s.chip.tx.isSome = true ∨ isSet s.chip.irq canTransmitInt = true
      simp [h.progress, htx, hirq]
  · have hload : (s.chip.load s.txq.head.capLength).tx =
        some (encodeFrame s.txq.head.capLength s.chip.txbuf) := by
      rw [Sja1000.load, h.operating]
      rfl
    rw [heq]
    refine ⟨?_, ?_, ?_, ?_, ?_, h.slot⟩
    · rw [Sja1000.inReset]
      show isSet (s.chip.load s.txq.head.capLength).mode canResetRequest = false
      rw [Sja1000.load_mode]
      exact h.operating
    · exact (s.chip.load_acc _ h.operating).trans h.filter
    · show s.txq.idle.toNat + s.timerArmed.toNat +
        (s.chip.load s.txq.head.capLength).tx.isSome.toNat +
          (isSet (s.chip.load s.txq.head.capLength).irq canTransmitInt).toNat = 1
      rw [hload, Sja1000.load_irq, hidle, harmed, hirq]
      rfl
    · intro hi
      rw [show s.txq.idle = true from hi] at hidle
      cases hidle
    · show (1#32) ≠ 0 ↔ (s.chip.load s.txq.head.capLength).tx.isSome = true ∨ _
      rw [hload]
      simp

/-! ## Who hands the role over -/

namespace Calm

variable {acc : Frame} {s : Chan (Sja1000 t)}

/-- The timer holds the role until it runs out. -/
theorem vacant_disarm (h : Calm acc s) (harmed : s.timerArmed = true) : Vacant acc s.disarm := by
  obtain ⟨hidle, htx, hirq⟩ := h.of_armed harmed
  have hoff := timerArmed_disarm s
  have hslot := hasSlot_disarm h.slot
  obtain ⟨kapi, hdis⟩ := disarm_frame s
  rw [hdis] at hoff hslot ⊢
  exact ⟨h.operating, h.filter, holders_eq_zero.mpr ⟨hidle, hoff, htx, hirq⟩,
    h.not_progress htx hirq, hslot⟩

/-- A writer that finds the queue idle takes the role. -/
theorem vacant_enqueue (h : Calm acc s) (hidle : s.txq.idle = true) (u : UserMsg) :
    Vacant acc { s.enqueue u with txq := (s.enqueue u).txq.setIdle false } := by
  obtain ⟨harmed, htx, hirq⟩ := h.of_idle hidle
  exact ⟨h.operating, h.filter, holders_eq_zero.mpr ⟨rfl, harmed, htx, hirq⟩,
    h.not_progress htx hirq, h.slot⟩

/-- In calm operation a transmission never ends without a transmit interrupt, so none is
    simulated. -/
theorem txSignalled (h : Calm acc s) : s.txSignalled = isSet s.chip.irq canTransmitInt := by
  unfold Chan.txSignalled
  cases hirq : isSet s.chip.irq canTransmitInt with
  | true => rfl
  | false =>
      cases htx : s.chip.tx with
      | some f => simp
      | none =>
          have hprog := h.not_progress htx hirq
          simp [hprog]

/-- An iteration reads the interrupt register, and runs the consumer on a transmit interrupt
    only. -/
theorem irqIteration_txSide (h : Calm acc s) (tstamp : Timeval) :
    ∃ mid : Chan (Sja1000 t), mid.txSide = s.clearIrq.txSide ∧
      (irqIteration t tstamp s).txSide =
        (if isSet s.chip.irq canTransmitInt then txConsume t { mid with txinprogress := 0 }
          else mid).txSide := by
  obtain ⟨mid, hmid, hside⟩ := Can4linux.irqIteration_txSide tstamp s
  have hentry : s.irqEntry.txSide = s.clearIrq.txSide := by
    unfold Chan.irqEntry
    split
    · have hop : s.clearIrq.chip.inReset = false := h.operating
      rw [Chan.onChip, Sja1000.leaveReset_of_operating _ hop]
    · rfl
  rw [h.txSignalled] at hside
  exact ⟨mid, hmid.trans hentry, hside⟩

/-- A transmit interrupt holds the role until it is read. -/
theorem vacant_irq (h : Calm acc s) (hirq : isSet s.chip.irq canTransmitInt = true)
    {mid : Chan (Sja1000 t)} (hmid : mid.txSide = s.clearIrq.txSide) :
    Vacant acc { mid with txinprogress := 0 } := by
  obtain ⟨hidle, hunarmed, hnone⟩ := h.of_interrupt hirq
  have hmode : mid.chip.mode = s.chip.mode := congrArg TxSide.mode hmid
  have hacc : mid.chip.acc = s.chip.acc := congrArg TxSide.acc hmid
  have htxq : mid.txq = s.txq := congrArg TxSide.txq hmid
  have htx : mid.chip.tx = s.chip.tx := congrArg TxSide.tx hmid
  have hclear : mid.chip.irq = 0 := congrArg TxSide.irq hmid
  have harmed : mid.timerArmed = s.clearIrq.timerArmed := timerArmed_of_txSide hmid
  refine ⟨?_, hacc.trans h.filter, holders_eq_zero.mpr ⟨?_, ?_, ?_, ?_⟩, rfl, ?_⟩
  · show isSet mid.chip.mode canResetRequest = false
    rw [hmode]
    exact h.operating
  · exact htxq ▸ hidle
  · exact harmed.trans hunarmed
  · exact htx.trans hnone
  · show isSet mid.chip.irq canTransmitInt = false
    rw [hclear]
    exact isSet_zero _
  · have hs : s.clearIrq.HasSlot := h.slot
    have hm : mid.HasSlot := hasSlot_of_txSide hs hmid
    exact hm

/-- Any other interrupt leaves the role where it is. -/
theorem clearIrq (h : Calm acc s) (hirq : isSet s.chip.irq canTransmitInt = false) :
    Calm acc s.clearIrq := by
  refine ⟨h.operating, h.filter, ?_, h.idleEmpty, ?_, h.slot⟩
  · have hone := h.one
    rw [Chan.holders, hirq] at hone
    show s.txq.idle.toNat + s.timerArmed.toNat + s.chip.tx.isSome.toNat +
      (isSet 0 canTransmitInt).toNat = 1
    rw [isSet_zero]
    exact hone
  · have hsame := h.progress
    rw [hirq] at hsame
    show s.txinprogress ≠ 0 ↔ s.chip.tx.isSome = true ∨ isSet 0 canTransmitInt = true
    rw [isSet_zero]
    exact hsame

end Calm

/-! ## The frames that have been sent -/

/-- What has been loaded is what has been sent and what is pending. -/
def SentAll (sent : List Frame) (s : Chan (Sja1000 t)) : Prop :=
  List.Forall₂ Carries s.hist.loaded (sent ++ s.chip.tx.toList)

namespace SentAll

variable {acc : Frame} {sent : List Frame} {s s' : Chan (Sja1000 t)}

theorem of_eq (h : SentAll sent s) (hloaded : s'.hist.loaded = s.hist.loaded)
    (htx : s'.chip.tx = s.chip.tx) : SentAll sent s' := by
  rw [SentAll, hloaded, htx]
  exact h

theorem of_txSide (h : SentAll sent s) (hside : s'.txSide = s.txSide) : SentAll sent s' :=
  h.of_eq (congrArg TxSide.loaded hside) (congrArg TxSide.tx hside)

/-- A frame is loaded into an empty buffer only, so none is lost. -/
theorem txConsume (h : SentAll sent s) (hv : Vacant acc s) : SentAll sent (txConsume t s) := by
  obtain ⟨-, -, htx, -⟩ := holders_eq_zero.mp hv.none
  rcases txConsume_cases s with ⟨-, heq⟩ | ⟨-, -, heq⟩ | ⟨-, -, heq⟩
  · rw [heq]
    exact h.of_eq rfl rfl
  · obtain ⟨dw, kapi, hframe⟩ :=
      kapiScheduleDelayed_frame s (remainingDelay s.sys.baud s.txq.head.capLength)
    rw [heq, hframe]
    exact h.of_eq rfl rfl
  · have hload : (s.chip.load s.txq.head.capLength).tx =
        some (encodeFrame s.txq.head.capLength s.chip.txbuf) := by
      rw [Sja1000.load, hv.operating]
      rfl
    have hnew : Carries s.txq.head.onWire (encodeFrame s.txq.head.capLength s.chip.txbuf) :=
      carries_onWire.mpr (Carries.encode _ _)
    have hsent : List.Forall₂ Carries s.hist.loaded sent := by
      have hall := h
      rw [SentAll, htx, Option.toList_none, List.append_nil] at hall
      exact hall
    rw [heq]
    show List.Forall₂ Carries (s.hist.loaded ++ [s.txq.head.onWire])
      (sent ++ (s.chip.load s.txq.head.capLength).tx.toList)
    rw [hload]
    exact List.rel_append hsent (List.Forall₂.cons hnew .nil)

end SentAll

/-! ## The steps -/

/-- Calm operation, and nothing loaded has been lost. -/
structure Sending (acc : Frame) (sent : List Frame) (s : Chan (Sja1000 t)) : Prop where
  calm : Calm acc s
  all : SentAll sent s

namespace Sending

variable {acc : Frame} {sent : List Frame} {s s' : Chan (Sja1000 t)}

theorem of_txSide (h : Sending acc sent s) (hside : s'.txSide = s.txSide) :
    Sending acc sent s' :=
  ⟨h.calm.of_txSide hside, h.all.of_txSide hside⟩

theorem of_vacant (hv : Vacant acc s) (h : SentAll sent s) : Sending acc sent (txConsume t s) :=
  ⟨hv.txConsume, h.txConsume hv⟩

/-- A writer that finds the queue idle takes the role and runs the consumer with it. -/
theorem writeOne (h : Sending acc sent s) (u : UserMsg) :
    Sending acc sent (writeOne t u s).2 := by
  cases hfull : s.txq.full with
  | true =>
      rw [writeOne_full hfull]
      exact h
  | false =>
      rw [writeOne_room hfull]
      cases hidle : s.txq.idle with
      | true =>
          rw [kickIdle_enqueue hidle]
          exact of_vacant (h.calm.vacant_enqueue hidle u) (h.all.of_eq rfl rfl)
      | false =>
          have hbusy : (s.enqueue u).txq.idle = false := hidle
          rw [kickIdle, hbusy, if_neg Bool.false_ne_true]
          refine ⟨⟨h.calm.operating, h.calm.filter, h.calm.one, ?_, h.calm.progress,
            h.calm.slot⟩, h.all.of_eq rfl rfl⟩
          intro hi
          rw [hbusy] at hi
          cases hi

/-- The timer runs out and runs the consumer. -/
theorem timer (h : Sending acc sent s) (harmed : s.timerArmed = true) :
    Sending acc sent (delayedmsgworker t s.disarm) := by
  have hall : SentAll sent s.disarm := by
    obtain ⟨kapi, hdis⟩ := disarm_frame s
    rw [hdis]
    exact h.all.of_eq rfl rfl
  exact (of_vacant (h.calm.vacant_disarm harmed) hall).of_txSide (wakeWriters_txSide _)

/-- The transmit interrupt hands the role to the handler, which runs the consumer; any other
    interrupt leaves it where it is. -/
theorem irq (h : Sending acc sent s) (tstamp : Timeval) :
    Sending acc sent (irqIteration t tstamp s) := by
  obtain ⟨mid, hmid, hside⟩ := h.calm.irqIteration_txSide tstamp
  have hall : SentAll sent mid :=
    h.all.of_eq (congrArg TxSide.loaded hmid) (congrArg TxSide.tx hmid)
  refine Sending.of_txSide ?_ hside
  cases hirq : isSet s.chip.irq canTransmitInt with
  | true =>
      rw [if_pos rfl]
      exact of_vacant (h.calm.vacant_irq hirq hmid) (hall.of_eq rfl rfl)
  | false =>
      rw [if_neg Bool.false_ne_true]
      exact ⟨(h.calm.clearIrq hirq).of_txSide hmid, hall⟩

end Sending

/-- A step of calm operation keeps it, and sends what it puts on the bus. -/
theorem Sending.step {acc : Frame} {sent : List Frame} {s s' : Chan (Sja1000 t)} {op : Op}
    (h : Sending acc sent s) (hop : op.receives = true) (hstep : s.step op = some s') :
    Sending acc (sent ++ s.sends op) s' := by
  cases op with
  | «open» env => cases hop
  | close => cases hop
  | command cmd => cases hop
  | config target val1 val2 => cases hop
  | busOff => cases hop
  | write accessOk us =>
      obtain ⟨-, rfl⟩ := Chan.whenOpen_eq_some.mp hstep
      simp only [Chan.sends, List.append_nil]
      exact canWrite_rule (fun u c hc => hc.writeOne u) h accessOk us
  | read accessOk count =>
      obtain ⟨-, rfl⟩ := Chan.whenOpen_eq_some.mp hstep
      simp only [Chan.sends, List.append_nil]
      exact h.of_txSide (canRead_txSide s accessOk count)
  | irq tstamp =>
      obtain ⟨-, rfl⟩ := Chan.whenOpen_eq_some.mp hstep
      simp only [Chan.sends, List.append_nil]
      exact h.irq tstamp
  | timer =>
      obtain ⟨harmed, rfl⟩ := Chan.step_timer hstep
      simp only [Chan.sends, List.append_nil]
      exact h.timer harmed
  | arrive f =>
      obtain ⟨-, rfl⟩ := Chan.step_arrive hstep
      simp only [Chan.sends, List.append_nil]
      exact h.of_txSide rfl
  | txDone =>
      obtain ⟨hpend, rfl⟩ := Chan.step_txDone hstep
      obtain ⟨f, htx⟩ := Option.isSome_iff_exists.mp hpend
      have hbit : isSet (s.chip.irq ||| canTransmitInt) canTransmitInt = true :=
        isSet_or_self _ (by decide)
      refine ⟨⟨h.calm.operating, h.calm.filter, ?_, h.calm.idleEmpty, ?_, h.calm.slot⟩, ?_⟩
      · -- the role passes from the frame to its interrupt
        have hone := h.calm.one
        rw [Chan.holders, htx] at hone
        show s.txq.idle.toNat + s.timerArmed.toNat + (none : Option Frame).isSome.toNat +
          (isSet (s.chip.irq ||| canTransmitInt) canTransmitInt).toNat = 1
        rw [hbit]
        simp only [Option.isSome_some, Option.isSome_none, Bool.toNat_true,
          Bool.toNat_false] at hone ⊢
        omega
      · have hprog := h.calm.progress.mpr (.inl hpend)
        show s.txinprogress ≠ 0 ↔
          (none : Option Frame).isSome = true ∨
            isSet (s.chip.irq ||| canTransmitInt) canTransmitInt = true
        rw [hbit]
        exact iff_of_true hprog (.inr rfl)
      · show List.Forall₂ Carries s.hist.loaded (sent ++ s.chip.tx.toList ++ [])
        rw [List.append_nil]
        exact h.all
  | busEvent bits stat overrun =>
      obtain ⟨hbits, rfl⟩ := Chan.step_busEvent hstep
      simp only [Chan.sends, List.append_nil]
      have hirq : isSet (s.chip.irq ||| bits) canTransmitInt =
          isSet s.chip.irq canTransmitInt := by
        rw [isSet_or, hbits, Bool.or_false]
      refine ⟨⟨h.calm.operating, h.calm.filter, ?_, h.calm.idleEmpty, ?_, h.calm.slot⟩,
        h.all.of_eq rfl rfl⟩
      · show s.txq.idle.toNat + s.timerArmed.toNat + s.chip.tx.isSome.toNat +
          (isSet (s.chip.irq ||| bits) canTransmitInt).toNat = 1
        rw [hirq]
        exact h.calm.one
      · show s.txinprogress ≠ 0 ↔ s.chip.tx.isSome = true ∨
          isSet (s.chip.irq ||| bits) canTransmitInt = true
        rw [hirq]
        exact h.calm.progress

/-! ## Runs -/

/-- A device right after an open that found nothing left over: both queues empty, nothing
    pending, no frame received. -/
structure Ready (s : Chan (Sja1000 t)) : Prop where
  isopen : s.isopen = 1
  operating : s.chip.inReset = false
  rxWf : s.rxq.WF 11
  txWf : s.txq.WF 7
  rxEmpty : s.rxq.empty = true
  txEmpty : s.txq.empty = true
  idle : s.txq.idle = true
  unarmed : s.timerArmed = false
  pending : s.chip.tx = none
  irq : isSet s.chip.irq canTransmitInt = false
  progress : s.txinprogress = 0
  slot : s.HasSlot
  fifo : s.chip.rxfifo = []
  hist : s.hist = Hist.empty

/-- An open finds nothing left over where the session before was settled, its timer has run
    out and the controller holds no frame. -/
theorem Ready.of_open {s s' : Chan (Sja1000 t)} {env : OpenEnv} (hsettled : s.settled = true)
    (hunarmed : s.timerArmed = false) (hslot : s.HasSlot) (hstep : s.step (.open env) = some s')
    (hfifo : s'.chip.rxfifo = []) : Ready s' := by
  have hfresh := (Chan.open_fresh_iff hstep).mpr hsettled
  have hflow := Fresh.flow hsettled hstep
  obtain ⟨-, ri, held, o, c, regs, rxb, txb, rfl⟩ := Chan.step_open hstep
  exact {
    isopen := rfl
    operating := show isSet canModeDef canResetRequest = false by decide
    rxWf := hflow.rxWf
    txWf := hflow.txWf
    rxEmpty := MsgQ.empty_iff_qlen.mpr hfresh.rx
    txEmpty := MsgQ.empty_iff_qlen.mpr hfresh.tx
    idle := hfresh.idle
    unarmed := hunarmed
    pending := rfl
    irq := isSet_zero _
    progress := hfresh.progress
    slot := hslot
    fifo := hfifo
    hist := rfl }

/-- The first open of a device is such an open. -/
theorem ready_opened : Ready Chan.opened :=
  .of_open (by decide) (by decide) (by decide) Chan.step_opened (by decide +kernel)

/-- A device in calm operation since it was ready: it has sent the frames `sent`, its
    controller has received the frames `heard`. -/
structure Operates (acc : Frame) (sent : List Frame) (heard : List RxView)
    (s : Chan (Sja1000 t)) : Prop where
  isopen : s.isopen = 1
  sending : Sending acc sent s
  flow : Flow [] [] s
  reception : RxHolds 11 heard s

theorem Ready.operates {s : Chan (Sja1000 t)} (h : Ready s) :
    Operates s.chip.acc [] [] s := by
  have hrx : s.rxq.contents = [] := MsgQ.empty_iff.mp h.rxEmpty
  have htx : s.txq.contents = [] := MsgQ.empty_iff.mp h.txEmpty
  refine ⟨h.isopen, ⟨⟨h.operating, rfl, ?_, fun _ => h.txEmpty, ?_, h.slot⟩, ?_⟩,
    ⟨h.rxWf, h.txWf, ?_, ?_⟩, ⟨h.rxWf, h.operating, ?_⟩⟩
  · rw [Chan.holders, h.idle, h.unarmed, h.pending, h.irq]
    rfl
  · simp [h.progress, h.pending, h.irq]
  · rw [SentAll, h.hist, h.pending]
    exact .nil
  · rw [h.hist, hrx]
    rfl
  · rw [h.hist, htx]
    rfl
  · rw [Chan.rxTotal, h.hist, hrx, h.fifo]
    rfl

/-- A step of calm operation. -/
theorem Operates.step {acc : Frame} {sent : List Frame} {heard : List RxView}
    {s s' : Chan (Sja1000 t)} {op : Op} (h : Operates acc sent heard s)
    (hop : op.receives = true) (hstep : s.step op = some s') :
    Operates acc (sent ++ s.sends op) (heard ++ op.arrivals) s' := by
  have hopens : ∀ env, op ≠ .open env := by
    rintro env rfl
    cases hop
  have hcloses : op ≠ .close := by
    rintro rfl
    cases hop
  exact ⟨(Chan.step_isopen hopens hcloses hstep).trans h.isopen, h.sending.step hop hstep,
    h.flow.step hopens hstep, h.reception.step hop hstep⟩

end Can4linux
