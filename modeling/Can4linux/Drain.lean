/-
  Can4linux.Drain

  Liveness of transmission.  In calm operation the role of the consumer is always
  with the writer, with the timer, with a frame in the controller, or with a latched
  interrupt; as long as it is not with the writer, one of three things can happen:
  the timer runs out, the frame is sent, or the interrupt is handled.  Each of them
  brings the queue closer to the end (`toDo`), whatever their order and whatever the
  delays, so that a bus which keeps sending and a handler which keeps running empty
  the queue in a bounded number of steps.
-/

import Can4linux.Calm

namespace Can4linux

variable {t : Target}

/-! ## What is left to do -/

/-- The steps that the messages in the queue need: three each, two more for one that waits. -/
def MsgQ.work (q : MsgQ Canmsg) : Nat :=
  3 * q.contents.length + 2 * q.contents.countP fun m => m.timestamp.tvUsec != 0

namespace Chan

/-- The step moves transmission on. -/
def movesOn (s : Chan (Sja1000 t)) : Op → Bool
  | .txDone | .timer => true
  | .irq _ => isSet s.chip.irq canTransmitInt
  | _ => false

/-- The system of the steps that do. -/
def moveStep : Chan (Sja1000 t) → Op → Option (Chan (Sja1000 t)) :=
  Run.restrict step fun s op => s.movesOn op = true

/-- How far the holder of the role is from running the consumer. -/
def distance (s : Chan (Sja1000 t)) : Nat :=
  2 * s.timerArmed.toNat + 2 * s.chip.tx.isSome.toNat +
    (isSet s.chip.irq canTransmitInt).toNat

/-- What is left to do. -/
def toDo (s : Chan (Sja1000 t)) : Nat := s.txq.work + s.distance

variable {s s' : Chan (Sja1000 t)}

theorem toDo_of_txSide (hside : s'.txSide = s.txSide) : s'.toDo = s.toDo := by
  have htxq : s'.txq = s.txq := congrArg TxSide.txq hside
  have htx : s'.chip.tx = s.chip.tx := congrArg TxSide.tx hside
  have hirq : s'.chip.irq = s.chip.irq := congrArg TxSide.irq hside
  rw [toDo, toDo, distance, distance, timerArmed_of_txSide hside, htxq, htx, hirq]

end Chan

/-- The holder of the role is at most two steps away. -/
theorem Calm.distance_le {acc : Frame} {s : Chan (Sja1000 t)} (h : Calm acc s) :
    s.distance ≤ 2 * (!s.txq.idle).toNat := by
  have hone := h.one
  unfold Chan.holders at hone
  unfold Chan.distance
  cases hidle : s.txq.idle with
  | true =>
      rw [hidle] at hone
      simp only [Bool.toNat_true, Bool.not_true, Bool.toNat_false] at hone ⊢
      omega
  | false =>
      simp only [Bool.not_false, Bool.toNat_true]
      omega

/-- Never more than five steps for each slot of the queue. -/
theorem Calm.toDo_le {acc : Frame} {s : Chan (Sja1000 t)} (h : Calm acc s)
    (hwf : s.txq.WF 7) : s.toDo ≤ 5 * 2 ^ 7 + 2 := by
  have hlen : s.txq.contents.length ≤ 2 ^ 7 := by
    rw [MsgQ.contents_length]
    exact hwf.bound
  have hdly := List.countP_le_length (p := fun m : Canmsg => m.timestamp.tvUsec != 0)
    (l := s.txq.contents)
  have hdist := h.distance_le
  have hbit := Bool.toNat_le (!s.txq.idle)
  unfold Chan.toDo MsgQ.work
  omega

/-! ## Each step brings the end closer -/

/-- A message that has to wait has a delay. -/
theorem tvUsec_of_waits {baud : CInt} {m : Canmsg} (h : waits baud m.capLength = true) :
    m.timestamp.tvUsec ≠ 0 := by
  intro hz
  rw [waits_of_noDelay baud hz] at h
  cases h

section Work

variable {q : MsgQ Canmsg} (hwf : q.WF 7) (hne : q.contents ≠ [])
include hwf hne

/-- The head loses its delay, which counts two. -/
theorem work_clearDelay (hhead : q.head.timestamp.tvUsec ≠ 0) :
    (q.setHead q.head.capLength.clearDelay).work + 2 = q.work := by
  rw [MsgQ.work, MsgQ.work, hwf.contents_setHead hne, MsgQ.contents_eq_cons hne, List.tail_cons,
    List.countP_cons_of_neg (by simp [Canmsg.clearDelay]),
    List.countP_cons_of_pos (by simpa using hhead), List.length_cons, List.length_cons]
  omega

/-- The head leaves the queue, which counts three. -/
theorem work_advance : (q.setHead q.head.capLength).advance.work + 3 ≤ q.work := by
  have hset := hwf.contents_setHead hne q.head.capLength
  have hnew : (q.setHead q.head.capLength).advance.contents = q.contents.tail := by
    rw [MsgQ.contents_advance (by rw [hset]; exact List.cons_ne_nil _ _), hset, List.tail_cons]
  have hdly : q.contents.tail.countP (fun m => m.timestamp.tvUsec != 0) ≤
      q.contents.countP fun m => m.timestamp.tvUsec != 0 :=
    (List.tail_sublist q.contents).countP_le
  have hlen : q.contents.length = q.contents.tail.length + 1 := by
    rw [MsgQ.contents_eq_cons hne]
    rfl
  rw [MsgQ.work, MsgQ.work, hnew]
  omega

end Work

/-- A run of the consumer finds the queue empty, or takes a message or a delay off it. -/
theorem work_txConsume {s : Chan (Sja1000 t)} (hwf : s.txq.WF 7) :
    (txConsume t s).txq.work + 2 * (!(txConsume t s).txq.idle).toNat ≤ s.txq.work := by
  have hbit := Bool.toNat_le (!(txConsume t s).txq.idle)
  rcases txConsume_cases s with ⟨-, heq⟩ | ⟨hne, hw, heq⟩ | ⟨hne, -, heq⟩
  · rw [heq]
    exact Nat.le_refl _
  · have hwork := work_clearDelay hwf (MsgQ.contents_ne_nil hne) (tvUsec_of_waits hw)
    have htxq : (txConsume t s).txq = s.txq.setHead s.txq.head.capLength.clearDelay := by
      rw [heq]
    rw [← htxq] at hwork
    omega
  · have hwork := work_advance hwf (MsgQ.contents_ne_nil hne)
    have htxq : (txConsume t s).txq = (s.txq.setHead s.txq.head.capLength).advance := by
      rw [heq]
    rw [← htxq] at hwork
    omega

/-- This makes up for the steps that the new holder of the role takes. -/
theorem toDo_txConsume {acc : Frame} {s : Chan (Sja1000 t)} (hv : Vacant acc s)
    (hwf : s.txq.WF 7) : (txConsume t s).toDo ≤ s.txq.work := by
  have hdist := hv.txConsume.distance_le
  have hwork := work_txConsume hwf (t := t)
  unfold Chan.toDo
  omega

/-- Every step that moves transmission on brings the end closer. -/
theorem toDo_movesOn {acc : Frame} {s s' : Chan (Sja1000 t)} {op : Op} (hcalm : Calm acc s)
    (hwf : s.txq.WF 7) (hmove : s.movesOn op = true) (hstep : s.step op = some s') :
    s'.toDo < s.toDo := by
  have hnow : s.toDo = s.txq.work + (2 * s.timerArmed.toNat + 2 * s.chip.tx.isSome.toNat +
    (isSet s.chip.irq canTransmitInt).toNat) := rfl
  cases op with
  | txDone =>
      -- the role passes from the frame to its interrupt
      obtain ⟨hpend, rfl⟩ := Chan.step_txDone hstep
      have hbit := Bool.toNat_le (isSet (s.chip.irq ||| canTransmitInt) canTransmitInt)
      show s.txq.work + (2 * s.timerArmed.toNat + 2 * 0 +
        (isSet (s.chip.irq ||| canTransmitInt) canTransmitInt).toNat) < s.toDo
      rw [hpend, Bool.toNat_true] at hnow
      omega
  | timer =>
      obtain ⟨harmed, rfl⟩ := Chan.step_timer hstep
      have htxq : s.disarm.txq = s.txq := by
        obtain ⟨kapi, hdis⟩ := disarm_frame s
        rw [hdis]
      have hle := toDo_txConsume (hcalm.vacant_disarm harmed) (htxq.symm ▸ hwf)
      rw [delayedmsgworker, Chan.toDo_of_txSide (wakeWriters_txSide _)]
      rw [htxq] at hle
      rw [harmed, Bool.toNat_true] at hnow
      omega
  | irq tstamp =>
      obtain ⟨-, rfl⟩ := Chan.whenOpen_eq_some.mp hstep
      obtain ⟨mid, hmid, hside⟩ := hcalm.irqIteration_txSide tstamp
      have hirq : isSet s.chip.irq canTransmitInt = true := hmove
      have htxq : mid.txq = s.txq := congrArg TxSide.txq hmid
      have hwork : mid.txq.work = s.txq.work := by rw [htxq]
      have hle : (txConsume t { mid with txinprogress := 0 }).toDo ≤ mid.txq.work :=
        toDo_txConsume (hcalm.vacant_irq hirq hmid) (htxq ▸ hwf)
      rw [if_pos hirq] at hside
      rw [Chan.toDo_of_txSide hside]
      rw [hirq, Bool.toNat_true] at hnow
      omega
  | «open» _ | close | write _ _ | read _ _ | command _ | config _ _ _ | arrive _
  | busEvent _ _ _ | busOff => cases hmove

/-! ## What writers add -/

/-- The consumer accepts nothing. -/
theorem txConsume_accepted (s : Chan (Sja1000 t)) :
    (txConsume t s).hist.accepted = s.hist.accepted := by
  rcases txConsume_cases s with ⟨-, heq⟩ | ⟨-, -, heq⟩ | ⟨-, -, heq⟩
  · rw [heq]
  · obtain ⟨dw, kapi, hframe⟩ :=
      kapiScheduleDelayed_frame s (remainingDelay s.sys.baud s.txq.head.capLength)
    rw [heq, hframe]
  · rw [heq]

/-- Only a write accepts messages; an open forgets what has been accepted. -/
theorem Chan.accepted_step {s s' : Chan (Sja1000 t)} {op : Op} (hopen : ∀ env, op ≠ .open env)
    (hwrite : ∀ accessOk us, op ≠ .write accessOk us) (hstep : s.step op = some s') :
    s'.hist.accepted = s.hist.accepted := by
  cases op with
  | «open» env => exact absurd rfl (hopen env)
  | write accessOk us => exact absurd rfl (hwrite accessOk us)
  | close =>
      obtain ⟨hopen, rfl⟩ := Chan.whenOpen_eq_some.mp hstep
      obtain ⟨held, hframe⟩ := canClose_frame t s hopen
      rw [hframe]
  | read accessOk count =>
      obtain ⟨-, rfl⟩ := Chan.whenOpen_eq_some.mp hstep
      exact congrArg TxSide.accepted (canRead_txSide s accessOk count)
  | command cmd =>
      obtain ⟨-, rfl⟩ := Chan.whenOpen_eq_some.mp hstep
      obtain ⟨held, sys, c, hframe⟩ := canCommand_frame t s cmd
      rw [hframe]
  | config target val1 val2 =>
      obtain ⟨-, rfl⟩ := Chan.whenOpen_eq_some.mp hstep
      obtain ⟨sys, c, hframe⟩ := canConfig_frame t s target val1 val2
      rw [hframe]
  | timer =>
      obtain ⟨-, rfl⟩ := Chan.step_timer hstep
      obtain ⟨kapi, hdis⟩ := disarm_frame s
      have hwake : (delayedmsgworker t s.disarm).hist.accepted =
          (txConsume t s.disarm).hist.accepted :=
        congrArg TxSide.accepted (wakeWriters_txSide (txConsume t s.disarm))
      rw [hwake, txConsume_accepted, hdis]
  | irq tstamp =>
      obtain ⟨-, rfl⟩ := Chan.whenOpen_eq_some.mp hstep
      obtain ⟨mid, hmid, hside⟩ := irqIteration_txSide tstamp s
      obtain ⟨mode, hframe⟩ := s.irqEntry_frame
      have hentry : s.irqEntry.hist.accepted = s.hist.accepted := by
        rw [hframe]
        rfl
      have hacc : mid.hist.accepted = s.hist.accepted :=
        Eq.trans (congrArg TxSide.accepted hmid) hentry
      have heq := congrArg TxSide.accepted hside
      split at heq
      · have hnew : (irqIteration t tstamp s).hist.accepted =
            (txConsume t { mid with txinprogress := 0 }).hist.accepted := heq
        rw [hnew, txConsume_accepted]
        exact hacc
      · exact Eq.trans heq hacc
  | txDone =>
      obtain ⟨-, rfl⟩ := Chan.step_txDone hstep
      rfl
  | arrive f =>
      obtain ⟨-, rfl⟩ := Chan.step_arrive hstep
      rfl
  | busEvent bits stat overrun =>
      obtain ⟨-, rfl⟩ := Chan.step_busEvent hstep
      rfl
  | busOff =>
      obtain rfl := Chan.step_busOff hstep
      rfl

/-- A message adds five at most. -/
theorem work_enqueue {s : Chan (Sja1000 t)} (hwf : s.txq.WF 7) (hroom : s.txq.full = false)
    (u : UserMsg) : (s.enqueue u).txq.work ≤ s.txq.work + 5 := by
  have hcont : (s.enqueue u).txq.contents = s.txq.contents ++ [u s.txq.freeSlot] :=
    hwf.contents_produce hroom (u s.txq.freeSlot)
  rw [MsgQ.work, MsgQ.work, hcont, List.length_append, List.length_singleton,
    List.countP_append]
  have hone := List.countP_le_length (p := fun m : Canmsg => m.timestamp.tvUsec != 0)
    (l := [u s.txq.freeSlot])
  rw [List.length_singleton] at hone
  omega

/-- After `n` steps that moved transmission on, those and what is left to do are paid for by
    the messages accepted, and by `b` that there was before. -/
structure Paid (acc : Frame) (sent : List Frame) (b n : Nat) (s : Chan (Sja1000 t)) :
    Prop where
  sending : Sending acc sent s
  flow : Flow [] [] s
  paid : n + s.toDo ≤ b + 5 * s.hist.accepted.length

namespace Paid

variable {acc : Frame} {sent : List Frame} {b n : Nat} {s s' : Chan (Sja1000 t)}

/-- A run of the consumer is free. -/
theorem paid_txConsume (hv : Vacant acc s) (hwf : s.txq.WF 7)
    (hpaid : n + s.txq.work ≤ b + 5 * s.hist.accepted.length) :
    n + (txConsume t s).toDo ≤ b + 5 * (txConsume t s).hist.accepted.length := by
  have hle := toDo_txConsume hv hwf
  rw [txConsume_accepted]
  omega

/-- A writer pays for its message when it enqueues it. -/
theorem writeOne (h : Paid acc sent b n s) (u : UserMsg) :
    Paid acc sent b n (writeOne t u s).2 := by
  have hsending := h.sending.writeOne u
  have hflow := h.flow.writeOne u
  refine ⟨hsending, hflow, ?_⟩
  cases hfull : s.txq.full with
  | true =>
      rw [writeOne_full hfull]
      exact h.paid
  | false =>
      have hpaid := h.paid
      have hwork := work_enqueue h.flow.txWf hfull u
      have hlen : (s.enqueue u).hist.accepted.length = s.hist.accepted.length + 1 := by
        simp [Chan.enqueue]
      rw [writeOne_room hfull]
      cases hidle : s.txq.idle with
      | true =>
          have hv := h.sending.calm.vacant_enqueue hidle u
          rw [kickIdle_enqueue hidle]
          refine paid_txConsume hv ((h.flow.enqueue hfull u).txWf.setIdle false) ?_
          show n + (s.enqueue u).txq.work ≤ b + 5 * (s.enqueue u).hist.accepted.length
          rw [hlen]
          unfold Chan.toDo at hpaid
          omega
      | false =>
          have hbusy : (s.enqueue u).txq.idle = false := hidle
          have hdist : (s.enqueue u).distance = s.distance := rfl
          rw [kickIdle, hbusy, if_neg Bool.false_ne_true]
          show n + ((s.enqueue u).txq.work + (s.enqueue u).distance) ≤
            b + 5 * (s.enqueue u).hist.accepted.length
          rw [hlen]
          unfold Chan.toDo at hpaid
          omega

/-- What has been accepted and what is left to do are on the transmit side. -/
theorem of_txSide (h : Paid acc sent b n s) (hside : s'.txSide = s.txSide)
    (hflow : Flow [] [] s') : Paid acc sent b n s' := by
  have hacc : s'.hist.accepted = s.hist.accepted := congrArg TxSide.accepted hside
  refine ⟨h.sending.of_txSide hside, hflow, ?_⟩
  rw [Chan.toDo_of_txSide hside, hacc]
  exact h.paid

/-- A step that moves transmission on is paid for by what it leaves to do; the others add
    nothing. -/
theorem step (h : Paid acc sent b n s) {op : Op}
    (hop : op.receives = true) (hstep : s.step op = some s') :
    Paid acc (sent ++ s.sends op) b (n + (s.movesOn op).toNat) s' := by
  have hsending := h.sending.step hop hstep
  have hflow := h.flow.step (by rintro env rfl; cases hop) hstep
  cases hmove : s.movesOn op with
  | true =>
      have hless := toDo_movesOn h.sending.calm h.flow.txWf hmove hstep
      have hpaid := h.paid
      have hacc : s'.hist.accepted = s.hist.accepted := by
        refine Chan.accepted_step ?_ ?_ hstep
        · rintro env rfl
          cases hop
        · rintro accessOk us rfl
          cases hmove
      refine ⟨hsending, hflow, ?_⟩
      rw [hacc, Bool.toNat_true]
      omega
  | false =>
      rw [Bool.toNat_false, Nat.add_zero]
      cases op with
      | write accessOk us =>
          obtain ⟨-, rfl⟩ := Chan.whenOpen_eq_some.mp hstep
          simp only [Chan.sends, List.append_nil]
          exact canWrite_rule (fun u c hc => hc.writeOne u) h accessOk us
      | read accessOk count =>
          obtain ⟨-, rfl⟩ := Chan.whenOpen_eq_some.mp hstep
          simp only [Chan.sends, List.append_nil]
          exact h.of_txSide (canRead_txSide s accessOk count) hflow
      | irq tstamp =>
          obtain ⟨-, rfl⟩ := Chan.whenOpen_eq_some.mp hstep
          have hirq : isSet s.chip.irq canTransmitInt = false := hmove
          obtain ⟨mid, hmid, hside⟩ := h.sending.calm.irqIteration_txSide tstamp
          rw [hirq, if_neg Bool.false_ne_true, hmid] at hside
          have hpaid := h.paid
          have hacc : (irqIteration t tstamp s).hist.accepted = s.hist.accepted :=
            congrArg TxSide.accepted hside
          have hdo : s.clearIrq.toDo ≤ s.toDo := by
            show s.txq.work + (2 * s.timerArmed.toNat + 2 * s.chip.tx.isSome.toNat +
              (isSet 0 canTransmitInt).toNat) ≤ s.toDo
            rw [isSet_zero, ← hirq]
            exact Nat.le_refl _
          refine ⟨hsending, hflow, ?_⟩
          rw [hacc, Chan.toDo_of_txSide hside]
          omega
      | arrive f =>
          obtain ⟨-, rfl⟩ := Chan.step_arrive hstep
          simp only [Chan.sends, List.append_nil]
          exact h.of_txSide rfl hflow
      | busEvent bits stat overrun =>
          obtain ⟨hbits, rfl⟩ := Chan.step_busEvent hstep
          have hirq : isSet (s.chip.irq ||| bits) canTransmitInt =
              isSet s.chip.irq canTransmitInt := by
            rw [isSet_or, hbits, Bool.or_false]
          refine ⟨hsending, hflow, ?_⟩
          show n + (s.txq.work + (2 * s.timerArmed.toNat + 2 * s.chip.tx.isSome.toNat +
            (isSet (s.chip.irq ||| bits) canTransmitInt).toNat)) ≤
              b + 5 * s.hist.accepted.length
          rw [hirq]
          exact h.paid
      | timer | txDone => cases hmove
      | «open» _ | close | command _ | config _ _ _ | busOff => cases hop

end Paid

/-- What a step leaves to do, it takes off what there was, or adds with a message. -/
theorem toDo_step {acc : Frame} {sent : List Frame} {s s' : Chan (Sja1000 t)} {op : Op}
    (h : Sending acc sent s) (hflow : Flow [] [] s) (hop : op.receives = true)
    (hstep : s.step op = some s') :
    (s.movesOn op).toNat + s'.toDo + 5 * s.hist.accepted.length ≤
      s.toDo + 5 * s'.hist.accepted.length := by
  have hnow : Paid acc sent s.toDo (5 * s.hist.accepted.length) s := ⟨h, hflow, by omega⟩
  have hnext := (hnow.step hop hstep).paid
  omega

/-! ## Runs -/

/-- The step, if it moves transmission on. -/
def Chan.moves (s : Chan (Sja1000 t)) (op : Op) : List Op :=
  if s.movesOn op then [op] else []

theorem Chan.moves_length (s : Chan (Sja1000 t)) (op : Op) :
    (s.moves op).length = (s.movesOn op).toNat := by
  cases h : s.movesOn op <;> simp [Chan.moves, h]

theorem Chan.receives_of_movesOn {s : Chan (Sja1000 t)} {op : Op} (h : s.movesOn op = true) :
    op.receives = true := by
  cases op with
  | txDone | timer | irq _ => rfl
  | «open» _ | close | write _ _ | read _ _ | command _ | config _ _ _ | arrive _
  | busEvent _ _ _ | busOff => cases h

/-- Nothing is left to do in a device that is ready. -/
theorem Ready.paid {s : Chan (Sja1000 t)} (h : Ready s) :
    Paid s.chip.acc [] 0 ([] : List Op).length s := by
  have hcont : s.txq.contents = [] := MsgQ.empty_iff.mp h.txEmpty
  refine ⟨h.operates.sending, h.operates.flow, ?_⟩
  rw [Chan.toDo, MsgQ.work, Chan.distance, hcont, h.unarmed, h.pending, h.irq]
  exact Nat.zero_le _

/-- Where transmission cannot move on, the role is with the writer. -/
theorem Calm.idle_of_stuck {acc : Frame} {s : Chan (Sja1000 t)} (h : Calm acc s)
    (hopen : s.isopen = 1) (hstuck : ∀ op, s.movesOn op = true → s.step op = none) :
    s.txq.idle = true ∧ s.chip.tx = none := by
  have harmed : s.timerArmed = false := by
    refine Bool.eq_false_of_not_eq_true fun harm => ?_
    have hnone := hstuck .timer rfl
    rw [Chan.step, if_pos harm] at hnone
    cases hnone
  have hirq : isSet s.chip.irq canTransmitInt = false := by
    refine Bool.eq_false_of_not_eq_true fun hint => ?_
    have hnone := hstuck (.irq ⟨0, 0⟩) hint
    rw [Chan.step, Chan.whenOpen, if_pos hopen] at hnone
    cases hnone
  have htx : s.chip.tx = none := by
    have hnone := hstuck .txDone rfl
    rw [Chan.step, Option.map_eq_none_iff, Sja1000.txDone] at hnone
    cases hpend : s.chip.tx with
    | none => rfl
    | some f =>
        rw [hpend] at hnone
        cases hnone
  have hone := h.one
  rw [Chan.holders, harmed, hirq, htx] at hone
  exact ⟨by simpa using hone, htx⟩

/-- Then everything that was accepted has been sent. -/
theorem Operates.sent_all {acc : Frame} {sent : List Frame} {heard : List RxView}
    {s : Chan (Sja1000 t)} (h : Operates acc sent heard s) (hidle : s.txq.idle = true)
    (htx : s.chip.tx = none) :
    s.txq.contents = [] ∧ List.Forall₂ Carries s.hist.accepted sent := by
  have hempty := MsgQ.empty_iff.mp (h.sending.calm.idleEmpty hidle)
  have hall := h.sending.all
  have htxflow := h.flow.tx
  rw [hempty, List.map_nil, List.append_nil, List.nil_append] at htxflow
  rw [SentAll, htx, Option.toList_none, List.append_nil, htxflow, List.forall₂_map_left_iff]
    at hall
  exact ⟨hempty, hall.imp fun m f hc => carries_onWire.mp hc⟩

/-- What holds along a run of calm operation. -/
theorem Ready.run {s₀ s : Chan (Sja1000 t)} {ops : List Op} (h : Ready s₀)
    (hrun : Run.exec Chan.calmStep s₀ ops = some s) :
    ∃ heard, Operates s₀.chip.acc (Run.observe Chan.calmStep Chan.sends s₀ ops) heard s := by
  refine Run.exec_observe (P := fun sent c => ∃ heard, Operates s₀.chip.acc sent heard c)
    (v := []) (fun v c op c' hc hstep => ?_) ⟨[], h.operates⟩ hrun
  obtain ⟨hop, hstep'⟩ := Run.restrict_eq_some.mp hstep
  obtain ⟨heard, hoper⟩ := hc
  exact ⟨_, hoper.step hop hstep'⟩

/-- **The queue is drained.**  Operate a device in any way after an open that found nothing
    left over, as long as it is neither stopped, reset, reconfigured nor closed and does not
    go off the bus.  At most five steps for each message accepted are steps of the bus, the
    timer or the handler that move transmission on; from any point 642 such steps at most
    can follow each other; and where none is left to take, every accepted message has been
    sent, once and in order. -/
theorem drains {s₀ s : Chan (Sja1000 t)} {ops : List Op} (hready : Ready s₀)
    (hrun : Run.exec Chan.calmStep s₀ ops = some s) :
    (Run.observe Chan.calmStep Chan.moves s₀ ops).length ≤ 5 * s.hist.accepted.length ∧
      (∀ moves s', Run.exec Chan.moveStep s moves = some s' → moves.length ≤ 642) ∧
      ((∀ op, s.movesOn op = true → s.step op = none) →
        s.txq.contents = [] ∧ List.Forall₂ Carries s.hist.accepted
          (Run.observe Chan.calmStep Chan.sends s₀ ops)) := by
  obtain ⟨heard, hoper⟩ := hready.run hrun
  refine ⟨?_, ?_, ?_⟩
  · have hpaid := Run.exec_observe
      (P := fun (moves : List Op) c => ∃ sent, Paid s₀.chip.acc sent 0 moves.length c)
      (fun v c op c' hc hstep => by
        obtain ⟨hop, hstep'⟩ := Run.restrict_eq_some.mp hstep
        obtain ⟨sent, hp⟩ := hc
        rw [List.length_append, Chan.moves_length]
        exact ⟨_, hp.step hop hstep'⟩) ⟨[], hready.paid⟩ hrun
    obtain ⟨sent, hp⟩ := hpaid
    exact (Nat.le_add_right _ _).trans (hp.paid.trans_eq (Nat.zero_add _))
  · intro moves s' hmoves
    have hlen := Run.exec_length_le
      (I := fun c => ∃ sent heard, Operates s₀.chip.acc sent heard c) (μ := Chan.toDo)
      ?_ ?_ ⟨_, _, hoper⟩ hmoves
    · have hle := hoper.sending.calm.toDo_le hoper.flow.txWf
      omega
    · rintro c op c' ⟨sent, heard, hc⟩ hstep
      obtain ⟨hmove, hstep'⟩ := Run.restrict_eq_some.mp hstep
      exact ⟨_, _, hc.step (Chan.receives_of_movesOn hmove) hstep'⟩
    · rintro c op c' ⟨sent, heard, hc⟩ hstep
      obtain ⟨hmove, hstep'⟩ := Run.restrict_eq_some.mp hstep
      exact toDo_movesOn hc.sending.calm hc.flow.txWf hmove hstep'
  · intro hstuck
    obtain ⟨hidle, htx⟩ := hoper.sending.calm.idle_of_stuck hoper.isopen hstuck
    exact hoper.sent_all hidle htx

/-- Of two messages the second is delayed; the queue is drained in five steps. -/
theorem drains_opened :
    let ops : List Op := [.write true [.ofMsg Canmsg.zero, .ofMsg { Canmsg.zero with
      id := 1, timestamp := ⟨0, 100000⟩ }], .txDone, .irq ⟨0, 0⟩, .timer, .txDone, .irq ⟨0, 1⟩]
    ∃ s, Run.exec Chan.calmStep Chan.opened ops = some s ∧
      (Run.observe Chan.calmStep Chan.moves Chan.opened ops).length ≤ 5 * s.hist.accepted.length ∧
      (∀ moves s', Run.exec Chan.moveStep s moves = some s' → moves.length ≤ 642) ∧
      ((∀ op, s.movesOn op = true → s.step op = none) →
        s.txq.contents = [] ∧ List.Forall₂ Carries s.hist.accepted
          (Run.observe Chan.calmStep Chan.sends Chan.opened ops)) := by
  intro ops
  obtain ⟨s, hs⟩ := Option.isSome_iff_exists.mp
    (show (Run.exec Chan.calmStep Chan.opened ops).isSome = true by decide +kernel)
  exact ⟨s, hs, drains ready_opened hs⟩

end Can4linux
