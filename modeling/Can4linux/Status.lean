/-
  Can4linux.Status

  What the `STATUS` request tells about the queues, and what a process can
  conclude from it.  A read that follows returns as many messages as are reported
  used.  A write that follows finds the reported room, and for one message more
  where the queue is idle: then the writer hands a message to the controller
  while it is still copying the others.
-/

import Can4linux.Poll
import Can4linux.Timers

namespace Can4linux

variable {σ : Type}

/-! ## The room for a write -/

/-- The head of the transmit queue once `u` has been put into it. -/
def Chan.headAfter (s : Chan σ) (u : UserMsg) : Canmsg :=
  (s.txq.fill (u s.txq.freeSlot)).publish.head

/-- Whether a write that begins with `u` runs the consumer, and the consumer takes a message. -/
def Chan.handsOver (s : Chan σ) (u : UserMsg) : Bool :=
  s.txq.idle && !s.txq.full && !waits s.sys.baud (s.headAfter u).capLength

/-- The number of messages that a write of `us` finds room for. -/
def Chan.accepts (s : Chan σ) : List UserMsg → Nat
  | [] => 0
  | u :: us => min (us.length + 1) (2 ^ 7 - s.txq.qlen.toNat + (s.handsOver u).toNat)

variable [Chip σ] {t : Target} {s : Chan σ}

/-- A writer that does not run the consumer fills the queue. -/
theorem writeLoop_busy (h : Sized s) (hidle : s.txq.idle = false) (us : List UserMsg) :
    (writeLoop t us s).1 = min us.length (2 ^ 7 - s.txq.qlen.toNat) := by
  induction us generalizing s with
  | nil => exact (Nat.zero_min _).symm
  | cons u us ih =>
      have hbound := h.txWf.bound
      cases hfull : s.txq.full with
      | true =>
          have hlen := h.txWf.full_iff.mp hfull
          rcases writeOne_any t s u with ⟨-, heq⟩ | ⟨hroom, -⟩
          · simp only [writeLoop, heq, Bool.false_eq_true, if_false]
            omega
          · rw [hfull] at hroom
            cases hroom
      | false =>
          have hlt := h.txWf.qlen_lt hfull
          obtain ⟨hone, -, hbusy, -, -, hgrow⟩ := writeOne_txq (t := t) h.txWf u hfull
          have hlen := hgrow hidle
          have hrest := ih (h.writeOne (t := t) u) hbusy
          simp only [writeLoop, hone, if_true, hrest, List.length_cons]
          omega

/-- The consumer takes the head message, unless that has to wait. -/
theorem qlen_txConsume (h : s.txq.WF 7) (hne : s.txq.empty = false) :
    (txConsume t s).txq.qlen.toNat + (!waits s.sys.baud s.txq.head.capLength).toNat =
      s.txq.qlen.toNat := by
  rw [txConsume_eq, hne, if_neg Bool.false_ne_true]
  cases hw : waits s.sys.baud s.txq.head.capLength with
  | true =>
      rw [if_pos rfl]
      rfl
  | false =>
      rw [if_neg Bool.false_ne_true]
      refine MsgQ.qlen_advance_toNat (q := s.txq.setHead s.txq.head.capLength) ?_
      rw [h.contents_setHead (MsgQ.contents_ne_nil hne)]
      exact List.cons_ne_nil _ _

/-- The first round of a write to an idle queue: the writer takes a message out again, unless
    the head has to wait. -/
theorem qlen_writeOne_idle (h : s.txq.WF 7) (hidle : s.txq.idle = true)
    (hroom : s.txq.full = false) (u : UserMsg) :
    (writeOne t u s).2.txq.qlen.toNat + (s.handsOver u).toNat = s.txq.qlen.toNat + 1 := by
  have hlen : (s.txq.fill (u s.txq.freeSlot)).publish.qlen.toNat = s.txq.qlen.toNat + 1 :=
    MsgQ.qlen_publish_toNat (h.fill (u s.txq.freeSlot))
  have hne : (s.txq.fill (u s.txq.freeSlot)).publish.empty = false := by
    refine Bool.eq_false_of_not_eq_true fun hempty => ?_
    rw [MsgQ.empty_iff_qlen.mp hempty] at hlen
    exact absurd hlen (Nat.succ_ne_zero _).symm
  have hwf : (s.txq.fill (u s.txq.freeSlot)).publish.WF 7 := (h.fill _).publish hroom
  have hhands : s.handsOver u = !waits s.sys.baud (s.headAfter u).capLength := by
    rw [Chan.handsOver, hidle, hroom]
    rfl
  rcases writeOne_any t s u with ⟨hfull, -⟩ | ⟨-, heq⟩
  · rw [hroom] at hfull
    cases hfull
  · have htake := qlen_txConsume (t := t) (s := { s with
      txq := (s.txq.fill (u s.txq.freeSlot)).publish.setIdle false
      hist := { s.hist with accepted := s.hist.accepted ++ [u s.txq.freeSlot] } })
      (hwf.setIdle false) hne
    rw [heq, kickIdle,
      if_pos (show (s.txq.fill (u s.txq.freeSlot)).publish.idle = true from hidle), hhands]
    exact htake.trans hlen

/-- How many messages a write gets rid of. -/
theorem writeLoop_count (h : Sized s) (us : List UserMsg) :
    (writeLoop t us s).1 = s.accepts us := by
  cases us with
  | nil => rfl
  | cons u us =>
      have hbound := h.txWf.bound
      cases hidle : s.txq.idle with
      | false =>
          rw [writeLoop_busy h hidle, Chan.accepts, Chan.handsOver, hidle]
          rfl
      | true =>
          cases hfull : s.txq.full with
          | true =>
              have hlen := h.txWf.full_iff.mp hfull
              rcases writeOne_any t s u with ⟨-, heq⟩ | ⟨hroom, -⟩
              · simp only [writeLoop, heq, Bool.false_eq_true, if_false, Chan.accepts,
                  Chan.handsOver, hfull, Bool.not_true, Bool.and_false, Bool.false_and,
                  Bool.toNat_false]
                omega
              · rw [hfull] at hroom
                cases hroom
          | false =>
              have hlt := h.txWf.qlen_lt hfull
              have hlen := qlen_writeOne_idle (t := t) h.txWf hidle hfull u
              obtain ⟨hone, -, hbusy, -⟩ := writeOne_txq (t := t) h.txWf u hfull
              have hrest := writeLoop_busy (t := t) (h.writeOne (t := t) u) hbusy us
              simp only [writeLoop, hone, if_true, hrest, Chan.accepts]
              omega

/-- They are the first ones. -/
theorem writeLoop_accepted (ms : List Canmsg) (s : Chan σ) :
    (writeLoop t (ms.map UserMsg.ofMsg) s).2.hist.accepted =
      s.hist.accepted ++ ms.take (writeLoop t (ms.map UserMsg.ofMsg) s).1 := by
  induction ms generalizing s with
  | nil => exact (List.append_nil _).symm
  | cons m ms ih =>
      rcases writeOne_any t s (.ofMsg m) with ⟨-, heq⟩ | ⟨-, heq⟩
      · simp [writeLoop, heq]
      · have hone := ih (writeOne t (.ofMsg m) s).2
        rw [heq] at hone
        simp only [List.map_cons, writeLoop, heq, if_true, hone, kickIdle_accepted,
          List.take_succ_cons, List.append_assoc]
        rfl

omit [Chip σ] in
/-- What a read returns. -/
theorem readLoop_eq (n : Nat) (s : Chan σ) : (readLoop n s).1 = s.rxq.contents.take n := by
  induction n generalizing s with
  | zero => rfl
  | succ n ih =>
      rcases readOne_cases s with ⟨he, hone⟩ | ⟨hne, hone⟩
      · rw [MsgQ.empty_iff.mp he]
        simp [readLoop, hone]
      · have hcont := MsgQ.contents_ne_nil hne
        simp only [readLoop, hone, ih]
        rw [MsgQ.contents_eq_cons hcont, List.take_succ_cons]

/-! ## What the request tells -/

/-- **`STATUS` tells what comes next.**  In every reachable state with the device open, a `STATUS`
    request that is copied out reports the sizes of both queues and how much of them is used.
    Of the calls that follow at once, a read returns the oldest messages, as many as are
    reported used; and a write accepts the first messages, as many as there is room for, and
    one more if it hands one to the controller. -/
theorem status_predicts (h : Reachable t s) (hopen : s.isopen = 1) {env : IoctlEnv}
    (hread : env.readOk = true) (hwrite : env.writeOk = true)
    (hcopy : ∀ p, env.status.copyOut.leaves p = p) :
    ∃ st s', canIoctl t reqStatus env s = (1, .status st, s') ∧
      (∀ n, canRead true n s' = (BitVec.ofNat 32 (min n st.rxBufferUsed.toNat),
        s.rxq.contents.take n, (canRead true n s').2.2)) ∧
      ∀ m ms, ∃ k, k = min (ms.length + 1) (st.txBufferSize.toNat - st.txBufferUsed.toNat +
          (s.handsOver (.ofMsg m)).toNat) ∧
        (canWrite t true ((m :: ms).map UserMsg.ofMsg) s').1 = BitVec.ofNat 32 k ∧
        (canWrite t true ((m :: ms).map UserMsg.ofMsg) s').2.hist.accepted =
          s.hist.accepted ++ (m :: ms).take k := by
  have hsized := h.sized hopen
  have hreq : reqStatus ≠ reqCommand ∧ reqStatus ≠ reqConfig := by decide
  -- the request reads five registers, and leaves the rest as it is
  have hsized' : Sized (canGetStat t env.status.garbage s).2.2 := hsized.of_eq rfl rfl
  refine ⟨{ (canGetStat t env.status.garbage s).2.1 with retval := 0 },
    (canGetStat t env.status.garbage s).2.2, ?_, ?_, ?_⟩
  · rw [canIoctl, if_neg hreq.1, if_neg hreq.2, if_pos rfl, hread, hwrite]
    simp only [Bool.not_true, Bool.false_eq_true, if_false, lddkCopy_eq, hcopy]
    rfl
  · intro n
    have hread := readLoop_eq n (canGetStat t env.status.garbage s).2.2
    have hlen : (readLoop n (canGetStat t env.status.garbage s).2.2).1.length =
        min n s.rxq.qlen.toNat := by
      rw [hread, List.length_take]
      exact congrArg (min n) s.rxq.contents_length
    refine Prod.ext (congrArg (BitVec.ofNat 32) hlen) (Prod.ext hread rfl)
  · intro m ms
    have hcount := writeLoop_count (t := t) hsized' ((m :: ms).map UserMsg.ofMsg)
    have htook := writeLoop_accepted (t := t) (m :: ms) (canGetStat t env.status.garbage s).2.2
    have hsize : s.txq.qsize.toNat = 2 ^ 7 := by
      rw [MsgQ.qsize, hsized.txWf.mask]
      decide
    refine ⟨_, rfl, ?_⟩
    have hroom : (canGetStat t env.status.garbage s).2.2.accepts
        ((m :: ms).map UserMsg.ofMsg) = min (ms.length + 1)
          (s.txq.qsize.toNat - s.txq.qlen.toNat + (s.handsOver (.ofMsg m)).toNat) := by
      have hlen : (ms.map UserMsg.ofMsg).length = ms.length := List.length_map _
      rw [hsize, ← hlen]
      rfl
    rw [hcount, hroom] at htook
    exact ⟨congrArg (BitVec.ofNat 32) (hcount.trans hroom), htook⟩

/-- A `STATUS` request whose answer is copied out. -/
def statusRequest : IoctlEnv where
  readOk := true
  writeOk := true
  command := ⟨⟨0, 0, 0⟩, ⟨0, id⟩, ⟨0, id⟩⟩
  config := ⟨⟨0, 0, 0, 0, 0⟩, ⟨0, id⟩, ⟨0, id⟩⟩
  status := ⟨⟨0, 0, 0, 0, 0, 0, 0, 0, 0, 0, 0, 0⟩, ⟨0, id⟩, ⟨0, id⟩⟩

/-- Two messages are written, the second one waits in the queue; a frame is received. -/
theorem status_predicts_two : ∃ s st s',
    Run.exec (Chan.drive .atcanminiPelican) Chan.unopened
      [.open (.granted Canmsg.zero), .write true [.ofMsg Canmsg.zero, .ofMsg Canmsg.zero],
        .device oneFrame, .irq ⟨0, 0⟩] = some s ∧
    canIoctl .atcanminiPelican reqStatus statusRequest s = (1, .status st, s') ∧
    (∀ n, canRead true n s' = (BitVec.ofNat 32 (min n st.rxBufferUsed.toNat),
      s.rxq.contents.take n, (canRead true n s').2.2)) ∧
    ∀ m ms, ∃ k, k = min (ms.length + 1) (st.txBufferSize.toNat - st.txBufferUsed.toNat +
        (s.handsOver (.ofMsg m)).toNat) ∧
      (canWrite .atcanminiPelican true ((m :: ms).map UserMsg.ofMsg) s').1 = BitVec.ofNat 32 k ∧
      (canWrite .atcanminiPelican true ((m :: ms).map UserMsg.ofMsg) s').2.hist.accepted =
        s.hist.accepted ++ (m :: ms).take k := by
  obtain ⟨s, hs, hopen⟩ := Option.map_eq_some_iff.mp
    (show (Run.exec (Chan.drive .atcanminiPelican) Chan.unopened
      [.open (.granted Canmsg.zero), .write true [.ofMsg Canmsg.zero, .ofMsg Canmsg.zero],
        .device oneFrame, .irq ⟨0, 0⟩]).map (fun s => s.isopen) = some 1 by decide)
  obtain ⟨st, s', hstat⟩ := status_predicts (t := .atcanminiPelican)
    ⟨Chan.unopened, _, ⟨0, Chan.unopened.sys, Sja1000.powerOn, rfl⟩, hs⟩ hopen
    (show statusRequest.readOk = true from rfl) rfl fun _ => rfl
  exact ⟨s, st, s', hs, hstat⟩

end Can4linux
