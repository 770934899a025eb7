/-
  Can4linux.Service

  What a channel is for, and that it does it: a mailbox between a process and the
  bus.  The outbox is the frame in the controller and the transmit queue behind
  it, at most 129 messages, and no write is refused while it holds fewer than
  128.  The inbox is the receive queue and the frames in the controller behind it.

  Every step of a session is a trace of that mailbox (`OutHolds` and `Chan.inbox`
  tie the two together), whatever is commanded, configured or happens on the bus.
  A message is lost where a pending frame is aborted, where one is loaded over it,
  or where one is loaded in reset mode, and nowhere else.
-/

import Can4linux.Drain
import Can4linux.Driver
import Can4linux.Lib.Mailbox

namespace Can4linux

variable {t : Target}

/-! ## The mailbox -/

/-- The terms of service: 128 slots and the controller; error messages stand for no frame. -/
def service : Mailbox.Terms Canmsg Frame RxView Canmsg where
  limit := 129
  room := 128
  carries := Carries
  reads m := if m.id = 0xFFFFFFFF then none else some m.view

/-- What happens at the mailbox of a channel. -/
abbrev Happening := Mailbox.Event Canmsg Frame RxView Canmsg

theorem filterMap_reads (ms : List Canmsg) : ms.filterMap service.reads = nonErrors ms := by
  induction ms with
  | nil => rfl
  | cons m ms ih =>
      by_cases h : m.id = 0xFFFFFFFF
      · rw [List.filterMap_cons_none (show service.reads m = none from if_pos h), ih]
        simp [nonErrors, h]
      · have hne : (m.id != 0xFFFFFFFF) = true := bne_iff_ne.mpr h
        rw [List.filterMap_cons_some (show service.reads m = some m.view from if_neg h), ih,
          nonErrors, nonErrors, List.filter_cons, if_pos hne, List.map_cons]

namespace Chan

/-! ## What a step lets out -/

/-- The messages lost when the consumer runs: the one that it loads in reset mode, or the one
    whose pending frame it loads another over. -/
def loadLoses (s : Chan (Sja1000 t)) : Nat :=
  if s.consumes then if s.chip.inReset then 1 else s.chip.tx.toList.length else 0

/-- A writer runs the consumer if it finds the queue idle. -/
def kickLoses (s : Chan (Sja1000 t)) : Nat := if s.txq.idle then s.loadLoses else 0

/-- The rounds of `can_write`: each message is accepted, until the queue is full. -/
def writeEvents : List UserMsg → Chan (Sja1000 t) → List Happening
  | [], _ => []
  | u :: us, s =>
      if s.txq.full then [.refuse]
      else .accept (u s.txq.freeSlot) ::
        (List.replicate (s.enqueue u).kickLoses .lose ++ writeEvents us (writeOne t u s).2)

/-- What a step lets out. -/
def events (s : Chan (Sja1000 t)) : Op → List Happening
  | .write accessOk us => if accessOk then writeEvents us s else []
  | .read accessOk count => (canRead accessOk count s).2.1.map .deliver
  | .irq _ => if s.txSignalled then List.replicate s.irqEntry.loadLoses .lose else []
  | .timer => List.replicate s.loadLoses .lose
  | .txDone => s.chip.tx.toList.map .send
  | .arrive f => [.hear f.view]
  | .command cmd =>
      if cmd = cmdStop ∨ cmd = cmdReset then List.replicate s.chip.tx.toList.length .lose else []
  | .close | .busOff => List.replicate s.chip.tx.toList.length .lose
  | .open _ | .config _ _ _ | .busEvent _ _ _ => []

/-- The frames that wait for the reader. -/
def inbox (s : Chan (Sja1000 t)) : List RxView :=
  nonErrors s.rxq.contents ++ s.chip.rxfifo.map Frame.view

/-- They, and what the reader has got. -/
def reader (s : Chan (Sja1000 t)) : List RxView × List Canmsg := (s.inbox, s.hist.returned)

/-- The step handles an interrupt in reset mode while the controller holds a frame: in place
    of the frame it would read the acceptance filter. -/
def readsFilter (s : Chan (Sja1000 t)) : Op → Bool
  | .irq _ => s.chip.inReset && !s.chip.rxfifo.isEmpty
  | _ => false

/-- A step of a session that reads frames only where there are frames. -/
def serves (s : Chan (Sja1000 t)) (op : Op) : Bool := !op.opens && !s.readsFilter op

/-- The system of these steps. -/
def serviceStep : Chan (Sja1000 t) → Op → Option (Chan (Sja1000 t)) :=
  Run.restrict step fun s op => s.serves op = true

end Chan

/-! ## The outbox -/

/-- The outbox is `out`: the message of the pending frame, then those in the queue, seen as
    they go on the wire. -/
structure OutHolds (out : List Canmsg) (s : Chan (Sja1000 t)) : Prop where
  wf : s.txq.WF 7
  reset : s.chip.inReset = true → s.chip.tx = none
  split : ∃ p q, out = p ++ q ∧ List.Forall₂ Carries p s.chip.tx.toList ∧
    q.map Canmsg.onWire = s.txq.contents.map Canmsg.onWire

namespace OutHolds

variable {out : List Canmsg} {s s' : Chan (Sja1000 t)}

theorem of_eq (h : OutHolds out s) (htxq : s'.txq = s.txq) (htx : s'.chip.tx = s.chip.tx)
    (hmode : s'.chip.inReset = true → s.chip.inReset = true) : OutHolds out s' := by
  refine ⟨htxq ▸ h.wf, fun hres => htx.trans (h.reset (hmode hres)), ?_⟩
  rw [htxq, htx]
  exact h.split

theorem of_txSide (h : OutHolds out s) (hside : s'.txSide = s.txSide) : OutHolds out s' := by
  have hmode : s'.chip.mode = s.chip.mode := congrArg TxSide.mode hside
  refine h.of_eq (congrArg TxSide.txq hside) (congrArg TxSide.tx hside) ?_
  rw [Sja1000.inReset, Sja1000.inReset, hmode]
  exact id

theorem length_eq (h : OutHolds out s) :
    out.length = s.chip.tx.toList.length + s.txq.qlen.toNat := by
  obtain ⟨p, q, rfl, hp, hq⟩ := h.split
  have hlen := congrArg List.length hq
  rw [List.length_map, List.length_map, MsgQ.contents_length] at hlen
  rw [List.length_append, hp.length_eq, hlen]

/-- A queue with room leaves room in the outbox. -/
theorem lt_limit (h : OutHolds out s) (hroom : s.txq.full = false) :
    out.length < service.limit := by
  have hlen := h.length_eq
  have hone : s.chip.tx.toList.length ≤ 1 := Option.length_toList_le
  have hlt : s.txq.qlen.toNat < 2 ^ 7 := h.wf.qlen_lt hroom
  show out.length < 129
  omega

/-- A full queue fills the outbox. -/
theorem room_le (h : OutHolds out s) (hfull : s.txq.full = true) :
    service.room ≤ out.length := by
  have hlen := h.length_eq
  have hall : s.txq.qlen.toNat = 2 ^ 7 := h.wf.full_iff.mp hfull
  show 128 ≤ out.length
  omega

/-- What is enqueued is last in the outbox. -/
theorem enqueue (h : OutHolds out s) (hroom : s.txq.full = false) (u : UserMsg) :
    OutHolds (out ++ [u s.txq.freeSlot]) (s.enqueue u) := by
  obtain ⟨p, q, rfl, hp, hq⟩ := h.split
  have hcont : (s.enqueue u).txq.contents = s.txq.contents ++ [u s.txq.freeSlot] :=
    h.wf.contents_produce hroom (u s.txq.freeSlot)
  refine ⟨(h.wf.fill _).publish hroom, h.reset, p, q ++ [u s.txq.freeSlot],
    List.append_assoc _ _ _, hp, ?_⟩
  rw [hcont, List.map_append, List.map_append, hq]

/-- The pending frame is dropped, and with it its message. -/
theorem abort (h : OutHolds out s) (htxq : s'.txq = s.txq) (htx : s'.chip.tx = none) :
    OutHolds (out.drop s.chip.tx.toList.length) s' := by
  obtain ⟨p, q, rfl, hp, hq⟩ := h.split
  refine ⟨htxq ▸ h.wf, fun _ => htx, [], q, ?_, ?_, ?_⟩
  · rw [← hp.length_eq, List.drop_left]
    rfl
  · rw [htx]
    exact .nil
  · rw [htxq]
    exact hq

/-- The messages lost are there. -/
theorem pending_le (h : OutHolds out s) : s.chip.tx.toList.length ≤ out.length := by
  rw [h.length_eq]
  exact Nat.le_add_right _ _

theorem loadLoses_le (h : OutHolds out s) : s.loadLoses ≤ out.length := by
  have hlen := h.length_eq
  unfold Chan.loadLoses
  split
  · rename_i hcons
    split
    · have hne : s.txq.contents ≠ [] := MsgQ.contents_ne_nil (by
        simp only [Chan.consumes, Bool.and_eq_true, Bool.not_eq_true'] at hcons
        exact hcons.1)
      have hpos := List.length_pos_of_ne_nil hne
      rw [MsgQ.contents_length] at hpos
      omega
    · exact h.pending_le
  · exact Nat.zero_le _

/-- Running the consumer takes what is lost from the front of the outbox, and makes the next
    message the pending one, or leaves it where it is. -/
theorem txConsume (h : OutHolds out s) :
    OutHolds (out.drop s.loadLoses) (txConsume t s) := by
  rcases txConsume_cases s with ⟨hempty, heq⟩ | ⟨hne, hw, heq⟩ | ⟨hne, hw, heq⟩
  · have hzero : s.loadLoses = 0 := by simp [Chan.loadLoses, Chan.consumes, hempty]
    rw [heq, hzero]
    exact ⟨h.wf.setIdle true, h.reset, h.split⟩
  · have hzero : s.loadLoses = 0 := by simp [Chan.loadLoses, Chan.consumes, hw]
    have hcont := MsgQ.contents_ne_nil hne
    obtain ⟨dw, kapi, hframe⟩ :=
      kapiScheduleDelayed_frame s (remainingDelay s.sys.baud s.txq.head.capLength)
    obtain ⟨p, q, rfl, hp, hq⟩ := h.split
    rw [heq, hzero, hframe]
    refine ⟨h.wf.setHead _, h.reset, p, q, rfl, hp, ?_⟩
    -- the message that waits is the same on the wire
    show _ = (s.txq.setHead s.txq.head.onWire).contents.map Canmsg.onWire
    rw [h.wf.contents_setHead hcont, List.map_cons, Canmsg.onWire_onWire, ← List.map_cons,
      ← MsgQ.contents_advance hcont, ← MsgQ.contents_eq_cons hcont]
    exact hq
  · have hcons : s.consumes = true := by simp [Chan.consumes, hne, hw]
    have hcont := MsgQ.contents_ne_nil hne
    have hset : (s.txq.setHead s.txq.head.capLength).contents ≠ [] := by
      rw [h.wf.contents_setHead hcont]
      exact List.cons_ne_nil _ _
    have hnew : (s.txq.setHead s.txq.head.capLength).advance.contents = s.txq.contents.tail := by
      rw [MsgQ.contents_advance hset, h.wf.contents_setHead hcont, List.tail_cons]
    have hwf : (s.txq.setHead s.txq.head.capLength).advance.WF 7 :=
      (h.wf.setHead _).advance hset
    obtain ⟨p, q, rfl, hp, hq⟩ := h.split
    -- the first message of the queue is the head, as far as the wire is concerned
    rw [MsgQ.contents_eq_cons hcont, List.map_cons] at hq
    obtain ⟨m, q, rfl, hm, hrest⟩ := List.map_eq_cons_iff.mp hq
    have htail : q.map Canmsg.onWire = s.txq.contents.tail.map Canmsg.onWire := by
      rw [hrest, MsgQ.contents_advance hcont]
    rw [heq]
    by_cases hres : s.chip.inReset = true
    · have hnone := h.reset hres
      have hload : s.chip.load s.txq.head.capLength =
          { s.chip with acc := encodeFrame s.txq.head.capLength s.chip.acc } := by
        rw [Sja1000.load, if_pos hres]
      have hp' : p = [] := by
        rw [hnone] at hp
        exact List.forall₂_nil_right_iff.mp hp
      rw [Chan.loadLoses, if_pos hcons, if_pos hres, hp', hload]
      refine ⟨hwf, fun _ => hnone, [], q, rfl, ?_, ?_⟩
      · show List.Forall₂ Carries [] s.chip.tx.toList
        rw [hnone]
        exact .nil
      · rw [hnew]
        exact htail
    · have hload : s.chip.load s.txq.head.capLength =
          { s.chip with
            txbuf := encodeFrame s.txq.head.capLength s.chip.txbuf
            tx := some (encodeFrame s.txq.head.capLength s.chip.txbuf) } := by
        rw [Sja1000.load, if_neg hres]
      rw [Chan.loadLoses, if_pos hcons, if_neg hres, ← hp.length_eq, List.drop_left, hload]
      refine ⟨hwf, fun hr => absurd hr hres, [m], q, rfl, .cons ⟨s.chip.txbuf, ?_⟩ .nil, ?_⟩
      · rw [hm]
        exact (encodeFrame_clearDelay _ _).symm
      · rw [hnew]
        exact htail

theorem kickIdle (h : OutHolds out s) :
    OutHolds (out.drop s.kickLoses) (kickIdle t s) := by
  unfold Can4linux.kickIdle Chan.kickLoses
  split
  · have hidle : OutHolds out { s with txq := s.txq.setIdle false } :=
      ⟨h.wf.setIdle false, h.reset, h.split⟩
    exact hidle.txConsume
  · exact h

end OutHolds

/-! ### The steps that concern it -/

theorem loadLoses_of_txSide {s s' : Chan (Sja1000 t)} (hside : s'.txSide = s.txSide) :
    s'.loadLoses = s.loadLoses := by
  have htxq : s'.txq = s.txq := congrArg TxSide.txq hside
  have hbaud : s'.sys.baud = s.sys.baud := congrArg TxSide.baud hside
  have htx : s'.chip.tx = s.chip.tx := congrArg TxSide.tx hside
  have hmode : s'.chip.mode = s.chip.mode := congrArg TxSide.mode hside
  rw [Chan.loadLoses, Chan.loadLoses, Chan.consumes, Chan.consumes, Chan.headWaits,
    Chan.headWaits, Sja1000.inReset, Sja1000.inReset, htxq, hbaud, htx, hmode]

section Steps

variable {out : List Canmsg} {s : Chan (Sja1000 t)} (h : OutHolds out s) (inb : List RxView)

include h

/-- A run of the consumer. -/
theorem OutHolds.consumed : ∃ out', Run.Trace (Mailbox.Step service) ⟨out, inb⟩
    (List.replicate s.loadLoses .lose) ⟨out', inb⟩ ∧ OutHolds out' (Can4linux.txConsume t s) :=
  ⟨_, Mailbox.trace_lose h.loadLoses_le, h.txConsume⟩

theorem OutHolds.timer : ∃ out', Run.Trace (Mailbox.Step service) ⟨out, inb⟩
    (List.replicate s.loadLoses .lose) ⟨out', inb⟩ ∧
      OutHolds out' (delayedmsgworker t s.disarm) := by
  obtain ⟨kapi, hdis⟩ := disarm_frame s
  have hsame : s.disarm.loadLoses = s.loadLoses := by
    rw [hdis]
    rfl
  have hd : OutHolds out s.disarm := by
    rw [hdis]
    exact h.of_eq rfl rfl id
  obtain ⟨out', htrace, hout'⟩ := hd.consumed inb
  rw [hsame] at htrace
  exact ⟨out', htrace, hout'.of_txSide (wakeWriters_txSide _)⟩

/-- An iteration runs the consumer on a transmit interrupt, once an error warning has taken
    back a reset request. -/
theorem OutHolds.irq (tstamp : Timeval) : ∃ out', Run.Trace (Mailbox.Step service) ⟨out, inb⟩
    (s.events (.irq tstamp)) ⟨out', inb⟩ ∧ OutHolds out' (irqIteration t tstamp s) := by
  obtain ⟨mid, hmid, hside⟩ := irqIteration_txSide tstamp s
  have hentry : OutHolds out s.irqEntry := by
    unfold Chan.irqEntry
    split
    · refine h.of_eq rfl rfl fun hres => ?_
      rw [show (s.clearIrq.onChip Sja1000.leaveReset).chip.inReset = false from
        s.clearIrq.chip.inReset_leaveReset] at hres
      cases hres
    · exact h.of_eq rfl rfl id
  have hm : OutHolds out mid := hentry.of_txSide hmid
  have hev : s.events (.irq tstamp) =
      if s.txSignalled then List.replicate s.irqEntry.loadLoses .lose else [] := rfl
  rw [hev]
  cases hsig : s.txSignalled with
  | true =>
      have hclear : OutHolds out { mid with txinprogress := 0 } := hm.of_eq rfl rfl id
      obtain ⟨out', htrace, hout'⟩ := hclear.consumed inb
      have hsame : mid.loadLoses = s.irqEntry.loadLoses := loadLoses_of_txSide hmid
      rw [hsig, if_pos rfl] at hside
      rw [if_pos rfl, ← hsame]
      exact ⟨out', htrace, hout'.of_txSide hside⟩
  | false =>
      rw [hsig, if_neg Bool.false_ne_true] at hside
      rw [if_neg Bool.false_ne_true]
      exact ⟨out, .nil, hm.of_txSide hside⟩

/-- A stop and a reset abort the pending frame, a start leaves it pending. -/
theorem OutHolds.command (cmd : CInt) : ∃ out', Run.Trace (Mailbox.Step service) ⟨out, inb⟩
    (s.events (.command cmd)) ⟨out', inb⟩ ∧ OutHolds out' (canCommand t cmd s).2 := by
  have hev : s.events (.command cmd) = if cmd = cmdStop ∨ cmd = cmdReset then
      List.replicate s.chip.tx.toList.length .lose else [] := rfl
  rw [hev]
  unfold canCommand
  by_cases hstart : cmd = cmdStart
  · obtain ⟨regs, hframe⟩ := canStartChip_eq s
    subst hstart
    rw [if_pos rfl, if_neg (by decide), hframe]
    refine ⟨out, .nil, h.of_eq rfl rfl fun hres => ?_⟩
    rw [show Sja1000.inReset (t := t) { s.chip.leaveReset with irq := 0, regs := regs } = false
      from s.chip.inReset_leaveReset] at hres
    cases hres
  · by_cases hstop : cmd = cmdStop
    · rw [if_neg hstart, if_pos hstop, if_pos (.inl hstop), canStopChip_eq]
      exact ⟨_, Mailbox.trace_lose h.pending_le, h.abort rfl rfl⟩
    · by_cases hreset : cmd = cmdReset
      · obtain ⟨o, regs, hframe⟩ := canChipReset_eq s
        rw [if_neg hstart, if_neg hstop, if_pos hreset, if_pos (.inr hreset), hframe]
        exact ⟨_, Mailbox.trace_lose h.pending_le, h.abort rfl rfl⟩
      · rw [if_neg hstart, if_neg hstop, if_neg hreset, if_neg (not_or.mpr ⟨hstop, hreset⟩)]
        exact ⟨out, .nil, h⟩

/-- The pending frame carries the first message of the outbox. -/
theorem OutHolds.txDone {s' : Chan (Sja1000 t)} (hstep : s.step .txDone = some s') :
    ∃ out', Run.Trace (Mailbox.Step service) ⟨out, inb⟩ (s.events .txDone) ⟨out', inb⟩ ∧
      OutHolds out' s' := by
  obtain ⟨hpend, rfl⟩ := Chan.step_txDone hstep
  obtain ⟨f, htx⟩ := Option.isSome_iff_exists.mp hpend
  obtain ⟨p, q, rfl, hp, hq⟩ := h.split
  rw [htx] at hp
  obtain ⟨m, p, hm, hnil, rfl⟩ := List.forall₂_cons_right_iff.mp hp
  obtain rfl := List.forall₂_nil_right_iff.mp hnil
  rw [Chan.events, htx]
  exact ⟨q, .single (.send hm), h.wf, fun _ => rfl, [], q, rfl, .nil, hq⟩

end Steps

/-- The mailbox `out` and `inb` takes the events of a call of `can_write`. -/
theorem OutHolds.writeLoop {out : List Canmsg} {s : Chan (Sja1000 t)} (h : OutHolds out s)
    (inb : List RxView) (us : List UserMsg) :
    ∃ out', Run.Trace (Mailbox.Step service) ⟨out, inb⟩ (s.writeEvents us) ⟨out', inb⟩ ∧
      OutHolds out' (writeLoop t us s).2 := by
  induction us generalizing out s with
  | nil => exact ⟨out, .nil, h⟩
  | cons u us ih =>
      cases hfull : s.txq.full with
      | true =>
          simp only [Can4linux.writeLoop, Chan.writeEvents, hfull, writeOne_full hfull, if_true,
            Bool.false_eq_true, if_false]
          exact ⟨out, .single (.refuse (h.room_le hfull)), h⟩
      | false =>
          have henq := h.enqueue hfull u
          have hle : (s.enqueue u).kickLoses ≤ (out ++ [u s.txq.freeSlot]).length := by
            unfold Chan.kickLoses
            split
            · exact henq.loadLoses_le
            · exact Nat.zero_le _
          have hone := henq.kickIdle
          have hroom : (writeOne t u s).2 = Can4linux.kickIdle t (s.enqueue u) := by
            rw [writeOne_room hfull]
          rw [← hroom] at hone
          obtain ⟨out', hrest, hout'⟩ := ih hone
          simp only [Can4linux.writeLoop, Chan.writeEvents, hfull, Bool.false_eq_true, if_false,
            show (writeOne t u s).1 = true by rw [writeOne_room hfull], if_true]
          exact ⟨out', .cons (.accept (h.lt_limit hfull)) ((Mailbox.trace_lose hle).append hrest),
            hout'⟩

/-! ## The reader -/

section Reader

variable {k : Nat} {s s' : Chan (Sja1000 t)}

theorem reader_of_rxSide (hside : s'.rxSide = s.rxSide) : s'.reader = s.reader := by
  have hrxq : s'.rxq = s.rxq := congrArg RxSide.rxq hside
  have hfifo : s'.chip.rxfifo = s.chip.rxfifo := congrArg RxSide.rxfifo hside
  have hret : s'.hist.returned = s.hist.returned := congrArg RxSide.returned hside
  rw [Chan.reader, Chan.reader, Chan.inbox, Chan.inbox, hrxq, hfifo, hret]

/-- An error message is no frame. -/
theorem reader_err (hwf : s.rxq.WF k) (inf : Msginf) :
    (rxproduceErr inf s).reader = s.reader := by
  cases hfull : s.rxq.full with
  | true =>
      rw [rxproduceErr, rxproduce_full hfull]
      rfl
  | false =>
      have hcont := hwf.contents_produce hfull (errmsg inf s.rxq.freeSlot)
      rw [rxproduceErr, rxproduce_room hfull]
      refine Prod.ext ?_ rfl
      show nonErrors (s.rxq.fill (errmsg inf s.rxq.freeSlot)).publish.contents ++ _ = s.inbox
      rw [hcont, nonErrors_append, nonErrors_errmsg, List.append_nil]
      rfl

/-- The receive branch moves a frame from the controller to the queue, if there is room. -/
theorem reader_rxIrq (hwf : s.rxq.WF k) {irqsrc : U8} (tstamp : Timeval) (rxstatus : CInt)
    (hbit : isSet irqsrc canReceiveInt = true → s.chip.inReset = false ∧ s.chip.rxfifo ≠ []) :
    (rxIrq t irqsrc ⟨presetFlags rxstatus, tstamp⟩ s).reader = s.reader := by
  by_cases hb : isSet irqsrc canReceiveInt
  · obtain ⟨hop, hne⟩ := hbit hb
    obtain ⟨f, fs, hfifo⟩ := List.exists_cons_of_ne_nil hne
    have hshown : s.chip.shown = f := by
      simp [Sja1000.shown, hop, hfifo]
    rw [rxIrq_eq _ s hb]
    cases hfull : s.rxq.full with
    | true =>
        rw [rxproduce_full hfull]
        rfl
    | false =>
        have hcont := hwf.contents_produce hfull
          (decodeMsg ⟨presetFlags rxstatus, tstamp⟩ s.rxq.freeSlot f)
        rw [rxproduce_room hfull, s.chip.readcanmsg_eq, hshown]
        refine Prod.ext ?_ rfl
        show nonErrors
          (s.rxq.fill (decodeMsg ⟨presetFlags rxstatus, tstamp⟩ s.rxq.freeSlot f)).publish.contents
            ++ s.chip.rxfifo.tail.map Frame.view = s.inbox
        rw [hcont, nonErrors_append, nonErrors_decodeMsg, Chan.inbox, hfifo]
        simp
  · rw [rxIrq, if_neg hb]

theorem reader_errWarnIrq (hwf : s.rxq.WF k) (irqsrc : U8) (inf : Msginf) :
    (errWarnIrq t irqsrc inf s).2.2.reader = s.reader := by
  by_cases hb : isSet irqsrc canErrorWarnInt
  · have hleave : (s.onChip Sja1000.leaveReset).rxq.WF k := hwf
    rw [errWarnIrq_eq inf s hb, reader_err hleave]
    rfl
  · rw [errWarnIrq, if_neg hb]

theorem reader_overrunIrq (hwf : s.rxq.WF k) (irqsrc : U8) (inf : Msginf) :
    (overrunIrq t irqsrc inf s).reader = s.reader := by
  by_cases hb : isSet irqsrc canOverrunInt
  · have hcount : Chan.reader { s with sys := { s.sys with overrun := s.sys.overrun + 1 } } =
        s.reader := rfl
    rw [overrunIrq_eq inf s hb, ← hcount]
    exact reader_err (s := { s with sys := { s.sys with overrun := s.sys.overrun + 1 } }) hwf _
  · rw [overrunIrq, if_neg hb]

/-- An iteration concerns the frames on their way to the reader, not what they are. -/
theorem reader_irq {v w : List Canmsg} (h : Flow v w s) (tstamp : Timeval)
    (hread : s.readsFilter (.irq tstamp) = false) :
    (irqIteration t tstamp s).reader = s.reader := by
  have hclear : Flow v w s.clearIrq := h.onChip _
  have hsame : s.clearIrq.reader = s.reader := rfl
  rw [irqIteration_eq, ← hsame]
  split
  · rfl
  · -- a receive bit stands for a frame, which is read in operating mode
    have hbit : isSet s.chip.irqBits canReceiveInt = true →
        s.clearIrq.chip.inReset = false ∧ s.clearIrq.chip.rxfifo ≠ [] := by
      intro hb
      have hheld : s.chip.rxfifo.isEmpty = false := by
        rw [s.chip.irqBits_receive] at hb
        simpa using hb
      refine ⟨?_, fun hnil => ?_⟩
      · show s.chip.inReset = false
        simpa [Chan.readsFilter, hheld] using hread
      · rw [show s.chip.rxfifo = [] from hnil] at hheld
        cases hheld
    have hrx := hclear.rxIrq s.chip.irqBits ⟨presetFlags s.clearIrq.rxstatus, tstamp⟩
    have hew := hrx.errWarnIrq s.chip.irqBits ⟨presetFlags s.clearIrq.rxstatus, tstamp⟩
    rw [irqBody, reader_overrunIrq (hew.txIrq _).rxWf, reader_of_rxSide (txIrq_rxSide _ _),
      reader_errWarnIrq hrx.rxWf, reader_rxIrq hclear.rxWf _ _ hbit]

theorem reader_command (s : Chan (Sja1000 t)) (cmd : CInt) :
    (canCommand t cmd s).2.reader = s.reader := by
  unfold canCommand
  split
  · obtain ⟨regs, hstart⟩ := canStartChip_eq s
    rw [hstart]
    rfl
  · split
    · rw [canStopChip_eq]
      rfl
    · split
      · obtain ⟨o, regs, hreset⟩ := canChipReset_eq s
        rw [hreset]
        rfl
      · rfl

/-- A read shows messages from the front of the queue, and takes the frames that they stand
    for from the inbox. -/
theorem reader_read (s : Chan (Sja1000 t)) (accessOk : Bool) (count : Nat) :
    (canRead accessOk count s).2.1.filterMap service.reads ++
        (canRead accessOk count s).2.2.inbox = s.inbox ∧
      (canRead accessOk count s).2.2.hist.returned =
        s.hist.returned ++ (canRead accessOk count s).2.1 := by
  cases accessOk with
  | false => exact ⟨rfl, (List.append_nil _).symm⟩
  | true =>
      obtain ⟨rxq, hs, happ, -⟩ := readLoop_spec count s
      simp only [canRead, Bool.not_true, Bool.false_eq_true, if_false, hs]
      refine ⟨?_, trivial⟩
      show (readLoop count s).1.filterMap service.reads ++
        (nonErrors rxq.contents ++ s.chip.rxfifo.map Frame.view) = s.inbox
      rw [filterMap_reads, ← List.append_assoc, ← nonErrors_append, happ]
      rfl

/-- But for a read and the arrival of a frame, no step of a session concerns the reader. -/
theorem reader_step {v w : List Canmsg} {op : Op} (h : Flow v w s) (hop : s.serves op = true)
    (hread : ∀ accessOk count, op ≠ .read accessOk count) (harrive : ∀ f, op ≠ .arrive f)
    (hstep : s.step op = some s') : s'.reader = s.reader := by
  cases op with
  | «open» env => cases hop
  | read accessOk count => exact absurd rfl (hread accessOk count)
  | arrive f => exact absurd rfl (harrive f)
  | close =>
      obtain ⟨hopen, rfl⟩ := Chan.whenOpen_eq_some.mp hstep
      obtain ⟨held, hframe⟩ := canClose_frame t s hopen
      rw [hframe, Sja1000.canSet_canmode]
      rfl
  | write accessOk us =>
      obtain ⟨-, rfl⟩ := Chan.whenOpen_eq_some.mp hstep
      exact canWrite_rule (P := fun c => c.reader = s.reader)
        (fun u c hc => (reader_of_rxSide (writeOne_rxSide c u)).trans hc) rfl accessOk us
  | command cmd =>
      obtain ⟨-, rfl⟩ := Chan.whenOpen_eq_some.mp hstep
      exact reader_command s cmd
  | config target val1 val2 =>
      obtain ⟨-, rfl⟩ := Chan.whenOpen_eq_some.mp hstep
      obtain ⟨sys, acc, txbuf, regs, hframe⟩ := canConfig_chip s target val1 val2
      rw [hframe]
      rfl
  | irq tstamp =>
      obtain ⟨-, rfl⟩ := Chan.whenOpen_eq_some.mp hstep
      exact reader_irq h tstamp (by simpa [Chan.serves, Op.opens] using hop)
  | timer =>
      obtain ⟨-, rfl⟩ := Chan.step_timer hstep
      exact reader_of_rxSide ((delayedmsgworker_rxSide s.disarm).trans (disarm_rxSide s))
  | txDone =>
      obtain ⟨-, rfl⟩ := Chan.step_txDone hstep
      rfl
  | busEvent bits stat overrun =>
      obtain ⟨-, rfl⟩ := Chan.step_busEvent hstep
      rfl
  | busOff =>
      obtain rfl := Chan.step_busOff hstep
      rfl

end Reader

/-! ## The steps -/

/-- Any other step is a trace of the outbox. -/
theorem OutHolds.step {out : List Canmsg} {s s' : Chan (Sja1000 t)} {op : Op}
    (h : OutHolds out s) (inb : List RxView) (hopen : ∀ env, op ≠ .open env)
    (hread : ∀ accessOk count, op ≠ .read accessOk count) (harrive : ∀ f, op ≠ .arrive f)
    (hstep : s.step op = some s') :
    ∃ out', Run.Trace (Mailbox.Step service) ⟨out, inb⟩ (s.events op) ⟨out', inb⟩ ∧
      OutHolds out' s' := by
  cases op with
  | «open» env => exact absurd rfl (hopen env)
  | read accessOk count => exact absurd rfl (hread accessOk count)
  | arrive f => exact absurd rfl (harrive f)
  | close =>
      obtain ⟨hopen, rfl⟩ := Chan.whenOpen_eq_some.mp hstep
      obtain ⟨held, hframe⟩ := canClose_frame t s hopen
      rw [hframe, Sja1000.canSet_canmode]
      exact ⟨_, Mailbox.trace_lose h.pending_le, h.abort rfl rfl⟩
  | write accessOk us =>
      obtain ⟨-, rfl⟩ := Chan.whenOpen_eq_some.mp hstep
      cases accessOk with
      | false => exact ⟨out, .nil, h⟩
      | true => exact h.writeLoop inb us
  | command cmd =>
      obtain ⟨-, rfl⟩ := Chan.whenOpen_eq_some.mp hstep
      exact h.command inb cmd
  | config target val1 val2 =>
      obtain ⟨-, rfl⟩ := Chan.whenOpen_eq_some.mp hstep
      obtain ⟨sys, acc, txbuf, regs, hframe⟩ := canConfig_chip s target val1 val2
      rw [hframe]
      exact ⟨out, .nil, h.of_eq rfl rfl id⟩
  | irq tstamp =>
      obtain ⟨-, rfl⟩ := Chan.whenOpen_eq_some.mp hstep
      exact h.irq inb tstamp
  | timer =>
      obtain ⟨-, rfl⟩ := Chan.step_timer hstep
      exact h.timer inb
  | txDone => exact h.txDone inb hstep
  | busEvent bits stat overrun =>
      obtain ⟨-, rfl⟩ := Chan.step_busEvent hstep
      exact ⟨out, .nil, h.of_eq rfl rfl id⟩
  | busOff =>
      obtain rfl := Chan.step_busOff hstep
      have hnone : s.chip.busOff.tx = none := by
        simp [Sja1000.busOff, Sja1000.setMode, Sja1000.or_reset]
      exact ⟨_, Mailbox.trace_lose h.pending_le, h.abort rfl hnone⟩

/-- The channel does the service of the mailbox `b`. -/
structure Serves (v w : List Canmsg) (s : Chan (Sja1000 t)) (b : Mailbox Canmsg RxView) :
    Prop where
  flow : Flow v w s
  out : OutHolds b.outbox s
  inb : s.inbox = b.inbox

section Steps

variable {v w : List Canmsg} {s s' : Chan (Sja1000 t)} {op : Op}

/-- Each step of a session is a trace of the mailbox over what the step lets out. -/
theorem Serves.step {b : Mailbox Canmsg RxView} (h : Serves v w s b)
    (hop : s.serves op = true) (hstep : s.step op = some s') :
    ∃ b', Run.Trace (Mailbox.Step service) b (s.events op) b' ∧ Serves v w s' b' := by
  have hopen : ∀ env, op ≠ .open env := by
    rintro env rfl
    cases hop
  have hflow := h.flow.step hopen hstep
  obtain ⟨out, inb⟩ := b
  have hout : OutHolds out s := h.out
  have hinb : s.inbox = inb := h.inb
  by_cases hread : ∃ accessOk count, op = .read accessOk count
  · obtain ⟨accessOk, count, rfl⟩ := hread
    obtain ⟨-, rfl⟩ := Chan.whenOpen_eq_some.mp hstep
    have htook := (reader_read s accessOk count).1.trans hinb
    exact ⟨⟨out, _⟩, Mailbox.trace_deliver htook, hflow,
      hout.of_txSide (canRead_txSide s accessOk count), rfl⟩
  · by_cases harrive : ∃ f, op = .arrive f
    · obtain ⟨f, rfl⟩ := harrive
      obtain ⟨-, rfl⟩ := Chan.step_arrive hstep
      refine ⟨⟨out, inb ++ [f.view]⟩, .single .hear, hflow, hout.of_eq rfl rfl id, ?_⟩
      show nonErrors s.rxq.contents ++ (s.chip.rxfifo ++ [f]).map Frame.view = inb ++ [f.view]
      rw [← hinb, Chan.inbox, List.map_append, ← List.append_assoc]
      rfl
    · have hread' : ∀ accessOk count, op ≠ .read accessOk count :=
        fun accessOk count he => hread ⟨accessOk, count, he⟩
      have harrive' : ∀ f, op ≠ .arrive f := fun f he => harrive ⟨f, he⟩
      obtain ⟨out', htrace, hout'⟩ := hout.step inb hopen hread' harrive' hstep
      have hreader := reader_step h.flow hop hread' harrive' hstep
      exact ⟨⟨out', inb⟩, htrace, hflow, hout', (congrArg Prod.fst hreader).trans hinb⟩

/-- A step other than a write posts nothing. -/
theorem Chan.letters_events (hwrite : ∀ accessOk us, op ≠ .write accessOk us) :
    (s.events op).flatMap Mailbox.Event.letters = [] := by
  cases op with
  | write accessOk us => exact absurd rfl (hwrite accessOk us)
  | close | busOff | timer => exact Mailbox.Event.letters_lose _
  | read accessOk count => exact Mailbox.Event.letters_deliver _
  | irq tstamp =>
      simp only [Chan.events]
      split
      · exact Mailbox.Event.letters_lose _
      · rfl
  | command cmd =>
      simp only [Chan.events]
      split
      · exact Mailbox.Event.letters_lose _
      · rfl
  | txDone =>
      simp only [Chan.events]
      cases s.chip.tx <;> rfl
  | «open» _ | config _ _ _ | busEvent _ _ _ | arrive _ => rfl

/-- What a call of `can_write` posts is what it accepts; it shows nothing. -/
theorem Chan.writeEvents_letters (us : List UserMsg) (s : Chan (Sja1000 t)) :
    (writeLoop t us s).2.hist.accepted =
        s.hist.accepted ++ (s.writeEvents us).flatMap Mailbox.Event.letters ∧
      (s.writeEvents us).flatMap Mailbox.Event.shows = [] := by
  induction us generalizing s with
  | nil => exact ⟨(List.append_nil _).symm, rfl⟩
  | cons u us ih =>
      cases hfull : s.txq.full with
      | true =>
          simp only [writeLoop, Chan.writeEvents, hfull, writeOne_full hfull, if_true,
            Bool.false_eq_true, if_false]
          exact ⟨(List.append_nil _).symm, rfl⟩
      | false =>
          obtain ⟨hrest, hshows⟩ := ih (writeOne t u s).2
          have hone : (writeOne t u s).2.hist.accepted =
              s.hist.accepted ++ [u s.txq.freeSlot] := by
            rw [writeOne_room hfull, kickIdle_accepted]
            rfl
          simp only [writeLoop, Chan.writeEvents, hfull, Bool.false_eq_true, if_false,
            show (writeOne t u s).1 = true by rw [writeOne_room hfull], if_true,
            List.flatMap_cons, List.flatMap_append, Mailbox.Event.letters_lose,
            Mailbox.Event.shows_lose, hrest, hone, hshows]
          exact ⟨List.append_assoc _ _ _, rfl⟩

/-- A call that accepts fewer than it is given ends with a refusal. -/
theorem Chan.writeEvents_short {us : List UserMsg} {s : Chan (Sja1000 t)}
    (hshort : (writeLoop t us s).1 < us.length) : ∃ es, s.writeEvents us = es ++ [.refuse] := by
  induction us generalizing s with
  | nil => exact absurd hshort (Nat.not_lt_zero _)
  | cons u us ih =>
      cases hfull : s.txq.full with
      | true => exact ⟨[], by simp only [Chan.writeEvents, hfull, if_true]; rfl⟩
      | false =>
          simp only [writeLoop, show (writeOne t u s).1 = true by rw [writeOne_room hfull],
            if_true, List.length_cons, Nat.add_lt_add_iff_right] at hshort
          obtain ⟨es, hes⟩ := ih hshort
          refine ⟨.accept (u s.txq.freeSlot) ::
            (List.replicate (s.enqueue u).kickLoses .lose ++ es), ?_⟩
          simp only [Chan.writeEvents, hfull, Bool.false_eq_true, if_false, hes]
          simp

/-- A step other than a read shows nothing. -/
theorem Chan.shows_events (hread : ∀ accessOk count, op ≠ .read accessOk count) :
    (s.events op).flatMap Mailbox.Event.shows = [] := by
  cases op with
  | read accessOk count => exact absurd rfl (hread accessOk count)
  | write accessOk us =>
      cases accessOk with
      | false => rfl
      | true => exact (Chan.writeEvents_letters us s).2
  | close | busOff | timer => exact Mailbox.Event.shows_lose _
  | irq tstamp =>
      simp only [Chan.events]
      split
      · exact Mailbox.Event.shows_lose _
      · rfl
  | command cmd =>
      simp only [Chan.events]
      split
      · exact Mailbox.Event.shows_lose _
      · rfl
  | txDone =>
      simp only [Chan.events]
      cases s.chip.tx <;> rfl
  | «open» _ | config _ _ _ | busEvent _ _ _ | arrive _ => rfl

/-- What is posted is what the driver accepts, what is shown what it returns. -/
structure Logged (es : List Happening) (s : Chan (Sja1000 t)) : Prop where
  accepted : s.hist.accepted = es.flatMap Mailbox.Event.letters
  returned : s.hist.returned = es.flatMap Mailbox.Event.shows

theorem Logged.step {es : List Happening} (h : Logged es s) (hflow : Flow v w s)
    (hop : s.serves op = true) (hstep : s.step op = some s') :
    Logged (es ++ s.events op) s' := by
  have hopen : ∀ env, op ≠ .open env := by
    rintro env rfl
    cases hop
  refine ⟨?_, ?_⟩
  · rw [List.flatMap_append, ← h.accepted]
    by_cases hwrite : ∃ accessOk us, op = .write accessOk us
    · obtain ⟨accessOk, us, rfl⟩ := hwrite
      obtain ⟨-, rfl⟩ := Chan.whenOpen_eq_some.mp hstep
      cases accessOk with
      | false => exact (List.append_nil _).symm
      | true => exact (Chan.writeEvents_letters us s).1
    · have hnot : ∀ accessOk us, op ≠ .write accessOk us :=
        fun accessOk us he => hwrite ⟨accessOk, us, he⟩
      rw [Chan.letters_events hnot, List.append_nil]
      exact Chan.accepted_step hopen hnot hstep
  · rw [List.flatMap_append, ← h.returned]
    by_cases hread : ∃ accessOk count, op = .read accessOk count
    · obtain ⟨accessOk, count, rfl⟩ := hread
      obtain ⟨-, rfl⟩ := Chan.whenOpen_eq_some.mp hstep
      rw [(reader_read s accessOk count).2]
      exact congrArg _ (Mailbox.Event.shows_deliver _).symm
    · have hnot : ∀ accessOk count, op ≠ .read accessOk count :=
        fun accessOk count he => hread ⟨accessOk, count, he⟩
      rw [Chan.shows_events hnot, List.append_nil]
      by_cases harrive : ∃ f, op = .arrive f
      · obtain ⟨f, rfl⟩ := harrive
        obtain ⟨-, rfl⟩ := Chan.step_arrive hstep
        rfl
      · have hsame := reader_step hflow hop hnot (fun f he => harrive ⟨f, he⟩) hstep
        exact congrArg Prod.snd hsame

end Steps

/-! ## Runs -/

/-- A session starts with what the open finds in the queues and in the controller. -/
theorem Serves.of_open {s₀ s : Chan (Sja1000 t)} {env : OpenEnv} (hreached : Reached s₀)
    (hopen : s₀.step (.open env) = some s) :
    Serves s.rxq.contents s.txq.contents s ⟨s.txq.contents, s.inbox⟩ := by
  obtain ⟨hrx, htx⟩ := hreached.bounds
  have hflow := Flow.of_open hrx htx hopen
  have hnone : s.chip.tx = none := by
    obtain ⟨-, ri, held, o, c, regs, rxb, txb, rfl⟩ := Chan.step_open hopen
    rfl
  refine ⟨hflow, ⟨hflow.txWf, fun _ => hnone, [], _, rfl, ?_, rfl⟩, rfl⟩
  rw [hnone]
  exact .nil

/-- **A channel is a mailbox.**  Open a reachable device and let it run in any way, commands,
    reconfigurations, bus-off and the close included, but handle no interrupt in reset mode
    while the controller holds a frame.  What the process and the bus see of it, in that
    order, is a trace of the mailbox; what is posted in it is what `can_write` has accepted,
    what is shown in it what `can_read` has returned. -/
theorem refines_mailbox {s₀ s s' : Chan (Sja1000 t)} {env : OpenEnv} {ops : List Op}
    (hreached : Reached s₀) (hopen : s₀.step (.open env) = some s)
    (hrun : Run.exec Chan.serviceStep s ops = some s') :
    ∃ b, Run.Trace (Mailbox.Step service) ⟨s.txq.contents, s.inbox⟩
        (Run.observe Chan.serviceStep Chan.events s ops) b ∧
      OutHolds b.outbox s' ∧ s'.inbox = b.inbox ∧
      Logged (Run.observe Chan.serviceStep Chan.events s ops) s' := by
  have hserves := Serves.of_open hreached hopen
  obtain ⟨b, htrace, hb⟩ := Run.exec_simulates (S := Serves s.rxq.contents s.txq.contents)
    (fun c op c' b hc hstep => by
      obtain ⟨hop, hstep'⟩ := Run.restrict_eq_some.mp hstep
      exact hc.step hop hstep') hserves hrun
  have hstart : Logged [] s := by
    obtain ⟨-, ri, held, o, c, regs, rxb, txb, rfl⟩ := Chan.step_open hopen
    exact ⟨rfl, rfl⟩
  have hlog := Run.exec_observe
    (P := fun es c => Logged es c ∧ Flow s.rxq.contents s.txq.contents c)
    (fun es c op c' hc hstep => by
      obtain ⟨hop, hstep'⟩ := Run.restrict_eq_some.mp hstep
      refine ⟨hc.1.step hc.2 hop hstep', hc.2.step ?_ hstep'⟩
      rintro env rfl
      cases hop) ⟨hstart, hserves.flow⟩ hrun
  exact ⟨b, htrace, hb.out, hb.inb, hlog.1⟩

/-- Two messages are written; the device is stopped while the first is pending, and a frame
    is read. -/
theorem refines_mailbox_stopped : ∃ s' b, Run.exec Chan.serviceStep Chan.opened
    [.write true [.ofMsg Canmsg.zero, .ofMsg { Canmsg.zero with id := 1 }], .arrive (fun _ => 1),
      .irq ⟨0, 0⟩, .command cmdStop, .command cmdStart, .read true 1] = some s' ∧
    Run.Trace (Mailbox.Step service) ⟨Chan.opened.txq.contents, Chan.opened.inbox⟩
      (Run.observe Chan.serviceStep Chan.events Chan.opened
        [.write true [.ofMsg Canmsg.zero, .ofMsg { Canmsg.zero with id := 1 }],
          .arrive (fun _ => 1), .irq ⟨0, 0⟩, .command cmdStop, .command cmdStart,
          .read true 1]) b ∧
    OutHolds b.outbox s' ∧ s'.inbox = b.inbox ∧
    Logged (Run.observe Chan.serviceStep Chan.events Chan.opened
      [.write true [.ofMsg Canmsg.zero, .ofMsg { Canmsg.zero with id := 1 }],
        .arrive (fun _ => 1), .irq ⟨0, 0⟩, .command cmdStop, .command cmdStart,
        .read true 1]) s' := by
  obtain ⟨s', hs'⟩ := Option.isSome_iff_exists.mp (show (Run.exec Chan.serviceStep Chan.opened
    [.write true [.ofMsg Canmsg.zero, .ofMsg { Canmsg.zero with id := 1 }], .arrive (fun _ => 1),
      .irq ⟨0, 0⟩, .command cmdStop, .command cmdStart, .read true 1]).isSome = true by
        decide +kernel)
  obtain ⟨b, htrace, hrest⟩ := refines_mailbox reached_unopened Chan.step_opened hs'
  exact ⟨s', b, hs', htrace, hrest⟩

end Can4linux
