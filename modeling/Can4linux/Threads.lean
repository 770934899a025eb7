/-
  Can4linux.Threads

  Any number of threads that share one open device, with the interrupt handler
  and the worker of the delay timer: every context takes one step at a time.
  A step is a test of a queue, a callback, an increment of one of its counters,
  an access to `idle`, or a step of `CAN_Interrupt` outside the queues.

  Nothing in the source serialises the threads, so any of them may begin a
  `can_write` or a `can_read` at any time.  A context that nobody disturbs does
  what the functions of `FileOps` and `Sja1000Funcs` do in one piece.
-/

import Can4linux.Spsc
import Can4linux.TxBuffer

namespace Can4linux

variable {t : Target}

/-! ## Contexts -/

/-- Where a context stands in `qconsume` on the transmit queue. -/
inductive QPc where
  /-- before the empty test -/
  | entered
  /-- the empty test found a message; `sendcanmsg` has not run yet -/
  | calling
  /-- the transmission is requested; `consumed++` is still to come -/
  | loaded
deriving DecidableEq

/-- Where a thread stands in a round of `can_write` or of `can_read`. -/
inductive ThreadPc where
  | out
  /-- `can_write`: the full test found room -/
  | room
  /-- the slot holds `m`; `produced++` is still to come -/
  | filled (m : Canmsg)
  /-- the message is published; `idle` has not been read yet -/
  | published
  /-- `idle` was read as 1 and is still to be cleared -/
  | sawIdle
  /-- the thread runs the consumer of the transmit queue -/
  | kick (pc : QPc)
  /-- `can_read`: the empty test found a message -/
  | found
  /-- the message is copied to user space; `consumed++` is still to come -/
  | copied

/-- What the handler is at. -/
inductive HandlerPart where
  /-- between two of its own steps -/
  | plain
  /-- in `qproduce` on the receive queue: the full test found room -/
  | room
  /-- the slot holds `m`; `produced++` is still to come -/
  | filled (m : Canmsg)
  /-- in `qconsume` on the transmit queue -/
  | consume (pc : QPc)
  /-- `qconsume` has returned -/
  | consumed

/-- Where the worker of the delay timer stands. -/
inductive TimerPc where
  | out
  | consume (pc : QPc)
  /-- `qconsume` has returned -/
  | consumed

/-- The channel and the program counters of all contexts. -/
structure Threads (ι : Type) (t : Target) where
  chan : Chan (Sja1000 t)
  thread : ι → ThreadPc
  pc : IrqPc
  part : HandlerPart
  timer : TimerPc

/-- The atomic steps. -/
inductive ThreadOp (ι : Type) where
  /-- thread `i` begins a round of `can_write`: the full test -/
  | write (i : ι)
  /-- thread `i` begins a round of `can_read`: the empty test -/
  | read (i : ι)
  /-- thread `i` goes on; `u` is what `copyusermsg` leaves in a slot -/
  | go (i : ι) (u : UserMsg)
  /-- the handler goes on, at the given time -/
  | handler (tstamp : Timeval)
  /-- the delay timer runs out -/
  | expire
  /-- its worker goes on -/
  | worker
  /-- the controller: a frame arrives or is sent, an error state changes -/
  | event (op : Op)

/-! ## Steps -/

/-- A step in `qconsume(&dev->txq, sendcanmsg, dev)`; `none` says that it returns. -/
def qstep (chan : Chan (Sja1000 t)) : QPc → Chan (Sja1000 t) × Option QPc
  | .entered =>
      if chan.txq.empty then ({ chan with txq := chan.txq.setIdle true }, none)
      else (chan, some .calling)
  | .calling =>
      -- the callback gets the slot: what it wrote stays there
      let r := sendcanmsg t chan.txq.head chan
      ({ r.2.2 with txq := chan.txq.setHead r.1 }, if r.2.1 then some .loaded else none)
  | .loaded => ({ chan with txq := chan.txq.advance }, none)

namespace Threads

variable {ι : Type} [DecidableEq ι]

/-- Thread `i` goes on to `pc`. -/
def goto (s : Threads ι t) (i : ι) (pc : ThreadPc) : Threads ι t :=
  { s with thread := Function.update s.thread i pc }

/-- A thread inside one of the two calls. -/
def stepThread (s : Threads ι t) (i : ι) (u : UserMsg) : Option (Threads ι t) :=
  match s.thread i with
  | .out => none
  | .room =>
      let m := u s.chan.txq.freeSlot
      some { s.goto i (.filled m) with chan := { s.chan with txq := s.chan.txq.fill m } }
  | .filled m =>
      some { s.goto i .published with
        chan := { s.chan with
          txq := s.chan.txq.publish
          hist := { s.chan.hist with accepted := s.chan.hist.accepted ++ [m] } } }
  | .published => some (s.goto i (if s.chan.txq.idle then .sawIdle else .out))
  | .sawIdle =>
      some { s.goto i (.kick .entered) with
        chan := { s.chan with txq := s.chan.txq.setIdle false } }
  | .kick pc =>
      let r := qstep s.chan pc
      some { s.goto i (r.2.elim .out .kick) with chan := r.1 }
  | .found =>
      some { s.goto i .copied with
        chan := { s.chan with
          hist := { s.chan.hist with returned := s.chan.hist.returned ++ [s.chan.rxq.head] } } }
  | .copied =>
      some { s.goto i .out with chan := { s.chan with rxq := s.chan.rxq.advance } }

/-- The handler: a step of `irqStep`, or one in `rxproduce` or `qconsume`. -/
def stepHandler (tstamp : Timeval) (s : Threads ι t) : Option (Threads ι t) :=
  match s.part with
  | .plain =>
      match s.pc.offer (Sja1000 t) t, s.pc with
      | some (_, next), _ =>
          if s.chan.rxq.full then
            some { s with chan := { s.chan with rxstatus := bufOverrun }, pc := next }
          else some { s with part := .room }
      | none, .txRun _ _ => some { s with part := .consume .entered }
      | none, pc =>
          let r := irqStep t tstamp s.chan pc
          some { s with chan := r.1, pc := r.2 }
  | .room =>
      (s.pc.offer (Sja1000 t) t).map fun r =>
        let m := r.1 s.chan.rxq.freeSlot s.chan.chip
        { s with
          chan := { s.chan with rxq := s.chan.rxq.fill m.1, chip := m.2 }
          part := .filled m.1 }
  | .filled m =>
      (s.pc.offer (Sja1000 t) t).map fun r =>
        { s with
          chan := Chan.wakeUp { s.chan with
            rxq := s.chan.rxq.publish
            rxstatus := bufOk
            hist := { s.chan.hist with received := s.chan.hist.received ++ [m] } }
          pc := r.2
          part := .plain }
  | .consume pc =>
      let r := qstep s.chan pc
      some { s with chan := r.1, part := r.2.elim .consumed .consume }
  | .consumed =>
      match s.pc with
      | .txRun irqsrc inf =>
          some { s with chan := s.chan.wakeWriters, pc := .ovr irqsrc inf, part := .plain }
      | _ => none

/-- `delayedmsgworker`. -/
def stepWorker (s : Threads ι t) : Option (Threads ι t) :=
  match s.timer with
  | .out => none
  | .consume pc =>
      let r := qstep s.chan pc
      some { s with chan := r.1, timer := r.2.elim .consumed .consume }
  | .consumed => some { s with chan := s.chan.wakeWriters, timer := .out }

/-- One step. -/
def step (s : Threads ι t) : ThreadOp ι → Option (Threads ι t)
  | .write i =>
      match s.thread i with
      | .out => some (if s.chan.txq.full then s else s.goto i .room)
      | _ => none
  | .read i =>
      match s.thread i with
      | .out =>
          some (if s.chan.rxq.empty then
            { s with chan := { s.chan with rxq := s.chan.rxq.setIdle true } }
          else s.goto i .found)
      | _ => none
  | .go i u => s.stepThread i u
  | .handler tstamp => s.stepHandler tstamp
  | .expire =>
      match s.timer with
      | .out =>
          if s.chan.timerArmed then
            some { s with chan := s.chan.disarm, timer := .consume .entered }
          else none
      | _ => none
  | .worker => s.stepWorker
  | .event op =>
      if op.isEvent then (s.chan.step op).map fun chan => { s with chan := chan } else none

/-- All contexts are outside. -/
def start (chan : Chan (Sja1000 t)) : Threads ι t := ⟨chan, fun _ => .out, .out, .plain, .out⟩

/-! ## What a step in `qconsume` does -/

end Threads

section QStep

variable {chan : Chan (Sja1000 t)}

theorem qstep_empty (h : chan.txq.empty = true) :
    qstep chan .entered = ({ chan with txq := chan.txq.setIdle true }, none) :=
  if_pos h

theorem qstep_found (h : chan.txq.empty = false) : qstep chan .entered = (chan, some .calling) := by
  have hne : ¬ chan.txq.empty = true := by
    rw [h]
    exact Bool.false_ne_true
  exact if_neg hne

/-- `sendcanmsg` arms the timer for the head message, -/
theorem qstep_waits (hw : chan.headWaits = true) :
    qstep chan .calling =
      ({ chan.kapiScheduleDelayed (remainingDelay chan.sys.baud chan.txq.head.capLength) with
        txq := chan.txq.setHead chan.txq.head.onWire }, none) := by
  simp only [qstep, sendcanmsg_waits chan hw]
  rfl

/-- or it loads it. -/
theorem qstep_loads (hw : chan.headWaits = false) :
    qstep chan .calling =
      ({ chan with
        txq := chan.txq.setHead chan.txq.head.capLength
        txinprogress := 1
        hist := { chan.hist with loaded := chan.hist.loaded ++ [chan.txq.head.onWire] }
        chip := chan.chip.load chan.txq.head.capLength }, some .loaded) := by
  simp only [qstep, sendcanmsg_loads chan hw]
  rfl

/-- The receive queue and its history are left alone, and no message is accepted. -/
theorem qstep_frame (chan : Chan (Sja1000 t)) (pc : QPc) :
    ∃ txq prog dw kapi l chip, (qstep chan pc).1 =
      { chan with
        txq := txq, txinprogress := prog, delayedwork := dw, kapi := kapi
        hist := { chan.hist with loaded := l }, chip := chip } := by
  cases pc with
  | entered =>
      cases hempty : chan.txq.empty with
      | true =>
          rw [qstep_empty hempty]
          exact ⟨_, _, _, _, _, _, rfl⟩
      | false =>
          rw [qstep_found hempty]
          exact ⟨_, _, _, _, _, _, rfl⟩
  | calling =>
      cases hw : chan.headWaits with
      | true =>
          obtain ⟨dw, kapi, hframe⟩ := kapiScheduleDelayed_frame chan
            (remainingDelay chan.sys.baud chan.txq.head.capLength)
          rw [qstep_waits hw, hframe]
          exact ⟨_, _, _, _, _, _, rfl⟩
      | false =>
          rw [qstep_loads hw]
          exact ⟨_, _, _, _, _, _, rfl⟩
  | loaded => exact ⟨_, _, _, _, _, _, rfl⟩

end QStep

namespace Threads

/-! ## Contexts that nobody disturbs -/

section Alone

variable {ι : Type} [DecidableEq ι] {s : Threads ι t}

/-- A context that goes through `qconsume` alone runs the consumer. -/
theorem consume_alone (o : ThreadOp ι) (enter : Chan (Sja1000 t) → QPc → Threads ι t)
    (leave : Chan (Sja1000 t) → Threads ι t)
    (hstep : ∀ c pc, (enter c pc).step o =
      some ((qstep c pc).2.elim (leave (qstep c pc).1) (enter (qstep c pc).1)))
    (c : Chan (Sja1000 t)) :
    ∃ ops, Run.exec step (enter c .entered) ops = some (leave (txConsume t c)) := by
  rcases txConsume_cases c with ⟨hempty, heq⟩ | ⟨hne, hw, heq⟩ | ⟨hne, hw, heq⟩
  · refine ⟨[o], ?_⟩
    rw [Run.exec_of_step (hstep c .entered), qstep_empty hempty, heq]
    rfl
  · refine ⟨[o, o], ?_⟩
    rw [Run.exec_of_step (hstep c .entered), qstep_found hne]
    show Run.exec step (enter c .calling) [o] = _
    rw [Run.exec_of_step (hstep c .calling), qstep_waits hw, heq]
    rfl
  · refine ⟨[o, o, o], ?_⟩
    rw [Run.exec_of_step (hstep c .entered), qstep_found hne]
    show Run.exec step (enter c .calling) [o, o] = _
    rw [Run.exec_of_step (hstep c .calling), qstep_loads hw, heq]
    show Run.exec step (enter _ .loaded) [o] = _
    rw [Run.exec_of_step (hstep _ .loaded)]
    rfl

/-- The worker of the timer runs `delayedmsgworker`. -/
theorem worker_alone (htimer : s.timer = .out) (harmed : s.chan.timerArmed = true) :
    ∃ ops, Run.exec step s (.expire :: ops) =
      some { s with chan := delayedmsgworker t s.chan.disarm } := by
  obtain ⟨chan, thread, pc, part, timer⟩ := s
  obtain rfl : timer = .out := htimer
  have harmed' : chan.timerArmed = true := harmed
  obtain ⟨ops, hops⟩ := consume_alone (.worker : ThreadOp ι)
    (fun c q => ⟨c, thread, pc, part, .consume q⟩) (fun c => ⟨c, thread, pc, part, .consumed⟩)
    (fun c q => by
      show some _ = _
      cases (qstep c q).2 <;> rfl) chan.disarm
  refine ⟨ops ++ [.worker], ?_⟩
  have hexpire : step (⟨chan, thread, pc, part, .out⟩ : Threads ι t) .expire =
      some ⟨chan.disarm, thread, pc, part, .consume .entered⟩ := if_pos harmed'
  rw [Run.exec_of_step hexpire, Run.exec_append, hops]
  rfl

/-- A step of the handler outside the queues. -/
theorem stepHandler_plain {tstamp : Timeval} (hpart : s.part = .plain)
    (hoffer : s.pc.offer (Sja1000 t) t = none)
    (hrun : ∀ irqsrc inf, s.pc ≠ .txRun irqsrc inf) :
    s.step (.handler tstamp) = some { s with
      chan := (irqStep t tstamp s.chan s.pc).1, pc := (irqStep t tstamp s.chan s.pc).2 } := by
  simp only [step, stepHandler, hpart, hoffer]

/-- The handler makes a step of `irqStep`. -/
theorem handler_alone (hpart : s.part = .plain) (tstamp : Timeval) :
    ∃ ops, Run.exec step s ops = some { s with
      chan := (irqStep t tstamp s.chan s.pc).1, pc := (irqStep t tstamp s.chan s.pc).2 } := by
  obtain ⟨chan, thread, pc, part, timer⟩ := s
  obtain rfl : part = .plain := hpart
  cases hoffer : pc.offer (Sja1000 t) t with
  | some r =>
      obtain ⟨produce, next⟩ := r
      rw [irqStep_offer hoffer]
      cases hfull : chan.rxq.full with
      | true =>
          refine ⟨[.handler tstamp], ?_⟩
          simp [step, stepHandler, hoffer, hfull, rxproduce_full hfull]
      | false =>
          refine ⟨[.handler tstamp, .handler tstamp, .handler tstamp], ?_⟩
          simp [step, stepHandler, hoffer, hfull, rxproduce_room hfull]
  | none =>
      by_cases hrun : ∃ irqsrc inf, pc = .txRun irqsrc inf
      · obtain ⟨irqsrc, inf, rfl⟩ := hrun
        obtain ⟨ops, hops⟩ := consume_alone (.handler tstamp : ThreadOp ι)
          (fun c q => ⟨c, thread, .txRun irqsrc inf, .consume q, timer⟩)
          (fun c => ⟨c, thread, .txRun irqsrc inf, .consumed, timer⟩)
          (fun c q => by
            show some _ = _
            cases (qstep c q).2 <;> rfl) chan
        refine ⟨.handler tstamp :: (ops ++ [.handler tstamp]), ?_⟩
        have henter : step (⟨chan, thread, .txRun irqsrc inf, .plain, timer⟩ : Threads ι t)
            (.handler tstamp) =
              some ⟨chan, thread, .txRun irqsrc inf, .consume .entered, timer⟩ := rfl
        rw [Run.exec_of_step henter, Run.exec_append, hops]
        rfl
      · refine ⟨[.handler tstamp], ?_⟩
        rw [Run.exec_of_step (stepHandler_plain rfl hoffer fun irqsrc inf he => hrun ⟨_, _, he⟩)]
        rfl

/-- Thread `i` takes a message off the receive queue. -/
theorem read_alone {i : ι} (hout : s.thread i = .out) (u : UserMsg) :
    ∃ ops, Run.exec step s (.read i :: ops) = some { s with chan := (readOne s.chan).2 } := by
  obtain ⟨chan, thread, pc, part, timer⟩ := s
  have hout' : thread i = .out := hout
  have hback : ∀ p, Function.update (Function.update thread i p) i .out = thread := by
    intro p
    rw [Function.update_idem, ← hout', Function.update_eq_self]
  rcases readOne_cases chan with ⟨hempty, heq⟩ | ⟨hne, heq⟩
  · refine ⟨[], ?_⟩
    simp [step, hout', hempty, heq]
  · refine ⟨[.go i u, .go i u], ?_⟩
    simp [step, stepThread, goto, hout', hne, heq, hback]

/-- Thread `i` writes a message. -/
theorem write_alone {i : ι} (hout : s.thread i = .out) (u : UserMsg) :
    ∃ ops, Run.exec step s (.write i :: ops) = some { s with chan := (writeOne t u s.chan).2 } := by
  obtain ⟨chan, thread, pc, part, timer⟩ := s
  have hout' : thread i = .out := hout
  have hback : ∀ p, Function.update (Function.update thread i p) i .out = thread := by
    intro p
    rw [Function.update_idem, ← hout', Function.update_eq_self]
  cases hfull : chan.txq.full with
  | true =>
      refine ⟨[], ?_⟩
      simp [step, hout', hfull, writeOne_full hfull]
  | false =>
      have hfill : Run.exec step (⟨chan, thread, pc, part, timer⟩ : Threads ι t)
          [.write i, .go i u, .go i u, .go i u] =
            some ⟨chan.enqueue u,
              Function.update thread i (if chan.txq.idle then .sawIdle else .out), pc, part,
              timer⟩ := by
        simp [step, stepThread, goto, hout', hfull, Chan.enqueue, MsgQ.fill, MsgQ.publish]
      cases hidle : chan.txq.idle with
      | false =>
          refine ⟨[.go i u, .go i u, .go i u], hfill.trans ?_⟩
          have hbusy : (chan.enqueue u).txq.idle = false := hidle
          have hsame : Function.update thread i .out = thread := by
            rw [← hout', Function.update_eq_self]
          simp [hidle, hsame, writeOne_room hfull, kickIdle, hbusy]
      | true =>
          -- an idle queue: the thread goes on as the consumer
          obtain ⟨ops, hops⟩ := consume_alone (.go i u : ThreadOp ι)
            (fun c q => ⟨c, Function.update thread i (.kick q), pc, part, timer⟩)
            (fun c => ⟨c, thread, pc, part, timer⟩)
            (fun c q => by
              simp only [step, stepThread, goto, Function.update_self, Function.update_idem]
              cases (qstep c q).2 with
              | none =>
                  simp only [Option.elim]
                  rw [← hout', Function.update_eq_self]
              | some q' => rfl)
            { chan.enqueue u with txq := (chan.enqueue u).txq.setIdle false }
          have hclear : step (⟨chan.enqueue u, Function.update thread i .sawIdle, pc, part, timer⟩ :
              Threads ι t) (.go i u) =
                some ⟨{ chan.enqueue u with txq := (chan.enqueue u).txq.setIdle false },
                  Function.update thread i (.kick .entered), pc, part, timer⟩ := by
            simp [step, stepThread, goto]
          refine ⟨[.go i u, .go i u, .go i u] ++ .go i u :: ops, ?_⟩
          rw [← List.cons_append, Run.exec_append, hfill, hidle, Option.bind_some, if_pos rfl,
            Run.exec_of_step hclear, hops, writeOne_room hfull, kickIdle_enqueue hidle]

end Alone

end Threads

end Can4linux
