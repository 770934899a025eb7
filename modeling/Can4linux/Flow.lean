/-
  Can4linux.Flow

  What goes through the two queues while the device is open.  `Flow v w` says
  that both queues are well formed and that nothing is lost, duplicated or
  reordered in them: what has been returned and what is queued is what was
  there at the start (`v`) and what was received since; what has been loaded
  and what is queued is, on the wire, what was there at the start (`w`) and
  what was accepted since.

  Every step but an open keeps it, and an open starts it anew with whatever the
  queues hold then.
-/

import Can4linux.System

namespace Can4linux

variable {t : Target}

/-! ## Messages on the wire -/

theorem Canmsg.capLength_capLength (m : Canmsg) : m.capLength.capLength = m.capLength := by
  by_cases h : (8 : BitVec 16).slt m.length = true
  · have hcap : m.capLength = { m with length := 8 } := by
      rw [Canmsg.capLength, if_pos h]
    rw [hcap]
    rfl
  · have hcap : m.capLength = m := by
      rw [Canmsg.capLength, if_neg h]
    rw [hcap, hcap]

/-- Going on the wire twice is going once. -/
theorem Canmsg.onWire_onWire (m : Canmsg) : m.onWire.onWire = m.onWire := by
  have hswap : m.capLength.clearDelay.capLength = m.capLength.capLength.clearDelay := rfl
  rw [Canmsg.onWire, Canmsg.onWire, hswap, Canmsg.capLength_capLength]
  rfl

/-! ## The invariant -/

/-- Both queues are well formed and pass on what they get, in order. -/
structure Flow (v w : List Canmsg) (s : Chan (Sja1000 t)) : Prop where
  rxWf : s.rxq.WF 11
  txWf : s.txq.WF 7
  rx : s.hist.returned ++ s.rxq.contents = v ++ s.hist.received
  tx : s.hist.loaded ++ s.txq.contents.map Canmsg.onWire =
    (w ++ s.hist.accepted).map Canmsg.onWire

namespace Flow

variable {v w : List Canmsg} {s s' : Chan (Sja1000 t)}

/-- Only the queues and the history matter. -/
theorem of_eq (h : Flow v w s) (hrx : s'.rxq = s.rxq) (htx : s'.txq = s.txq)
    (hhist : s'.hist = s.hist) : Flow v w s' :=
  ⟨hrx ▸ h.rxWf, htx ▸ h.txWf, by rw [hrx, hhist]; exact h.rx, by rw [htx, hhist]; exact h.tx⟩

theorem onChip (h : Flow v w s) (f : Sja1000 t → Sja1000 t) : Flow v w (s.onChip f) :=
  h.of_eq rfl rfl rfl

theorem wakeWriters (h : Flow v w s) : Flow v w s.wakeWriters := by
  obtain ⟨n, hframe⟩ := wakeWriters_frame s
  exact h.of_eq (by rw [hframe]) (by rw [hframe]) (by rw [hframe])

theorem disarm (h : Flow v w s) : Flow v w s.disarm := by
  obtain ⟨kapi, hframe⟩ := disarm_frame s
  exact h.of_eq (by rw [hframe]) (by rw [hframe]) (by rw [hframe])

/-! ### Reception -/

/-- A received message joins the queue, or the queue is full and nothing happens. -/
theorem rxproduce (h : Flow v w s) (produce : Canmsg → Sja1000 t → Canmsg × Sja1000 t) :
    Flow v w (rxproduce produce s) := by
  cases hfull : s.rxq.full with
  | true =>
      rw [rxproduce_full hfull]
      exact h.of_eq rfl rfl rfl
  | false =>
      rw [rxproduce_room hfull]
      refine ⟨(h.rxWf.fill _).publish hfull, h.txWf, ?_, h.tx⟩
      show s.hist.returned ++
        (s.rxq.fill (produce s.rxq.freeSlot s.chip).1).publish.contents =
          v ++ (s.hist.received ++ [(produce s.rxq.freeSlot s.chip).1])
      rw [h.rxWf.contents_produce hfull, ← List.append_assoc, h.rx, List.append_assoc]

theorem rxIrq (h : Flow v w s) (irqsrc : U8) (inf : Msginf) :
    Flow v w (rxIrq t irqsrc inf s) := by
  by_cases hb : isSet irqsrc canReceiveInt
  · rw [rxIrq_eq inf s hb]
    exact (h.rxproduce _).onChip _
  · rw [Can4linux.rxIrq, if_neg hb]
    exact h

theorem errWarnIrq (h : Flow v w s) (irqsrc : U8) (inf : Msginf) :
    Flow v w (errWarnIrq t irqsrc inf s).2.2 := by
  by_cases hb : isSet irqsrc canErrorWarnInt
  · rw [errWarnIrq_eq inf s hb]
    exact (h.onChip _).rxproduce _
  · rw [Can4linux.errWarnIrq, if_neg hb]
    exact h

theorem overrunIrq (h : Flow v w s) (irqsrc : U8) (inf : Msginf) :
    Flow v w (overrunIrq t irqsrc inf s) := by
  by_cases hb : isSet irqsrc canOverrunInt
  · rw [overrunIrq_eq inf s hb]
    have hcount : Flow v w { s with sys := { s.sys with overrun := s.sys.overrun + 1 } } :=
      h.of_eq rfl rfl rfl
    exact (hcount.rxproduce _).onChip _
  · rw [Can4linux.overrunIrq, if_neg hb]
    exact h

/-- A read hands out messages from the front of the queue. -/
theorem read (h : Flow v w s) (accessOk : Bool) (count : Nat) :
    Flow v w (canRead accessOk count s).2.2 := by
  cases accessOk with
  | false => exact h
  | true =>
      obtain ⟨rxq, hs, happ, hwf⟩ := readLoop_spec count s
      simp only [canRead, Bool.not_true, Bool.false_eq_true, if_false, hs]
      refine ⟨hwf 11 h.rxWf, h.txWf, ?_, h.tx⟩
      show s.hist.returned ++ (readLoop count s).1 ++ rxq.contents = v ++ s.hist.received
      rw [List.append_assoc, happ]
      exact h.rx

/-! ### Transmission -/

/-- The consumer moves the head message to the controller, or leaves it where it is with
    its delay cleared. -/
theorem txConsume (h : Flow v w s) : Flow v w (txConsume t s) := by
  rcases txConsume_cases s with ⟨-, heq⟩ | ⟨hne, -, heq⟩ | ⟨hne, -, heq⟩
  · rw [heq]
    exact ⟨h.rxWf, h.txWf.setIdle true, h.rx, h.tx⟩
  · have hcont := MsgQ.contents_ne_nil hne
    obtain ⟨dw, kapi, hframe⟩ :=
      kapiScheduleDelayed_frame s (remainingDelay s.sys.baud s.txq.head.capLength)
    rw [heq, hframe]
    refine ⟨h.rxWf, h.txWf.setHead _, h.rx, ?_⟩
    -- the message that waits is still the head, and the same on the wire
    show s.hist.loaded ++ (s.txq.setHead s.txq.head.onWire).contents.map Canmsg.onWire = _
    rw [h.txWf.contents_setHead hcont, List.map_cons, Canmsg.onWire_onWire, ← List.map_cons,
      ← MsgQ.contents_advance hcont, ← MsgQ.contents_eq_cons hcont]
    exact h.tx
  · have hcont := MsgQ.contents_ne_nil hne
    have hset : (s.txq.setHead s.txq.head.capLength).contents ≠ [] := by
      rw [h.txWf.contents_setHead hcont]
      exact List.cons_ne_nil _ _
    rw [heq]
    refine ⟨h.rxWf, (h.txWf.setHead _).advance hset, h.rx, ?_⟩
    -- the head leaves the queue and is the last one loaded
    show s.hist.loaded ++ [s.txq.head.onWire] ++
      (s.txq.setHead s.txq.head.capLength).advance.contents.map Canmsg.onWire = _
    rw [MsgQ.contents_advance hset, h.txWf.contents_setHead hcont, List.tail_cons,
      List.append_assoc, List.singleton_append, ← List.map_cons,
      ← MsgQ.contents_advance hcont, ← MsgQ.contents_eq_cons hcont]
    exact h.tx

theorem txIrq (h : Flow v w s) (irqsrc : U8) : Flow v w (txIrq t irqsrc s) := by
  unfold Can4linux.txIrq
  split
  · have hclear : Flow v w { s with txinprogress := 0 } := h.of_eq rfl rfl rfl
    exact hclear.txConsume.wakeWriters
  · exact h

theorem delayedmsgworker (h : Flow v w s) : Flow v w (delayedmsgworker t s) :=
  h.txConsume.wakeWriters

/-- The message that a writer enqueues is the last one. -/
theorem enqueue (h : Flow v w s) (hroom : s.txq.full = false) (u : UserMsg) :
    Flow v w (s.enqueue u) := by
  refine ⟨h.rxWf, (h.txWf.fill _).publish hroom, h.rx, ?_⟩
  show s.hist.loaded ++ (s.txq.fill (u s.txq.freeSlot)).publish.contents.map Canmsg.onWire =
    (w ++ (s.hist.accepted ++ [u s.txq.freeSlot])).map Canmsg.onWire
  rw [h.txWf.contents_produce hroom, List.map_append, ← List.append_assoc, h.tx,
    ← List.append_assoc, ← List.map_append]

theorem enqueue_ne_empty (h : Flow v w s) (hroom : s.txq.full = false) (u : UserMsg) :
    (s.enqueue u).txq.empty = false := by
  refine Bool.eq_false_of_not_eq_true ?_
  intro hempty
  have hnil : (s.txq.fill (u s.txq.freeSlot)).publish.contents = [] :=
    MsgQ.empty_iff.mp hempty
  rw [h.txWf.contents_produce hroom] at hnil
  exact List.append_ne_nil_of_right_ne_nil _ (List.cons_ne_nil _ _) hnil

theorem kickIdle (h : Flow v w s) : Flow v w (kickIdle t s) := by
  unfold Can4linux.kickIdle
  split
  · have hidle : Flow v w { s with txq := s.txq.setIdle false } :=
      ⟨h.rxWf, h.txWf.setIdle false, h.rx, h.tx⟩
    exact hidle.txConsume
  · exact h

/-- A round of `can_write` enqueues the message, or finds the queue full. -/
theorem writeOne (h : Flow v w s) (u : UserMsg) : Flow v w (writeOne t u s).2 := by
  cases hfull : s.txq.full with
  | true =>
      rw [writeOne_full hfull]
      exact h
  | false =>
      rw [writeOne_room hfull]
      exact (h.enqueue hfull u).kickIdle

/-- An iteration with any combination of bits keeps the flow. -/
theorem irq (h : Flow v w s) (tstamp : Timeval) : Flow v w (irqIteration t tstamp s) := by
  have hclear : Flow v w s.clearIrq := h.onChip _
  rw [irqIteration_eq]
  split
  · exact hclear
  · have hrx := hclear.rxIrq s.chip.irqBits ⟨presetFlags s.clearIrq.rxstatus, tstamp⟩
    have hew := hrx.errWarnIrq s.chip.irqBits ⟨presetFlags s.clearIrq.rxstatus, tstamp⟩
    exact (hew.txIrq _).overrunIrq _ _

/-- Every step but an open keeps the flow, a close and a late timer included. -/
theorem step (h : Flow v w s) {op : Op} (hop : ∀ env, op ≠ .open env)
    (hstep : s.step op = some s') : Flow v w s' := by
  cases op with
  | «open» env => exact absurd rfl (hop env)
  | close =>
      obtain ⟨hopen, rfl⟩ := Chan.whenOpen_eq_some.mp hstep
      obtain ⟨held, hframe⟩ := canClose_frame t s hopen
      exact h.of_eq (by rw [hframe]) (by rw [hframe]) (by rw [hframe])
  | write accessOk us =>
      obtain ⟨-, rfl⟩ := Chan.whenOpen_eq_some.mp hstep
      exact canWrite_rule (fun u s hs => hs.writeOne u) h accessOk us
  | read accessOk count =>
      obtain ⟨-, rfl⟩ := Chan.whenOpen_eq_some.mp hstep
      exact h.read accessOk count
  | command cmd =>
      obtain ⟨-, rfl⟩ := Chan.whenOpen_eq_some.mp hstep
      obtain ⟨held, sys, c, hframe⟩ := canCommand_frame t s cmd
      exact h.of_eq (by rw [hframe]) (by rw [hframe]) (by rw [hframe])
  | config target val1 val2 =>
      obtain ⟨-, rfl⟩ := Chan.whenOpen_eq_some.mp hstep
      obtain ⟨sys, c, hframe⟩ := canConfig_frame t s target val1 val2
      exact h.of_eq (by rw [hframe]) (by rw [hframe]) (by rw [hframe])
  | irq tstamp =>
      obtain ⟨-, rfl⟩ := Chan.whenOpen_eq_some.mp hstep
      exact h.irq tstamp
  | timer =>
      obtain ⟨-, rfl⟩ := Chan.step_timer hstep
      exact h.disarm.delayedmsgworker
  | arrive f =>
      obtain ⟨-, rfl⟩ := Chan.step_arrive hstep
      exact h.onChip _
  | txDone =>
      obtain ⟨-, rfl⟩ := Chan.step_txDone hstep
      exact h.onChip _
  | busEvent bits stat overrun =>
      obtain ⟨-, rfl⟩ := Chan.step_busEvent hstep
      exact h.onChip _
  | busOff =>
      obtain rfl := Chan.step_busOff hstep
      exact h.onChip _

/-- An open starts the flow with what the queues hold then: their counters survive. -/
theorem of_open {env : OpenEnv} (hrx : s.rxq.qlen.toNat ≤ 2 ^ 11) (htx : s.txq.qlen.toNat ≤ 2 ^ 7)
    (hstep : s.step (.open env) = some s') : Flow s'.rxq.contents s'.txq.contents s' := by
  obtain ⟨-, ri, held, o, c, regs, rxb, txb, rfl⟩ := Chan.step_open hstep
  have hrxMask : maxRxBufsize - 1 = Ring.maskOf 32 11 := by
    decide
  have htxMask : maxTxBufsize - 1 = Ring.maskOf 32 7 := by
    decide
  -- the history is cleared, so each flow starts with the contents alone
  refine ⟨MsgQ.WF.of_qcreate (by decide) hrxMask false rxb hrx,
    MsgQ.WF.of_qcreate (by decide) htxMask true txb htx, ?_, ?_⟩
  · exact (List.append_nil _).symm
  · exact congrArg (List.map Canmsg.onWire) (List.append_nil _).symm

end Flow

/-! ## Every reachable state -/

/-- A device that has never been opened. -/
structure Unopened (s : Chan (Sja1000 t)) : Prop where
  closed : s.isopen ≠ 1
  rx : s.rxq.qlen = 0
  tx : s.txq.qlen = 0
  timer : s.timerArmed = false

/-- Before the first open only the bus acts. -/
theorem Unopened.step {s s' : Chan (Sja1000 t)} {op : Op} (h : Unopened s)
    (hop : ∀ env, op ≠ .open env) (hstep : s.step op = some s') : Unopened s' := by
  cases op with
  | «open» env => exact absurd rfl (hop env)
  | close | write _ _ | read _ _ | command _ | config _ _ _ | irq _ =>
      exact absurd (Chan.whenOpen_eq_some.mp hstep).1 h.closed
  | timer =>
      have harmed := (Chan.step_timer hstep).1
      rw [h.timer] at harmed
      cases harmed
  | arrive f =>
      obtain ⟨-, rfl⟩ := Chan.step_arrive hstep
      exact ⟨h.closed, h.rx, h.tx, h.timer⟩
  | txDone =>
      obtain ⟨-, rfl⟩ := Chan.step_txDone hstep
      exact ⟨h.closed, h.rx, h.tx, h.timer⟩
  | busEvent bits stat overrun =>
      obtain ⟨-, rfl⟩ := Chan.step_busEvent hstep
      exact ⟨h.closed, h.rx, h.tx, h.timer⟩
  | busOff =>
      obtain rfl := Chan.step_busOff hstep
      exact ⟨h.closed, h.rx, h.tx, h.timer⟩

/-- A state that some run reaches from the loading of the driver. -/
def Reached (s : Chan (Sja1000 t)) : Prop :=
  ∃ (minor irq base : CInt) (chip : Sja1000 t) (ops : List Op),
    Run.exec Chan.step (Chan.coreInit t minor irq base chip) ops = some s

theorem reached_unopened : Reached Chan.unopened := ⟨0, 5, 0x320, Sja1000.powerOn, [], rfl⟩

/-- From its first open on, a device passes on what its queues get. -/
theorem Reached.flow {s : Chan (Sja1000 t)} (h : Reached s) :
    Unopened s ∨ ∃ v w, Flow v w s := by
  obtain ⟨minor, irq, base, chip, ops, hrun⟩ := h
  have hinit : Unopened (Chan.coreInit t minor irq base chip) :=
    ⟨show (0#32) ≠ 1 by decide, show MsgQ.zero.qlen = 0 by decide,
      show MsgQ.zero.qlen = 0 by decide, rfl⟩
  refine Run.exec_invariant (P := fun s => Unopened s ∨ ∃ v w, Flow v w s)
    ?_ (.inl hinit) hrun
  intro s op s' hs hstep
  -- an open starts a flow, whatever was before; everything else goes on with it
  by_cases hop : ∃ env, op = .open env
  · obtain ⟨env, rfl⟩ := hop
    rcases hs with hun | ⟨v, w, hflow⟩
    · exact .inr ⟨_, _, Flow.of_open (by simp [hun.rx]) (by simp [hun.tx]) hstep⟩
    · exact .inr ⟨_, _, Flow.of_open hflow.rxWf.bound hflow.txWf.bound hstep⟩
  · have hne : ∀ env, op ≠ .open env := fun env he => hop ⟨env, he⟩
    rcases hs with hun | ⟨v, w, hflow⟩
    · exact .inl (hun.step hne hstep)
    · exact .inr ⟨v, w, hflow.step hne hstep⟩

/-- No queue ever holds more messages than it has slots. -/
theorem Reached.bounds {s : Chan (Sja1000 t)} (h : Reached s) :
    s.rxq.qlen.toNat ≤ 2 ^ 11 ∧ s.txq.qlen.toNat ≤ 2 ^ 7 := by
  rcases h.flow with hun | ⟨v, w, hflow⟩
  · rw [hun.rx, hun.tx]
    decide
  · exact ⟨hflow.rxWf.bound, hflow.txWf.bound⟩

end Can4linux
