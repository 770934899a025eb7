/-
  Can4linux.Session

  What a session finds when it opens the device.  `struct Dev` is static: the
  counters of the queues, `txinprogress` and `rxstatus` survive a close, and
  `qcreate` sets none of them.  An open starts fresh exactly when the session
  before left nothing behind (`settled`), whatever happens between the two.
-/

import Can4linux.Flow

namespace Can4linux

variable {t : Target}

/-- The state a session should start from. -/
structure Fresh (s : Chan (Sja1000 t)) : Prop where
  rx : s.rxq.qlen = 0
  tx : s.txq.qlen = 0
  idle : s.txq.idle = true
  progress : s.txinprogress = 0
  status : isSet s.rxstatus bufOverrun = false

namespace Chan

/-- Nothing is queued, no transmission is marked in progress, no overrun is on record. -/
def settled (s : Chan (Sja1000 t)) : Bool :=
  s.rxq.empty && s.txq.empty && s.txinprogress == 0 && !isSet s.rxstatus bufOverrun

/-- A close is made with nothing left behind. -/
def closesSettled (s : Chan (Sja1000 t)) : Op → Bool
  | .close => s.settled
  | _ => true

variable {s s' : Chan (Sja1000 t)}

theorem settled_iff : s.settled = true ↔
    s.rxq.empty = true ∧ s.txq.empty = true ∧ s.txinprogress = 0 ∧
      isSet s.rxstatus bufOverrun = false := by
  simp [settled, and_assoc]

/-- `qcreate` makes the queue idle; everything else is as the session before left it. -/
theorem open_fresh_iff {env : OpenEnv} (hstep : s.step (.open env) = some s') :
    Fresh s' ↔ s.settled = true := by
  obtain ⟨-, ri, held, o, c, regs, rxb, txb, rfl⟩ := step_open hstep
  rw [settled_iff, MsgQ.empty_iff_qlen, MsgQ.empty_iff_qlen]
  -- both directions read the fields that the open has left alone
  constructor
  · rintro ⟨hrx, htx, -, hprog, hstatus⟩
    rw [MsgQ.qcreate_qlen] at hrx htx
    exact ⟨hrx, htx, hprog, hstatus⟩
  · rintro ⟨hrx, htx, hprog, hstatus⟩
    exact ⟨(MsgQ.qcreate_qlen _ _ _ _).trans hrx, (MsgQ.qcreate_qlen _ _ _ _).trans htx,
      MsgQ.qcreate_idle _ _ _ _, hprog, hstatus⟩

/-- While the device is closed only a late timer and the bus act, and they neither clear
    up nor leave anything behind. -/
theorem closed_settled {op : Op} (hclosed : s.isopen ≠ 1) (hop : ∀ env, op ≠ .open env)
    (hstep : s.step op = some s') : s'.settled = s.settled := by
  cases op with
  | «open» env => exact absurd rfl (hop env)
  | close | write _ _ | read _ _ | command _ | config _ _ _ | irq _ =>
      exact absurd (whenOpen_eq_some.mp hstep).1 hclosed
  | timer =>
      obtain ⟨-, rfl⟩ := step_timer hstep
      obtain ⟨kapi, hdis⟩ := disarm_frame s
      obtain ⟨n, hwake⟩ := wakeWriters_frame (txConsume t s.disarm)
      have hsettled : s.disarm.settled = s.settled := by
        rw [hdis]
        rfl
      rw [← hsettled, delayedmsgworker, hwake]
      rcases txConsume_cases s.disarm with ⟨-, heq⟩ | ⟨hne, -, heq⟩ | ⟨hne, -, heq⟩
      · rw [heq]
        rfl
      · -- the head message goes on waiting
        obtain ⟨dw, kapi', hframe⟩ := kapiScheduleDelayed_frame s.disarm
          (remainingDelay s.disarm.sys.baud s.disarm.txq.head.capLength)
        rw [heq, hframe]
        rfl
      · -- the head message is loaded, and a transmission is in progress
        rw [heq]
        simp [settled, hne]
  | arrive f =>
      obtain ⟨-, rfl⟩ := step_arrive hstep
      rfl
  | txDone =>
      obtain ⟨-, rfl⟩ := step_txDone hstep
      rfl
  | busEvent bits stat overrun =>
      obtain ⟨-, rfl⟩ := step_busEvent hstep
      rfl
  | busOff =>
      obtain rfl := step_busOff hstep
      rfl

/-- A close leaves behind what there is. -/
theorem close_settled (hstep : s.step .close = some s') :
    s'.isopen ≠ 1 ∧ s'.settled = s.settled := by
  obtain ⟨hopen, rfl⟩ := whenOpen_eq_some.mp hstep
  obtain ⟨held, hframe⟩ := canClose_frame t s hopen
  rw [hframe]
  exact ⟨show (0#32) ≠ 1 by decide, rfl⟩

/-- What the steps of a closed device preserve holds when the next open finds it closed: a run
    that opens the device in between has ended its closed phase. -/
theorem closed_run {P : Chan (Sja1000 t) → Prop}
    (hstep : ∀ c op c', c.isopen ≠ 1 → (∀ env, op ≠ .open env) → P c → c.step op = some c' → P c')
    {s1 s2 : Chan (Sja1000 t)} {ops : List Op} (hs : P s1)
    (hquiet : Run.exec (Run.restrict step fun c _ => c.isopen ≠ 1) s1 ops = some s2)
    (hclosed : s2.isopen ≠ 1) : P s2 := by
  have hrest := Run.exec_restrict_invariant
    (P := fun c : Chan (Sja1000 t) => P c ∨ c.isopen = 1)
    (fun c op c' hc hg h => ?_) (.inl hs) hquiet
  · exact hrest.resolve_right hclosed
  · rcases hc with hc | hc
    · by_cases hop : ∃ env, op = .open env
      · obtain ⟨env', rfl⟩ := hop
        obtain ⟨-, ri, held, o, ch, regs, rxb, txb, rfl⟩ := step_open h
        exact .inr rfl
      · exact .inl (hstep c op c' hg (fun env' he => hop ⟨env', he⟩) hc h)
    · exact absurd hc hg

/-- The next session starts fresh exactly when the one before was settled as it closed. -/
theorem reopen_fresh_iff {s1 s2 s3 : Chan (Sja1000 t)} {env : OpenEnv} {ops : List Op}
    (hclose : s.step .close = some s1)
    (hquiet : Run.exec (Run.restrict step fun c _ => c.isopen ≠ 1) s1 ops = some s2)
    (hopen : s2.step (.open env) = some s3) : Fresh s3 ↔ s.settled = true := by
  obtain ⟨-, hsettled⟩ := close_settled hclose
  have hrest : s2.settled = s1.settled :=
    closed_run (P := fun c => c.settled = s1.settled)
      (fun c op c' hc hop hsame h => (closed_settled hc hop h).trans hsame) rfl hquiet
      (step_open hopen).1
  rw [open_fresh_iff hopen, hrest, hsettled]

end Chan

/-! ## Runs over many sessions -/

/-- While the device is closed nothing is left behind; while it is open, everything in its
    queues was put there in this session. -/
structure InSession (s : Chan (Sja1000 t)) : Prop where
  closed : s.isopen ≠ 1 → s.settled = true
  flow : s.isopen = 1 → Flow [] [] s

/-- The queues of a fresh session are empty, so its flow starts from nothing. -/
theorem Fresh.flow {s s' : Chan (Sja1000 t)} {env : OpenEnv} (hsettled : s.settled = true)
    (hstep : s.step (.open env) = some s') : Flow [] [] s' := by
  have hfresh := (Chan.open_fresh_iff hstep).mpr hsettled
  obtain ⟨hrx, htx, -, -⟩ := Chan.settled_iff.mp hsettled
  have hflow := Flow.of_open (s := s) (by simp [MsgQ.empty_iff_qlen.mp hrx])
    (by simp [MsgQ.empty_iff_qlen.mp htx]) hstep
  rwa [MsgQ.empty_iff.mp (MsgQ.empty_iff_qlen.mpr hfresh.rx),
    MsgQ.empty_iff.mp (MsgQ.empty_iff_qlen.mpr hfresh.tx)] at hflow

theorem InSession.step {s s' : Chan (Sja1000 t)} {op : Op} (h : InSession s)
    (hguard : s.closesSettled op = true) (hstep : s.step op = some s') : InSession s' := by
  by_cases hop : ∃ env, op = .open env
  · obtain ⟨env, rfl⟩ := hop
    -- only a closed device can be opened, and a closed one is settled
    have hflow := Fresh.flow (h.closed (Chan.step_open hstep).1) hstep
    obtain ⟨-, ri, held, o, c, regs, rxb, txb, rfl⟩ := Chan.step_open hstep
    exact ⟨fun hne => absurd rfl hne, fun _ => hflow⟩
  · have hne : ∀ env, op ≠ .open env := fun env he => hop ⟨env, he⟩
    by_cases hclose : op = .close
    · subst hclose
      obtain ⟨hclosed, hsettled⟩ := Chan.close_settled hstep
      exact ⟨fun _ => hsettled.trans hguard, fun h1 => absurd h1 hclosed⟩
    · have hsame := Chan.step_isopen hne hclose hstep
      refine ⟨?_, ?_⟩
      · intro h1
        have hclosed : s.isopen ≠ 1 := hsame ▸ h1
        exact (Chan.closed_settled hclosed hne hstep).trans (h.closed hclosed)
      · intro h1
        exact (h.flow (hsame ▸ h1)).step hne hstep

/-- **Sessions are separate, if each is settled when it closes.**  In every run from the
    loading of the driver in which every close is made with both queues empty, no
    transmission marked in progress and no overrun on record, each open starts fresh, and
    what is returned and loaded in a session was received and accepted in it. -/
theorem sessions_separate {minor irq base : CInt} {chip : Sja1000 t} {ops : List Op}
    {s : Chan (Sja1000 t)}
    (hrun : Run.exec (Run.restrict Chan.step fun s op => s.closesSettled op = true)
      (Chan.coreInit t minor irq base chip) ops = some s) :
    (∀ env s', s.step (.open env) = some s' → Fresh s') ∧
    (s.isopen = 1 →
      s.hist.returned ++ s.rxq.contents = s.hist.received ∧
      s.hist.loaded ++ s.txq.contents.map Canmsg.onWire = s.hist.accepted.map Canmsg.onWire) := by
  have hinit : InSession (Chan.coreInit t minor irq base chip) :=
    ⟨fun _ => show (true && true && (0#32) == 0 && !isSet (0#32) bufOverrun) = true by decide,
      fun h => absurd h (show (0#32) ≠ 1 by decide)⟩
  have hs := Run.exec_restrict_invariant (fun s op s' hs hg h => hs.step hg h) hinit hrun
  refine ⟨?_, ?_⟩
  · intro env s' hstep
    exact (Chan.open_fresh_iff hstep).mpr (hs.closed (Chan.step_open hstep).1)
  · intro hopen
    exact ⟨(hs.flow hopen).rx, (hs.flow hopen).tx⟩

/-- A settled session: a frame is received and read before the close. -/
theorem sessions_separate_reads : ∃ s, Run.exec
    (Run.restrict Chan.step fun s op => s.closesSettled op = true) Chan.unopened
    [.open (.granted Canmsg.zero), .arrive (fun _ => 1), .irq ⟨0, 0⟩, .read true 8, .close] =
      some s ∧
    (∀ env s', s.step (.open env) = some s' → Fresh s') ∧
    (s.isopen = 1 →
      s.hist.returned ++ s.rxq.contents = s.hist.received ∧
      s.hist.loaded ++ s.txq.contents.map Canmsg.onWire =
        s.hist.accepted.map Canmsg.onWire) := by
  obtain ⟨s, hs⟩ := Option.isSome_iff_exists.mp (show (Run.exec
    (Run.restrict Chan.step fun s op => s.closesSettled op = true) Chan.unopened
    [.open (.granted Canmsg.zero), .arrive (fun _ => 1), .irq ⟨0, 0⟩, .read true 8,
      .close]).isSome = true by decide)
  exact ⟨s, hs, sessions_separate hs⟩

/-- Two messages are written and the device is closed with the second one still queued.
    The next session starts with one message queued; its first write makes the driver load
    a slot of the new buffer that nobody wrote. -/
theorem reopen_stale :
    (Run.exec Chan.step Chan.unopened
      [.open (.granted Canmsg.zero), .write true [.ofMsg Canmsg.zero, .ofMsg Canmsg.zero],
        .close, .open (.granted { Canmsg.zero with id := 0x7ff })]).map
      (fun s => s.txq.qlen) = some 1 ∧
    (Run.exec Chan.step Chan.unopened
      [.open (.granted Canmsg.zero), .write true [.ofMsg Canmsg.zero, .ofMsg Canmsg.zero],
        .close, .open (.granted { Canmsg.zero with id := 0x7ff }),
        .write true [.ofMsg Canmsg.zero]]).map
      (fun s => (s.hist.accepted, s.hist.loaded)) =
        some ([Canmsg.zero], [{ Canmsg.zero with id := 0x7ff }]) := by
  decide

end Can4linux
