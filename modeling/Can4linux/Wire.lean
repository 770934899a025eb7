/-
  Can4linux.Wire

  What a channel puts on the bus.  A frame carries a message if it is what
  `sendcanmsg` writes for it, over whatever the transmit buffer held before.

  Stops, resets, reconfigurations, bus-off and a close may drop a frame that is
  pending.  They never make the driver send one twice, send two in another
  order, or send what nobody has written: in every run, the frames of a session
  carry a subsequence of what its queue held and of what was written to it.
-/

import Can4linux.Flow

namespace Can4linux

variable {t : Target}

/-! ## Frames and the messages they carry -/

theorem Frame.setData_clearDelay (base : Nat) (m : Canmsg) (n : Nat) (f : Frame) :
    Frame.setData base m.clearDelay n f = Frame.setData base m n f := by
  induction n with
  | zero => rfl
  | succ n ih =>
      rw [Frame.setData, Frame.setData, ih]
      rfl

/-- The delay of a message is not on the wire. -/
theorem encodeFrame_clearDelay (m : Canmsg) (f : Frame) :
    encodeFrame m.clearDelay f = encodeFrame m f := by
  unfold encodeFrame
  rw [Frame.setData_clearDelay, Frame.setData_clearDelay]
  rfl

/-- The frame is what `sendcanmsg` writes for the message. -/
def Carries (m : Canmsg) (f : Frame) : Prop := ∃ g, f = encodeFrame m.onWire g

theorem Carries.encode (m : Canmsg) (g : Frame) : Carries m (encodeFrame m.capLength g) :=
  ⟨g, (encodeFrame_clearDelay m.capLength g).symm⟩

theorem carries_onWire {m : Canmsg} {f : Frame} : Carries m.onWire f ↔ Carries m f := by
  rw [Carries, Carries, Canmsg.onWire_onWire]

/-! ## The frames of a session -/

/-- The frames that have been sent, and the pending one behind them, carry a subsequence of
    the messages that were loaded. -/
def SentInOrder (sent : List Frame) (s : Chan (Sja1000 t)) : Prop :=
  ∃ ms, ms.Sublist s.hist.loaded ∧ List.Forall₂ Carries ms (sent ++ s.chip.tx.toList)

namespace SentInOrder

variable {sent : List Frame} {s s' : Chan (Sja1000 t)}

theorem of_eq (h : SentInOrder sent s) (hloaded : s'.hist.loaded = s.hist.loaded)
    (htx : s'.chip.tx = s.chip.tx) : SentInOrder sent s' := by
  rw [SentInOrder, hloaded, htx]
  exact h

theorem of_txSide (h : SentInOrder sent s) (hside : s'.txSide = s.txSide) :
    SentInOrder sent s' :=
  h.of_eq (congrArg TxSide.loaded hside) (congrArg TxSide.tx hside)

/-- Without the pending frame. -/
theorem dropped (h : SentInOrder sent s) :
    ∃ ms, ms.Sublist s.hist.loaded ∧ List.Forall₂ Carries ms sent := by
  obtain ⟨ms, hsub, hms⟩ := h
  exact ⟨ms.take sent.length, (List.take_sublist _ _).trans hsub,
    List.forall₂_take_append ms sent _ hms⟩

/-- A pending frame is dropped. -/
theorem abort (h : SentInOrder sent s) (hloaded : s'.hist.loaded = s.hist.loaded)
    (htx : s'.chip.tx = none) : SentInOrder sent s' := by
  obtain ⟨ms, hsub, hms⟩ := h.dropped
  refine ⟨ms, by rw [hloaded]; exact hsub, ?_⟩
  rw [htx]
  exact (List.append_nil sent).symm ▸ hms

/-- A load puts the frame of the last message loaded in the place of the pending one; in
    reset mode it puts none there. -/
theorem txConsume (h : SentInOrder sent s) : SentInOrder sent (txConsume t s) := by
  rcases txConsume_cases s with ⟨-, heq⟩ | ⟨-, -, heq⟩ | ⟨-, -, heq⟩
  · rw [heq]
    exact h.of_eq rfl rfl
  · obtain ⟨dw, kapi, hframe⟩ :=
      kapiScheduleDelayed_frame s (remainingDelay s.sys.baud s.txq.head.capLength)
    rw [heq, hframe]
    exact h.of_eq rfl rfl
  · rw [heq]
    by_cases hres : s.chip.inReset = true
    · -- the frame goes into the acceptance filter
      obtain ⟨ms, hsub, hms⟩ := h
      refine ⟨ms, hsub.trans (List.sublist_append_left _ _), ?_⟩
      show List.Forall₂ Carries ms (sent ++ (s.chip.load s.txq.head.capLength).tx.toList)
      rw [Sja1000.load, if_pos hres]
      exact hms
    · obtain ⟨ms, hsub, hms⟩ := h.dropped
      refine ⟨ms ++ [s.txq.head.onWire], hsub.append_right _, ?_⟩
      show List.Forall₂ Carries _ (sent ++ (s.chip.load s.txq.head.capLength).tx.toList)
      rw [Sja1000.load, if_neg hres]
      have hnew : Carries s.txq.head.onWire (encodeFrame s.txq.head.capLength s.chip.txbuf) :=
        carries_onWire.mpr (Carries.encode _ _)
      exact List.rel_append hms (List.Forall₂.cons hnew .nil)

theorem writeOne (h : SentInOrder sent s) (u : UserMsg) :
    SentInOrder sent (writeOne t u s).2 := by
  cases hfull : s.txq.full with
  | true =>
      rw [writeOne_full hfull]
      exact h
  | false =>
      have henq : SentInOrder sent (s.enqueue u) := h.of_eq rfl rfl
      rw [writeOne_room hfull, kickIdle]
      split
      · have hidle : SentInOrder sent
            { s.enqueue u with txq := (s.enqueue u).txq.setIdle false } := henq.of_eq rfl rfl
        exact hidle.txConsume
      · exact henq

theorem irq (h : SentInOrder sent s) (tstamp : Timeval) :
    SentInOrder sent (irqIteration t tstamp s) := by
  obtain ⟨mid, hmid, hside⟩ := irqIteration_txSide tstamp s
  obtain ⟨mode, hframe⟩ := s.irqEntry_frame
  have hentry : SentInOrder sent s.irqEntry := by
    rw [hframe]
    exact h.of_eq rfl rfl
  have hm : SentInOrder sent mid := hentry.of_txSide hmid
  refine SentInOrder.of_txSide ?_ hside
  split
  · have hclear : SentInOrder sent { mid with txinprogress := 0 } := hm.of_eq rfl rfl
    exact hclear.txConsume
  · exact hm

theorem command (h : SentInOrder sent s) (cmd : CInt) :
    SentInOrder sent (canCommand t cmd s).2 := by
  unfold canCommand
  split
  · obtain ⟨regs, hstart⟩ := canStartChip_eq s
    rw [hstart]
    exact h.of_eq rfl rfl
  · split
    · rw [canStopChip_eq]
      exact h.abort rfl rfl
    · split
      · obtain ⟨o, regs, hreset⟩ := canChipReset_eq s
        rw [hreset]
        exact h.abort rfl rfl
      · exact h

end SentInOrder

/-- The frame that a step puts on the bus. -/
def Chan.sends (s : Chan (Sja1000 t)) : Op → List Frame
  | .txDone => s.chip.tx.toList
  | _ => []

/-- One step of a session, whatever it is, keeps the frames in order. -/
theorem SentInOrder.step {sent : List Frame} {s s' : Chan (Sja1000 t)} {op : Op}
    (h : SentInOrder sent s) (hop : ∀ env, op ≠ .open env) (hstep : s.step op = some s') :
    SentInOrder (sent ++ s.sends op) s' := by
  cases op with
  | «open» env => exact absurd rfl (hop env)
  | close =>
      obtain ⟨hopen, rfl⟩ := Chan.whenOpen_eq_some.mp hstep
      obtain ⟨held, hframe⟩ := canClose_frame t s hopen
      simp only [Chan.sends, List.append_nil]
      rw [hframe, Sja1000.canSet_canmode]
      exact h.abort rfl rfl
  | write accessOk us =>
      obtain ⟨-, rfl⟩ := Chan.whenOpen_eq_some.mp hstep
      simp only [Chan.sends, List.append_nil]
      exact canWrite_rule (fun u c hc => hc.writeOne u) h accessOk us
  | read accessOk count =>
      obtain ⟨-, rfl⟩ := Chan.whenOpen_eq_some.mp hstep
      simp only [Chan.sends, List.append_nil]
      exact h.of_txSide (canRead_txSide s accessOk count)
  | command cmd =>
      obtain ⟨-, rfl⟩ := Chan.whenOpen_eq_some.mp hstep
      simp only [Chan.sends, List.append_nil]
      exact h.command cmd
  | config target val1 val2 =>
      obtain ⟨-, rfl⟩ := Chan.whenOpen_eq_some.mp hstep
      obtain ⟨sys, acc, txbuf, regs, hframe⟩ := canConfig_chip s target val1 val2
      simp only [Chan.sends, List.append_nil]
      rw [hframe]
      exact h.of_eq rfl rfl
  | irq tstamp =>
      obtain ⟨-, rfl⟩ := Chan.whenOpen_eq_some.mp hstep
      simp only [Chan.sends, List.append_nil]
      exact h.irq tstamp
  | timer =>
      obtain ⟨-, rfl⟩ := Chan.step_timer hstep
      obtain ⟨kapi, hdis⟩ := disarm_frame s
      have hdisarm : SentInOrder sent s.disarm := by
        rw [hdis]
        exact h.of_eq rfl rfl
      simp only [Chan.sends, List.append_nil]
      exact hdisarm.txConsume.of_txSide (wakeWriters_txSide _)
  | arrive f =>
      obtain ⟨-, rfl⟩ := Chan.step_arrive hstep
      simp only [Chan.sends, List.append_nil]
      exact h.of_eq rfl rfl
  | txDone =>
      -- the pending frame is the last one sent
      obtain ⟨-, rfl⟩ := Chan.step_txDone hstep
      obtain ⟨ms, hsub, hms⟩ := h
      refine ⟨ms, hsub, ?_⟩
      show List.Forall₂ Carries ms (sent ++ s.chip.tx.toList ++ [])
      rw [List.append_nil]
      exact hms
  | busEvent bits stat overrun =>
      obtain ⟨-, rfl⟩ := Chan.step_busEvent hstep
      simp only [Chan.sends, List.append_nil]
      exact h.of_eq rfl rfl
  | busOff =>
      obtain rfl := Chan.step_busOff hstep
      have hnone : s.chip.busOff.tx = none := by
        simp [Sja1000.busOff, Sja1000.setMode, Sja1000.or_reset]
      simp only [Chan.sends, List.append_nil]
      exact h.abort rfl hnone

/-! ## Runs -/

/-- The step is an open. -/
def Op.opens : Op → Bool
  | .open _ => true
  | _ => false

/-- A session: all steps but another open. -/
def Chan.sessionStep : Chan (Sja1000 t) → Op → Option (Chan (Sja1000 t)) :=
  Run.restrict Chan.step fun _ op => op.opens = false

/-- **Nothing is sent twice or out of order.**  Open a reachable device and let it run in any
    way, commands, reconfigurations, bus-off and the close included: the frames that go out on
    the bus carry, in order, a subsequence of what the slots of the transmit queue held at the
    open, left-over ones included, and of the messages accepted since. -/
theorem sent_in_order {s₀ s s' : Chan (Sja1000 t)} {env : OpenEnv} {ops : List Op}
    (hreached : Reached s₀) (hopen : s₀.step (.open env) = some s)
    (hrun : Run.exec Chan.sessionStep s ops = some s') :
    ∃ ms, ms.Sublist (s.txq.contents ++ s'.hist.accepted) ∧ List.Forall₂ Carries ms
      (Run.observe Chan.sessionStep Chan.sends s ops) := by
  obtain ⟨hrx, htx⟩ := hreached.bounds
  have hflow := Flow.of_open hrx htx hopen
  have hstart : SentInOrder [] s := by
    obtain ⟨-, ri, held, o, c, regs, rxb, txb, rfl⟩ := Chan.step_open hopen
    exact ⟨[], List.nil_sublist _, .nil⟩
  have hnot : ∀ {op : Op}, op.opens = false → ∀ env, op ≠ .open env := by
    rintro op hop env rfl
    cases hop
  have hflow' : Flow s.rxq.contents s.txq.contents s' :=
    Run.exec_restrict_invariant (fun _ _ _ h hg hstep => h.step (hnot hg) hstep) hflow hrun
  have hsent : SentInOrder ([] ++ Run.observe Chan.sessionStep Chan.sends s ops) s' :=
    Run.exec_observe (fun v c op c' h hstep => by
      obtain ⟨hg, hstep'⟩ := Run.restrict_eq_some.mp hstep
      exact h.step (hnot hg) hstep') hstart hrun
  obtain ⟨ms, hsub, hms⟩ := hsent.dropped
  -- what was loaded is, on the wire, a prefix of what the queue was given
  have hpre : ms.Sublist ((s.txq.contents ++ s'.hist.accepted).map Canmsg.onWire) := by
    rw [← hflow'.tx]
    exact hsub.trans (List.sublist_append_left _ _)
  obtain ⟨ms', hsub', rfl⟩ := List.sublist_map_iff.mp hpre
  refine ⟨ms', hsub', ?_⟩
  rw [List.forall₂_map_left_iff] at hms
  exact hms.imp fun m f h => carries_onWire.mp h

/-- The device is stopped while the second of two messages is pending. -/
theorem sent_in_order_stopped : ∃ s', Run.exec Chan.sessionStep Chan.opened
    [.write true [.ofMsg Canmsg.zero, .ofMsg { Canmsg.zero with id := 1 }], .txDone,
      .irq ⟨0, 0⟩, .command cmdStop, .command cmdStart, .busOff, .irq ⟨0, 1⟩, .close] = some s' ∧
    ∃ ms, ms.Sublist (Chan.opened.txq.contents ++ s'.hist.accepted) ∧ List.Forall₂ Carries ms
      (Run.observe Chan.sessionStep Chan.sends Chan.opened
        [.write true [.ofMsg Canmsg.zero, .ofMsg { Canmsg.zero with id := 1 }], .txDone,
          .irq ⟨0, 0⟩, .command cmdStop, .command cmdStart, .busOff, .irq ⟨0, 1⟩, .close]) := by
  obtain ⟨s', hs'⟩ := Option.isSome_iff_exists.mp (show (Run.exec Chan.sessionStep Chan.opened
    [.write true [.ofMsg Canmsg.zero, .ofMsg { Canmsg.zero with id := 1 }], .txDone,
      .irq ⟨0, 0⟩, .command cmdStop, .command cmdStart, .busOff, .irq ⟨0, 1⟩,
      .close]).isSome = true by decide +kernel)
  exact ⟨s', hs', sent_in_order reached_unopened Chan.step_opened hs'⟩

end Can4linux
