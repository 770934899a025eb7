/-
  Can4linux.Pressure

  The mailbox of a device in calm operation.  The consumer is run only when the
  controller is free and operating, so nothing is lost, and what leaves the
  mailbox is what goes out on the bus.  Then the size of the outbox is a bound
  between what is written and what is sent: the driver runs at most 129 messages
  ahead of the bus, and makes a writer wait only when it is 128 ahead.
-/

import Can4linux.Service

namespace Can4linux

variable {t : Target}

/-! ## Nothing is lost -/

section Quiet

variable {acc : Frame} {sent : List Frame} {s : Chan (Sja1000 t)}

theorem loadLoses_eq_zero (hop : s.chip.inReset = false) (htx : s.chip.tx = none) :
    s.loadLoses = 0 := by
  rw [Chan.loadLoses, hop, htx]
  split <;> rfl

/-- A writer that finds the queue idle finds the controller free. -/
theorem Calm.kickLoses (h : Calm acc s) (u : UserMsg) : (s.enqueue u).kickLoses = 0 := by
  unfold Chan.kickLoses
  split
  · rename_i hidle
    exact loadLoses_eq_zero h.operating (h.of_idle hidle).2.1
  · rfl

/-- A transmit interrupt finds it free as well. -/
theorem Calm.irqLoses (h : Calm acc s) (hsig : s.txSignalled = true) :
    s.irqEntry.loadLoses = 0 := by
  rw [h.txSignalled] at hsig
  obtain ⟨-, -, htx⟩ := h.of_interrupt hsig
  refine loadLoses_eq_zero ?_ ?_
  · unfold Chan.irqEntry
    split
    · exact s.clearIrq.chip.inReset_leaveReset
    · exact h.operating
  · obtain ⟨mode, hframe⟩ := s.irqEntry_frame
    rw [hframe]
    exact htx

/-- A call of `can_write` lets nothing go. -/
theorem Sending.writeEvents_leaves (h : Sending acc sent s) (us : List UserMsg) :
    (s.writeEvents us).flatMap Mailbox.Event.leaves = [] := by
  induction us generalizing s with
  | nil => rfl
  | cons u us ih =>
      rw [Chan.writeEvents]
      split
      · rfl
      · rw [h.calm.kickLoses u]
        exact ih (h.writeOne u)

/-- In calm operation nothing goes but what is sent. -/
theorem Sending.leaves_events {op : Op} {s' : Chan (Sja1000 t)} (h : Sending acc sent s)
    (hop : op.receives = true) (hstep : s.step op = some s') :
    (s.events op).flatMap Mailbox.Event.leaves = (s.sends op).flatMap fun f => [some f] := by
  cases op with
  | write accessOk us =>
      cases accessOk with
      | false => rfl
      | true => exact h.writeEvents_leaves us
  | read accessOk count => exact Mailbox.Event.leaves_deliver _
  | irq tstamp =>
      simp only [Chan.events]
      split
      · rename_i hsig
        rw [h.calm.irqLoses hsig]
        rfl
      · rfl
  | timer =>
      obtain ⟨harmed, -⟩ := Chan.step_timer hstep
      have hzero := loadLoses_eq_zero h.calm.operating (h.calm.of_armed harmed).2.1
      simp only [Chan.events, hzero]
      rfl
  | txDone =>
      simp only [Chan.events, Chan.sends]
      cases s.chip.tx <;> rfl
  | arrive _ | busEvent _ _ _ => rfl
  | «open» _ | close | command _ | config _ _ _ | busOff => cases hop

/-- A device that is ready starts with an empty mailbox. -/
theorem Ready.serves (h : Ready s) : Serves [] [] s ⟨[], []⟩ := by
  have hrx : s.rxq.contents = [] := MsgQ.empty_iff.mp h.rxEmpty
  have htx : s.txq.contents = [] := MsgQ.empty_iff.mp h.txEmpty
  refine ⟨h.operates.flow, ⟨h.txWf, fun _ => h.pending, [], [], rfl, ?_, ?_⟩, ?_⟩
  · rw [h.pending]
    exact .nil
  · rw [htx]
  · rw [Chan.inbox, hrx, h.fifo]
    rfl

/-- Calm operation keeps to the steps of a session. -/
theorem Operates.serves {heard : List RxView} (h : Operates acc sent heard s) {op : Op}
    (hop : op.receives = true) : s.serves op = true := by
  have hmode := h.reception.operating
  cases op with
  | irq tstamp => simp [Chan.serves, Op.opens, Chan.readsFilter, hmode]
  | write _ _ | read _ _ | timer | arrive _ | txDone | busEvent _ _ _ => rfl
  | «open» _ | close | command _ | config _ _ _ | busOff => cases hop

end Quiet

/-! ## Runs -/

section Runs

variable {s₀ s : Chan (Sja1000 t)} {ops : List Op} (h : Ready s₀)

/-- A device in calm operation, whatever it has sent and heard. -/
def Operating (acc : Frame) (s : Chan (Sja1000 t)) : Prop :=
  ∃ sent heard, Operates acc sent heard s

theorem Operating.step {acc : Frame} {c c' : Chan (Sja1000 t)} {op : Op} (hc : Operating acc c)
    (hstep : Chan.calmStep c op = some c') : Operating acc c' := by
  obtain ⟨sent, heard, hc⟩ := hc
  obtain ⟨hop, hstep'⟩ := Run.restrict_eq_some.mp hstep
  exact ⟨_, _, hc.step hop hstep'⟩

include h

theorem Ready.atRest : Operating s₀.chip.acc s₀ := ⟨[], [], h.operates⟩

/-- A run of calm operation is a trace of the mailbox. -/
theorem Ready.mailbox
    (hrun : Run.exec Chan.calmStep s₀ ops = some s) :
    ∃ b, Run.Trace (Mailbox.Step service) ⟨[], []⟩
        (Run.observe Chan.calmStep Chan.events s₀ ops) b ∧ Serves [] [] s b ∧
      Logged (Run.observe Chan.calmStep Chan.events s₀ ops) s := by
  have hblank : Logged [] s₀ := ⟨congrArg Hist.accepted h.hist, congrArg Hist.returned h.hist⟩
  obtain ⟨b, htrace, hb, -⟩ := Run.exec_simulates
    (S := fun c b => Serves [] [] c b ∧ Operating s₀.chip.acc c)
    (fun c op c' b hc hstep => by
      obtain ⟨hop, hstep'⟩ := Run.restrict_eq_some.mp hstep
      obtain ⟨sent, heard, hoper⟩ := hc.2
      obtain ⟨b', htrace, hb'⟩ := hc.1.step (hoper.serves hop) hstep'
      exact ⟨b', htrace, hb', hc.2.step hstep⟩) ⟨h.serves, h.atRest⟩ hrun
  have hlog := Run.exec_observe (P := fun es c => Logged es c ∧ Operating s₀.chip.acc c)
    (fun es c op c' hc hstep => by
      obtain ⟨hop, hstep'⟩ := Run.restrict_eq_some.mp hstep
      obtain ⟨sent, heard, hoper⟩ := hc.2
      exact ⟨hc.1.step hoper.flow (hoper.serves hop) hstep', hc.2.step hstep⟩)
    ⟨hblank, h.atRest⟩ hrun
  exact ⟨b, htrace, hb, hlog.1⟩

/-- What leaves the mailbox in calm operation goes out on the bus. -/
theorem Ready.leaves (ops : List Op) :
    (Run.observe Chan.calmStep Chan.events s₀ ops).flatMap Mailbox.Event.leaves =
      (Run.observe Chan.calmStep Chan.sends s₀ ops).map some := by
  rw [List.map_eq_flatMap]
  refine Run.observe_flatMap_congr (I := Operating s₀.chip.acc)
    (fun c op c' hc hstep => hc.step hstep) ?_ h.atRest
  intro c op c' hc hstep
  obtain ⟨hop, hstep'⟩ := Run.restrict_eq_some.mp hstep
  obtain ⟨sent, heard, hoper⟩ := hc
  exact hoper.sending.leaves_events hop hstep'

end Runs

/-- **Back pressure.**  Operate a device opened with nothing left over, short of a stop, reset,
    reconfiguration, close or bus-off.  What leaves the mailbox is what is sent; never more
    than 129 accepted messages have not been sent; and when a write accepts fewer messages
    than it is given, at least 128 accepted ones have not been sent. -/
theorem back_pressure {s₀ s : Chan (Sja1000 t)} {ops : List Op} (h : Ready s₀)
    (hrun : Run.exec Chan.calmStep s₀ ops = some s) :
    (Run.observe Chan.calmStep Chan.events s₀ ops).flatMap Mailbox.Event.leaves =
      (Run.observe Chan.calmStep Chan.sends s₀ ops).map some ∧
    s.hist.accepted.length ≤ (Run.observe Chan.calmStep Chan.sends s₀ ops).length + 129 ∧
    ∀ us, (writeLoop t us s).1 < us.length →
      (Run.observe Chan.calmStep Chan.sends s₀ ops).length + 128 ≤
        (canWrite t true us s).2.hist.accepted.length := by
  obtain ⟨b, htrace, hb, hlog⟩ := h.mailbox hrun
  refine ⟨h.leaves ops, ?_, ?_⟩
  · have hlen := Mailbox.outbox_length htrace
    have hlimit : b.outbox.length ≤ 129 := Mailbox.outbox_le htrace (Nat.zero_le _)
    rw [h.leaves ops, List.length_map, ← hlog.accepted] at hlen
    simp only [List.length_nil] at hlen
    omega
  · intro us hshort
    obtain ⟨es, hes⟩ := Chan.writeEvents_short hshort
    obtain ⟨out', hmore, -⟩ := hb.out.writeLoop b.inbox us
    rw [hes] at hmore
    -- the refusal is the last event of the run and the write
    have hall := htrace.append hmore
    rw [← List.append_assoc] at hall
    have hroom := Mailbox.refuse_accounts hall
    have hacc : (canWrite t true us s).2.hist.accepted =
        s.hist.accepted ++ (es ++ [Mailbox.Event.refuse]).flatMap Mailbox.Event.letters := by
      rw [← hes]
      exact (Chan.writeEvents_letters us s).1
    rw [hacc, hlog.accepted]
    rw [List.flatMap_append, h.leaves ops, List.length_append, List.length_map,
      List.flatMap_append, List.length_append] at hroom
    rw [List.length_append, List.flatMap_append, List.length_append]
    have hlimit : service.room = 128 := rfl
    simp only [List.length_nil] at hroom
    omega

/-- One message is sent, the next one pending; then more are written than there is room for. -/
theorem back_pressure_short : ∃ s, Run.exec Chan.calmStep Chan.opened
    [.write true [.ofMsg Canmsg.zero, .ofMsg Canmsg.zero], .txDone, .irq ⟨0, 0⟩] = some s ∧
    (writeLoop .atcanminiPelican (List.replicate 130 (.ofMsg Canmsg.zero)) s).1 < 130 ∧
    s.hist.accepted.length ≤ (Run.observe Chan.calmStep Chan.sends Chan.opened
      [.write true [.ofMsg Canmsg.zero, .ofMsg Canmsg.zero], .txDone, .irq ⟨0, 0⟩]).length + 129 ∧
    (Run.observe Chan.calmStep Chan.sends Chan.opened
        [.write true [.ofMsg Canmsg.zero, .ofMsg Canmsg.zero], .txDone,
          .irq ⟨0, 0⟩]).length + 128 ≤
      (canWrite .atcanminiPelican true
        (List.replicate 130 (.ofMsg Canmsg.zero)) s).2.hist.accepted.length := by
  obtain ⟨s, hs, hshort⟩ := Option.map_eq_some_iff.mp (show (Run.exec Chan.calmStep Chan.opened
    [.write true [.ofMsg Canmsg.zero, .ofMsg Canmsg.zero], .txDone, .irq ⟨0, 0⟩]).map
      (fun s => (writeLoop .atcanminiPelican (List.replicate 130 (.ofMsg Canmsg.zero)) s).1) =
        some 128 by decide +kernel)
  have hless : (writeLoop .atcanminiPelican (List.replicate 130 (.ofMsg Canmsg.zero)) s).1 <
      (List.replicate 130 (UserMsg.ofMsg Canmsg.zero)).length := by
    rw [hshort, List.length_replicate]
    decide
  obtain ⟨-, hle, hwrite⟩ := back_pressure ready_opened hs
  exact ⟨s, hs, by rw [hshort]; decide, hle, hwrite _ hless⟩

end Can4linux
