/-
  Can4linux.Stamps

  The times of received messages.  An iteration of the interrupt loop reads the
  clock once, and stamps with it whatever it puts into the receive queue: a frame,
  an error warning, an overrun.  So the messages that come out of the queue are
  stamped iteration by iteration, with at most three to each.
-/

import Can4linux.Calm
import Can4linux.Driver

namespace Can4linux

/-! ## What an iteration receives -/

section Iteration

variable {σ : Type}

/-- From `s` to `s'` at most `n` messages have been received, stamped with `tstamp`. -/
def Stamps (tstamp : Timeval) (n : Nat) (s s' : Chan σ) : Prop :=
  ∃ ms, s'.hist.received = s.hist.received ++ ms ∧ ms.length ≤ n ∧
    ∀ m ∈ ms, m.timestamp = tstamp

namespace Stamps

variable {tstamp : Timeval} {n n' : Nat} {s s' s'' : Chan σ}

theorem of_eq (h : s'.hist.received = s.hist.received) : Stamps tstamp n s s' :=
  ⟨[], h.trans (List.append_nil _).symm, Nat.zero_le _, fun m hm => by cases hm⟩

theorem trans (h : Stamps tstamp n s s') (h' : Stamps tstamp n' s' s'') :
    Stamps tstamp (n + n') s s'' := by
  obtain ⟨ms, hms, hlen, hall⟩ := h
  obtain ⟨ms', hms', hlen', hall'⟩ := h'
  refine ⟨ms ++ ms', by rw [hms', hms, List.append_assoc], ?_, ?_⟩
  · rw [List.length_append]
    omega
  · intro m hm
    rcases List.mem_append.mp hm with hm | hm
    · exact hall m hm
    · exact hall' m hm

theorem rxproduce {produce : Canmsg → σ → Canmsg × σ}
    (hproduce : ∀ m c, (produce m c).1.timestamp = tstamp) :
    Stamps tstamp 1 s (rxproduce produce s) := by
  cases hfull : s.rxq.full with
  | true =>
      rw [rxproduce_full hfull]
      exact of_eq rfl
  | false =>
      rw [rxproduce_room hfull]
      refine ⟨[(produce s.rxq.freeSlot s.chip).1], rfl, Nat.le_refl _, ?_⟩
      intro m hm
      rw [List.mem_singleton.mp hm]
      exact hproduce _ _

end Stamps

variable [Chip σ] (t : Target) (s : Chan σ) (irqsrc : U8) (inf : Msginf)

theorem stamps_rxIrq : Stamps inf.tstamp 1 s (rxIrq t irqsrc inf s) := by
  unfold rxIrq
  split
  · have hprod : Stamps inf.tstamp 1 s (rxproduce (readcanmsg t inf) s) :=
      Stamps.rxproduce fun _ _ => rfl
    exact hprod
  · exact .of_eq rfl

/-- The flags that the branch adds leave the time alone. -/
theorem stamps_errWarnIrq : Stamps inf.tstamp 1 s (errWarnIrq t irqsrc inf s).2.2 ∧
    (errWarnIrq t irqsrc inf s).2.1.tstamp = inf.tstamp := by
  unfold errWarnIrq
  split
  · simp only
    split
    · exact ⟨Stamps.rxproduce fun _ _ => rfl, rfl⟩
    · exact ⟨Stamps.rxproduce fun _ _ => rfl, rfl⟩
  · exact ⟨.of_eq rfl, rfl⟩

theorem stamps_txIrq : Stamps inf.tstamp 0 s (txIrq t irqsrc s) := by
  unfold txIrq
  split
  · obtain ⟨n, hframe⟩ := wakeWriters_frame (txConsume t { s with txinprogress := 0 })
    refine .of_eq ?_
    rw [hframe]
    exact (txConsume_rx t { s with txinprogress := 0 }).2.2
  · exact .of_eq rfl

theorem stamps_overrunIrq : Stamps inf.tstamp 1 s (overrunIrq t irqsrc inf s) := by
  have hcount : ∀ (inf' : Msginf) c, inf'.tstamp = inf.tstamp →
      Stamps inf.tstamp 1 s (rxproduceErr inf' { s with
        sys := { s.sys with overrun := s.sys.overrun + 1 }, chip := c }) := by
    intro inf' c hinf
    have hprod : Stamps inf.tstamp 1
        { s with sys := { s.sys with overrun := s.sys.overrun + 1 }, chip := c }
        (rxproduceErr inf' { s with
          sys := { s.sys with overrun := s.sys.overrun + 1 }, chip := c }) :=
      Stamps.rxproduce fun _ _ => hinf
    exact hprod
  unfold overrunIrq
  split
  · refine hcount _ _ ?_
    split
    · rfl
    · rfl
  · exact .of_eq rfl

/-- One reading of the clock, and at most three messages. -/
theorem stamps_irqBody (tstamp : Timeval) : Stamps tstamp 3 s (irqBody t tstamp irqsrc s) := by
  have hrx := stamps_rxIrq t s irqsrc ⟨presetFlags s.rxstatus, tstamp⟩
  obtain ⟨hew, hinf⟩ := stamps_errWarnIrq t
    (rxIrq t irqsrc ⟨presetFlags s.rxstatus, tstamp⟩ s) irqsrc ⟨presetFlags s.rxstatus, tstamp⟩
  unfold irqBody
  simp only
  generalize errWarnIrq t irqsrc ⟨presetFlags s.rxstatus, tstamp⟩
    (rxIrq t irqsrc ⟨presetFlags s.rxstatus, tstamp⟩ s) = r at hew hinf ⊢
  have htx := stamps_txIrq t r.2.2 r.1 r.2.1
  have hov := stamps_overrunIrq t (txIrq t r.1 r.2.2) r.1 r.2.1
  rw [hinf] at htx hov
  exact ((hrx.trans hew).trans htx).trans hov

theorem stamps_irqIteration (tstamp : Timeval) : Stamps tstamp 3 s (irqIteration t tstamp s) := by
  unfold irqIteration
  simp only
  split
  · exact .of_eq rfl
  · exact stamps_irqBody t { s with chip := (canIn t .canirq s.chip).2 } _ tstamp

end Iteration

/-! ## Runs -/

variable {t : Target}

/-- The clock as a step reads it. -/
def Op.stamps : Op → List Timeval
  | .irq tstamp => [tstamp]
  | _ => []

/-- The messages are stamped reading by reading, with at most three to each. -/
def StampedBy (stamps : List Timeval) (ms : List Canmsg) : Prop :=
  ∃ ks : List Nat, ks.length = stamps.length ∧ (∀ k ∈ ks, k ≤ 3) ∧
    ms.map Canmsg.timestamp = (List.zipWith List.replicate ks stamps).flatten

namespace StampedBy

theorem nil : StampedBy [] [] := ⟨[], rfl, fun k hk => (by cases hk), rfl⟩

/-- One more reading. -/
theorem snoc {stamps : List Timeval} {ms ms' : List Canmsg} {tstamp : Timeval}
    (h : StampedBy stamps ms) (hlen : ms'.length ≤ 3) (hall : ∀ m ∈ ms', m.timestamp = tstamp) :
    StampedBy (stamps ++ [tstamp]) (ms ++ ms') := by
  obtain ⟨ks, hks, hle, heq⟩ := h
  refine ⟨ks ++ [ms'.length], by rw [List.length_append, List.length_append, hks]; rfl, ?_, ?_⟩
  · intro k hk
    rcases List.mem_append.mp hk with hk | hk
    · exact hle k hk
    · rw [List.mem_singleton.mp hk]
      exact hlen
  · have hnew : ms'.map Canmsg.timestamp = List.replicate ms'.length tstamp := by
      rw [List.eq_replicate_iff]
      refine ⟨List.length_map _, fun τ hτ => ?_⟩
      obtain ⟨m, hm, rfl⟩ := List.mem_map.mp hτ
      exact hall m hm
    rw [List.zipWith_append hks, List.flatten_append, ← heq, List.map_append, hnew]
    simp

theorem mem_of_mem_flatten {ks : List Nat} {stamps : List Timeval} {τ : Timeval}
    (h : τ ∈ (List.zipWith List.replicate ks stamps).flatten) : τ ∈ stamps := by
  induction ks generalizing stamps with
  | nil => cases h
  | cons k ks ih =>
      cases stamps with
      | nil => cases h
      | cons τ' stamps =>
          rw [List.zipWith_cons_cons, List.flatten_cons, List.mem_append] at h
          rcases h with hhead | htail
          · rw [List.eq_of_mem_replicate hhead]
            exact List.mem_cons_self
          · exact List.mem_cons_of_mem _ (ih htail)

/-- Whatever holds between the readings in order holds between the stamps in order. -/
theorem pairwise {stamps : List Timeval} {ms : List Canmsg} {R : Timeval → Timeval → Prop}
    (h : StampedBy stamps ms) (hrefl : ∀ τ, R τ τ) (hstamps : stamps.Pairwise R) :
    (ms.map Canmsg.timestamp).Pairwise R := by
  obtain ⟨ks, -, -, heq⟩ := h
  rw [heq]
  clear heq
  induction ks generalizing stamps with
  | nil => exact .nil
  | cons k ks ih =>
      cases stamps with
      | nil => exact .nil
      | cons τ stamps =>
          obtain ⟨hhead, htail⟩ := List.pairwise_cons.mp hstamps
          rw [List.zipWith_cons_cons, List.flatten_cons, List.pairwise_append]
          refine ⟨List.pairwise_replicate.mpr (.inr (hrefl τ)), ih htail, ?_⟩
          intro a ha b hb
          rw [List.eq_of_mem_replicate ha]
          exact hhead b (mem_of_mem_flatten hb)

end StampedBy

/-- A step receives what it stamps. -/
theorem StampedBy.step {stamps : List Timeval} {s s' : Chan (Sja1000 t)} {op : Op}
    (h : StampedBy stamps s.hist.received) (hop : ∀ env, op ≠ .open env)
    (hstep : s.step op = some s') : StampedBy (stamps ++ op.stamps) s'.hist.received := by
  -- every step but an iteration leaves what has been received as it is
  have hsame : ∀ {c : Chan (Sja1000 t)}, c.hist.received = s.hist.received →
      StampedBy (stamps ++ []) c.hist.received := by
    intro c hc
    rw [List.append_nil, hc]
    exact h
  cases op with
  | «open» env => exact absurd rfl (hop env)
  | close =>
      obtain ⟨hopen, rfl⟩ := Chan.whenOpen_eq_some.mp hstep
      obtain ⟨held, hframe⟩ := canClose_frame t s hopen
      exact hsame (by rw [hframe])
  | write accessOk us =>
      obtain ⟨-, rfl⟩ := Chan.whenOpen_eq_some.mp hstep
      exact hsame (congrArg RxSide.received (canWrite_rule (P := fun c => c.rxSide = s.rxSide)
        (fun u c hc => (writeOne_rxSide c u).trans hc) rfl accessOk us))
  | read accessOk count =>
      obtain ⟨-, rfl⟩ := Chan.whenOpen_eq_some.mp hstep
      refine hsame ?_
      cases accessOk with
      | false => rfl
      | true =>
          obtain ⟨rxq, hframe, -, -⟩ := readLoop_spec count s
          simp only [canRead, Bool.not_true, Bool.false_eq_true, if_false, hframe]
  | command cmd =>
      obtain ⟨-, rfl⟩ := Chan.whenOpen_eq_some.mp hstep
      obtain ⟨held, sys, c, hframe⟩ := canCommand_frame t s cmd
      exact hsame (by rw [hframe])
  | config target val1 val2 =>
      obtain ⟨-, rfl⟩ := Chan.whenOpen_eq_some.mp hstep
      obtain ⟨sys, c, hframe⟩ := canConfig_frame t s target val1 val2
      exact hsame (by rw [hframe])
  | irq tstamp =>
      obtain ⟨-, rfl⟩ := Chan.whenOpen_eq_some.mp hstep
      obtain ⟨ms, hms, hlen, hall⟩ := stamps_irqIteration t s tstamp
      rw [hms]
      exact h.snoc hlen hall
  | timer =>
      obtain ⟨-, rfl⟩ := Chan.step_timer hstep
      exact hsame (congrArg RxSide.received
        ((delayedmsgworker_rxSide s.disarm).trans (disarm_rxSide s)))
  | arrive f =>
      obtain ⟨-, rfl⟩ := Chan.step_arrive hstep
      exact hsame rfl
  | txDone =>
      obtain ⟨-, rfl⟩ := Chan.step_txDone hstep
      exact hsame rfl
  | busEvent bits stat overrun =>
      obtain ⟨-, rfl⟩ := Chan.step_busEvent hstep
      exact hsame rfl
  | busOff =>
      obtain rfl := Chan.step_busOff hstep
      exact hsame rfl

/-- **Messages come out in the order of the clock.**  In every run of a session that found
    nothing left over, whatever is written, commanded and whatever happens on the bus: what
    has been read and what is still queued is stamped with the readings of the clock, one
    reading an iteration of the interrupt loop, with at most three messages to each.  If the
    clock does not go back, neither do the stamps. -/
theorem stamps_in_order {s₀ s : Chan (Sja1000 t)} {ops : List Op} (hready : Ready s₀)
    (hrun : Run.exec Chan.sessionStep s₀ ops = some s) :
    StampedBy (ops.flatMap Op.stamps) (s.hist.returned ++ s.rxq.contents) ∧
    ∀ R : Timeval → Timeval → Prop, (∀ τ, R τ τ) → (ops.flatMap Op.stamps).Pairwise R →
      ((s.hist.returned ++ s.rxq.contents).map Canmsg.timestamp).Pairwise R := by
  have hboth : StampedBy ([] ++ ops.flatMap Op.stamps) s.hist.received ∧ Flow [] [] s := by
    refine Run.exec_trace (P := fun stamps c => StampedBy stamps c.hist.received ∧
      Flow [] [] c) ?_ ⟨?_, hready.operates.flow⟩ hrun
    · rintro stamps c op c' ⟨hst, hflow⟩ hstep
      obtain ⟨hop, hstep'⟩ := Run.restrict_eq_some.mp hstep
      have hopens : ∀ env, op ≠ .open env := by
        rintro env rfl
        cases hop
      exact ⟨hst.step hopens hstep', hflow.step hopens hstep'⟩
    · rw [hready.hist]
      exact .nil
  obtain ⟨hst, hflow⟩ := hboth
  rw [hflow.rx, List.nil_append]
  exact ⟨hst, fun R hrefl hpair => hst.pairwise hrefl hpair⟩

/-- Two frames are read in one iteration each; the second finds an error warning as well. -/
theorem stamps_in_order_two :
    let ops : List Op := [.arrive fun _ => 0, .irq ⟨1, 0⟩, .arrive fun _ => 1,
      .busEvent canErrorWarnInt 0 false, .irq ⟨2, 0⟩, .read true 2, .command cmdStop, .close]
    ∃ s, Run.exec Chan.sessionStep Chan.opened ops = some s ∧
      StampedBy (ops.flatMap Op.stamps) (s.hist.returned ++ s.rxq.contents) ∧
      ∀ R : Timeval → Timeval → Prop, (∀ τ, R τ τ) → (ops.flatMap Op.stamps).Pairwise R →
        ((s.hist.returned ++ s.rxq.contents).map Canmsg.timestamp).Pairwise R := by
  intro ops
  obtain ⟨s, hs⟩ := Option.isSome_iff_exists.mp
    (show (Run.exec Chan.sessionStep Chan.opened ops).isSome = true by decide +kernel)
  exact ⟨s, hs, stamps_in_order ready_opened hs⟩

end Can4linux
