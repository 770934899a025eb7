/-
  Can4linux.TxOrder

  What any interleaving of writer, transmit interrupt and delay timer keeps:
  the messages reach the controller once each and in the order in which they
  were accepted (`Passes`), and the role of the consumer has one holder.

  Both hold as long as no transmit interrupt is taken while a context stands
  between its transmission request and `consumed++`.  Where the two are one
  step, as in the system of `stepFused`, that is always so.
-/

import Can4linux.TxHandshake

namespace Can4linux

open Count

namespace Handshake

variable {t : Target} {s s' : Handshake t}

/-! ## The messages -/

/-- The messages that are not in the controller yet: a context that stands between its
    transmission request and `consumed++` still has its message in the queue. -/
def waiting (s : Handshake t) : List Canmsg :=
  if count inLoad s.cons = 0 then s.chan.txq.contents else s.chan.txq.contents.tail

/-- The queue is well formed, and what has been loaded and what waits is what was accepted. -/
structure Passes (s : Handshake t) : Prop where
  wf : s.chan.txq.WF 7
  room : s.writer = .room → s.chan.txq.full = false
  filled : ∀ m, s.writer = .filled m → s.chan.txq.full = false ∧ s.chan.txq.freeSlot = m
  calling : ∀ c, s.cons c = .calling → s.chan.txq.contents ≠ []
  loaded : count inLoad s.cons ≠ 0 → s.chan.txq.contents ≠ []
  flow : s.chan.hist.loaded ++ s.waiting.map Canmsg.onWire =
    s.chan.hist.accepted.map Canmsg.onWire

/-- While a context is about to call `sendcanmsg`, no other one is behind its load. -/
theorem Role.of_calling {c : Ctx} (h : Role s) (hpc : s.cons c = .calling) :
    count inLoad s.cons = 0 := by
  have hle := le_count inRole s.cons c
  have htoken := h.token
  have hl := h.load
  rw [hpc] at hle
  simp only [inRole] at hle
  rw [holders] at htoken
  omega

/-- While a context is behind its load, no other one is, and none has the role. -/
theorem Role.of_loaded {c : Ctx} (h : Role s) (hpc : s.cons c = .loaded) :
    count inRole s.cons = 0 ∧ count inLoad s.cons = 1 := by
  have hle := le_count inLoad s.cons c
  have htoken := h.token
  have hl := h.load
  rw [hpc] at hle
  simp only [inLoad] at hle
  rw [holders] at htoken
  omega

/-- Who is about to call `sendcanmsg` after a context has gone on. -/
theorem calling_goto {P : Prop} {cons : Ctx → RolePc} {c : Ctx} {pc : RolePc}
    (hold : ∀ c', cons c' = .calling → P) (hnew : pc = .calling → P) :
    ∀ c', Function.update cons c pc c' = .calling → P := by
  intro c' hc'
  by_cases he : c' = c
  · subst he
    rw [Function.update_self] at hc'
    exact hnew hc'
  · rw [Function.update_of_ne he] at hc'
    exact hold c' hc'

namespace Passes

/-- Steps on the flag, the timer or the controller do not concern the messages. -/
theorem of_eq {cons : Ctx → RolePc} {chan : Chan (Sja1000 t)} {w : WriterPc} (h : Passes s)
    (hwf : chan.txq.WF 7) (hcont : chan.txq.contents = s.chan.txq.contents)
    (hslots : chan.txq.freeSlot = s.chan.txq.freeSlot) (hfull : chan.txq.full = s.chan.txq.full)
    (hhist : chan.hist = s.chan.hist) (hload : count inLoad cons = count inLoad s.cons)
    (hcall : ∀ c, cons c = .calling → s.chan.txq.contents ≠ [])
    (hw : w = s.writer ∨ w = .out ∨ w = .published ∨ w = .sawIdle) :
    Passes ⟨chan, w, cons⟩ := by
  refine ⟨hwf, ?_, ?_, ?_, ?_, ?_⟩
  · intro hroom
    rcases hw with rfl | rfl | rfl | rfl
    · exact hfull.trans (h.room hroom)
    · cases hroom
    · cases hroom
    · cases hroom
  · intro m hm
    rcases hw with rfl | rfl | rfl | rfl
    · exact ⟨hfull.trans (h.filled m hm).1, hslots.trans (h.filled m hm).2⟩
    · cases hm
    · cases hm
    · cases hm
  · intro c hc
    show chan.txq.contents ≠ []
    rw [hcont]
    exact hcall c hc
  · intro hl
    show chan.txq.contents ≠ []
    rw [hcont]
    exact h.loaded (hload ▸ hl)
  · have hwait : waiting ⟨chan, w, cons⟩ = s.waiting := by
      rw [waiting, waiting, hload, hcont]
    rw [hwait]
    show chan.hist.loaded ++ _ = chan.hist.accepted.map _
    rw [hhist]
    exact h.flow

theorem testFull (h : Passes s) (hstep : s.step .testFull = some s') : Passes s' := by
  obtain ⟨-, -, ⟨-, rfl⟩ | ⟨hroom, rfl⟩⟩ := step_testFull hstep
  · exact h
  · exact ⟨h.wf, fun _ => hroom, fun m hm => (by cases hm), h.calling, h.loaded, h.flow⟩

/-- Filling the free slot changes no message. -/
theorem fill {u : UserMsg} (h : Passes s) (hstep : s.step (.fill u) = some s') : Passes s' := by
  obtain ⟨hw, m, rfl⟩ := step_fill hstep
  have hroom := h.room hw
  have hcont := h.wf.contents_fill hroom m
  refine ⟨h.wf.fill m, fun hr => (by cases hr), ?_, ?_, ?_, ?_⟩
  · intro m' hm
    cases hm
    exact ⟨hroom, MsgQ.freeSlot_fill _ _⟩
  · intro c hc
    show (s.chan.txq.fill m).contents ≠ []
    rw [hcont]
    exact h.calling c hc
  · intro hl
    show (s.chan.txq.fill m).contents ≠ []
    rw [hcont]
    exact h.loaded hl
  · have hflow := h.flow
    simp only [waiting, hcont] at hflow ⊢
    exact hflow

/-- The published message is the last one that waits. -/
theorem publish (h : Passes s) (hstep : s.step .publish = some s') : Passes s' := by
  obtain ⟨m, hw, rfl⟩ := step_publish hstep
  obtain ⟨hroom, hslot⟩ := h.filled m hw
  have hcont : s.chan.txq.publish.contents = s.chan.txq.contents ++ [m] := by
    rw [h.wf.contents_publish, hslot]
  have hne : s.chan.txq.publish.contents ≠ [] := by
    rw [hcont]
    exact List.append_ne_nil_of_right_ne_nil _ (List.cons_ne_nil _ _)
  refine ⟨h.wf.publish hroom, fun hr => (by cases hr), fun m' hm => (by cases hm), fun _ _ => hne,
    fun _ => hne, ?_⟩
  have hflow := h.flow
  show s.chan.hist.loaded ++ (if count inLoad s.cons = 0 then s.chan.txq.publish.contents
    else s.chan.txq.publish.contents.tail).map Canmsg.onWire =
      (s.chan.hist.accepted ++ [m]).map Canmsg.onWire
  rw [List.map_append, ← hflow, waiting, hcont, List.append_assoc, ← List.map_append]
  -- also while the head is on its way out the new message goes behind the others
  split
  · rfl
  · rename_i hload
    rw [List.tail_append_of_ne_nil (h.loaded hload)]

theorem readIdle (h : Passes s) (hstep : s.step .readIdle = some s') : Passes s' := by
  obtain ⟨-, ⟨-, rfl⟩ | ⟨-, rfl⟩⟩ := step_readIdle hstep
  · exact h.of_eq h.wf rfl rfl rfl rfl rfl h.calling (.inr (.inr (.inr rfl)))
  · exact h.of_eq h.wf rfl rfl rfl rfl rfl h.calling (.inr (.inl rfl))

theorem clearIdle (h : Passes s) (hrole : Role s) (hstep : s.step .clearIdle = some s') :
    Passes s' := by
  obtain ⟨hw, rfl⟩ := step_clearIdle hstep
  have hout : s.cons .writer = .out := hrole.alone (by simp [hw])
  exact h.of_eq (h.wf.setIdle false) rfl rfl rfl rfl (count_update_of_eq (by rw [hout]; rfl))
    (calling_goto h.calling (fun he => by cases he)) (.inr (.inl rfl))

theorem testEmpty {c : Ctx} (h : Passes s) (hstep : s.step (.testEmpty c) = some s') :
    Passes s' := by
  obtain ⟨hpc, ⟨-, rfl⟩ | ⟨hne, rfl⟩⟩ := step_testEmpty hstep
  · exact h.of_eq (h.wf.setIdle true) rfl rfl rfl rfl (count_update_of_eq (by rw [hpc]; rfl))
      (calling_goto h.calling (fun he => by cases he)) (.inl rfl)
  · exact h.of_eq h.wf rfl rfl rfl rfl (count_update_of_eq (by rw [hpc]; rfl))
      (calling_goto h.calling (fun _ => MsgQ.contents_ne_nil hne)) (.inl rfl)

/-- `sendcanmsg` rewrites the head slot only; a load takes the head message out of those
    that wait. -/
theorem call {c : Ctx} (h : Passes s) (hrole : Role s) (hstep : s.step (.call c) = some s') :
    Passes s' := by
  obtain ⟨hpc, hcase⟩ := step_call hstep
  have hne := h.calling c hpc
  have hzero := hrole.of_calling hpc
  have hflow := h.flow
  rw [waiting, if_pos hzero, MsgQ.contents_eq_cons hne, MsgQ.contents_advance hne,
    List.map_cons] at hflow
  have hset : ∀ m, (s.chan.txq.setHead m).contents = m :: s.chan.txq.contents.tail :=
    h.wf.contents_setHead hne
  have hslot : ∀ m, s.chan.txq.full = false →
      (s.chan.txq.setHead m).freeSlot = s.chan.txq.freeSlot :=
    fun m hroom => h.wf.freeSlot_setHead hroom hne m
  rcases hcase with ⟨-, rfl⟩ | ⟨-, rfl⟩
  · -- the message waits on, without its delay
    have hload := (count_goto hpc .out).2
    simp only [inLoad] at hload
    obtain ⟨dw, kapi, hframe⟩ := kapiScheduleDelayed_frame s.chan
      (remainingDelay s.chan.sys.baud s.chan.txq.head.capLength)
    rw [hframe]
    have hne' : (s.chan.txq.setHead s.chan.txq.head.onWire).contents ≠ [] := by
      rw [hset]
      exact List.cons_ne_nil _ _
    refine ⟨h.wf.setHead _, h.room, ?_, fun _ _ => hne', fun _ => hne', ?_⟩
    · intro m hm
      obtain ⟨hroom, hfree⟩ := h.filled m hm
      exact ⟨hroom, (hslot _ hroom).trans hfree⟩
    · show s.chan.hist.loaded ++ (if count inLoad (Function.update s.cons c .out) = 0 then
        (s.chan.txq.setHead s.chan.txq.head.onWire).contents
        else (s.chan.txq.setHead s.chan.txq.head.onWire).contents.tail).map Canmsg.onWire = _
      rw [if_pos (by omega), hset, List.map_cons, Canmsg.onWire_onWire]
      exact hflow
  · -- the message is loaded: from here on the head does not wait any more
    have hload := (count_goto hpc .loaded).2
    simp only [inLoad] at hload
    have hne' : (s.chan.txq.setHead s.chan.txq.head.capLength).contents ≠ [] := by
      rw [hset]
      exact List.cons_ne_nil _ _
    refine ⟨h.wf.setHead _, h.room, ?_, fun _ _ => hne', fun _ => hne', ?_⟩
    · intro m hm
      obtain ⟨hroom, hfree⟩ := h.filled m hm
      exact ⟨hroom, (hslot _ hroom).trans hfree⟩
    · show s.chan.hist.loaded ++ [s.chan.txq.head.onWire] ++
        (if count inLoad (Function.update s.cons c .loaded) = 0 then
          (s.chan.txq.setHead s.chan.txq.head.capLength).contents
          else (s.chan.txq.setHead s.chan.txq.head.capLength).contents.tail).map
            Canmsg.onWire = _
      rw [if_neg (by omega), hset, List.tail_cons, List.append_assoc, List.singleton_append]
      exact hflow

/-- `consumed++` drops the message whose frame is in the controller. -/
theorem advance {c : Ctx} (h : Passes s) (hrole : Role s)
    (hstep : s.step (.advance c) = some s') : Passes s' := by
  obtain ⟨hpc, rfl⟩ := step_advance hstep
  obtain ⟨hnone, hone⟩ := hrole.of_loaded hpc
  have hne := h.loaded (by omega)
  have hload := (count_goto hpc .out).2
  simp only [inLoad] at hload
  have hroom := h.wf.full_advance hne
  -- nobody else is about to call: the role is with the controller
  have hnocall : ∀ c', s.cons c' = .calling → s.chan.txq.advance.contents ≠ [] := by
    intro c' hc'
    have hle := le_count inRole s.cons c'
    rw [hc'] at hle
    simp only [inRole] at hle
    omega
  refine ⟨h.wf.advance hne, fun _ => hroom, fun m hm => ⟨hroom, (h.filled m hm).2⟩,
    calling_goto hnocall (fun he => by cases he), ?_, ?_⟩
  · intro hl
    exact absurd (show count inLoad (Function.update s.cons c .out) = 0 by omega) hl
  · have hflow := h.flow
    rw [waiting, if_neg (by omega)] at hflow
    show s.chan.hist.loaded ++ (if count inLoad (Function.update s.cons c .out) = 0 then
      s.chan.txq.advance.contents else s.chan.txq.advance.contents.tail).map
        Canmsg.onWire = _
    rw [if_pos (by omega), MsgQ.contents_advance hne]
    exact hflow

theorem txDone (h : Passes s) (hstep : s.step .txDone = some s') : Passes s' := by
  obtain ⟨-, rfl⟩ := step_txDone hstep
  exact h.of_eq h.wf rfl rfl rfl rfl rfl h.calling (.inl rfl)

theorem takeIrq (h : Passes s) (hstep : s.step .takeIrq = some s') : Passes s' := by
  obtain ⟨hpc, -, rfl⟩ := step_takeIrq hstep
  exact h.of_eq h.wf rfl rfl rfl rfl (count_update_of_eq (by rw [hpc]; rfl))
    (calling_goto h.calling (fun he => by cases he)) (.inl rfl)

theorem fireTimer (h : Passes s) (hstep : s.step .fireTimer = some s') : Passes s' := by
  obtain ⟨hpc, -, rfl⟩ := step_fireTimer hstep
  obtain ⟨kapi, hframe⟩ := disarm_frame s.chan
  rw [hframe]
  exact h.of_eq h.wf rfl rfl rfl rfl (count_update_of_eq (by rw [hpc]; rfl))
    (calling_goto h.calling (fun he => by cases he)) (.inl rfl)

/-- Every step keeps the order of the messages, as long as the role is kept. -/
theorem step {a : TxAct} (h : Passes s) (hrole : Role s) (hstep : s.step a = some s') :
    Passes s' := by
  cases a with
  | testFull => exact h.testFull hstep
  | fill u => exact h.fill hstep
  | publish => exact h.publish hstep
  | readIdle => exact h.readIdle hstep
  | clearIdle => exact h.clearIdle hrole hstep
  | testEmpty c => exact h.testEmpty hstep
  | call c => exact h.call hrole hstep
  | advance c => exact h.advance hrole hstep
  | txDone => exact h.txDone hstep
  | takeIrq => exact h.takeIrq hstep
  | fireTimer => exact h.fireTimer hstep

end Passes

/-! ## Runs -/

/-- An open device at rest, in operating mode. -/
structure Quiet (c : Chan (Sja1000 t)) : Prop extends AtRest c where
  noIrq : isSet c.chip.irq canTransmitInt = false
  noTimer : c.timerArmed = false
  operating : c.chip.inReset = false
  wf : c.txq.WF 7
  noHist : c.hist = Hist.empty

/-- A settled device is quiet right after an open, unless an old timer is still armed. -/
theorem Quiet.of_open {c c' : Chan (Sja1000 t)} {env : OpenEnv} (hreached : Reached c)
    (hempty : c.txq.empty = true) (htimer : c.timerArmed = false)
    (hstep : c.step (.open env) = some c') : Quiet c' := by
  have hrest := AtRest.of_open hreached hempty hstep
  obtain ⟨-, ri, held, o, ch, regs, rxb, txb, rfl⟩ := Chan.step_open hstep
  have htxMask : maxTxBufsize - 1 = Ring.maskOf 32 7 := by
    decide
  have hzero : c.txq.qlen.toNat ≤ 2 ^ 7 := by
    simp [MsgQ.empty_iff_qlen.mp hempty]
  exact ⟨hrest, isSet_zero canTransmitInt, htimer,
    show isSet canModeDef canResetRequest = false by decide,
    MsgQ.WF.of_qcreate (by decide) htxMask true txb hzero, rfl⟩

theorem quiet_opened : Quiet Chan.opened :=
  Quiet.of_open reached_unopened (by decide) (by decide) Chan.step_opened

theorem Role.start {c : Chan (Sja1000 t)} (h : Quiet c) : Role (start c) := by
  refine ⟨?_, Nat.zero_le _, fun _ => rfl, fun _ => h.idle, fun _ => .inl h.empty, h.operating,
    h.slot⟩
  rw [holders, Handshake.start, h.idle, h.pending, h.noIrq, h.noTimer]
  rfl

theorem Passes.start {c : Chan (Sja1000 t)} (h : Quiet c) : Passes (start c) := by
  refine ⟨h.wf, fun hr => (by cases hr), fun m hm => (by cases hm), fun c' hc' => (by cases hc'),
    fun hl => absurd rfl hl, ?_⟩
  have hcont : c.txq.contents = [] := MsgQ.empty_iff.mp h.empty
  rw [waiting, Handshake.start, hcont, h.noHist]
  rfl

/-- **Each message is loaded once and in order.**  In every interleaving in which no transmit
    interrupt is taken while a context stands between its transmission request and
    `consumed++`, the frames loaded are a prefix of the messages accepted, and `consumed`
    does not pass `produced`. -/
theorem loaded_prefix {c : Chan (Sja1000 t)} {acts : List TxAct} (hquiet : Quiet c)
    (hrun : Run.exec (Run.restrict step fun s a => s.undisturbed a = true) (start c) acts =
      some s) :
    s.chan.hist.loaded <+: s.chan.hist.accepted.map Canmsg.onWire ∧
      s.chan.txq.qlen.toNat ≤ 2 ^ 7 := by
  have hstart : Role (Handshake.start c) ∧ Passes (Handshake.start c) :=
    ⟨Role.start hquiet, Passes.start hquiet⟩
  obtain ⟨-, hs⟩ := Run.exec_restrict_invariant (P := fun s => Role s ∧ Passes s)
    (fun s a s' h hguard hstep => ⟨h.1.step hguard hstep, h.2.step h.1 hstep⟩) hstart hrun
  exact ⟨⟨_, hs.flow⟩, hs.wf.bound⟩

/-- A writer sends one message and queues a second one, which the interrupt of the first
    loads. -/
theorem loaded_prefix_two : ∃ s, Run.exec
    (Run.restrict step fun s a => s.undisturbed a = true) (start Chan.opened)
    [.testFull, .fill (.ofMsg Canmsg.zero), .publish, .readIdle, .clearIdle,
      .testEmpty .writer, .call .writer, .advance .writer, .testFull,
      .fill (.ofMsg Canmsg.zero), .txDone, .publish, .takeIrq, .readIdle, .testEmpty .irq,
      .call .irq] = some s ∧
    s.chan.hist.loaded <+: s.chan.hist.accepted.map Canmsg.onWire ∧
      s.chan.txq.qlen.toNat ≤ 2 ^ 7 := by
  obtain ⟨s, hs⟩ := Option.isSome_iff_exists.mp (show (Run.exec
    (Run.restrict step fun s a => s.undisturbed a = true) (start Chan.opened)
    [.testFull, .fill (.ofMsg Canmsg.zero), .publish, .readIdle, .clearIdle,
      .testEmpty .writer, .call .writer, .advance .writer, .testFull,
      .fill (.ofMsg Canmsg.zero), .txDone, .publish, .takeIrq, .readIdle, .testEmpty .irq,
      .call .irq]).isSome = true by decide +kernel)
  exact ⟨s, hs, loaded_prefix quiet_opened hs⟩

/-- The writer is suspended between its transmission request and `consumed++`; the frame is
    sent and its interrupt finds the message still in the queue.  It loads the one message a
    second time, and then `consumed` passes `produced`. -/
theorem loaded_twice :
    (Run.exec step (start Chan.opened)
      [.testFull, .fill (.ofMsg Canmsg.zero), .publish, .readIdle, .clearIdle,
        .testEmpty .writer, .call .writer, .txDone, .takeIrq, .testEmpty .irq, .call .irq,
        .advance .irq, .advance .writer]).map
      (fun s => (s.chan.hist.accepted, s.chan.hist.loaded)) =
        some ([Canmsg.zero], [Canmsg.zero, Canmsg.zero]) ∧
    (Run.exec step (start Chan.opened)
      [.testFull, .fill (.ofMsg Canmsg.zero), .publish, .readIdle, .clearIdle,
        .testEmpty .writer, .call .writer, .txDone, .takeIrq, .testEmpty .irq, .call .irq,
        .advance .irq, .advance .writer]).map
      (fun s => (s.chan.txq.produced, s.chan.txq.consumed)) = some (1, 2) := by
  decide +kernel

/-! ## A load and `consumed++` as one step -/

/-- The steps where a load goes together with the `consumed++` behind it. -/
def stepFused (s : Handshake t) : TxAct → Option (Handshake t)
  | .call c =>
      (s.step (.call c)).bind fun s' =>
        if s'.cons c = .loaded then s'.step (.advance c) else some s'
  | .advance _ => none
  | a => s.step a

/-- Steps other than a call leave nobody behind a load who was not there before. -/
theorem inLoad_step {a : TxAct} (h : Role s) (hcall : ∀ c, a ≠ .call c)
    (hadv : ∀ c, a ≠ .advance c) (hstep : s.step a = some s') :
    count inLoad s'.cons = count inLoad s.cons := by
  cases a with
  | testFull =>
      obtain ⟨-, -, ⟨-, rfl⟩ | ⟨-, rfl⟩⟩ := step_testFull hstep
      · rfl
      · rfl
  | fill u =>
      obtain ⟨-, m, rfl⟩ := step_fill hstep
      rfl
  | publish =>
      obtain ⟨m, -, rfl⟩ := step_publish hstep
      rfl
  | readIdle =>
      obtain ⟨-, ⟨-, rfl⟩ | ⟨-, rfl⟩⟩ := step_readIdle hstep
      · rfl
      · rfl
  | clearIdle =>
      obtain ⟨hw, rfl⟩ := step_clearIdle hstep
      have hout : s.cons .writer = .out := h.alone (by simp [hw])
      exact count_update_of_eq (by rw [hout]; rfl)
  | testEmpty c =>
      obtain ⟨hpc, ⟨-, rfl⟩ | ⟨-, rfl⟩⟩ := step_testEmpty hstep
      · exact count_update_of_eq (by rw [hpc]; rfl)
      · exact count_update_of_eq (by rw [hpc]; rfl)
  | call c => exact absurd rfl (hcall c)
  | advance c => exact absurd rfl (hadv c)
  | txDone =>
      obtain ⟨-, rfl⟩ := step_txDone hstep
      rfl
  | takeIrq =>
      obtain ⟨hpc, -, rfl⟩ := step_takeIrq hstep
      exact count_update_of_eq (by rw [hpc]; rfl)
  | fireTimer =>
      obtain ⟨hpc, -, rfl⟩ := step_fireTimer hstep
      exact count_update_of_eq (by rw [hpc]; rfl)

/-- A fused step passes the role on and leaves nobody behind a load. -/
theorem Role.stepFused {a : TxAct} (h : Role s) (hnone : count inLoad s.cons = 0)
    (hstep : s.stepFused a = some s') : Role s' ∧ count inLoad s'.cons = 0 := by
  have hguard : s.undisturbed .takeIrq = true := by
    simpa [undisturbed] using hnone
  have hplain : ∀ b, (∀ c, b ≠ .call c) → (∀ c, b ≠ .advance c) → s.undisturbed b = true →
      s.step b = some s' → Role s' ∧ count inLoad s'.cons = 0 := by
    intro b hcall hadv hb hb'
    exact ⟨h.step hb hb', (inLoad_step h hcall hadv hb').trans hnone⟩
  cases a with
  | call c =>
      simp only [Handshake.stepFused, Option.bind_eq_some_iff] at hstep
      obtain ⟨mid, hcall, hrest⟩ := hstep
      have hmid := h.call hcall
      split at hrest
      · -- a load, and `consumed++` in the same step
        rename_i hpc
        have hone := (hmid.of_loaded hpc).2
        refine ⟨hmid.advance hrest, ?_⟩
        obtain ⟨-, rfl⟩ := step_advance hrest
        have hload := (count_goto hpc .out).2
        simp only [inLoad] at hload
        show count inLoad (Function.update mid.cons c .out) = 0
        omega
      · -- the message waits, and there is nothing to consume
        rename_i hpc
        obtain rfl := Option.some.inj hrest
        obtain ⟨hcalling, ⟨-, rfl⟩ | ⟨-, rfl⟩⟩ := step_call hcall
        · exact ⟨hmid, (count_update_of_eq (by rw [hcalling]; rfl)).trans hnone⟩
        · exact absurd (Function.update_self _ _ _) hpc
  | advance c => cases hstep
  | testFull => exact hplain .testFull (by simp) (by simp) rfl hstep
  | fill u => exact hplain (.fill u) (by simp) (by simp) rfl hstep
  | publish => exact hplain .publish (by simp) (by simp) rfl hstep
  | readIdle => exact hplain .readIdle (by simp) (by simp) rfl hstep
  | clearIdle => exact hplain .clearIdle (by simp) (by simp) rfl hstep
  | testEmpty c => exact hplain (.testEmpty c) (by simp) (by simp) rfl hstep
  | txDone => exact hplain .txDone (by simp) (by simp) rfl hstep
  | takeIrq => exact hplain .takeIrq (by simp) (by simp) hguard hstep
  | fireTimer => exact hplain .fireTimer (by simp) (by simp) rfl hstep

/-- A frame is in the controller, or it has been sent and its interrupt is still to come. -/
def framePending (s : Handshake t) : Bool :=
  s.chan.chip.tx.isSome || isSet s.chan.chip.irq canTransmitInt

/-- A context has taken the role of the consumer and has not given it up. -/
def inQconsume : RolePc → Nat
  | .out => 0
  | .entered | .calling | .loaded => 1

theorem count_inQconsume (cons : Ctx → RolePc) :
    count inQconsume cons = count inRole cons + count inLoad cons := by
  have hpoint : inQconsume = fun pc => inRole pc + inLoad pc := by
    funext pc
    cases pc <;> rfl
  rw [hpoint, count_add]

/-- **The handshake never loses the wake-up and never has two consumers.**  In every
    interleaving exactly one of these holds: the queue is idle, a frame is pending, the timer
    is armed, one context is in the role of the consumer; and an idle queue holds a message
    only while the writer stands between its publish and the clearing of the flag. -/
theorem one_holder {c : Chan (Sja1000 t)} {acts : List TxAct} (hquiet : Quiet c)
    (hrun : Run.exec Handshake.stepFused (start c) acts = some s) :
    s.chan.txq.idle.toNat + s.framePending.toNat + s.chan.timerArmed.toNat +
        count inQconsume s.cons = 1 ∧
      (s.chan.txq.idle = true → s.chan.txq.empty = false →
        s.writer = .published ∨ s.writer = .sawIdle) := by
  have hstart : Role (Handshake.start c) ∧ count inLoad (Handshake.start c).cons = 0 :=
    ⟨Role.start hquiet, rfl⟩
  obtain ⟨hrole, hnone⟩ := Run.exec_invariant
    (P := fun s : Handshake t => Role s ∧ count inLoad s.cons = 0)
    (fun s a s' h hstep => h.1.stepFused h.2 hstep) hstart hrun
  refine ⟨?_, ?_⟩
  · -- nobody is behind a load, so `holders` counts what the statement counts
    have htoken := hrole.token
    rw [holders] at htoken
    rw [count_inQconsume, hnone, framePending]
    -- a frame cannot be pending and sent at once, so the two bits add up
    cases hpend : s.chan.chip.tx.isSome <;>
      cases hbit : isSet s.chan.chip.irq canTransmitInt <;>
      simp only [hpend, hbit, Bool.or_true, Bool.or_false, Bool.toNat_true,
        Bool.toNat_false] at htoken ⊢ <;> omega
  · intro hidle hne
    rcases hrole.idleEmpty hidle with hempty | hw
    · rw [hne] at hempty
      cases hempty
    · exact hw

/-- A message is published and sent, and its interrupt empties the queue. -/
theorem one_holder_sent : ∃ s, Run.exec Handshake.stepFused (start Chan.opened)
    [.testFull, .fill (.ofMsg Canmsg.zero), .publish, .readIdle, .clearIdle,
      .testEmpty .writer, .call .writer, .txDone, .takeIrq, .testEmpty .irq] = some s ∧
    s.chan.txq.idle.toNat + s.framePending.toNat + s.chan.timerArmed.toNat +
        count inQconsume s.cons = 1 ∧
      (s.chan.txq.idle = true → s.chan.txq.empty = false →
        s.writer = .published ∨ s.writer = .sawIdle) := by
  obtain ⟨s, hs⟩ := Option.isSome_iff_exists.mp (show (Run.exec Handshake.stepFused
    (start Chan.opened)
    [.testFull, .fill (.ofMsg Canmsg.zero), .publish, .readIdle, .clearIdle,
      .testEmpty .writer, .call .writer, .txDone, .takeIrq, .testEmpty .irq]).isSome = true by
    decide +kernel)
  exact ⟨s, hs, one_holder quiet_opened hs⟩

end Handshake

end Can4linux
