/-
  Can4linux.TxHandshake

  The transmit queue step by step.  Three contexts run `qconsume` on it: a
  writer that found it idle, the transmit interrupt and the delay timer.  Any
  step of one may fall between any two steps of another; what is atomic is the
  locked part of `qproduce` and `qconsume`, one access to `idle`, and one call
  of `sendcanmsg`.

  Between `sendcanmsg` and `consumed++` a context still has its message in the
  queue while the frame is already in the controller (`RolePc.loaded`).
-/

import Can4linux.Lib.Count
import Can4linux.TxProgress

namespace Can4linux

open Count

/-! ## Contexts and program counters -/

/-- The contexts that run `qconsume` on the transmit queue. -/
inductive Ctx where
  | writer
  | irq
  | timer
deriving DecidableEq

instance : Fintype Ctx := ⟨{.writer, .irq, .timer}, fun c => by cases c <;> decide⟩

/-- Where a context stands in `qconsume`. -/
inductive RolePc where
  | out
  /-- before the empty test -/
  | entered
  /-- the empty test found a message; `sendcanmsg` has not run yet -/
  | calling
  /-- the transmission is requested; `consumed++` is still to come -/
  | loaded
deriving DecidableEq

/-- Where the writer stands in a round of `can_write`. -/
inductive WriterPc where
  | out
  /-- the full test found room -/
  | room
  /-- the slot holds `m`; `produced++` is still to come -/
  | filled (m : Canmsg)
  /-- the message is published; `idle` has not been read yet -/
  | published
  /-- `idle` was read as 1 and is still to be cleared -/
  | sawIdle
deriving DecidableEq

/-- The channel and the program counters. -/
structure Handshake (t : Target) where
  chan : Chan (Sja1000 t)
  writer : WriterPc
  cons : Ctx → RolePc

/-- The atomic steps. -/
inductive TxAct where
  | testFull
  | fill (u : UserMsg)
  | publish
  | readIdle
  | clearIdle
  | testEmpty (c : Ctx)
  | call (c : Ctx)
  | advance (c : Ctx)
  /-- the controller has sent the pending frame -/
  | txDone
  /-- the handler finds the transmit bit set and enters `qconsume` -/
  | takeIrq
  /-- the timer runs out and `delayedmsgworker` enters `qconsume` -/
  | fireTimer

namespace Handshake

variable {t : Target}

/-- Context `c` goes on to `pc`. -/
def goto (s : Handshake t) (c : Ctx) (pc : RolePc) : Handshake t :=
  { s with cons := Function.update s.cons c pc }

/-- One step. -/
def step (s : Handshake t) : TxAct → Option (Handshake t)
  | .testFull =>
      -- a round begins when the `qconsume` of the last one has returned
      if s.writer = .out ∧ s.cons .writer = .out then
        some (if s.chan.txq.full then s else { s with writer := .room })
      else none
  | .fill u =>
      if s.writer = .room then
        let m := u s.chan.txq.freeSlot
        some { s with writer := .filled m, chan := { s.chan with txq := s.chan.txq.fill m } }
      else none
  | .publish =>
      match s.writer with
      | .filled m =>
          some { s with
            writer := .published
            chan := { s.chan with
              txq := s.chan.txq.publish
              hist := { s.chan.hist with accepted := s.chan.hist.accepted ++ [m] } } }
      | _ => none
  | .readIdle =>
      if s.writer = .published then
        some { s with writer := if s.chan.txq.idle then .sawIdle else .out }
      else none
  | .clearIdle =>
      if s.writer = .sawIdle then
        some { s.goto .writer .entered with
          writer := .out, chan := { s.chan with txq := s.chan.txq.setIdle false } }
      else none
  | .testEmpty c =>
      if s.cons c = .entered then
        some (if s.chan.txq.empty then
          { s.goto c .out with chan := { s.chan with txq := s.chan.txq.setIdle true } }
        else s.goto c .calling)
      else none
  | .call c =>
      if s.cons c = .calling then
        -- the callback gets the slot: what it wrote stays there
        let r := sendcanmsg t s.chan.txq.head s.chan
        some { s.goto c (if r.2.1 then .loaded else .out) with
          chan := { r.2.2 with txq := s.chan.txq.setHead r.1 } }
      else none
  | .advance c =>
      if s.cons c = .loaded then
        some { s.goto c .out with chan := { s.chan with txq := s.chan.txq.advance } }
      else none
  | .txDone => s.chan.chip.txDone.map fun chip => { s with chan := { s.chan with chip := chip } }
  | .takeIrq =>
      let rd := canIn t .canirq s.chan.chip
      if s.cons .irq = .out ∧ isSet rd.1 canTransmitInt then
        some { s.goto .irq .entered with
          chan := { s.chan with chip := rd.2, txinprogress := 0 } }
      else none
  | .fireTimer =>
      if s.cons .timer = .out ∧ s.chan.timerArmed then
        some { s.goto .timer .entered with chan := s.chan.disarm }
      else none

/-- All contexts are outside. -/
def start (chan : Chan (Sja1000 t)) : Handshake t := ⟨chan, .out, fun _ => .out⟩

/-! ## What one step does -/

variable {s s' : Handshake t}

theorem step_testFull (h : s.step .testFull = some s') :
    s.writer = .out ∧ s.cons .writer = .out ∧ ((s.chan.txq.full = true ∧ s' = s) ∨
      (s.chan.txq.full = false ∧ s' = { s with writer := .room })) := by
  simp only [step] at h
  split at h
  · rename_i hpc
    obtain rfl := Option.some.inj h
    cases hfull : s.chan.txq.full with
    | true => exact ⟨hpc.1, hpc.2, .inl ⟨rfl, rfl⟩⟩
    | false => exact ⟨hpc.1, hpc.2, .inr ⟨rfl, rfl⟩⟩
  · cases h

theorem step_fill {u : UserMsg} (h : s.step (.fill u) = some s') :
    s.writer = .room ∧ ∃ m, s' = { s with
      writer := .filled m, chan := { s.chan with txq := s.chan.txq.fill m } } := by
  simp only [step] at h
  split at h
  · rename_i hpc
    exact ⟨hpc, _, (Option.some.inj h).symm⟩
  · cases h

theorem step_publish (h : s.step .publish = some s') :
    ∃ m, s.writer = .filled m ∧ s' = { s with
      writer := .published
      chan := { s.chan with
        txq := s.chan.txq.publish
        hist := { s.chan.hist with accepted := s.chan.hist.accepted ++ [m] } } } := by
  simp only [step] at h
  split at h
  · rename_i m hpc
    exact ⟨m, hpc, (Option.some.inj h).symm⟩
  · cases h

theorem step_readIdle (h : s.step .readIdle = some s') :
    s.writer = .published ∧
      ((s.chan.txq.idle = true ∧ s' = { s with writer := .sawIdle }) ∨
       (s.chan.txq.idle = false ∧ s' = { s with writer := .out })) := by
  simp only [step] at h
  split at h
  · rename_i hpc
    obtain rfl := Option.some.inj h
    cases hidle : s.chan.txq.idle with
    | true => exact ⟨hpc, .inl ⟨rfl, rfl⟩⟩
    | false => exact ⟨hpc, .inr ⟨rfl, rfl⟩⟩
  · cases h

theorem step_clearIdle (h : s.step .clearIdle = some s') :
    s.writer = .sawIdle ∧ s' = { s.goto .writer .entered with
      writer := .out, chan := { s.chan with txq := s.chan.txq.setIdle false } } := by
  simp only [step] at h
  split at h
  · rename_i hpc
    exact ⟨hpc, (Option.some.inj h).symm⟩
  · cases h

theorem step_testEmpty {c : Ctx} (h : s.step (.testEmpty c) = some s') :
    s.cons c = .entered ∧
      ((s.chan.txq.empty = true ∧ s' =
          { s.goto c .out with chan := { s.chan with txq := s.chan.txq.setIdle true } }) ∨
       (s.chan.txq.empty = false ∧ s' = s.goto c .calling)) := by
  simp only [step] at h
  split at h
  · rename_i hpc
    obtain rfl := Option.some.inj h
    cases hempty : s.chan.txq.empty with
    | true => exact ⟨hpc, .inl ⟨rfl, rfl⟩⟩
    | false => exact ⟨hpc, .inr ⟨rfl, rfl⟩⟩
  · cases h

/-- `sendcanmsg` arms the timer for the head message, or loads it. -/
theorem step_call {c : Ctx} (h : s.step (.call c) = some s') :
    s.cons c = .calling ∧
      ((s.chan.headWaits = true ∧ s' = { s.goto c .out with
          chan := { s.chan.kapiScheduleDelayed
              (remainingDelay s.chan.sys.baud s.chan.txq.head.capLength) with
            txq := s.chan.txq.setHead s.chan.txq.head.onWire } }) ∨
       (s.chan.headWaits = false ∧ s' = { s.goto c .loaded with
          chan := { s.chan with
            txq := s.chan.txq.setHead s.chan.txq.head.capLength
            txinprogress := 1
            hist := { s.chan.hist with
              loaded := s.chan.hist.loaded ++ [s.chan.txq.head.onWire] }
            chip := s.chan.chip.load s.chan.txq.head.capLength } })) := by
  simp only [step] at h
  split at h
  · rename_i hpc
    refine ⟨hpc, ?_⟩
    cases hw : s.chan.headWaits with
    | true =>
        rw [sendcanmsg_waits s.chan hw] at h
        exact .inl ⟨rfl, (Option.some.inj h).symm⟩
    | false =>
        rw [sendcanmsg_loads s.chan hw] at h
        exact .inr ⟨rfl, (Option.some.inj h).symm⟩
  · cases h

theorem step_advance {c : Ctx} (h : s.step (.advance c) = some s') :
    s.cons c = .loaded ∧ s' =
      { s.goto c .out with chan := { s.chan with txq := s.chan.txq.advance } } := by
  simp only [step] at h
  split at h
  · rename_i hpc
    exact ⟨hpc, (Option.some.inj h).symm⟩
  · cases h

/-- Only a pending frame is sent; then the transmit bit is set. -/
theorem step_txDone (h : s.step .txDone = some s') :
    s.chan.chip.tx.isSome = true ∧ s' = { s with
      chan := s.chan.onChip fun c => { c with tx := none, irq := c.irq ||| canTransmitInt } } := by
  simp only [step, Option.map_eq_some_iff] at h
  obtain ⟨c, hc, rfl⟩ := h
  unfold Sja1000.txDone at hc
  split at hc
  · rename_i f htx
    obtain rfl := Option.some.inj hc
    exact ⟨by rw [htx]; rfl, rfl⟩
  · cases hc

theorem step_takeIrq (h : s.step .takeIrq = some s') :
    s.cons .irq = .out ∧ isSet s.chan.chip.irq canTransmitInt = true ∧
      s' = { s.goto .irq .entered with
        chan := { s.chan with chip := { s.chan.chip with irq := 0 }, txinprogress := 0 } } := by
  simp only [step, Sja1000.canIn_canirq, s.chan.chip.irqBits_latched (.inr (.inl rfl))] at h
  split at h
  · rename_i hpc
    exact ⟨hpc.1, hpc.2, (Option.some.inj h).symm⟩
  · cases h

theorem step_fireTimer (h : s.step .fireTimer = some s') :
    s.cons .timer = .out ∧ s.chan.timerArmed = true ∧
      s' = { s.goto .timer .entered with chan := s.chan.disarm } := by
  simp only [step] at h
  split at h
  · rename_i hpc
    exact ⟨hpc.1, hpc.2, (Option.some.inj h).symm⟩
  · cases h

/-! ## Undisturbed contexts -/

/-- A context that nobody disturbs runs `qconsume`. -/
theorem consume_undisturbed {c : Ctx} (hpc : s.cons c = .entered) :
    ∃ acts, Run.exec step s acts = some { s.goto c .out with chan := txConsume t s.chan } := by
  have hcons : ∀ pc pc' : RolePc,
      Function.update (Function.update s.cons c pc) c pc' = Function.update s.cons c pc' :=
    fun pc pc' => Function.update_idem pc pc' s.cons
  rcases txConsume_cases s.chan with ⟨hempty, heq⟩ | ⟨hne, hw, heq⟩ | ⟨hne, hw, heq⟩
  · refine ⟨[.testEmpty c], ?_⟩
    simp [step, goto, hpc, hempty, heq]
  · refine ⟨[.testEmpty c, .call c], ?_⟩
    simp [step, goto, hpc, hne, heq, hcons, sendcanmsg_waits s.chan hw]
  · refine ⟨[.testEmpty c, .call c, .advance c], ?_⟩
    simp [step, goto, hpc, hne, heq, hcons, sendcanmsg_loads s.chan hw]

/-- A writer that nobody disturbs runs a round of `can_write`. -/
theorem writeOne_undisturbed (u : UserMsg) (hw : s.writer = .out)
    (hpc : s.cons .writer = .out) :
    ∃ acts, Run.exec step s acts = some { s with chan := (writeOne t u s.chan).2 } := by
  obtain ⟨chan, writer, cons⟩ := s
  obtain rfl : writer = .out := hw
  have hpc' : cons .writer = .out := hpc
  cases hfull : chan.txq.full with
  | true =>
      refine ⟨[.testFull], ?_⟩
      simp [step, hpc', hfull, writeOne_full hfull]
  | false =>
      have hround : Run.exec step ⟨chan, .out, cons⟩ [.testFull, .fill u, .publish, .readIdle] =
          some ⟨chan.enqueue u, if chan.txq.idle then .sawIdle else .out, cons⟩ := by
        simp [step, hpc', hfull, Chan.enqueue, MsgQ.fill, MsgQ.publish]
      cases hidle : chan.txq.idle with
      | false =>
          refine ⟨_, hround.trans ?_⟩
          have hbusy : (chan.enqueue u).txq.idle = false := hidle
          simp [hidle, writeOne_room hfull, kickIdle, hbusy]
      | true =>
          have hclear : step ⟨chan.enqueue u, .sawIdle, cons⟩ .clearIdle =
              some ⟨{ chan.enqueue u with txq := (chan.enqueue u).txq.setIdle false }, .out,
                Function.update cons .writer .entered⟩ := rfl
          have henter : Function.update cons Ctx.writer RolePc.entered .writer = .entered :=
            Function.update_self _ _ _
          obtain ⟨acts, hacts⟩ := consume_undisturbed
            (s := ⟨{ chan.enqueue u with txq := (chan.enqueue u).txq.setIdle false }, .out,
              Function.update cons .writer .entered⟩) (c := .writer) henter
          have hback : Function.update (Function.update cons .writer .entered) .writer .out =
              cons := by
            rw [Function.update_idem, ← hpc', Function.update_eq_self]
          -- an idle queue: the writer goes on as the consumer
          refine ⟨[.testFull, .fill u, .publish, .readIdle] ++ .clearIdle :: acts, ?_⟩
          rw [Run.exec_append, hround, hidle, Option.bind_some, if_pos rfl, Run.exec_cons, hclear,
            Option.bind_some, hacts, writeOne_room hfull, kickIdle_enqueue hidle, goto, hback]

/-! ## Counting -/

/-- A context has taken the role of the consumer and has not loaded a frame yet. -/
def inRole : RolePc → Nat
  | .entered | .calling => 1
  | .out | .loaded => 0

/-- A context has loaded a frame that is still in the queue. -/
def inLoad : RolePc → Nat
  | .loaded => 1
  | .out | .entered | .calling => 0

/-- A context that goes on changes both counts by its own share. -/
theorem count_goto {c : Ctx} {old : RolePc} (hpc : s.cons c = old) (pc : RolePc) :
    count inRole (Function.update s.cons c pc) + inRole old = count inRole s.cons + inRole pc ∧
      count inLoad (Function.update s.cons c pc) + inLoad old =
        count inLoad s.cons + inLoad pc := by
  subst hpc
  exact ⟨count_update inRole s.cons c pc, count_update inLoad s.cons c pc⟩

/-- How many hold the role of the consumer: the idle flag, the frame in the controller (still
    pending, or sent with its interrupt latched), the timer, the contexts in the role. -/
def holders (s : Handshake t) : Nat :=
  s.chan.txq.idle.toNat + s.chan.chip.tx.isSome.toNat +
    (isSet s.chan.chip.irq canTransmitInt).toNat + s.chan.timerArmed.toNat +
    count inRole s.cons

/-- The step is not a transmit interrupt taken while a context stands between its
    transmission request and `consumed++`. -/
def undisturbed (s : Handshake t) : TxAct → Bool
  | .takeIrq => count inLoad s.cons = 0
  | _ => true

/-! ## The role of the consumer -/

/-- The role is with exactly one holder. -/
structure Role (s : Handshake t) : Prop where
  token : s.holders = 1
  /-- a context that has loaded a frame leaves the role to the controller -/
  load : count inLoad s.cons ≤
    s.chan.chip.tx.isSome.toNat + (isSet s.chan.chip.irq canTransmitInt).toNat
  alone : s.writer ≠ .out → s.cons .writer = .out
  saw : s.writer = .sawIdle → s.chan.txq.idle = true
  idleEmpty : s.chan.txq.idle = true →
    s.chan.txq.empty = true ∨ s.writer = .published ∨ s.writer = .sawIdle
  operating : s.chan.chip.inReset = false
  slot : s.chan.HasSlot

namespace Role

theorem testFull (h : Role s) (hstep : s.step .testFull = some s') : Role s' := by
  obtain ⟨hw, hc, ⟨-, rfl⟩ | ⟨-, rfl⟩⟩ := step_testFull hstep
  · exact h
  · refine ⟨h.token, h.load, fun _ => hc, ?_, ?_, h.operating, h.slot⟩
    · intro hsaw
      cases hsaw
    · intro hi
      rcases h.idleEmpty hi with hempty | hpub | hsaw
      · exact .inl hempty
      · rw [hw] at hpub
        cases hpub
      · rw [hw] at hsaw
        cases hsaw

theorem fill {u : UserMsg} (h : Role s) (hstep : s.step (.fill u) = some s') : Role s' := by
  obtain ⟨hw, m, rfl⟩ := step_fill hstep
  have hout : s.cons .writer = .out := h.alone (by simp [hw])
  refine ⟨h.token, h.load, fun _ => hout, ?_, ?_, h.operating, h.slot⟩
  · intro hsaw
    cases hsaw
  · intro hi
    rcases h.idleEmpty hi with hempty | hpub | hsaw
    · exact .inl hempty
    · rw [hw] at hpub
      cases hpub
    · rw [hw] at hsaw
      cases hsaw

theorem publish (h : Role s) (hstep : s.step .publish = some s') : Role s' := by
  obtain ⟨m, hw, rfl⟩ := step_publish hstep
  have hout : s.cons .writer = .out := h.alone (by simp [hw])
  refine ⟨h.token, h.load, fun _ => hout, ?_, fun _ => .inr (.inl rfl), h.operating,
    h.slot⟩
  intro hsaw
  cases hsaw

theorem readIdle (h : Role s) (hstep : s.step .readIdle = some s') : Role s' := by
  obtain ⟨hw, ⟨hidle, rfl⟩ | ⟨hidle, rfl⟩⟩ := step_readIdle hstep
  · have hout : s.cons .writer = .out := h.alone (by simp [hw])
    exact ⟨h.token, h.load, fun _ => hout, fun _ => hidle, fun _ => .inr (.inr rfl),
      h.operating, h.slot⟩
  · refine ⟨h.token, h.load, fun hne => absurd rfl hne, ?_, ?_,
      h.operating, h.slot⟩
    · intro hsaw
      cases hsaw
    · intro hi
      have hi' : s.chan.txq.idle = true := hi
      rw [hidle] at hi'
      cases hi'

/-- A writer between two of its own steps is not in `qconsume`, whatever the others do. -/
theorem alone_goto (h : Role s) {c : Ctx} (hpc : s.cons c ≠ .out) (pc : RolePc)
    (hne : s.writer ≠ .out) : Function.update s.cons c pc .writer = .out := by
  have hout := h.alone hne
  have hc : Ctx.writer ≠ c := fun he => hpc (he ▸ hout)
  rw [Function.update_of_ne hc, hout]

/-- Clearing the flag takes the role from it. -/
theorem clearIdle (h : Role s) (hstep : s.step .clearIdle = some s') : Role s' := by
  obtain ⟨hw, rfl⟩ := step_clearIdle hstep
  have hout : s.cons .writer = .out := h.alone (by simp [hw])
  -- the flag is still up: only the writer clears it
  have hidle : s.chan.txq.idle.toNat = 1 := by
    rw [h.saw hw]
    rfl
  obtain ⟨hrole, hload⟩ := count_goto hout .entered
  have htoken := h.token
  have hl := h.load
  simp only [inRole, inLoad] at hrole hload
  rw [holders] at htoken
  refine ⟨?_, ?_, fun hne => absurd rfl hne, ?_, ?_, h.operating, h.slot⟩
  · show 0 + s.chan.chip.tx.isSome.toNat + (isSet s.chan.chip.irq canTransmitInt).toNat +
      s.chan.timerArmed.toNat + count inRole (Function.update s.cons .writer .entered) = 1
    omega
  · show count inLoad (Function.update s.cons .writer .entered) ≤ _
    exact Nat.le_trans (by omega) hl
  · intro hsaw
    cases hsaw
  · intro hi
    cases hi

/-- An empty queue gives the role back to the flag; otherwise the context keeps it. -/
theorem testEmpty {c : Ctx} (h : Role s) (hstep : s.step (.testEmpty c) = some s') :
    Role s' := by
  obtain ⟨hpc, ⟨hempty, rfl⟩ | ⟨-, rfl⟩⟩ := step_testEmpty hstep
  · obtain ⟨hrole, hload⟩ := count_goto hpc .out
    have htoken := h.token
    simp only [inRole, inLoad] at hrole hload
    rw [holders] at htoken
    refine ⟨?_, ?_, ?_, fun _ => rfl, fun _ => .inl hempty, h.operating, h.slot⟩
    · show 1 + s.chan.chip.tx.isSome.toNat + (isSet s.chan.chip.irq canTransmitInt).toNat +
        s.chan.timerArmed.toNat + count inRole (Function.update s.cons c .out) = 1
      omega
    · show count inLoad (Function.update s.cons c .out) ≤ _
      exact Nat.le_trans (by omega) h.load
    · intro hne
      exact h.alone_goto (by simp [hpc]) .out hne
  · obtain ⟨hrole, hload⟩ := count_goto hpc .calling
    have htoken := h.token
    simp only [inRole, inLoad] at hrole hload
    rw [holders] at htoken
    refine ⟨?_, ?_, ?_, h.saw, h.idleEmpty, h.operating, h.slot⟩
    · show s.chan.txq.idle.toNat + s.chan.chip.tx.isSome.toNat +
        (isSet s.chan.chip.irq canTransmitInt).toNat + s.chan.timerArmed.toNat +
          count inRole (Function.update s.cons c .calling) = 1
      omega
    · show count inLoad (Function.update s.cons c .calling) ≤ _
      exact Nat.le_trans (by omega) h.load
    · intro hne
      exact h.alone_goto (by simp [hpc]) .calling hne

/-- A message that waits hands the role to the timer, one that is loaded to the
    controller. -/
theorem call {c : Ctx} (h : Role s) (hstep : s.step (.call c) = some s') : Role s' := by
  obtain ⟨hpc, ⟨-, rfl⟩ | ⟨-, rfl⟩⟩ := step_call hstep
  · obtain ⟨hrole, hload⟩ := count_goto hpc .out
    have htoken := h.token
    simp only [inRole, inLoad] at hrole hload
    rw [holders] at htoken
    -- the timer gets the role that the context gives up
    have harmed := timerArmed_schedule h.slot
      (remainingDelay s.chan.sys.baud s.chan.txq.head.capLength)
    have hslot := hasSlot_schedule h.slot
      (remainingDelay s.chan.sys.baud s.chan.txq.head.capLength)
    obtain ⟨dw, kapi, hframe⟩ := kapiScheduleDelayed_frame s.chan
      (remainingDelay s.chan.sys.baud s.chan.txq.head.capLength)
    rw [hframe] at harmed hslot ⊢
    have harmed' : (Chan.timerArmed { s.chan with delayedwork := dw, kapi := kapi }).toNat = 1 := by
      rw [harmed]
      rfl
    refine ⟨?_, ?_, ?_, h.saw, h.idleEmpty, h.operating, hslot⟩
    · show s.chan.txq.idle.toNat + s.chan.chip.tx.isSome.toNat +
        (isSet s.chan.chip.irq canTransmitInt).toNat +
          (Chan.timerArmed { s.chan with delayedwork := dw, kapi := kapi }).toNat +
          count inRole (Function.update s.cons c .out) = 1
      omega
    · show count inLoad (Function.update s.cons c .out) ≤ _
      exact Nat.le_trans (by omega) h.load
    · intro hne
      exact h.alone_goto (by simp [hpc]) .out hne
  · obtain ⟨hrole, hload⟩ := count_goto hpc .loaded
    have htoken := h.token
    have hl := h.load
    simp only [inRole, inLoad] at hrole hload
    rw [holders] at htoken
    -- the frame gets it, and the context is counted as behind its load
    have hpend : (s.chan.chip.load s.chan.txq.head.capLength).tx.isSome.toNat = 1 := by
      rw [Sja1000.load, h.operating]
      rfl
    have hirq := s.chan.chip.load_irq s.chan.txq.head.capLength
    have hop : (s.chan.chip.load s.chan.txq.head.capLength).inReset = false := by
      rw [Sja1000.inReset, Sja1000.load_mode]
      exact h.operating
    refine ⟨?_, ?_, ?_, h.saw, h.idleEmpty, hop, h.slot⟩
    · show s.chan.txq.idle.toNat +
        (s.chan.chip.load s.chan.txq.head.capLength).tx.isSome.toNat +
        (isSet (s.chan.chip.load s.chan.txq.head.capLength).irq canTransmitInt).toNat +
          s.chan.timerArmed.toNat + count inRole (Function.update s.cons c .loaded) = 1
      rw [hirq]
      omega
    · show count inLoad (Function.update s.cons c .loaded) ≤
        (s.chan.chip.load s.chan.txq.head.capLength).tx.isSome.toNat +
          (isSet (s.chan.chip.load s.chan.txq.head.capLength).irq canTransmitInt).toNat
      rw [hirq]
      omega
    · intro hne
      exact h.alone_goto (by simp [hpc]) .loaded hne

/-- `consumed++` leaves the role with the controller. -/
theorem advance {c : Ctx} (h : Role s) (hstep : s.step (.advance c) = some s') : Role s' := by
  obtain ⟨hpc, rfl⟩ := step_advance hstep
  obtain ⟨hrole, hload⟩ := count_goto hpc .out
  have htoken := h.token
  have hl := h.load
  simp only [inRole, inLoad] at hrole hload
  rw [holders] at htoken
  -- the flag is down: the role is with the controller
  have hbusy : s.chan.txq.idle ≠ true := by
    intro hi
    rw [hi, Bool.toNat_true] at htoken
    omega
  refine ⟨?_, ?_, ?_, h.saw, fun hi => absurd hi hbusy, h.operating, h.slot⟩
  · show s.chan.txq.idle.toNat + s.chan.chip.tx.isSome.toNat +
      (isSet s.chan.chip.irq canTransmitInt).toNat + s.chan.timerArmed.toNat +
        count inRole (Function.update s.cons c .out) = 1
    omega
  · show count inLoad (Function.update s.cons c .out) ≤ _
    exact Nat.le_trans (by omega) h.load
  · intro hne
    exact h.alone_goto (by simp [hpc]) .out hne

/-- A frame that has been sent passes the role to its interrupt. -/
theorem txDone (h : Role s) (hstep : s.step .txDone = some s') : Role s' := by
  obtain ⟨hpend, rfl⟩ := step_txDone hstep
  have htoken := h.token
  have hl := h.load
  rw [holders, hpend, Bool.toNat_true] at htoken
  -- one frame is pending, so no transmit interrupt was latched before
  have hbit : (isSet (s.chan.chip.irq ||| canTransmitInt) canTransmitInt).toNat = 1 := by
    rw [isSet_or_self _ (by decide), Bool.toNat_true]
  refine ⟨?_, ?_, h.alone, h.saw, h.idleEmpty, h.operating, h.slot⟩
  · show s.chan.txq.idle.toNat + 0 +
      (isSet (s.chan.chip.irq ||| canTransmitInt) canTransmitInt).toNat +
        s.chan.timerArmed.toNat + count inRole s.cons = 1
    omega
  · rw [hpend, Bool.toNat_true] at hl
    show count inLoad s.cons ≤
      0 + (isSet (s.chan.chip.irq ||| canTransmitInt) canTransmitInt).toNat
    omega

/-- The transmit interrupt takes the role from the controller, if no context is still busy
    with the frame. -/
theorem takeIrq (h : Role s) (hguard : s.undisturbed .takeIrq = true)
    (hstep : s.step .takeIrq = some s') : Role s' := by
  obtain ⟨hpc, hbit, rfl⟩ := step_takeIrq hstep
  obtain ⟨hrole, hload⟩ := count_goto hpc .entered
  have htoken := h.token
  -- without the guard a context behind its load would be left without its interrupt
  have hnone : count inLoad s.cons = 0 := by
    simpa [undisturbed] using hguard
  simp only [inRole, inLoad] at hrole hload
  rw [holders, hbit, Bool.toNat_true] at htoken
  have hclear : (isSet (0 : U8) canTransmitInt).toNat = 0 := by
    rw [isSet_zero, Bool.toNat_false]
  refine ⟨?_, ?_, ?_, h.saw, h.idleEmpty, h.operating, h.slot⟩
  · show s.chan.txq.idle.toNat + s.chan.chip.tx.isSome.toNat +
      (isSet (0 : U8) canTransmitInt).toNat + s.chan.timerArmed.toNat +
        count inRole (Function.update s.cons .irq .entered) = 1
    omega
  · show count inLoad (Function.update s.cons .irq .entered) ≤ _
    omega
  · intro hne
    show Function.update s.cons .irq .entered .writer = .out
    rw [Function.update_of_ne (by decide)]
    exact h.alone hne

/-- The timer passes the role to its worker. -/
theorem fireTimer (h : Role s) (hstep : s.step .fireTimer = some s') : Role s' := by
  obtain ⟨hpc, harmed, rfl⟩ := step_fireTimer hstep
  obtain ⟨hrole, hload⟩ := count_goto hpc .entered
  have htoken := h.token
  simp only [inRole, inLoad] at hrole hload
  rw [holders, harmed, Bool.toNat_true] at htoken
  have hslot := hasSlot_disarm h.slot
  have hoff := timerArmed_disarm s.chan
  obtain ⟨kapi, hframe⟩ := disarm_frame s.chan
  rw [hframe] at hslot hoff ⊢
  have hoff' : (Chan.timerArmed { s.chan with kapi := kapi }).toNat = 0 := by
    rw [hoff]
    rfl
  refine ⟨?_, ?_, ?_, h.saw, h.idleEmpty, h.operating, hslot⟩
  · show s.chan.txq.idle.toNat + s.chan.chip.tx.isSome.toNat +
      (isSet s.chan.chip.irq canTransmitInt).toNat +
        (Chan.timerArmed { s.chan with kapi := kapi }).toNat +
        count inRole (Function.update s.cons .timer .entered) = 1
    omega
  · show count inLoad (Function.update s.cons .timer .entered) ≤ _
    exact Nat.le_trans (by omega) h.load
  · intro hne
    show Function.update s.cons .timer .entered .writer = .out
    rw [Function.update_of_ne (by decide)]
    exact h.alone hne

/-- Every step passes the role on, if no interrupt disturbs a load. -/
theorem step {a : TxAct} (h : Role s) (hguard : s.undisturbed a = true)
    (hstep : s.step a = some s') : Role s' := by
  cases a with
  | testFull => exact h.testFull hstep
  | fill u => exact h.fill hstep
  | publish => exact h.publish hstep
  | readIdle => exact h.readIdle hstep
  | clearIdle => exact h.clearIdle hstep
  | testEmpty c => exact h.testEmpty hstep
  | call c => exact h.call hstep
  | advance c => exact h.advance hstep
  | txDone => exact h.txDone hstep
  | takeIrq => exact h.takeIrq hguard hstep
  | fireTimer => exact h.fireTimer hstep

end Role

end Handshake

end Can4linux
