/-
  Can4linux.Driver

  The driver as a system over any device.  The controller is a `Chip` of which
  nothing is known: between two steps it may be in any state (`DrvOp.device`), and
  what a register reads is whatever it answers.  A result about the runs of this
  system depends on the driver alone.

  An iteration of the interrupt loop consists of four parts; each has one lemma
  that says which part of the channel it may change.
-/

import Can4linux.System

namespace Can4linux

/-- The atomic steps of the driver, its user and the device. -/
inductive DrvOp (σ : Type) where
  /-- a successful `can_open` -/
  | open (env : OpenEnv)
  | close
  | write (accessOk : Bool) (us : List UserMsg)
  | read (accessOk : Bool) (count : Nat)
  | command (cmd : CInt)
  | config (target : CInt) (val1 val2 : CLong)
  /-- user space writes to the arrays of `sysctl.c` -/
  | sysctl (sys : Sysctl)
  /-- one iteration of the interrupt loop, at the given time -/
  | irq (tstamp : Timeval)
  /-- the delay timer runs out -/
  | timer
  /-- the device does something of its own -/
  | device (c : σ)

/-- The step is a `can_close`. -/
def DrvOp.isClose {σ : Type} : DrvOp σ → Bool
  | .close => true
  | _ => false

/-- The step neither opens nor closes the device. -/
def DrvOp.inSession {σ : Type} : DrvOp σ → Bool
  | .open _ | .close => false
  | .write _ _ | .read _ _ | .command _ | .config _ _ _ | .sysctl _ | .irq _ | .timer
  | .device _ => true

variable {σ : Type} [Chip σ] (t : Target)

namespace Chan

/-- A step that needs the device to be open. -/
def ifOpen {σ : Type} (s s' : Chan σ) : Option (Chan σ) := if s.isopen = 1 then some s' else none

/-- One step of the channel. -/
def drive (s : Chan σ) : DrvOp σ → Option (Chan σ)
  | .open env =>
      let r := canOpen t env s
      if r.1 = 0 then some r.2 else none
  | .close => s.ifOpen (canClose t s).2
  | .write accessOk us => s.ifOpen (canWrite t accessOk us s).2
  | .read accessOk count => s.ifOpen (canRead accessOk count s).2.2
  | .command cmd => s.ifOpen (canCommand t cmd s).2
  | .config target val1 val2 => s.ifOpen (canConfig t target val1 val2 s).2
  | .sysctl sys => some { s with sys := sys }
  | .irq tstamp => s.ifOpen (irqIteration t tstamp s)
  | .timer => if s.timerArmed then some (delayedmsgworker t s.disarm) else none
  | .device c => some { s with chip := c }

/-- The steps between an open and the next close. -/
def driveOpen : Chan σ → DrvOp σ → Option (Chan σ) :=
  Run.restrict (drive t) fun _ op => op.inSession = true

omit [Chip σ] in
theorem ifOpen_eq_some {s s' s'' : Chan σ} :
    s.ifOpen s' = some s'' ↔ s.isopen = 1 ∧ s' = s'' := by
  simp [ifOpen]

variable {t} in
theorem drive_timer {s s' : Chan σ} (h : s.drive t .timer = some s') :
    s.timerArmed = true ∧ s' = delayedmsgworker t s.disarm := by
  simp only [drive] at h
  split at h
  · rename_i harmed
    exact ⟨harmed, (Option.some.inj h).symm⟩
  · cases h

variable {t} in
theorem drive_open {s s' : Chan σ} {env : OpenEnv} (h : s.drive t (.open env) = some s') :
    (canOpen t env s).1 = 0 ∧ s' = (canOpen t env s).2 := by
  simp only [drive] at h
  split at h
  · rename_i h0
    exact ⟨h0, (Option.some.inj h).symm⟩
  · cases h

end Chan

/-- The driver has been loaded, and the arrays of `sysctl.c` have been written. -/
def Loaded {σ : Type} (t : Target) (s : Chan σ) : Prop :=
  ∃ minor sys chip, s = { Chan.coreInit t minor sys.irq sys.base chip with sys := sys }

/-- The channel after the first successful `can_open` since the driver was loaded. -/
def FirstOpen (s' : Chan σ) : Prop :=
  ∃ s env, Loaded t s ∧ (canOpen t env s).1 = 0 ∧ s' = (canOpen t env s).2

/-- A state that some run reaches from the loading of the driver. -/
def Reachable (s' : Chan σ) : Prop :=
  ∃ s ops, Loaded t s ∧ Run.exec (Chan.drive t) s ops = some s'

/-- The channel of the AT-CAN-MINI build after its first open. -/
def firstOpened : Chan (Sja1000 .atcanminiPelican) :=
  (canOpen .atcanminiPelican (.granted Canmsg.zero) Chan.unopened).2

/-- A controller of that build which has received one frame. -/
def oneFrame : Sja1000 .atcanminiPelican := Sja1000.started.arrive fun _ => 0

theorem firstOpen_firstOpened : FirstOpen .atcanminiPelican firstOpened :=
  ⟨Chan.unopened, .granted Canmsg.zero, ⟨0, Chan.unopened.sys, Sja1000.powerOn, rfl⟩, by decide,
    rfl⟩

theorem reachable_firstOpened : Reachable .atcanminiPelican firstOpened :=
  ⟨Chan.unopened, [.open (.granted Canmsg.zero)],
    ⟨0, Chan.unopened.sys, Sja1000.powerOn, rfl⟩, rfl⟩

/-! ## The parts of an iteration -/

section Parts

variable (s : Chan σ)

/-- The receive branch produces into the receive queue, and accesses registers. -/
theorem rxIrq_any (irqsrc : U8) (inf : Msginf) :
    (isSet irqsrc canReceiveInt = false ∧ rxIrq t irqsrc inf s = s) ∨
    (isSet irqsrc canReceiveInt = true ∧ ∃ c, rxIrq t irqsrc inf s =
      { rxproduce (readcanmsg t inf) s with chip := c }) := by
  unfold rxIrq
  by_cases hb : isSet irqsrc canReceiveInt = true
  · rw [if_pos hb]
    exact .inr ⟨hb, _, rfl⟩
  · rw [if_neg hb]
    exact .inl ⟨Bool.eq_false_of_not_eq_true hb, rfl⟩

/-- The error-warning branch produces an error message. -/
theorem errWarnIrq_any (irqsrc : U8) (inf : Msginf) :
    (isSet irqsrc canErrorWarnInt = false ∧ errWarnIrq t irqsrc inf s = (irqsrc, inf, s)) ∨
    (isSet irqsrc canErrorWarnInt = true ∧ ∃ src' inf', ∃ c : σ, inf'.tstamp = inf.tstamp ∧
      errWarnIrq t irqsrc inf s = (src', inf', rxproduceErr inf' { s with chip := c })) := by
  unfold errWarnIrq
  by_cases hb : isSet irqsrc canErrorWarnInt = true
  · rw [if_pos hb]
    refine .inr ⟨hb, ?_⟩
    simp only
    split
    · exact ⟨_, inf, _, rfl, rfl⟩
    · refine ⟨irqsrc, ⟨_, inf.tstamp⟩, _, ?_, rfl⟩
      rfl
  · rw [if_neg hb]
    exact .inl ⟨Bool.eq_false_of_not_eq_true hb, rfl⟩

/-- The overrun branch counts, produces an error message, and accesses registers. -/
theorem overrunIrq_any (irqsrc : U8) (inf : Msginf) :
    (isSet irqsrc canOverrunInt = false ∧ overrunIrq t irqsrc inf s = s) ∨
    (isSet irqsrc canOverrunInt = true ∧ ∃ inf' sys, ∃ c c' : σ, inf'.tstamp = inf.tstamp ∧
      overrunIrq t irqsrc inf s =
        { rxproduceErr inf' { s with sys := sys, chip := c } with chip := c' }) := by
  unfold overrunIrq
  by_cases hb : isSet irqsrc canOverrunInt = true
  · rw [if_pos hb]
    refine .inr ⟨hb, ?_⟩
    simp only
    split
    · refine ⟨⟨_, inf.tstamp⟩, _, _, _, ?_, rfl⟩
      rfl
    · exact ⟨inf, _, _, _, rfl, rfl⟩
  · rw [if_neg hb]
    exact .inl ⟨Bool.eq_false_of_not_eq_true hb, rfl⟩

/-- The three things that running the consumer of the transmit queue can do. -/
theorem txConsume_any :
    (s.txq.empty = true ∧ txConsume t s = { s with txq := s.txq.setIdle true }) ∨
    (s.txq.empty = false ∧ ∃ m dw k, txConsume t s =
      { s with txq := s.txq.setHead m, delayedwork := dw, kapi := k }) ∨
    (s.txq.empty = false ∧ ∃ m l c, txConsume t s =
      { s with
        txq := (s.txq.setHead m).advance, txinprogress := 1
        hist := { s.hist with loaded := l }, chip := c }) := by
  cases hempty : s.txq.empty with
  | true =>
      refine .inl ⟨rfl, ?_⟩
      simp [txConsume, MsgQ.qconsume, hempty]
  | false =>
      by_cases hw : waits s.sys.baud s.txq.head.capLength = true
      · obtain ⟨dw, k, hframe⟩ :=
          kapiScheduleDelayed_frame s (remainingDelay s.sys.baud s.txq.head.capLength)
        refine .inr (.inl ⟨rfl, s.txq.head.capLength.clearDelay, dw, k, ?_⟩)
        simp [txConsume, MsgQ.qconsume, hempty, sendcanmsg, hw, hframe]
      · refine .inr (.inr ⟨rfl, s.txq.head.capLength,
          s.hist.loaded ++ [s.txq.head.onWire], loadFrame t s.txq.head.capLength s.chip, ?_⟩)
        simp [txConsume, MsgQ.qconsume, hempty, sendcanmsg, hw]

/-- Running the consumer wakes nobody and leaves the receive queue alone. -/
theorem txConsume_wq : (txConsume t s).wq = s.wq ∧ (txConsume t s).rxq = s.rxq := by
  rcases txConsume_any t s with ⟨-, heq⟩ | ⟨-, m, dw, k, heq⟩ | ⟨-, m, h, c, heq⟩
  · rw [heq]
    exact ⟨rfl, rfl⟩
  · rw [heq]
    exact ⟨rfl, rfl⟩
  · rw [heq]
    exact ⟨rfl, rfl⟩

/-- Running the consumer leaves what concerns reception alone. -/
theorem txConsume_rx : (txConsume t s).rxq = s.rxq ∧ (txConsume t s).rxstatus = s.rxstatus ∧
    (txConsume t s).hist.received = s.hist.received := by
  rcases txConsume_any t s with ⟨-, heq⟩ | ⟨-, m, dw, k, heq⟩ | ⟨-, m, l, c, heq⟩
  · rw [heq]
    exact ⟨rfl, rfl, rfl⟩
  · rw [heq]
    exact ⟨rfl, rfl, rfl⟩
  · rw [heq]
    exact ⟨rfl, rfl, rfl⟩

/-- What the writer does to an idle queue does not concern what has been accepted. -/
theorem kickIdle_accepted : (kickIdle t s).hist.accepted = s.hist.accepted := by
  unfold kickIdle
  split
  · rcases txConsume_any t { s with txq := s.txq.setIdle false } with
      ⟨-, heq⟩ | ⟨-, m, dw, k, heq⟩ | ⟨-, m, l, c, heq⟩
    · rw [heq]
    · rw [heq]
    · rw [heq]
  · rfl

/-- A round of `can_write` that finds the queue full does nothing. -/
theorem writeOne_any (u : UserMsg) :
    (s.txq.full = true ∧ writeOne t u s = (false, s)) ∨
    (s.txq.full = false ∧ writeOne t u s = (true, kickIdle t { s with
      txq := (s.txq.fill (u s.txq.freeSlot)).publish
      hist := { s.hist with accepted := s.hist.accepted ++ [u s.txq.freeSlot] } })) := by
  cases hfull : s.txq.full with
  | true =>
      refine .inl ⟨rfl, ?_⟩
      simp [writeOne, MsgQ.qproduce, hfull]
  | false =>
      refine .inr ⟨rfl, ?_⟩
      simp [writeOne, MsgQ.qproduce, hfull]

end Parts

/-! ## The transmit queue -/

section TxQueue

variable {t} {s : Chan σ}

/-- The consumer takes at most one message, and only an empty queue becomes idle. -/
theorem txConsume_txq (h : s.txq.WF 7) :
    (txConsume t s).txq.WF 7 ∧
      (txConsume t s).txq.qlen.toNat ≤ s.txq.qlen.toNat ∧
      s.txq.qlen.toNat ≤ (txConsume t s).txq.qlen.toNat + 1 ∧
      (s.txq.empty = true → (txConsume t s).txq = s.txq.setIdle true) ∧
      (s.txq.empty = false → (txConsume t s).txq.idle = s.txq.idle) := by
  rcases txConsume_any t s with ⟨hempty, heq⟩ | ⟨hne, m, dw, k, heq⟩ | ⟨hne, m, l, c, heq⟩
  · rw [heq]
    refine ⟨h.setIdle true, Nat.le_refl _, Nat.le_succ _, fun _ => rfl, ?_⟩
    intro hne
    rw [hempty] at hne
    cases hne
  · rw [heq]
    refine ⟨h.setHead m, Nat.le_refl _, Nat.le_succ _, ?_, fun _ => rfl⟩
    intro hempty
    rw [hempty] at hne
    cases hne
  · have hcont : (s.txq.setHead m).contents ≠ [] := by
      rw [h.contents_setHead (MsgQ.contents_ne_nil hne)]
      exact List.cons_ne_nil _ _
    have hlen := MsgQ.qlen_advance_toNat hcont
    have hset : (s.txq.setHead m).qlen = s.txq.qlen := rfl
    rw [hset] at hlen
    rw [heq]
    refine ⟨(h.setHead m).advance hcont, ?_, ?_, ?_, fun _ => rfl⟩
    · show (s.txq.setHead m).advance.qlen.toNat ≤ s.txq.qlen.toNat
      omega
    · show s.txq.qlen.toNat ≤ (s.txq.setHead m).advance.qlen.toNat + 1
      omega
    · intro hempty
      rw [hempty] at hne
      cases hne

/-- A round of `can_write` that finds room adds a message; if the queue was idle, the writer
    runs the consumer, which may take one out again.  Afterwards the queue is not idle. -/
theorem writeOne_txq (h : s.txq.WF 7) (u : UserMsg) (hroom : s.txq.full = false) :
    (writeOne t u s).1 = true ∧ (writeOne t u s).2.txq.WF 7 ∧
      (writeOne t u s).2.txq.idle = false ∧
      s.txq.qlen.toNat ≤ (writeOne t u s).2.txq.qlen.toNat ∧
      (writeOne t u s).2.txq.qlen.toNat ≤ s.txq.qlen.toNat + 1 ∧
      (s.txq.idle = false → (writeOne t u s).2.txq.qlen.toNat = s.txq.qlen.toNat + 1) := by
  have hwf : (s.txq.fill (u s.txq.freeSlot)).publish.WF 7 := (h.fill _).publish hroom
  have hlen : (s.txq.fill (u s.txq.freeSlot)).publish.qlen.toNat = s.txq.qlen.toNat + 1 :=
    MsgQ.qlen_publish_toNat (h.fill (u s.txq.freeSlot))
  rcases writeOne_any t s u with ⟨hfull, -⟩ | ⟨-, heq⟩
  · rw [hroom] at hfull
    cases hfull
  · rw [heq]
    unfold kickIdle
    cases hidle : s.txq.idle with
    | true =>
        rw [if_pos (show (s.txq.fill (u s.txq.freeSlot)).publish.idle = true from hidle)]
        have hne : ((s.txq.fill (u s.txq.freeSlot)).publish.setIdle false).empty = false := by
          apply Bool.eq_false_of_not_eq_true
          intro hempty
          have hzero : (s.txq.fill (u s.txq.freeSlot)).publish.qlen = 0 :=
            MsgQ.empty_iff_qlen.mp hempty
          rw [hzero] at hlen
          exact absurd hlen (Nat.succ_ne_zero _).symm
        obtain ⟨hwf', hle, hge, -, hkeep⟩ := txConsume_txq (t := t)
          (s := { s with
            txq := (s.txq.fill (u s.txq.freeSlot)).publish.setIdle false
            hist := { s.hist with accepted := s.hist.accepted ++ [u s.txq.freeSlot] } })
          (hwf.setIdle false)
        have hsame : ((s.txq.fill (u s.txq.freeSlot)).publish.setIdle false).qlen.toNat =
            s.txq.qlen.toNat + 1 := hlen
        refine ⟨rfl, hwf', hkeep hne, ?_, ?_, fun hf => Bool.noConfusion hf⟩
        · exact Nat.le_of_succ_le_succ (Nat.le_trans (Nat.le_of_eq hsame.symm) hge)
        · exact Nat.le_trans hle (Nat.le_of_eq hsame)
    | false =>
        have hbusy : ¬ (s.txq.fill (u s.txq.freeSlot)).publish.idle = true := by
          show ¬ s.txq.idle = true
          rw [hidle]
          decide
        rw [if_neg hbusy]
        refine ⟨rfl, hwf, hidle, ?_, Nat.le_of_eq hlen, fun _ => hlen⟩
        show s.txq.qlen.toNat ≤ (s.txq.fill (u s.txq.freeSlot)).publish.qlen.toNat
        omega

end TxQueue

/-! ## Both queues -/

/-- Both queues are well formed. -/
structure Sized (s : Chan σ) : Prop where
  rxWf : s.rxq.WF 11
  txWf : s.txq.WF 7

namespace Sized

variable {t} {s s' : Chan σ}

omit [Chip σ] in
/-- Only the queues matter. -/
theorem of_eq (h : Sized s) (hrx : s'.rxq = s.rxq) (htx : s'.txq = s.txq) : Sized s' :=
  ⟨hrx ▸ h.rxWf, htx ▸ h.txWf⟩

omit [Chip σ] in
theorem rxproduce (h : Sized s) (produce : Canmsg → σ → Canmsg × σ) :
    Sized (rxproduce produce s) := by
  cases hfull : s.rxq.full with
  | true =>
      rw [rxproduce_full hfull]
      exact h.of_eq rfl rfl
  | false =>
      rw [rxproduce_room hfull]
      exact ⟨(h.rxWf.fill _).publish hfull, h.txWf⟩

theorem rxIrq (h : Sized s) (irqsrc : U8) (inf : Msginf) : Sized (rxIrq t irqsrc inf s) := by
  rcases rxIrq_any t s irqsrc inf with ⟨-, heq⟩ | ⟨-, c, heq⟩
  · rwa [heq]
  · rw [heq]
    exact (h.rxproduce _).of_eq rfl rfl

theorem errWarnIrq (h : Sized s) (irqsrc : U8) (inf : Msginf) :
    Sized (errWarnIrq t irqsrc inf s).2.2 := by
  rcases errWarnIrq_any t s irqsrc inf with ⟨-, heq⟩ | ⟨-, src', inf', c, -, heq⟩
  · rwa [heq]
  · have hchip : Sized { s with chip := c } := h.of_eq rfl rfl
    rw [heq]
    exact hchip.rxproduce _

theorem overrunIrq (h : Sized s) (irqsrc : U8) (inf : Msginf) :
    Sized (overrunIrq t irqsrc inf s) := by
  rcases overrunIrq_any t s irqsrc inf with ⟨-, heq⟩ | ⟨-, inf', sys, c, c', -, heq⟩
  · rwa [heq]
  · have hchip : Sized { s with sys := sys, chip := c } := h.of_eq rfl rfl
    rw [heq]
    exact (hchip.rxproduce _).of_eq rfl rfl

theorem txConsume (h : Sized s) : Sized (txConsume t s) :=
  ⟨(txConsume_wq t s).2 ▸ h.rxWf, (txConsume_txq h.txWf).1⟩

omit [Chip σ] in
theorem wakeWriters (h : Sized s) : Sized s.wakeWriters := by
  obtain ⟨n, hframe⟩ := wakeWriters_frame s
  exact h.of_eq (by rw [hframe]) (by rw [hframe])

theorem txIrq (h : Sized s) (irqsrc : U8) : Sized (txIrq t irqsrc s) := by
  have hclear : Sized { s with txinprogress := 0 } := h.of_eq rfl rfl
  unfold Can4linux.txIrq
  split
  · exact hclear.txConsume.wakeWriters
  · exact h

theorem irq (h : Sized s) (tstamp : Timeval) : Sized (irqIteration t tstamp s) := by
  have hread : Sized { s with chip := (canIn t .canirq s.chip).2 } := h.of_eq rfl rfl
  unfold irqIteration
  simp only
  split
  · exact hread
  · have hrx := hread.rxIrq (t := t) (canIn t .canirq s.chip).1
      ⟨presetFlags s.rxstatus, tstamp⟩
    exact ((hrx.errWarnIrq _ _).txIrq _).overrunIrq _ _

theorem timer (h : Sized s) : Sized (delayedmsgworker t s.disarm) := by
  obtain ⟨k, hdis⟩ := disarm_frame s
  have hd : Sized s.disarm := h.of_eq (by rw [hdis]) (by rw [hdis])
  exact hd.txConsume.wakeWriters

omit [Chip σ] in
theorem read (h : Sized s) (accessOk : Bool) (count : Nat) :
    Sized (canRead accessOk count s).2.2 := by
  cases accessOk with
  | false => exact h
  | true =>
      obtain ⟨rxq, hs, -, hwf⟩ := readLoop_spec count s
      simp only [canRead, Bool.not_true, Bool.false_eq_true, if_false, hs]
      exact ⟨hwf 11 h.rxWf, h.txWf⟩

theorem writeOne (h : Sized s) (u : UserMsg) : Sized (writeOne t u s).2 := by
  have hrx : (Can4linux.writeOne t u s).2.rxq = s.rxq := by
    rcases writeOne_any t s u with ⟨-, heq⟩ | ⟨-, heq⟩
    · rw [heq]
    · rw [heq]
      unfold kickIdle
      split
      · exact (txConsume_wq t _).2
      · rfl
  refine ⟨hrx ▸ h.rxWf, ?_⟩
  cases hfull : s.txq.full with
  | true =>
      rcases writeOne_any t s u with ⟨-, heq⟩ | ⟨hroom, -⟩
      · rw [heq]
        exact h.txWf
      · rw [hfull] at hroom
        cases hroom
  | false => exact (writeOne_txq h.txWf u hfull).2.1

theorem write (h : Sized s) (accessOk : Bool) (us : List UserMsg) :
    Sized (canWrite t accessOk us s).2 :=
  canWrite_rule (fun u _ hs => hs.writeOne u) h accessOk us

/-- Every step but an open keeps the queues well formed. -/
theorem step (h : Sized s) {op : DrvOp σ} (hop : ∀ env, op ≠ .open env)
    (hstep : s.drive t op = some s') : Sized s' := by
  cases op with
  | «open» env => exact absurd rfl (hop env)
  | close =>
      obtain ⟨hopen, rfl⟩ := Chan.ifOpen_eq_some.mp hstep
      obtain ⟨held, hframe⟩ := canClose_frame t s hopen
      exact h.of_eq (by rw [hframe]) (by rw [hframe])
  | sysctl sys =>
      obtain rfl := Option.some.inj hstep
      exact h.of_eq rfl rfl
  | device c =>
      obtain rfl := Option.some.inj hstep
      exact h.of_eq rfl rfl
  | write accessOk us =>
      obtain ⟨-, rfl⟩ := Chan.ifOpen_eq_some.mp hstep
      exact h.write accessOk us
  | read accessOk count =>
      obtain ⟨-, rfl⟩ := Chan.ifOpen_eq_some.mp hstep
      exact h.read accessOk count
  | command cmd =>
      obtain ⟨-, rfl⟩ := Chan.ifOpen_eq_some.mp hstep
      obtain ⟨held, sys, c, hframe⟩ := canCommand_frame t s cmd
      exact h.of_eq (by rw [hframe]) (by rw [hframe])
  | config target val1 val2 =>
      obtain ⟨-, rfl⟩ := Chan.ifOpen_eq_some.mp hstep
      obtain ⟨sys, c, hframe⟩ := canConfig_frame t s target val1 val2
      exact h.of_eq (by rw [hframe]) (by rw [hframe])
  | irq tstamp =>
      obtain ⟨-, rfl⟩ := Chan.ifOpen_eq_some.mp hstep
      exact h.irq tstamp
  | timer =>
      obtain ⟨-, rfl⟩ := Chan.drive_timer hstep
      exact h.timer

/-- An open sets both sizes and keeps the counters. -/
theorem of_open {env : OpenEnv} (hrx : s.rxq.qlen.toNat ≤ 2 ^ 11)
    (htx : s.txq.qlen.toNat ≤ 2 ^ 7) (h0 : (canOpen t env s).1 = 0) :
    Sized (canOpen t env s).2 := by
  obtain ⟨ri, held, c, rxb, txb, -, -, -, -, hopen⟩ := canOpen_success t s h0
  obtain ⟨h', o, c', hreset⟩ := canChipReset_frame t
    { s with
      isopen := 1, canRange := t.canRange, requestedIrq := ri, wq := 0
      held := held, chip := c
      rxq := (s.rxq.qcreate maxRxBufsize false (some rxb)).1
      txq := (s.txq.qcreate maxTxBufsize true (some txb)).1 }
  have hrxq : (canOpen t env s).2.rxq = (s.rxq.qcreate maxRxBufsize false (some rxb)).1 := by
    rw [hopen, hreset]
    rfl
  have htxq : (canOpen t env s).2.txq = (s.txq.qcreate maxTxBufsize true (some txb)).1 := by
    rw [hopen, hreset]
    rfl
  constructor
  · rw [hrxq]
    exact MsgQ.WF.of_qcreate (by decide) (by decide) false rxb hrx
  · rw [htxq]
    exact MsgQ.WF.of_qcreate (by decide) (by decide) true txb htx

end Sized

/-! ### Every reachable state -/

/-- The device has never been opened. -/
structure Unused (s : Chan σ) : Prop where
  closed : s.isopen ≠ 1
  rx : s.rxq.qlen = 0
  tx : s.txq.qlen = 0
  timer : s.timerArmed = false

section Reachable

variable {t} {s s' : Chan σ}

omit [Chip σ] in
theorem Loaded.unused (h : Loaded t s) : Unused s := by
  obtain ⟨minor, sys, chip, rfl⟩ := h
  exact ⟨show (0 : CInt) ≠ 1 by decide, show MsgQ.zero.qlen = 0 by decide,
    show MsgQ.zero.qlen = 0 by decide, rfl⟩

/-- Before the first open nothing but the device and the arrays changes. -/
theorem Unused.step (h : Unused s) {op : DrvOp σ} (hop : ∀ env, op ≠ .open env)
    (hstep : s.drive t op = some s') : Unused s' := by
  cases op with
  | «open» env => exact absurd rfl (hop env)
  | close | write _ _ | read _ _ | command _ | config _ _ _ | irq _ =>
      exact absurd (Chan.ifOpen_eq_some.mp hstep).1 h.closed
  | timer =>
      have harmed := (Chan.drive_timer hstep).1
      rw [h.timer] at harmed
      cases harmed
  | sysctl sys =>
      obtain rfl := Option.some.inj hstep
      exact ⟨h.closed, h.rx, h.tx, h.timer⟩
  | device c =>
      obtain rfl := Option.some.inj hstep
      exact ⟨h.closed, h.rx, h.tx, h.timer⟩

theorem Reachable.step (h : Reachable t s) {op : DrvOp σ} (hstep : s.drive t op = some s') :
    Reachable t s' := by
  obtain ⟨s₀, ops, h₀, hrun⟩ := h
  refine ⟨s₀, ops ++ [op], h₀, ?_⟩
  rw [Run.exec_append, hrun]
  show (s.drive t op).bind (fun s' => some s') = some s'
  rw [hstep]
  rfl

/-- The queues of a device that has been opened once are well formed for ever. -/
theorem Reachable.sized (h : Reachable t s) (hopen : s.isopen = 1) : Sized s := by
  obtain ⟨s₀, ops, h₀, hrun⟩ := h
  have hinv : Unused s ∨ Sized s := by
    refine Run.exec_invariant (P := fun s => Unused s ∨ Sized s) ?_ (.inl h₀.unused) hrun
    intro s op s' hs hstep
    by_cases hop : ∃ env, op = .open env
    · obtain ⟨env, rfl⟩ := hop
      obtain ⟨h0, rfl⟩ := Chan.drive_open hstep
      rcases hs with hun | hsized
      · exact .inr (Sized.of_open (by simp [hun.rx]) (by simp [hun.tx]) h0)
      · exact .inr (Sized.of_open hsized.rxWf.bound hsized.txWf.bound h0)
    · have hne : ∀ env, op ≠ .open env := fun env he => hop ⟨env, he⟩
      rcases hs with hun | hsized
      · exact .inl (hun.step hne hstep)
      · exact .inr (hsized.step hne hstep)
  rcases hinv with hun | hsized
  · exact absurd hopen hun.closed
  · exact hsized

/-- The queues between the first open and the next close. -/
theorem FirstOpen.sized {s₀ : Chan σ} {ops : List (DrvOp σ)} (h₀ : FirstOpen t s₀)
    (hrun : Run.exec (Chan.driveOpen t) s₀ ops = some s) : Sized s := by
  obtain ⟨s₁, env, h₁, h0, rfl⟩ := h₀
  have hun := h₁.unused
  have hopened : Sized (canOpen t env s₁).2 :=
    Sized.of_open (by simp [hun.rx]) (by simp [hun.tx]) h0
  refine Run.exec_invariant (P := Sized) ?_ hopened hrun
  intro s op s' hs hstep
  obtain ⟨hop, hstep⟩ := Run.restrict_eq_some.mp hstep
  refine hs.step ?_ hstep
  rintro env rfl
  cases hop

end Reachable

end Can4linux
