/-
  Can4linux.Lifetime

  When the buffers of the two queues exist, and when they are used.

  `can_open` requests the IRQ before it creates the queues, `can_close` frees
  the queues before the IRQ, and nothing ever stops the delay timer.  Here both
  calls run step by step, and a handler or a timer expiry may come between any
  two steps.  `Stage` is how far the call has come; each queue has its buffer in
  a range of stages, and an interrupt or an expiry outside that range uses a
  buffer that is not there.
-/

import Can4linux.Resources

namespace Can4linux

/-! ## The steps of open and close -/

/-- How far `can_open` or `can_close` has come. -/
inductive Stage where
  | closed
  /-- `can_open` has marked the device open -/
  | entered
  | irqRequested
  | rxCreated
  | txCreated
  | chipReset
  | opened
  /-- `can_close` has stopped the chip -/
  | stopped
  | released
  | txFreed
  | rxFreed
  | irqFreed
  /-- `can_open` has failed, and has left the receive or the transmit queue behind -/
  | failed (rx tx : Bool)
deriving DecidableEq

/-- The stages at which `rxq.data` is allocated. -/
def Stage.rxLive : Stage → Bool
  | .rxCreated | .txCreated | .chipReset | .opened | .stopped | .released | .txFreed => true
  | .failed rx _ => rx
  | .closed | .entered | .irqRequested | .rxFreed | .irqFreed => false

/-- The stages at which `txq.data` is allocated. -/
def Stage.txLive : Stage → Bool
  | .txCreated | .chipReset | .opened | .stopped | .released => true
  | .failed _ tx => tx
  | .closed | .entered | .irqRequested | .rxCreated | .txFreed | .rxFreed | .irqFreed => false

/-- A channel, how far its open or close has come, whether `rxq.data` and `txq.data` are
    present, and whether a call has been made on a queue without its buffer. -/
structure Life (t : Target) where
  chan : Chan (Sja1000 t)
  stage : Stage
  rxData : Bool
  txData : Bool
  fault : Bool

variable {t : Target}

namespace Life

/-- The head of `can_open`, up to the checks that come before any request. -/
def enter (s : Life t) : Life t :=
  let c := s.chan.incusers
  if (3#32).ult c.minor then { s with chan := c.decusers }
  else if c.isopen = 1 then { s with chan := c.decusers }
  else
    let c := { c with isopen := 1 }
    if c.sys.base = 0 then { s with chan := c.decusers, stage := .failed false false }
    else { s with chan := c, stage := .entered }

/-- The next step of `can_open`, with the kernel's answers. -/
def opening (env : OpenEnv) (s : Life t) : Option (Life t) :=
  match s.stage with
  | .entered =>
      let vendor := canVendorInit t env s.chan
      if vendor.1.slt 0 then
        some { s with chan := vendor.2.decusers, stage := .failed false false }
      else some { s with chan := { vendor.2 with wq := 0 }, stage := .irqRequested }
  | .irqRequested =>
      let rx := s.chan.rxq.qcreate maxRxBufsize false env.rxBlock
      let c := Chan.holdBuf env.rxBlock { s.chan with rxq := rx.1 }
      if !rx.2 then some { s with chan := c.decusers, stage := .failed false false }
      else some { s with chan := c, rxData := true, stage := .rxCreated }
  | .rxCreated =>
      let tx := s.chan.txq.qcreate maxTxBufsize true env.txBlock
      let c := Chan.holdBuf env.txBlock { s.chan with txq := tx.1 }
      if !tx.2 then some { s with chan := c.decusers, stage := .failed true false }
      else some { s with chan := c, txData := true, stage := .txCreated }
  | .txCreated =>
      let chip := canChipReset t s.chan
      if !chip.1 then some { s with chan := chip.2.decusers, stage := .failed true true }
      else some { s with chan := chip.2, stage := .chipReset }
  | .chipReset => some { s with chan := canStartChip t s.chan, stage := .opened }
  | _ => none

/-- The next step of `can_close`. -/
def closing (s : Life t) : Option (Life t) :=
  match s.stage with
  | .opened => some { s with chan := canStopChip t s.chan, stage := .stopped }
  | .stopped => some { s with chan := releaseRegion t s.chan, stage := .released }
  | .released =>
      some { s with chan := s.chan.qfree s.chan.txq, txData := false, stage := .txFreed }
  | .txFreed =>
      some { s with chan := s.chan.qfree s.chan.rxq, rxData := false, stage := .rxFreed }
  | .rxFreed => some { s with chan := canFreeIrq s.chan, stage := .irqFreed }
  | .irqFreed =>
      if (0#32).slt s.chan.isopen then
        some { s with
          chan := Chan.decusers { s.chan with isopen := s.chan.isopen - 1 }, stage := .closed }
      else some { s with stage := .closed }
  | _ => none

end Life

/-! ## The calls on the queues -/

/-- The two queues of a device. -/
inductive QueueId where
  | rx
  | tx
deriving DecidableEq

/-- The calls of `qproduce` and `qconsume` in an iteration of the interrupt loop, branch by
    branch. -/
def irqCalls (t : Target) (tstamp : Timeval) (s : Chan (Sja1000 t)) : List QueueId :=
  let rd := canIn t .canirq s.chip
  let s := { s with chip := rd.2 }
  if rd.1 = 0 then []
  else
    let inf : Msginf := ⟨presetFlags s.rxstatus, tstamp⟩
    let ew := errWarnIrq t rd.1 inf (rxIrq t rd.1 inf s)
    (if isSet rd.1 canReceiveInt then [.rx] else []) ++
      (if isSet rd.1 canErrorWarnInt then [.rx] else []) ++
      (if isSet ew.1 canTransmitInt then [.tx] else []) ++
      (if isSet ew.1 canOverrunInt then [.rx] else [])

/-- The queues on which a call of `can_write` makes calls. -/
def writeCalls (accessOk : Bool) (us : List UserMsg) : List QueueId :=
  if accessOk && !us.isEmpty then [.tx] else []

/-- The queues on which a call of `can_read` makes calls. -/
def readCalls (accessOk : Bool) (count : Nat) : List QueueId :=
  if accessOk && count != 0 then [.rx] else []

/-! ## The system -/

/-- The atomic steps. -/
inductive LifeOp (t : Target) where
  /-- a process calls `can_open` -/
  | enter
  /-- `can_open` makes its next step -/
  | opening (env : OpenEnv)
  /-- `can_close` makes its next step -/
  | closing
  | write (accessOk : Bool) (us : List UserMsg)
  | read (accessOk : Bool) (count : Nat)
  /-- one iteration of the interrupt loop, at the given time -/
  | irq (tstamp : Timeval)
  /-- the delay timer runs out -/
  | timer
  /-- the controller does something of its own -/
  | device (c : Sja1000 t)

namespace Life

/-- The buffer of a queue is present. -/
def live (s : Life t) : QueueId → Bool
  | .rx => s.rxData
  | .tx => s.txData

/-- Code that makes calls on the queues `qs` has left the channel in state `c`. -/
def calling (s : Life t) (qs : List QueueId) (c : Chan (Sja1000 t)) : Life t :=
  { s with chan := c, fault := s.fault || qs.any fun q => !s.live q }

/-- One step.  The handler runs while the kernel has an IRQ line registered for the device,
    the timer runs out while it is armed. -/
def step (s : Life t) : LifeOp t → Option (Life t)
  | .enter => some s.enter
  | .opening env => s.opening env
  | .closing => s.closing
  | .write accessOk us =>
      if s.stage = .opened then
        some (s.calling (writeCalls accessOk us) (canWrite t accessOk us s.chan).2)
      else none
  | .read accessOk count =>
      if s.stage = .opened then
        some (s.calling (readCalls accessOk count) (canRead accessOk count s.chan).2.2)
      else none
  | .irq tstamp =>
      if s.chan.held.irqs.isEmpty then none
      else some (s.calling (irqCalls t tstamp s.chan) (irqIteration t tstamp s.chan))
  | .timer =>
      if s.chan.timerArmed then
        some (s.calling [.tx] (delayedmsgworker t s.chan.disarm))
      else none
  | .device c => some { s with chan := { s.chan with chip := c } }

/-- The driver has been loaded; the device has not been opened yet. -/
def Initial (s : Life t) : Prop :=
  ∃ chan, Loaded t chan ∧ s = ⟨chan, .closed, false, false, false⟩

end Life

/-! ### The steps make up `can_open` and `can_close` -/

/-- A successful `can_open` that nothing interrupts. -/
theorem opening_undisturbed {s : Life t} {env : OpenEnv} (h : (canOpen t env s.chan).1 = 0) :
    Run.exec Life.step s (.enter :: List.replicate 5 (.opening env)) =
      some { s with
        chan := (canOpen t env s.chan).2, stage := .opened, rxData := true, txData := true } := by
  obtain ⟨hminor, hopen, hbase, hvendor, hfifo, hreset, heq⟩ := canOpen_path t s.chan h
  have hminor' : ¬ (3#32).ult s.chan.incusers.minor = true := Bool.eq_false_iff.mp hminor
  have henter : s.enter = { s with
      chan := { s.chan.incusers with isopen := 1 }, stage := .entered } := by
    unfold Life.enter
    simp only
    rw [if_neg hminor', if_neg (show ¬ s.chan.incusers.isopen = 1 from hopen),
      if_neg (show ¬ s.chan.incusers.sys.base = 0 from hbase)]
  have hnonneg : ¬ (0 : CInt).slt 0 = true := by
    decide
  generalize hv : canVendorInit t env { s.chan.incusers with isopen := 1 } = vendor at *
  rw [canFifoInit_fst, Bool.and_eq_true] at hfifo
  obtain ⟨rxb, hrx⟩ := Option.isSome_iff_exists.mp hfifo.1
  obtain ⟨txb, htx⟩ := Option.isSome_iff_exists.mp hfifo.2
  -- the state of the channel behind each step
  generalize hc : ({ vendor.2 with wq := 0 } : Chan (Sja1000 t)) = c at *
  generalize hc1 : Chan.holdBuf (some rxb)
    { c with rxq := (c.rxq.qcreate maxRxBufsize false (some rxb)).1 } = c1 at *
  generalize hc2 : Chan.holdBuf (some txb)
    { c1 with txq := (c1.txq.qcreate maxTxBufsize true (some txb)).1 } = c2 at *
  have hinit : (canFifoInit env c).2 = c2 := by
    simp only [canFifoInit, hrx, htx, qcreate_snd, Option.isSome_some, Bool.not_true,
      Bool.false_eq_true, if_false, hc1, hc2]
  rw [hinit] at hreset heq
  have hstep1 : Life.step
      { s with chan := { s.chan.incusers with isopen := 1 }, stage := .entered } (.opening env) =
      some { s with chan := c, stage := .irqRequested } := by
    simp only [Life.step, Life.opening, hv, hvendor, if_neg hnonneg, hc]
  have hstep2 : Life.step { s with chan := c, stage := .irqRequested } (.opening env) =
      some { s with chan := c1, stage := .rxCreated, rxData := true } := by
    simp only [Life.step, Life.opening, hrx, qcreate_snd, Option.isSome_some, Bool.not_true,
      Bool.false_eq_true, if_false, hc1]
  have hstep3 : Life.step { s with chan := c1, stage := .rxCreated, rxData := true }
      (.opening env) =
      some { s with chan := c2, stage := .txCreated, rxData := true, txData := true } := by
    simp only [Life.step, Life.opening, htx, qcreate_snd, Option.isSome_some, Bool.not_true,
      Bool.false_eq_true, if_false, hc2]
  have hstep4 : Life.step
      { s with chan := c2, stage := .txCreated, rxData := true, txData := true } (.opening env) =
      some { s with
        chan := (canChipReset t c2).2, stage := .chipReset, rxData := true, txData := true } := by
    simp only [Life.step, Life.opening, hreset, Bool.not_true, Bool.false_eq_true, if_false]
  rw [Run.exec_of_step (congrArg some henter), List.replicate, Run.exec_of_step hstep1,
    List.replicate, Run.exec_of_step hstep2, List.replicate, Run.exec_of_step hstep3,
    List.replicate, Run.exec_of_step hstep4, heq]
  rfl

/-- A `can_close` that nothing interrupts. -/
theorem closing_undisturbed {s : Life t} (hs : s.stage = .opened) :
    Run.exec Life.step s (List.replicate 6 .closing) =
      some { s with
        chan := (canClose t s.chan).2, stage := .closed, rxData := false, txData := false } := by
  have hsteps : Run.exec Life.step s (List.replicate 5 .closing) =
      some { s with
        chan := canFreeIrq (canFifoCleanup (releaseRegion t (canStopChip t s.chan)))
        stage := .irqFreed, rxData := false, txData := false } := by
    simp only [List.replicate, Run.exec_cons, Run.exec_nil, Life.step, Life.closing, hs,
      Option.bind_some, canFifoCleanup]
  rw [show List.replicate 6 LifeOp.closing = List.replicate 5 .closing ++ [.closing] from rfl,
    Run.exec_append, hsteps, canClose]
  simp only [Option.bind_some, Run.exec_cons, Run.exec_nil, Life.step, Life.closing]
  generalize canFreeIrq (canFifoCleanup (releaseRegion t (canStopChip t s.chan))) = c
  split
  · rfl
  · rfl

/-! ## When a step is in time -/

/-- An iteration stores something in the receive queue, or tries to. -/
def Chan.rxSignalled (s : Chan (Sja1000 t)) : Bool :=
  isSet s.chip.irqBits canReceiveInt || isSet s.chip.irqBits canErrorWarnInt ||
    isSet s.chip.irqBits canOverrunInt

/-- An iteration that works on a queue comes at a stage at which its buffer is allocated,
    and so does an expiry of the timer. -/
def Life.InTime (s : Life t) : LifeOp t → Prop
  | .irq _ =>
      (s.chan.rxSignalled = true → s.stage.rxLive = true) ∧
      (s.chan.txSignalled = true → s.stage.txLive = true)
  | .timer => s.stage.txLive = true
  | .enter | .opening _ | .closing | .write _ _ | .read _ _ | .device _ => True

theorem any_call (live : QueueId → Bool) (call : Bool) (q : QueueId) :
    ((if call then [q] else []).any fun q => !live q) = (call && !live q) := by
  cases call with
  | true => exact Bool.or_false _
  | false => rfl

/-- The queues on which an iteration makes calls. -/
theorem irqCalls_any (live : QueueId → Bool) (tstamp : Timeval) (s : Chan (Sja1000 t)) :
    ((irqCalls t tstamp s).any fun q => !live q) = false ↔
      (s.rxSignalled = true → live .rx = true) ∧ (s.txSignalled = true → live .tx = true) := by
  have htx := (errWarnIrq_txSide s
    (rxIrq t s.chip.irqBits ⟨presetFlags s.clearIrq.rxstatus, tstamp⟩ s.clearIrq)
    ⟨presetFlags s.clearIrq.rxstatus, tstamp⟩ (rxIrq_txSide _ _ _)).2
  have hov := errWarnIrq_isSet ⟨presetFlags s.clearIrq.rxstatus, tstamp⟩
    (rxIrq t s.chip.irqBits ⟨presetFlags s.clearIrq.rxstatus, tstamp⟩ s.clearIrq)
    s.chip.irqBits (show canTransmitInt &&& canOverrunInt = 0 by decide)
  have hcalls : irqCalls t tstamp s =
      (if isSet s.chip.irqBits canReceiveInt then [.rx] else []) ++
        (if isSet s.chip.irqBits canErrorWarnInt then [.rx] else []) ++
        (if s.txSignalled then [.tx] else []) ++
        (if isSet s.chip.irqBits canOverrunInt then [.rx] else []) := by
    by_cases hzero : s.chip.irqBits = 0
    · -- nothing is latched, so nothing is signalled
      have hsrc : ∀ (inf : Msginf) (r : Chan (Sja1000 t)),
          (errWarnIrq t s.chip.irqBits inf r).1 = s.chip.irqBits := by
        intro inf r
        rw [errWarnIrq, hzero, isSet_zero, if_neg Bool.false_ne_true]
      rw [hsrc, hzero, isSet_zero] at htx
      rw [← htx, hzero, isSet_zero, isSet_zero, isSet_zero]
      simp only [irqCalls, Sja1000.canIn_canirq, hzero, if_true]
      rfl
    · rw [← htx, ← hov]
      simp only [irqCalls, Sja1000.canIn_canirq, if_neg hzero]
      rfl
  rw [hcalls, List.any_append, List.any_append, List.any_append, any_call, any_call, any_call,
    any_call, Chan.rxSignalled]
  generalize isSet s.chip.irqBits canReceiveInt = rx
  generalize isSet s.chip.irqBits canErrorWarnInt = ew
  generalize isSet s.chip.irqBits canOverrunInt = ov
  generalize s.txSignalled = tx
  generalize live .rx = rxLive
  generalize live .tx = txLive
  revert rx ew ov tx rxLive txLive
  decide

/-! ## What a step preserves -/

/-- The buffers are there at the stages at which they should be, and the device is marked
    open as long as it is not closed. -/
structure Life.Inv (s : Life t) : Prop where
  rx : s.rxData = s.stage.rxLive
  tx : s.txData = s.stage.txLive
  isopen : s.stage ≠ .closed → s.chan.isopen = 1

namespace Life.Inv

variable {s s' : Life t}

theorem of_initial (h : s.Initial) : s.Inv := by
  obtain ⟨chan, -, rfl⟩ := h
  exact ⟨rfl, rfl, fun hne => absurd rfl hne⟩

/-- Code that makes calls on the queues leaves the stage alone. -/
theorem calling (h : s.Inv) (qs : List QueueId) {c : Chan (Sja1000 t)}
    (hc : c.footprint = s.chan.footprint) : (s.calling qs c).Inv :=
  ⟨h.rx, h.tx, fun hne => (congrArg Footprint.isopen hc).trans (h.isopen hne)⟩

theorem enter (h : s.Inv) : s.enter.Inv := by
  unfold Life.enter
  simp only
  split
  · exact ⟨h.rx, h.tx, h.isopen⟩
  · split
    · exact ⟨h.rx, h.tx, h.isopen⟩
    · rename_i hnot
      have hclosed : s.stage = .closed := by
        by_contra hne
        exact hnot (h.isopen hne)
      have hrx : s.rxData = false := h.rx.trans (by rw [hclosed]; rfl)
      have htx : s.txData = false := h.tx.trans (by rw [hclosed]; rfl)
      split
      · exact ⟨hrx, htx, fun _ => rfl⟩
      · exact ⟨hrx, htx, fun _ => rfl⟩

theorem opening (h : s.Inv) {env : OpenEnv} (hstep : s.opening env = some s') : s'.Inv := by
  have hrx := h.rx
  have htx := h.tx
  have hopen := h.isopen
  unfold Life.opening at hstep
  split at hstep
  · -- `CAN_VendorInit`
    rename_i hstage
    rw [hstage] at hrx htx hopen
    have hvendor : (canVendorInit t env s.chan).2.isopen = 1 := by
      obtain ⟨ri, held, c, hframe⟩ := canVendorInit_frame t s.chan env
      rw [hframe]
      exact hopen (by decide)
    simp only at hstep
    split at hstep
    · obtain rfl := Option.some.inj hstep
      exact ⟨hrx, htx, fun _ => hvendor⟩
    · obtain rfl := Option.some.inj hstep
      exact ⟨hrx, htx, fun _ => hvendor⟩
  · -- the receive queue
    rename_i hstage
    rw [hstage] at hrx htx hopen
    obtain ⟨held, hframe⟩ := holdBuf_frame
      { s.chan with rxq := (s.chan.rxq.qcreate maxRxBufsize false env.rxBlock).1 } env.rxBlock
    simp only [hframe] at hstep
    split at hstep
    · obtain rfl := Option.some.inj hstep
      exact ⟨hrx, htx, fun _ => hopen (by decide)⟩
    · obtain rfl := Option.some.inj hstep
      exact ⟨rfl, htx, fun _ => hopen (by decide)⟩
  · -- the transmit queue
    rename_i hstage
    rw [hstage] at hrx htx hopen
    obtain ⟨held, hframe⟩ := holdBuf_frame
      { s.chan with txq := (s.chan.txq.qcreate maxTxBufsize true env.txBlock).1 } env.txBlock
    simp only [hframe] at hstep
    split at hstep
    · obtain rfl := Option.some.inj hstep
      exact ⟨hrx, htx, fun _ => hopen (by decide)⟩
    · obtain rfl := Option.some.inj hstep
      exact ⟨hrx, rfl, fun _ => hopen (by decide)⟩
  · -- the reset of the chip
    rename_i hstage
    rw [hstage] at hrx htx hopen
    obtain ⟨held, o, c, hframe⟩ := canChipReset_frame t s.chan
    simp only [hframe] at hstep
    split at hstep
    · obtain rfl := Option.some.inj hstep
      exact ⟨hrx, htx, fun _ => hopen (by decide)⟩
    · obtain rfl := Option.some.inj hstep
      exact ⟨hrx, htx, fun _ => hopen (by decide)⟩
  · rename_i hstage
    rw [hstage] at hrx htx hopen
    obtain rfl := Option.some.inj hstep
    exact ⟨hrx, htx, fun _ => hopen (by decide)⟩
  · cases hstep

theorem closing (h : s.Inv) (hstep : s.closing = some s') : s'.Inv := by
  have hrx := h.rx
  have htx := h.tx
  have hopen := h.isopen
  unfold Life.closing at hstep
  split at hstep
  · rename_i hstage
    rw [hstage] at hrx htx hopen
    obtain rfl := Option.some.inj hstep
    exact ⟨hrx, htx, fun _ => hopen (by decide)⟩
  · rename_i hstage
    rw [hstage] at hrx htx hopen
    obtain ⟨held, hframe⟩ := releaseRegion_frame s.chan t
    obtain rfl := Option.some.inj hstep
    exact ⟨hrx, htx, fun _ => by rw [hframe]; exact hopen (by decide)⟩
  · rename_i hstage
    rw [hstage] at hrx htx hopen
    obtain ⟨held, hframe⟩ := qfree_frame s.chan s.chan.txq
    obtain rfl := Option.some.inj hstep
    exact ⟨hrx, rfl, fun _ => by rw [hframe]; exact hopen (by decide)⟩
  · rename_i hstage
    rw [hstage] at hrx htx hopen
    obtain ⟨held, hframe⟩ := qfree_frame s.chan s.chan.rxq
    obtain rfl := Option.some.inj hstep
    exact ⟨rfl, htx, fun _ => by rw [hframe]; exact hopen (by decide)⟩
  · rename_i hstage
    rw [hstage] at hrx htx hopen
    obtain rfl := Option.some.inj hstep
    exact ⟨hrx, htx, fun _ => hopen (by decide)⟩
  · rename_i hstage
    rw [hstage] at hrx htx
    split at hstep
    · obtain rfl := Option.some.inj hstep
      exact ⟨hrx, htx, fun hne => absurd rfl hne⟩
    · obtain rfl := Option.some.inj hstep
      exact ⟨hrx, htx, fun hne => absurd rfl hne⟩
  · cases hstep

/-- What each step makes of the state, with the calls it makes on the queues. -/
theorem step (h : s.Inv) {op : LifeOp t} (hstep : s.step op = some s') : s'.Inv := by
  cases op with
  | enter =>
      obtain rfl := Option.some.inj hstep
      exact h.enter
  | opening env => exact h.opening hstep
  | closing => exact h.closing hstep
  | write accessOk us =>
      simp only [Life.step] at hstep
      split at hstep
      · obtain rfl := Option.some.inj hstep
        exact h.calling _ (canWrite_footprint accessOk us s.chan)
      · cases hstep
  | read accessOk count =>
      simp only [Life.step] at hstep
      split at hstep
      · obtain rfl := Option.some.inj hstep
        exact h.calling _ (canRead_footprint accessOk count s.chan)
      · cases hstep
  | irq tstamp =>
      simp only [Life.step] at hstep
      split at hstep
      · cases hstep
      · obtain rfl := Option.some.inj hstep
        exact h.calling _ (irqIteration_footprint tstamp s.chan)
  | timer =>
      simp only [Life.step] at hstep
      split at hstep
      · obtain rfl := Option.some.inj hstep
        exact h.calling _ (timer_footprint s.chan)
      · cases hstep
  | device c =>
      obtain rfl := Option.some.inj hstep
      exact ⟨h.rx, h.tx, h.isopen⟩

end Life.Inv

/-! ## When the buffers are used -/

/-- No step of `can_open` or `can_close` makes a call on a queue. -/
theorem opening_fault {s s' : Life t} {env : OpenEnv} (h : s.opening env = some s') :
    s'.fault = s.fault := by
  unfold Life.opening at h
  simp only at h
  repeat' split at h
  all_goals cases h
  all_goals rfl

theorem closing_fault {s s' : Life t} (h : s.closing = some s') : s'.fault = s.fault := by
  unfold Life.closing at h
  repeat' split at h
  all_goals cases h
  all_goals rfl

theorem enter_fault (s : Life t) : s.enter.fault = s.fault := by
  unfold Life.enter
  simp only
  repeat' split
  all_goals rfl

/-- A step uses a buffer that is not there exactly if it does not come in time. -/
theorem fault_step {s s' : Life t} {op : LifeOp t} (h : s.Inv) (hstep : s.step op = some s') :
    s'.fault = false ↔ s.fault = false ∧ s.InTime op := by
  have hcalling : ∀ (qs : List QueueId) (c : Chan (Sja1000 t)),
      (s.calling qs c).fault = false ↔
        s.fault = false ∧ (qs.any fun q => !s.live q) = false := by
    intro qs c
    exact Bool.or_eq_false_iff
  cases op with
  | enter =>
      obtain rfl := Option.some.inj hstep
      rw [enter_fault]
      exact (and_iff_left trivial).symm
  | opening env =>
      rw [opening_fault hstep]
      exact (and_iff_left trivial).symm
  | closing =>
      rw [closing_fault hstep]
      exact (and_iff_left trivial).symm
  | write accessOk us =>
      simp only [Life.step] at hstep
      split at hstep
      · rename_i hstage
        obtain rfl := Option.some.inj hstep
        have htx : s.txData = true := by rw [h.tx, hstage]; rfl
        rw [hcalling, writeCalls]
        refine and_congr_right fun _ => iff_of_true ?_ trivial
        split
        · simp [Life.live, htx]
        · rfl
      · cases hstep
  | read accessOk count =>
      simp only [Life.step] at hstep
      split at hstep
      · rename_i hstage
        obtain rfl := Option.some.inj hstep
        have hrx : s.rxData = true := by rw [h.rx, hstage]; rfl
        rw [hcalling, readCalls]
        refine and_congr_right fun _ => iff_of_true ?_ trivial
        split
        · simp [Life.live, hrx]
        · rfl
      · cases hstep
  | irq tstamp =>
      simp only [Life.step] at hstep
      split at hstep
      · cases hstep
      · obtain rfl := Option.some.inj hstep
        rw [hcalling, irqCalls_any, Life.InTime, ← h.rx, ← h.tx]
        rfl
  | timer =>
      simp only [Life.step] at hstep
      split at hstep
      · obtain rfl := Option.some.inj hstep
        rw [hcalling, Life.InTime, ← h.tx]
        simp [Life.live]
      · cases hstep
  | device c =>
      obtain rfl := Option.some.inj hstep
      exact (and_iff_left trivial).symm

/-- **When the buffers are used while they are allocated.**  In a run of opens and closes,
    step by step, with writes, reads, interrupts and expiries of the delay timer in between,
    no call is made on a queue without its buffer if and only if every iteration of the
    handler that works on a queue, and every expiry of the timer, comes at a stage between
    the creation and the release of that queue. -/
theorem buffers_live_iff {s₀ s : Life t} {ops : List (LifeOp t)} (h₀ : s₀.Initial)
    (hrun : Run.exec Life.step s₀ ops = some s) :
    s.fault = false ↔ Run.Along Life.step Life.InTime s₀ ops := by
  have hdown : s₀.fault = false := by
    obtain ⟨chan, -, rfl⟩ := h₀
    rfl
  rw [Run.flag_iff_along (I := Life.Inv) (f := Life.fault) (G := Life.InTime)
    (fun s l s' hs hstep => hs.step hstep) (fun s l s' hs hstep => fault_step hs hstep)
    (Life.Inv.of_initial h₀) hrun]
  exact and_iff_right hdown

/-- The AT-CAN-MINI build, loaded. -/
def loadedLife : Life .atcanminiPelican := ⟨Chan.unopened, .closed, false, false, false⟩

theorem loadedLife_initial : loadedLife.Initial :=
  ⟨Chan.unopened, ⟨0, Chan.unopened.sys, Sja1000.powerOn, rfl⟩, rfl⟩

/-- A message to be sent a tenth of a second after the one before it. -/
def delayedMsg : Canmsg := { Canmsg.zero with timestamp := ⟨0, 100000⟩ }

/-- A process opens the device, writes a delayed message and closes the device. -/
def writeDelayedAndClose : List (LifeOp .atcanminiPelican) :=
  .enter :: List.replicate 5 (.opening (.granted Canmsg.zero)) ++
    [.write true [.ofMsg delayedMsg]] ++ List.replicate 6 .closing

/-- The condition over that run. -/
theorem buffers_live_iff_closed : ∃ s,
    Run.exec Life.step loadedLife (writeDelayedAndClose ++ [.timer]) = some s ∧
    (s.fault = false ↔
      Run.Along Life.step Life.InTime loadedLife (writeDelayedAndClose ++ [.timer])) := by
  obtain ⟨s, hs⟩ := Option.isSome_iff_exists.mp
    (show (Run.exec Life.step loadedLife (writeDelayedAndClose ++ [.timer])).isSome = true by
      decide)
  exact ⟨s, hs, buffers_live_iff loadedLife_initial hs⟩

/-- The timer runs out after the close: `delayedmsgworker` consumes from the transmit queue,
    which is not empty and has been freed.  And a frame that comes in when `can_open` has
    requested the IRQ only is stored in a receive queue that has not been created. -/
theorem late_timer_faults :
    loadedLife.Initial ∧
    (Run.exec Life.step loadedLife writeDelayedAndClose).map
      (fun s => (s.stage, s.txData, s.chan.txq.empty, s.fault)) =
      some (.closed, false, false, false) ∧
    (Run.exec Life.step loadedLife (writeDelayedAndClose ++ [.timer])).map Life.fault =
      some true ∧
    (Run.exec Life.step loadedLife
      [.enter, .opening (.granted Canmsg.zero), .device oneFrame, .irq ⟨0, 0⟩]).map
      (fun s => (s.stage, s.rxData, s.chan.rxq.qlen, s.fault)) =
      some (.irqRequested, false, 1, true) :=
  ⟨loadedLife_initial, by decide, by decide, by decide⟩

end Can4linux
