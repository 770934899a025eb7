/-
  Can4linux.Timers

  The functions of the driver and the timer pool.  Two of them have to do with
  it: the consumer of the transmit queue, which may start the timer of the
  device, and the expiry.  All others spare it: they neither read the pool and
  the device's slot in it nor change them.

  So two channels that differ in the pool and the slot go through the driver
  alike, as long as their own timers show the same (`Alike`).
-/

import Can4linux.Lib.Lens
import Can4linux.Faults

namespace Can4linux

variable {σ : Type}

/-- The slot of the device and the pool. -/
def Chan.timers : Lens (Chan σ) (Option Nat × Kapi) where
  get s := (s.delayedwork, s.kapi)
  set p s := { s with delayedwork := p.1, kapi := p.2 }
  get_set _ _ := rfl
  set_get _ := rfl

/-! ## Functions that spare the pool -/

section Spares

theorem spares_onChip (f : σ → σ) : Chan.timers.Spares (Chan.onChip f) := fun _ _ => rfl

theorem spares_wakeUp : Chan.timers.Spares (Chan.wakeUp (σ := σ)) := fun _ _ => rfl

theorem spares_wakeWriters : Chan.timers.Spares (Chan.wakeWriters (σ := σ)) :=
  .ite (c := fun s : Chan σ => s.txq.qlen.sle (s.txq.qsize.sdiv 2)) (fun _ _ => rfl)
    spares_wakeUp .id

variable [Chip σ] (t : Target)

theorem spares_canStopChip : Chan.timers.Spares (canStopChip (σ := σ) t) := spares_onChip _

theorem canChipReset_set (p : Option Nat × Kapi) (s : Chan σ) :
    canChipReset t (Chan.timers.set p s) =
      ((canChipReset t s).1, Chan.timers.set p (canChipReset t s).2) := by
  unfold canChipReset
  show (if !entersReset t s.chip then _ else _) = _
  cases entersReset t s.chip with
  | true => rfl
  | false => rfl

theorem canCommand_set (cmd : CInt) (p : Option Nat × Kapi) (s : Chan σ) :
    canCommand t cmd (Chan.timers.set p s) =
      ((canCommand t cmd s).1, Chan.timers.set p (canCommand t cmd s).2) := by
  unfold canCommand
  rw [canChipReset_set]
  repeat' split
  all_goals rfl

theorem canConfig_set (target : CInt) (val1 val2 : CLong) (p : Option Nat × Kapi) (s : Chan σ) :
    canConfig t target val1 val2 (Chan.timers.set p s) =
      ((canConfig t target val1 val2 s).1,
        Chan.timers.set p (canConfig t target val1 val2 s).2) := by
  unfold canConfig
  repeat' split
  all_goals rfl

/-! ### open and close -/

omit [Chip σ] in
theorem requestRegion_set (env : OpenEnv) (p : Option Nat × Kapi) (s : Chan σ) :
    requestRegion t env (Chan.timers.set p s) =
      (requestRegion t env s).map (Chan.timers.set p) := by
  have hbase : (Chan.timers.set p s).sys.base = s.sys.base := rfl
  have hrange : (Chan.timers.set p s).canRange = s.canRange := rfl
  unfold requestRegion
  rw [hbase, hrange]
  cases t.requestRegion s.sys.base s.canRange with
  | none => rfl
  | some r =>
      cases env.regionFree with
      | false => rfl
      | true => rfl

omit [Chip σ] in
theorem canRequestIrq_set (env : OpenEnv) (p : Option Nat × Kapi) (s : Chan σ) :
    canRequestIrq env (Chan.timers.set p s) =
      (canRequestIrq env s).map (Chan.timers.set p) := by
  unfold canRequestIrq
  cases env.irqFree with
  | false => rfl
  | true => rfl

theorem canVendorInit_set (env : OpenEnv) (p : Option Nat × Kapi) (s : Chan σ) :
    canVendorInit t env (Chan.timers.set p s) =
      ((canVendorInit t env s).1, Chan.timers.set p (canVendorInit t env s).2) := by
  -- the I/O region, then the IRQ line; either may be refused
  have hregion := requestRegion_set t env p { s with canRange := t.canRange }
  have hset : ({ Chan.timers.set p s with canRange := t.canRange } : Chan σ) =
      Chan.timers.set p { s with canRange := t.canRange } := rfl
  unfold canVendorInit
  rw [hset]
  simp only [hregion]
  cases requestRegion t env { s with canRange := t.canRange } with
  | none => rfl
  | some s' =>
      have hirq := canRequestIrq_set env p (s'.onChip (boardReset t s'.sys.base))
      simp only [Option.map_some]
      have hboard : (Chan.timers.set p s').onChip
          (boardReset t (Chan.timers.set p s').sys.base) =
          Chan.timers.set p (s'.onChip (boardReset t s'.sys.base)) := rfl
      have hline : (Chan.timers.set p (s'.onChip (boardReset t s'.sys.base))).sys.irq =
          s'.sys.irq := rfl
      have hline' : (s'.onChip (boardReset t s'.sys.base)).sys.irq = s'.sys.irq := rfl
      rw [hboard, hirq, hline, hline']
      cases (0#32).slt s'.sys.irq with
      | false => rfl
      | true =>
          cases canRequestIrq env (s'.onChip (boardReset t s'.sys.base)) with
          | none => rfl
          | some s'' => rfl

omit [Chip σ] in
theorem spares_holdBuf (block : Option (Nat × (CInt → Canmsg))) :
    Chan.timers.Spares (Chan.holdBuf (σ := σ) block) := by
  intro p s
  cases block <;> rfl

omit [Chip σ] in
theorem canFifoInit_set (env : OpenEnv) (p : Option Nat × Kapi) (s : Chan σ) :
    canFifoInit env (Chan.timers.set p s) =
      ((canFifoInit env s).1, Chan.timers.set p (canFifoInit env s).2) := by
  have htx := fun s : Chan σ => spares_holdBuf env.txBlock p
    { s with txq := (s.txq.qcreate maxTxBufsize true env.txBlock).1 }
  unfold canFifoInit
  generalize hq : s.rxq.qcreate maxRxBufsize false env.rxBlock = q
  have hq' : (Chan.timers.set p s).rxq.qcreate maxRxBufsize false env.rxBlock = q := hq
  have hrx : Chan.holdBuf env.rxBlock { Chan.timers.set p s with rxq := q.1 } =
      Chan.timers.set p (Chan.holdBuf env.rxBlock { s with rxq := q.1 }) :=
    spares_holdBuf env.rxBlock p { s with rxq := q.1 }
  simp only at hrx ⊢
  rw [hq', hrx]
  cases q.2 with
  | false => rfl
  | true => exact Prod.ext rfl (htx _)

theorem openVendor_set (env : OpenEnv) (p : Option Nat × Kapi) (s : Chan σ) :
    openVendor t env (Chan.timers.set p s) =
      ((openVendor t env s).1, Chan.timers.set p (openVendor t env s).2) :=
  canVendorInit_set t env p { s.incusers with isopen := 1 }

theorem openFifo_set (env : OpenEnv) (p : Option Nat × Kapi) (s : Chan σ) :
    openFifo t env (Chan.timers.set p s) =
      ((openFifo t env s).1, Chan.timers.set p (openFifo t env s).2) := by
  unfold openFifo
  rw [openVendor_set]
  exact canFifoInit_set env p { (openVendor t env s).2 with wq := 0 }

theorem openReset_set (env : OpenEnv) (p : Option Nat × Kapi) (s : Chan σ) :
    openReset t env (Chan.timers.set p s) =
      ((openReset t env s).1, Chan.timers.set p (openReset t env s).2) := by
  unfold openReset
  rw [openFifo_set]
  exact canChipReset_set t p (openFifo t env s).2

/-- No exit of `can_open` depends on the pool. -/
theorem canOpen_set (env : OpenEnv) (p : Option Nat × Kapi) (s : Chan σ) :
    canOpen t env (Chan.timers.set p s) =
      ((canOpen t env s).1, Chan.timers.set p (canOpen t env s).2) := by
  have hminor : (Chan.timers.set p s).minor = s.minor := rfl
  have hopen : (Chan.timers.set p s).isopen = s.isopen := rfl
  have hbase : (Chan.timers.set p s).sys.base = s.sys.base := rfl
  rw [canOpen_stages, canOpen_stages, openVendor_set, openFifo_set, openReset_set, hminor, hopen,
    hbase]
  -- the exits in order; each hands on a channel that spares the pool
  by_cases h1 : (3#32).ult s.minor = true
  · rw [if_pos h1, if_pos h1]
    rfl
  by_cases h2 : s.isopen = 1
  · rw [if_neg h1, if_neg h1, if_pos h2, if_pos h2]
    rfl
  by_cases h3 : s.sys.base = 0
  · rw [if_neg h1, if_neg h1, if_neg h2, if_neg h2, if_pos h3, if_pos h3]
    rfl
  rw [if_neg h1, if_neg h1, if_neg h2, if_neg h2, if_neg h3, if_neg h3]
  cases (openVendor t env s).1.slt 0 with
  | true => rfl
  | false =>
      cases (openFifo t env s).1 with
      | false => rfl
      | true =>
          cases (openReset t env s).1 with
          | false => rfl
          | true => rfl

omit [Chip σ] in
theorem spares_releaseRegion : Chan.timers.Spares (releaseRegion (σ := σ) t) := by
  intro p s
  have hbase : (Chan.timers.set p s).sys.base = s.sys.base := rfl
  have hrange : (Chan.timers.set p s).canRange = s.canRange := rfl
  unfold releaseRegion
  rw [hbase, hrange]
  cases t.releaseRegion s.sys.base s.canRange <;> rfl

omit [Chip σ] in
theorem spares_qfree {q : Chan σ → MsgQ Canmsg} (hq : Chan.timers.Ignores q) :
    Chan.timers.Spares fun s => s.qfree (q s) := by
  intro p s
  show (Chan.timers.set p s).qfree (q (Chan.timers.set p s)) = Chan.timers.set p (s.qfree (q s))
  rw [hq p s]
  unfold Chan.qfree
  cases (q s).buf <;> rfl

omit [Chip σ] in
theorem spares_canFifoCleanup : Chan.timers.Spares (canFifoCleanup (σ := σ)) :=
  (spares_qfree (q := fun s => s.rxq) fun _ _ => rfl).comp
    (spares_qfree (q := fun s => s.txq) fun _ _ => rfl)

omit [Chip σ] in
theorem spares_canFreeIrq : Chan.timers.Spares (canFreeIrq (σ := σ)) := fun _ _ => rfl

/-- What `can_close` releases before it looks at the open flag. -/
def closeRelease (s : Chan σ) : Chan σ :=
  canFreeIrq (canFifoCleanup (releaseRegion t (canStopChip t s)))

theorem canClose_stages (s : Chan σ) : canClose t s =
    if (0#32).slt (closeRelease t s).isopen then
      (0, Chan.decusers { closeRelease t s with isopen := (closeRelease t s).isopen - 1 })
    else (ebadf, closeRelease t s) := rfl

theorem spares_closeRelease : Chan.timers.Spares (closeRelease (σ := σ) t) :=
  spares_canFreeIrq.comp (spares_canFifoCleanup.comp
    ((spares_releaseRegion t).comp (spares_canStopChip t)))

theorem canClose_set (p : Option Nat × Kapi) (s : Chan σ) :
    canClose t (Chan.timers.set p s) =
      ((canClose t s).1, Chan.timers.set p (canClose t s).2) := by
  rw [canClose_stages, canClose_stages, spares_closeRelease]
  show (if (0#32).slt (closeRelease t s).isopen then _ else _) = _
  cases (0#32).slt (closeRelease t s).isopen <;> rfl

/-! ### read and ioctl -/

omit [Chip σ] in
theorem readLoop_set (n : Nat) (p : Option Nat × Kapi) (s : Chan σ) :
    readLoop n (Chan.timers.set p s) =
      ((readLoop n s).1, Chan.timers.set p (readLoop n s).2) := by
  induction n generalizing s with
  | zero => rfl
  | succ n ih =>
      have hone : readOne (Chan.timers.set p s) =
        ((readOne s).1, Chan.timers.set p (readOne s).2) := rfl
      simp only [readLoop, hone]
      cases (readOne s).1 with
      | none => rfl
      | some m => simp only [ih]

omit [Chip σ] in
theorem canRead_set (accessOk : Bool) (count : Nat) (p : Option Nat × Kapi) (s : Chan σ) :
    canRead accessOk count (Chan.timers.set p s) =
      ((canRead accessOk count s).1, (canRead accessOk count s).2.1,
        Chan.timers.set p (canRead accessOk count s).2.2) := by
  unfold canRead
  rw [readLoop_set]
  cases accessOk <;> rfl

theorem canIoctl_set (cmd : CInt) (env : IoctlEnv) (p : Option Nat × Kapi) (s : Chan σ) :
    canIoctl t cmd env (Chan.timers.set p s) =
      ((canIoctl t cmd env s).1, (canIoctl t cmd env s).2.1,
        Chan.timers.set p (canIoctl t cmd env s).2.2) := by
  have hstat : ∀ stat, canGetStat t stat (Chan.timers.set p s) =
      ((canGetStat t stat s).1, (canGetStat t stat s).2.1,
        Chan.timers.set p (canGetStat t stat s).2.2) := fun _ => rfl
  -- the answers of the copies do not depend on the pool either
  unfold canIoctl
  simp only [canCommand_set, canConfig_set, hstat]
  repeat' split
  all_goals rfl

/-! ### Interrupts -/

omit [Chip σ] in
theorem spares_rxproduce (produce : Canmsg → σ → Canmsg × σ) :
    Chan.timers.Spares (rxproduce produce) := by
  intro p s
  cases hfull : s.rxq.full with
  | true =>
      rw [rxproduce_full hfull, rxproduce_full (s := Chan.timers.set p s) hfull]
      rfl
  | false =>
      rw [rxproduce_room hfull, rxproduce_room (s := Chan.timers.set p s) hfull]
      rfl

theorem spares_rxIrq (irqsrc : U8) (inf : Msginf) :
    Chan.timers.Spares (rxIrq (σ := σ) t irqsrc inf) := by
  intro p s
  unfold rxIrq
  rw [spares_rxproduce]
  cases isSet irqsrc canReceiveInt <;> rfl

theorem errWarnIrq_set (irqsrc : U8) (inf : Msginf) (p : Option Nat × Kapi) (s : Chan σ) :
    errWarnIrq t irqsrc inf (Chan.timers.set p s) =
      ((errWarnIrq t irqsrc inf s).1, (errWarnIrq t irqsrc inf s).2.1,
        Chan.timers.set p (errWarnIrq t irqsrc inf s).2.2) := by
  have herr : ∀ (inf : Msginf) (c : σ),
      rxproduceErr inf { Chan.timers.set p s with chip := c } =
        Chan.timers.set p (rxproduceErr inf { s with chip := c }) :=
    fun inf c => spares_rxproduce _ p { s with chip := c }
  have hchip : (Chan.timers.set p s).chip = s.chip := rfl
  have hprog : (Chan.timers.set p s).txinprogress = s.txinprogress := rfl
  unfold errWarnIrq
  simp only [hchip, hprog] at herr ⊢
  simp only [herr]
  cases isSet irqsrc canErrorWarnInt with
  | false => rfl
  | true =>
      simp only [if_true]
      split
      · rfl
      · rfl

theorem spares_overrunIrq (irqsrc : U8) (inf : Msginf) :
    Chan.timers.Spares (overrunIrq (σ := σ) t irqsrc inf) := by
  intro p s
  have herr : ∀ (inf : Msginf) (c : σ) (sys : Sysctl),
      rxproduceErr inf { Chan.timers.set p s with chip := c, sys := sys } =
        Chan.timers.set p (rxproduceErr inf { s with chip := c, sys := sys }) :=
    fun inf c sys => spares_rxproduce _ p { s with chip := c, sys := sys }
  have hchip : (Chan.timers.set p s).chip = s.chip := rfl
  have hsys : (Chan.timers.set p s).sys = s.sys := rfl
  unfold overrunIrq
  simp only [hchip, hsys] at herr ⊢
  simp only [herr]
  cases isSet irqsrc canOverrunInt <;> rfl

end Spares

/-! ## Starting the timer, and its expiry -/

/-- What the device's own timer shows; a device without a slot has none. -/
def Chan.timer (s : Chan σ) : Option Delayed := s.delayedwork.map s.kapi.dly

section Schedule

variable (s : Chan σ)

/-- Starting the timer changes nothing but the pool and the slot. -/
theorem kapiScheduleDelayed_set (usec : CInt) : s.kapiScheduleDelayed usec =
    Chan.timers.set (Chan.timers.get (s.kapiScheduleDelayed usec)) s := by
  obtain ⟨dw, k, hframe⟩ := kapiScheduleDelayed_frame s usec
  rw [hframe]
  rfl

theorem disarm_set : s.disarm = Chan.timers.set (Chan.timers.get s.disarm) s := by
  obtain ⟨k, hframe⟩ := disarm_frame s
  rw [hframe]
  rfl

/-- A device that finds a slot has its timer started. -/
theorem timer_kapiScheduleDelayed {s : Chan σ} (h : s.HasSlot) (usec : CInt) :
    (s.kapiScheduleDelayed usec).timer =
      some ⟨s.minor, some ((usec * 1000).signExtend 64)⟩ := by
  unfold Chan.kapiScheduleDelayed Chan.timer
  cases hdw : s.delayedwork with
  | none =>
      have hroom := h hdw
      simp [hroom]
  | some i => simp [Chan.setTimer, hdw]

/-- The expiry leaves the timer unarmed. -/
theorem timer_disarm : s.disarm.timer = s.timer.map fun d => { d with expires := none } := by
  unfold Chan.disarm Chan.timer
  cases hdw : s.delayedwork with
  | none => simp [hdw]
  | some i => simp [Chan.setTimer, hdw]

theorem timerArmed_eq : s.timerArmed = s.timer.any fun d => d.expires.isSome := by
  unfold Chan.timerArmed Chan.timer
  cases s.delayedwork <;> rfl

/-- Whether there is a slot for the device depends on the pool and its slot only. -/
theorem hasSlot_of_get {s s' : Chan σ} (h : s.HasSlot)
    (hget : Chan.timers.get s' = Chan.timers.get s) : s'.HasSlot := by
  simp only [Chan.timers, Prod.mk.injEq] at hget
  unfold Chan.HasSlot at h ⊢
  rwa [hget.1, hget.2]

/-- A device keeps its slot. -/
theorem hasSlot_kapiScheduleDelayed {s : Chan σ} (h : s.HasSlot) (usec : CInt) :
    (s.kapiScheduleDelayed usec).HasSlot := by
  unfold Chan.kapiScheduleDelayed
  cases hdw : s.delayedwork with
  | none =>
      have hroom := h hdw
      simp [Chan.HasSlot, hroom]
  | some i => simp [Chan.HasSlot, Chan.setTimer, hdw]

theorem hasSlot_disarm_any {s : Chan σ} (h : s.HasSlot) : s.disarm.HasSlot := by
  unfold Chan.disarm
  cases hdw : s.delayedwork with
  | none => exact h
  | some i => simp [Chan.HasSlot, Chan.setTimer, hdw]

end Schedule

/-! ## Channels that differ in the pool and the slot -/

/-- The channels are the same but for the pool and the slot, in which both have or find a
    slot, and show the same timer. -/
structure Alike (s u : Chan σ) : Prop where
  frame : ∃ p, u = Chan.timers.set p s
  timer : u.timer = s.timer
  left : s.HasSlot
  right : u.HasSlot

namespace Alike

variable {s u : Chan σ}

theorem refl (h : s.HasSlot) : Alike s s := ⟨⟨_, (Chan.timers.set_get s).symm⟩, rfl, h, h⟩

/-- An answer that does not depend on the pool. -/
theorem ignores {α : Type*} (h : Alike s u) {f : Chan σ → α} (hf : Chan.timers.Ignores f) :
    f u = f s := by
  obtain ⟨p, rfl⟩ := h.frame
  exact hf p s

/-- What a function that spares the pool does to both. -/
theorem map (h : Alike s u) {f : Chan σ → Chan σ} (hf : Chan.timers.Spares f) :
    Alike (f s) (f u) := by
  have hu := hf.get_eq u
  have hs := hf.get_eq s
  refine ⟨?_, ?_, hasSlot_of_get h.left hs, hasSlot_of_get h.right hu⟩
  · obtain ⟨p, rfl⟩ := h.frame
    exact ⟨p, hf p s⟩
  · have htimer := h.timer
    simp only [Chan.timers, Prod.mk.injEq] at hu hs
    unfold Chan.timer at htimer ⊢
    rw [hu.1, hu.2, hs.1, hs.2]
    exact htimer

/-- A function that changes the pool and the slot only, and sets the same timer. -/
theorem replace (h : Alike s u) {f : Chan σ → Chan σ}
    (hf : ∀ s, f s = Chan.timers.set (Chan.timers.get (f s)) s)
    (htimer : (f u).timer = (f s).timer) (hs : (f s).HasSlot) (hu : (f u).HasSlot) :
    Alike (f s) (f u) := by
  refine ⟨⟨Chan.timers.get (f u), ?_⟩, htimer, hs, hu⟩
  obtain ⟨p, heq⟩ := h.frame
  rw [hf s]
  calc f u = Chan.timers.set (Chan.timers.get (f u)) u := hf u
    _ = Chan.timers.set (Chan.timers.get (f u)) (Chan.timers.set p s) := by rw [← heq]

theorem kapiScheduleDelayed (h : Alike s u) (usec : CInt) :
    Alike (s.kapiScheduleDelayed usec) (u.kapiScheduleDelayed usec) := by
  have hminor : u.minor = s.minor := h.ignores (f := fun s => s.minor) fun _ _ => rfl
  refine h.replace (f := fun s => s.kapiScheduleDelayed usec)
    (fun s => kapiScheduleDelayed_set s usec) ?_ (hasSlot_kapiScheduleDelayed h.left usec)
    (hasSlot_kapiScheduleDelayed h.right usec)
  rw [timer_kapiScheduleDelayed h.right, timer_kapiScheduleDelayed h.left, hminor]

theorem disarm (h : Alike s u) : Alike s.disarm u.disarm := by
  refine h.replace (f := Chan.disarm) disarm_set ?_ (hasSlot_disarm_any h.left)
    (hasSlot_disarm_any h.right)
  rw [timer_disarm, timer_disarm, h.timer]

theorem timerArmed (h : Alike s u) : u.timerArmed = s.timerArmed := by
  rw [timerArmed_eq, timerArmed_eq, h.timer]

end Alike

/-! ### The consumer of the transmit queue -/

section Consume

variable [Chip σ] (t : Target) {s u : Chan σ}

/-- Running the consumer: an empty queue becomes idle, a message that has to wait starts the
    timer, any other is loaded. -/
theorem txConsume_eq (s : Chan σ) : txConsume t s =
    if s.txq.empty then { s with txq := s.txq.setIdle true }
    else if waits s.sys.baud s.txq.head.capLength then
      { s.kapiScheduleDelayed (remainingDelay s.sys.baud s.txq.head.capLength) with
        txq := s.txq.setHead s.txq.head.capLength.clearDelay }
    else
      { s with
        txq := (s.txq.setHead s.txq.head.capLength).advance
        chip := loadFrame t s.txq.head.capLength s.chip
        txinprogress := 1
        hist := { s.hist with loaded := s.hist.loaded ++ [s.txq.head.onWire] } } := by
  unfold txConsume MsgQ.qconsume
  cases s.txq.empty with
  | true => rfl
  | false =>
      cases hw : waits s.sys.baud s.txq.head.capLength with
      | true => simp [sendcanmsg, hw]
      | false => simp [sendcanmsg, hw]

namespace Alike

theorem txConsume (h : Alike s u) : Alike (txConsume t s) (txConsume t u) := by
  have htxq : u.txq = s.txq := h.ignores (f := fun s => s.txq) fun _ _ => rfl
  have hbaud : u.sys.baud = s.sys.baud := h.ignores (f := fun s => s.sys.baud) fun _ _ => rfl
  rw [txConsume_eq, txConsume_eq, htxq, hbaud]
  cases s.txq.empty with
  | true =>
      simp only [if_true]
      exact h.map (f := fun c => { c with txq := s.txq.setIdle true }) fun _ _ => rfl
  | false =>
      rw [if_neg Bool.false_ne_true, if_neg Bool.false_ne_true]
      cases waits s.sys.baud s.txq.head.capLength with
      | true =>
          exact (h.kapiScheduleDelayed (remainingDelay s.sys.baud s.txq.head.capLength)).map
            (f := fun c => { c with txq := s.txq.setHead s.txq.head.capLength.clearDelay })
            fun _ _ => rfl
      | false =>
          rw [if_neg Bool.false_ne_true, if_neg Bool.false_ne_true]
          exact h.map (f := fun c : Chan σ => { c with
            txq := (s.txq.setHead s.txq.head.capLength).advance
            chip := loadFrame t s.txq.head.capLength c.chip
            txinprogress := 1
            hist := { c.hist with loaded := c.hist.loaded ++ [s.txq.head.onWire] } })
            fun _ _ => rfl

theorem delayedmsgworker (h : Alike s u) : Alike (delayedmsgworker t s) (delayedmsgworker t u) :=
  (h.txConsume t).map spares_wakeWriters

theorem txIrq (h : Alike s u) (irqsrc : U8) : Alike (txIrq t irqsrc s) (txIrq t irqsrc u) := by
  have hclear := h.map (f := fun c => { c with txinprogress := 0 }) fun _ _ => rfl
  unfold Can4linux.txIrq
  split
  · exact (hclear.txConsume t).map spares_wakeWriters
  · exact h

/-- The error-warning branch hands the same source and flags on. -/
theorem errWarnIrq (h : Alike s u) (irqsrc : U8) (inf : Msginf) :
    (errWarnIrq t irqsrc inf u).1 = (errWarnIrq t irqsrc inf s).1 ∧
      (errWarnIrq t irqsrc inf u).2.1 = (errWarnIrq t irqsrc inf s).2.1 ∧
      Alike (errWarnIrq t irqsrc inf s).2.2 (errWarnIrq t irqsrc inf u).2.2 := by
  have hset := fun p c => errWarnIrq_set (σ := σ) t irqsrc inf p c
  refine ⟨?_, ?_, ?_⟩
  · exact h.ignores (f := fun c => (Can4linux.errWarnIrq t irqsrc inf c).1)
      fun p c => congrArg (fun r => r.1) (hset p c)
  · exact h.ignores (f := fun c => (Can4linux.errWarnIrq t irqsrc inf c).2.1)
      fun p c => congrArg (fun r => r.2.1) (hset p c)
  · exact h.map (f := fun c => (Can4linux.errWarnIrq t irqsrc inf c).2.2)
      fun p c => congrArg (fun r => r.2.2) (hset p c)

theorem irqBody (h : Alike s u) (tstamp : Timeval) (irqsrc : U8) :
    Alike (irqBody t tstamp irqsrc s) (irqBody t tstamp irqsrc u) := by
  have hstat : u.rxstatus = s.rxstatus := h.ignores (f := fun s => s.rxstatus) fun _ _ => rfl
  obtain ⟨hsrc, hinf, hew⟩ := (h.map (spares_rxIrq t irqsrc
    ⟨presetFlags s.rxstatus, tstamp⟩)).errWarnIrq t irqsrc ⟨presetFlags s.rxstatus, tstamp⟩
  unfold Can4linux.irqBody
  simp only [hstat, hsrc, hinf]
  exact (hew.txIrq t _).map (spares_overrunIrq t _ _)

/-- An iteration of the interrupt loop. -/
theorem irqIteration (h : Alike s u) (tstamp : Timeval) :
    Alike (irqIteration t tstamp s) (irqIteration t tstamp u) := by
  have hchip : u.chip = s.chip := h.ignores (f := fun s => s.chip) fun _ _ => rfl
  have hread := h.map (f := fun c => { c with chip := (canIn t .canirq s.chip).2 }) fun _ _ => rfl
  unfold Can4linux.irqIteration
  simp only [hchip]
  split
  · exact hread
  · exact hread.irqBody t tstamp _

/-- One round of `can_write`. -/
theorem writeOne (h : Alike s u) (m : UserMsg) :
    (writeOne t m u).1 = (writeOne t m s).1 ∧ Alike (writeOne t m s).2 (writeOne t m u).2 := by
  have htxq : u.txq = s.txq := h.ignores (f := fun s => s.txq) fun _ _ => rfl
  rcases writeOne_any t s m with ⟨hfull, hs⟩ | ⟨hroom, hs⟩
  · rcases writeOne_any t u m with ⟨-, hu⟩ | ⟨hroom, -⟩
    · rw [hs, hu]
      exact ⟨rfl, h⟩
    · rw [htxq, hfull] at hroom
      cases hroom
  · rcases writeOne_any t u m with ⟨hfull, -⟩ | ⟨-, hu⟩
    · rw [htxq, hroom] at hfull
      cases hfull
    · have hput := h.map (f := fun c => { c with
        txq := (s.txq.fill (m s.txq.freeSlot)).publish
        hist := { c.hist with accepted := c.hist.accepted ++ [m s.txq.freeSlot] } })
        fun _ _ => rfl
      rw [hs, hu, htxq]
      refine ⟨rfl, ?_⟩
      simp only at hput ⊢
      unfold kickIdle
      split
      · exact (hput.map (f := fun c => { c with
          txq := ((s.txq.fill (m s.txq.freeSlot)).publish).setIdle false })
          fun _ _ => rfl).txConsume t
      · exact hput

theorem writeLoop (h : Alike s u) (ms : List UserMsg) :
    (writeLoop t ms u).1 = (writeLoop t ms s).1 ∧
      Alike (writeLoop t ms s).2 (writeLoop t ms u).2 := by
  induction ms generalizing s u with
  | nil => exact ⟨rfl, h⟩
  | cons m ms ih =>
      obtain ⟨hfst, hone⟩ := h.writeOne t m
      obtain ⟨hcount, hrest⟩ := ih hone
      simp only [Can4linux.writeLoop, hfst]
      split
      · exact ⟨congrArg (· + 1) hcount, hrest⟩
      · exact ⟨rfl, hone⟩

theorem canWrite (h : Alike s u) (accessOk : Bool) (ms : List UserMsg) :
    (canWrite t accessOk ms u).1 = (canWrite t accessOk ms s).1 ∧
      Alike (canWrite t accessOk ms s).2 (canWrite t accessOk ms u).2 := by
  obtain ⟨hcount, hloop⟩ := h.writeLoop t ms
  cases accessOk with
  | false => exact ⟨rfl, h⟩
  | true => exact ⟨congrArg (BitVec.ofNat 32) hcount, hloop⟩

end Alike

end Consume

end Can4linux
