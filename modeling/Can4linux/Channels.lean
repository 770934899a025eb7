/-
  Can4linux.Channels

  The driver with all its channels.  They share the pool of delay timers and the
  arrays `candevs` and `dly`; each has its own controller, which keeps a record of
  the accesses made to it.

  Every file operation, interrupt iteration and timer expiry of one channel is an
  atomic step.  Calls come from an open file, interrupts while a handler is
  registered; a timer that was armed may run out at any time, also after a close.
  An expiry starts from the pool slot: the device it works for is the one that
  the slot names.

  The slots of the pool are handed out one to a device and never given back, so
  the pool does not run out (`PoolOk.hasSlot`), and a slot always names the device
  it belongs to (`step_poolOk`).
-/

import Can4linux.Lib.Handout
import Can4linux.Timers
import Can4linux.Recorder
import Can4linux.Resources

namespace Can4linux

/-- The atomic steps of one channel. -/
inductive ChanOp (σ : Type) where
  | open (env : OpenEnv)
  | close
  | write (accessOk : Bool) (us : List UserMsg)
  | read (accessOk : Bool) (count : Nat)
  | ioctl (cmd : CInt) (env : IoctlEnv)
  /-- user space writes to the arrays of `sysctl.c` -/
  | sysctl (sys : Sysctl)
  /-- one iteration of the interrupt loop, at the given time -/
  | irq (tstamp : Timeval)
  /-- the delay timer of the channel runs out -/
  | timer
  /-- the device does something of its own -/
  | device (c : σ)

/-- What a call hands back. -/
inductive Answer where
  | nothing
  | result (r : CInt)
  | messages (r : CInt) (ms : List Canmsg)
  | request (r : CInt) (o : IoctlOut)

/-- The channels with one pool, as each of them sees it, and which of them have a file
    open. -/
structure Channels (σ : Type) where
  chan : Fin maxChannels → Chan (Recorder σ)
  file : Fin maxChannels → Bool
  one : ∀ i j, (chan i).kapi = (chan j).kapi

/-- The number of the device, and its entry of `Baud`. -/
def Chan.setting {σ : Type} (s : Chan σ) : CInt × CInt := (s.minor, s.sys.baud)

/-- What reads, writes, interrupts and timers leave alone. -/
structure Standing where
  setting : CInt × CInt
  isopen : CInt
  users : Int

/-- The standing of a channel. -/
def Chan.standing {σ : Type} (s : Chan σ) : Standing := ⟨s.setting, s.isopen, s.held.users⟩

/-- The command that a request of `can_ioctl` hands to `can_Command`. -/
def ioctlCommand (cmd : CInt) (env : IoctlEnv) : Option CInt :=
  if cmd = reqCommand ∧ env.readOk = true ∧ env.writeOk = true then
    some (lddkCopy env.command.copyIn env.command.garbage).cmd
  else none

/-- The target and the values that a request hands to `can_Config`. -/
def ioctlConfig (cmd : CInt) (env : IoctlEnv) : Option (CInt × CLong × CLong) :=
  if cmd = reqConfig ∧ env.readOk = true ∧ env.writeOk = true then
    let argp := lddkCopy env.config.copyIn env.config.garbage
    some (argp.target, argp.val1, argp.val2)
  else none

/-- What a request does to the channel: it hands on a command or a configuration, asks for the
    status, or does nothing. -/
theorem canIoctl_cases {σ : Type} [Chip σ] (t : Target) (s : Chan σ) (cmd : CInt)
    (env : IoctlEnv) :
    (∃ c, ioctlCommand cmd env = some c ∧ ioctlConfig cmd env = none ∧
      (canIoctl t cmd env s).2.2 = (canCommand t c s).2) ∨
    (∃ a, ioctlCommand cmd env = none ∧ ioctlConfig cmd env = some a ∧
      (canIoctl t cmd env s).2.2 = (canConfig t a.1 a.2.1 a.2.2 s).2) ∨
    (ioctlCommand cmd env = none ∧ ioctlConfig cmd env = none ∧
      ((canIoctl t cmd env s).2.2 = s ∨
        ∃ stat, (canIoctl t cmd env s).2.2 = (canGetStat t stat s).2.2)) := by
  -- the checks of `access_ok` come first and end the call
  unfold canIoctl ioctlCommand ioctlConfig
  cases hr : env.readOk with
  | false =>
      refine .inr (.inr ⟨by simp, by simp, .inl ?_⟩)
      simp only [Bool.not_false, if_true]
      repeat' split
      all_goals rfl
  | true =>
      cases hw : env.writeOk with
      | false =>
          refine .inr (.inr ⟨by simp, by simp, .inl ?_⟩)
          simp only [Bool.not_true, Bool.not_false, Bool.false_eq_true, if_false, if_true]
          repeat' split
          all_goals rfl
      | true =>
          by_cases hcmd : cmd = reqCommand
          · subst hcmd
            exact .inl ⟨_, by simp, by simp [reqCommand, reqConfig], rfl⟩
          by_cases hconf : cmd = reqConfig
          · subst hconf
            exact .inr (.inl ⟨_, by simp [reqCommand, reqConfig], if_pos ⟨rfl, rfl, rfl⟩, rfl⟩)
          refine .inr (.inr ⟨by simp [hcmd], by simp [hconf], ?_⟩)
          rw [if_neg hcmd, if_neg hconf]
          by_cases hstat : cmd = reqStatus
          · rw [if_pos hstat]
            exact .inr ⟨env.status.garbage, rfl⟩
          · rw [if_neg hstat]
            exact .inl rfl

namespace Channels

variable {σ : Type}

/-- The driver has been loaded; nothing is open yet. -/
def loaded (t : Target) (sys : Fin maxChannels → Sysctl) (dev : Fin maxChannels → σ) :
    Channels σ where
  chan i := { Chan.coreInit t (BitVec.ofNat 32 i) (sys i).irq (sys i).base ⟨dev i, []⟩ with
    sys := sys i }
  file _ := false
  one _ _ := rfl

/-- The pool. -/
def kapi (S : Channels σ) : Kapi := (S.chan 0).kapi

/-- Channel `i` changes, and the pool for all. -/
def put (S : Channels σ) (i : Fin maxChannels) (s : Chan (Recorder σ)) : Channels σ where
  chan j := if j = i then s else { S.chan j with kapi := s.kapi }
  file := S.file
  one j l := by
    have hkapi : ∀ j, (if j = i then s else { S.chan j with kapi := s.kapi }).kapi = s.kapi := by
      intro j
      split <;> rfl
    rw [hkapi j, hkapi l]

/-- `&candevs[n]`. -/
def candev (n : CInt) : Option (Fin maxChannels) :=
  if h : n.toNat < maxChannels then some ⟨n.toNat, h⟩ else none

variable [Chip σ] (t : Target)

/-- What an operation does to its channel; for the timer, the work it starts. -/
def effect : ChanOp σ → Chan (Recorder σ) → Chan (Recorder σ)
  | .open env, s => (canOpen t env s).2
  | .close, s => (canClose t s).2
  | .write accessOk us, s => (canWrite t accessOk us s).2
  | .read accessOk count, s => (canRead accessOk count s).2.2
  | .ioctl cmd env, s => (canIoctl t cmd env s).2.2
  | .sysctl sys, s => { s with sys := sys }
  | .irq tstamp, s => irqIteration t tstamp s
  | .timer, s => delayedmsgworker t s
  | .device c, s => { s with chip := { s.chip with dev := c } }

/-- What an operation hands back to its caller. -/
def answer : ChanOp σ → Chan (Recorder σ) → Answer
  | .open env, s => .result (canOpen t env s).1
  | .close, s => .result (canClose t s).1
  | .write accessOk us, s => .result (canWrite t accessOk us s).1
  | .read accessOk count, s =>
      .messages (canRead accessOk count s).1 (canRead accessOk count s).2.1
  | .ioctl cmd env, s => .request (canIoctl t cmd env s).1 (canIoctl t cmd env s).2.1
  | .sysctl _, _ | .irq _, _ | .timer, _ | .device _, _ => .nothing

/-- Whether the channel has a file open afterwards. -/
def fileAfter (file : Bool) : ChanOp σ → Chan (Recorder σ) → Bool
  | .open env, s => file || (canOpen t env s).1 = 0
  | .close, _ => false
  | _, _ => file

/-- Whether an operation can take place. -/
def enabled (file : Bool) : ChanOp σ → Chan (Recorder σ) → Bool
  | .open _, _ | .sysctl _, _ | .device _, _ => true
  | .close, _ | .write _ _, _ | .read _ _, _ | .ioctl _ _, _ => file
  | .irq _, s => !s.held.irqs.isEmpty
  | .timer, s => s.timerArmed

/-- The timer of channel `i` runs out: `dlyworker` calls `d->f(d->data)` for the slot. -/
def expire (S : Channels σ) (i : Fin maxChannels) : Option (Channels σ) :=
  match (S.chan i).delayedwork with
  | none => none
  | some k =>
      let S := S.put i (S.chan i).disarm
      (candev (S.kapi.dly k).data).map fun n => S.put n (delayedmsgworker t (S.chan n))

/-- One step of one channel. -/
def step (S : Channels σ) (l : Fin maxChannels × ChanOp σ) : Option (Channels σ) :=
  if enabled (S.file l.1) l.2 (S.chan l.1) then
    match l.2 with
    | .timer => S.expire t l.1
    | op => some { S.put l.1 (effect t op (S.chan l.1)) with
        file := Function.update S.file l.1 (fileAfter t (S.file l.1) op (S.chan l.1)) }
  else none

/-- What the calls of channel `j` hand back. -/
def out (j : Fin maxChannels) (S : Channels σ) (l : Fin maxChannels × ChanOp σ) : List Answer :=
  if l.1 = j then [answer t l.2 (S.chan j)] else []

/-! ## One pool -/

section Put

omit [Chip σ]

variable (S : Channels σ) {i j : Fin maxChannels}

@[simp] theorem put_self (s : Chan (Recorder σ)) : (S.put i s).chan i = s := if_pos rfl

theorem put_other (hj : j ≠ i) (s : Chan (Recorder σ)) :
    (S.put i s).chan j = { S.chan j with kapi := s.kapi } := if_neg hj

@[simp] theorem put_file (s : Chan (Recorder σ)) : (S.put i s).file = S.file := rfl

@[simp] theorem put_put (s s' : Chan (Recorder σ)) : (S.put i s).put i s' = S.put i s' := by
  have hchan : ∀ j, ((S.put i s).put i s').chan j = (S.put i s').chan j := by
    intro j
    by_cases hj : j = i
    · rw [hj, put_self, put_self]
    · rw [put_other _ hj, put_other _ hj, put_other _ hj]
  simp only [put, mk.injEq, and_true]
  exact funext hchan

/-- Putting a channel back changes nothing. -/
@[simp] theorem put_chan : S.put i (S.chan i) = S := by
  have hchan : ∀ j, (S.put i (S.chan i)).chan j = S.chan j := by
    intro j
    by_cases hj : j = i
    · rw [hj, put_self]
    · rw [put_other S hj, S.one i j]
  obtain ⟨chan, file, one⟩ := S
  simp only [put, mk.injEq, and_true]
  exact funext hchan

theorem kapi_eq : (S.chan i).kapi = S.kapi := S.one i 0

@[simp] theorem kapi_put (s : Chan (Recorder σ)) : (S.put i s).kapi = s.kapi := by
  rw [← kapi_eq (S.put i s) (i := i), put_self]

/-- Channel `i` has the number `i`. -/
theorem candev_ofNat (i : Fin maxChannels) : candev (BitVec.ofNat 32 i) = some i := by
  have hlt : i.val < maxChannels := i.isLt
  have hval : (BitVec.ofNat 32 i.val).toNat = i.val := by
    rw [BitVec.toNat_ofNat, Nat.mod_eq_of_lt]
    exact Nat.lt_trans hlt (by decide)
  simp [candev, hval]

end Put

/-! ## What the functions leave alone -/

section Setting

variable {t} {α : Type} [Chip α] (s : Chan α)

omit [Chip σ]

theorem canOpen_setting (env : OpenEnv) : (canOpen t env s).2.setting = s.setting := by
  have hvendor : (openVendor t env s).2.setting = s.setting := by
    obtain ⟨ri, h, c, hframe⟩ := canVendorInit_frame t { s.incusers with isopen := 1 } env
    rw [openVendor, hframe]
    rfl
  have hfifo : (openFifo t env s).2.setting = s.setting := by
    obtain ⟨txq, h, hframe⟩ := canFifoInit_frame { (openVendor t env s).2 with wq := 0 } env
    rw [openFifo, hframe]
    exact hvendor
  have hreset : (openReset t env s).2.setting = s.setting := by
    obtain ⟨h, o, c, hframe⟩ := canChipReset_frame t (openFifo t env s).2
    rw [openReset, hframe]
    exact hfifo
  -- every exit hands on the channel of the stage it is taken from
  rw [canOpen_stages]
  split
  · rfl
  · split
    · rfl
    · split
      · rfl
      · split
        · exact hvendor
        · split
          · exact hfifo
          · split
            · exact hreset
            · exact hreset

theorem canClose_setting : (canClose t s).2.setting = s.setting := by
  obtain ⟨h1, hregion⟩ := releaseRegion_frame (canStopChip t s) t
  obtain ⟨h2, hfifo⟩ := canFifoCleanup_frame { canStopChip t s with held := h1 }
  have hrelease : (closeRelease t s).setting = s.setting := by
    rw [closeRelease, hregion, hfifo]
    rfl
  rw [canClose_stages]
  split
  · exact hrelease
  · exact hrelease

omit [Chip α] in
theorem canRead_standing (accessOk : Bool) (count : Nat) :
    (canRead accessOk count s).2.2.standing = s.standing := by
  cases accessOk with
  | false => rfl
  | true =>
      obtain ⟨rxq, hs, -, -⟩ := readLoop_spec count s
      simp only [canRead, Bool.not_true, Bool.false_eq_true, if_false, hs]
      rfl

theorem canCommand_setting (cmd : CInt) : (canCommand t cmd s).2.setting = s.setting := by
  obtain ⟨h, o, c, hreset⟩ := canChipReset_frame t s
  unfold canCommand
  rw [hreset]
  repeat' split
  all_goals rfl

theorem canIoctl_minor (cmd : CInt) (env : IoctlEnv) :
    (canIoctl t cmd env s).2.2.minor = s.minor := by
  rcases canIoctl_cases t s cmd env with ⟨c, -, -, heq⟩ | ⟨a, -, -, heq⟩ | ⟨-, -, heq | ⟨stat, heq⟩⟩
  · rw [heq]
    exact congrArg Prod.fst (canCommand_setting s c)
  · obtain ⟨sys, c, hframe⟩ := canConfig_frame t s a.1 a.2.1 a.2.2
    rw [heq, hframe]
  · rw [heq]
  · rw [heq]
    rfl

theorem txConsume_standing : (txConsume t s).standing = s.standing := by
  rcases txConsume_any t s with ⟨-, heq⟩ | ⟨-, m, dw, k, heq⟩ | ⟨-, m, h, c, heq⟩
  · rw [heq]
    rfl
  · rw [heq]
    rfl
  · rw [heq]
    rfl

omit [Chip α] in
theorem rxproduce_standing (produce : Canmsg → α → Canmsg × α) :
    (rxproduce produce s).standing = s.standing := by
  cases hfull : s.rxq.full with
  | true =>
      rw [rxproduce_full hfull]
      rfl
  | false =>
      rw [rxproduce_room hfull]
      rfl

theorem rxIrq_standing (irqsrc : U8) (inf : Msginf) :
    (rxIrq t irqsrc inf s).standing = s.standing := by
  rcases rxIrq_any t s irqsrc inf with ⟨-, heq⟩ | ⟨-, c, heq⟩
  · rw [heq]
  · rw [heq]
    exact rxproduce_standing s _

theorem errWarnIrq_standing (irqsrc : U8) (inf : Msginf) :
    (errWarnIrq t irqsrc inf s).2.2.standing = s.standing := by
  rcases errWarnIrq_any t s irqsrc inf with ⟨-, heq⟩ | ⟨-, src', inf', c, -, heq⟩
  · rw [heq]
  · rw [heq]
    exact rxproduce_standing { s with chip := c } _

theorem overrunIrq_standing (irqsrc : U8) (inf : Msginf) :
    (overrunIrq t irqsrc inf s).standing = s.standing := by
  unfold overrunIrq
  split
  · exact rxproduce_standing _ _
  · rfl

omit [Chip α] in
theorem wakeWriters_standing : s.wakeWriters.standing = s.standing := by
  obtain ⟨n, hframe⟩ := wakeWriters_frame s
  rw [hframe]
  rfl

theorem txIrq_standing (irqsrc : U8) : (txIrq t irqsrc s).standing = s.standing := by
  unfold txIrq
  split
  · exact (wakeWriters_standing _).trans (txConsume_standing { s with txinprogress := 0 })
  · rfl

theorem irqIteration_standing (tstamp : Timeval) :
    (irqIteration t tstamp s).standing = s.standing := by
  unfold irqIteration
  simp only
  split
  · rfl
  · exact (overrunIrq_standing _ _ _).trans ((txIrq_standing _ _).trans
      ((errWarnIrq_standing _ _ _).trans (rxIrq_standing _ _ _)))

theorem timer_standing : (delayedmsgworker t s.disarm).standing = s.standing := by
  obtain ⟨k, hframe⟩ := disarm_frame s
  refine ((wakeWriters_standing _).trans (txConsume_standing s.disarm)).trans ?_
  rw [hframe]
  rfl

theorem writeOne_standing (u : UserMsg) : (writeOne t u s).2.standing = s.standing := by
  rcases writeOne_any t s u with ⟨-, heq⟩ | ⟨-, heq⟩
  · rw [heq]
  · rw [heq]
    unfold kickIdle
    split
    · exact txConsume_standing _
    · rfl

theorem canWrite_standing (accessOk : Bool) (us : List UserMsg) :
    (canWrite t accessOk us s).2.standing = s.standing :=
  canWrite_rule (P := fun c => c.standing = s.standing)
    (fun u c hc => (writeOne_standing c u).trans hc) rfl accessOk us

end Setting

/-! ## The pool -/

/-- Every device has its number, and the slots of the pool belong to the devices: each slot
    that has been taken to one, whose number it holds. -/
structure PoolOk (S : Channels σ) : Prop where
  minor : ∀ i, (S.chan i).minor = BitVec.ofNat 32 i
  slots : Handout (fun i => (S.chan i).delayedwork) S.kapi.idly
  data : ∀ i k, (S.chan i).delayedwork = some k → (S.kapi.dly k).data = BitVec.ofNat 32 i
  armed : ∀ k, (S.kapi.dly k).expires.isSome = true → k < S.kapi.idly

namespace PoolOk

omit [Chip σ]

variable {S : Channels σ} (h : PoolOk S)

include h

/-- There are as many slots as devices. -/
theorem hasSlot (i : Fin maxChannels) : (S.chan i).HasSlot := by
  intro hnone
  have hroom := h.slots.room hnone
  rw [Fintype.card_fin] at hroom
  rw [kapi_eq]
  exact Nat.ne_of_lt hroom

/-- A slot that is armed belongs to the device it names. -/
theorem armed_owner {k : Nat} (harmed : (S.kapi.dly k).expires.isSome = true) :
    ∃ i, (S.chan i).delayedwork = some k ∧ candev (S.kapi.dly k).data = some i := by
  obtain ⟨i, hi⟩ := h.slots.owned k (h.armed k harmed)
  refine ⟨i, hi, ?_⟩
  rw [h.data i k hi]
  exact candev_ofNat i

end PoolOk

omit [Chip σ] in
theorem poolOk_loaded (sys : Fin maxChannels → Sysctl) (dev : Fin maxChannels → σ) :
    PoolOk (loaded t sys dev) where
  minor _ := rfl
  slots := Handout.empty
  data _ _ h := by cases h
  armed _ h := by cases h

/-- A channel that can take the place of channel `i`: the pool is in order, and the others
    find their timers as they were. -/
structure Fits (S : Channels σ) (i : Fin maxChannels) (s : Chan (Recorder σ)) : Prop where
  ok : PoolOk (S.put i s)
  others : ∀ j, j ≠ i → ((S.put i s).chan j).timer = (S.chan j).timer

namespace Fits

variable {S : Channels σ} {i : Fin maxChannels} {s s' : Chan (Recorder σ)}

omit [Chip σ] in
theorem self (h : PoolOk S) : Fits S i (S.chan i) := by
  refine ⟨?_, fun j _ => ?_⟩
  · rw [put_chan]
    exact h
  · rw [put_chan]

omit [Chip σ] in
/-- The number, the slot and the pool decide. -/
theorem of_get (h : Fits S i s) (hminor : s'.minor = s.minor)
    (hget : Chan.timers.get s' = Chan.timers.get s) : Fits S i s' := by
  simp only [Chan.timers, Prod.mk.injEq] at hget
  obtain ⟨hslot, hkapi⟩ := hget
  have hchan : ∀ j, ((S.put i s').chan j).delayedwork = ((S.put i s).chan j).delayedwork := by
    intro j
    by_cases hj : j = i
    · rw [hj, put_self, put_self, hslot]
    · rw [put_other S hj, put_other S hj]
  have hpool : (S.put i s').kapi = (S.put i s).kapi := by
    rw [kapi_put, kapi_put, hkapi]
  -- only the channel in place `i` differs, and there in none of the parts asked for
  refine ⟨⟨?_, ?_, ?_, ?_⟩, ?_⟩
  · intro j
    have hj := h.ok.minor j
    by_cases hji : j = i
    · rw [hji, put_self] at hj ⊢
      rw [hminor, hj]
    · rwa [put_other S hji] at hj ⊢
  · simp only [hchan, hpool]
    exact h.ok.slots
  · simp only [hchan, hpool]
    exact h.ok.data
  · simp only [hpool]
    exact h.ok.armed
  · intro j hj
    rw [← h.others j hj, put_other S hj, put_other S hj, hkapi]

/-! ### The device's own slot -/

section Slot

omit [Chip σ]

variable {k : Nat} {d : Delayed}

/-- Setting the timer of slot `k`, which is the device's own afterwards. -/
theorem place (h : Fits S i s) {n : Nat}
    (hslots : Handout (Function.update (fun j => (S.chan j).delayedwork) i (some k)) n)
    (hle : s.kapi.idly ≤ n) (hd : d.data = BitVec.ofNat 32 i) :
    Fits S i { s with delayedwork := some k, kapi := ⟨Function.update s.kapi.dly k d, n⟩ } := by
  have hpool := kapi_put (i := i) S s
  -- another device has another slot
  have hne : ∀ j l, j ≠ i → (S.chan j).delayedwork = some l → l ≠ k := by
    rintro j l hj hl rfl
    have hown := Function.update_self i (some l) fun j => (S.chan j).delayedwork
    have hslot := Function.update_of_ne hj (some l) fun j => (S.chan j).delayedwork
    exact hj (hslots.inj j i l (hslot.trans hl) hown)
  -- numbers, slots, data and armed timers, then the timers of the others
  refine ⟨⟨?_, ?_, ?_, ?_⟩, ?_⟩
  · intro j
    have hj := h.ok.minor j
    by_cases hji : j = i
    · rw [hji, put_self] at hj ⊢
      exact hj
    · rwa [put_other S hji] at hj ⊢
  · rw [kapi_put]
    refine cast (congrArg (fun f => Handout f n) (funext fun j => ?_)) hslots
    by_cases hj : j = i
    · rw [hj, put_self, Function.update_self]
    · rw [put_other S hj, Function.update_of_ne hj]
  · intro j l hl
    rw [kapi_put]
    by_cases hj : j = i
    · rw [hj, put_self, Option.some.injEq] at hl
      rw [← hl, hj]
      exact (congrArg Delayed.data (Function.update_self ..)).trans hd
    · rw [put_other S hj] at hl
      have hdata := h.ok.data j l (by rw [put_other S hj, hl])
      rw [hpool] at hdata
      exact (congrArg Delayed.data (Function.update_of_ne (hne j l hj hl) ..)).trans hdata
  · intro l hl
    have harmed := h.ok.armed l
    rw [hpool] at harmed
    rw [kapi_put] at hl ⊢
    -- an armed slot is `k`, or was armed before
    by_cases hlk : l = k
    · rw [hlk]
      exact hslots.below i k (Function.update_self ..)
    · refine Nat.lt_of_lt_of_le (harmed ?_) hle
      rw [← hl]
      exact (congrArg (fun d => d.expires.isSome) (Function.update_of_ne hlk d s.kapi.dly)).symm
  · intro j hj
    rw [← h.others j hj, put_other S hj, put_other S hj]
    unfold Chan.timer
    cases hslot : (S.chan j).delayedwork with
    | none => rfl
    | some l => exact congrArg some (Function.update_of_ne (hne j l hj hslot) ..)

/-- The slots with channel `i` in its place. -/
theorem slots (h : Fits S i s) :
    Handout (Function.update (fun j => (S.chan j).delayedwork) i s.delayedwork) s.kapi.idly := by
  have hslots := h.ok.slots
  rw [kapi_put] at hslots
  refine cast (congrArg (fun f => Handout f s.kapi.idly) (funext fun j => ?_)) hslots
  by_cases hj : j = i
  · rw [hj, put_self, Function.update_self]
  · rw [put_other S hj, Function.update_of_ne hj]

theorem minor (h : Fits S i s) : s.minor = BitVec.ofNat 32 i := by
  have hminor := h.ok.minor i
  rwa [put_self] at hminor

/-- Setting the timer of the device's own slot. -/
theorem setTimer (h : Fits S i s) (hk : s.delayedwork = some k)
    (hd : d.data = BitVec.ofNat 32 i) : Fits S i (s.setTimer k d) := by
  have hslots := h.slots
  rw [hk] at hslots
  have hplace := h.place hslots (Nat.le_refl _) hd
  rw [← hk] at hplace
  exact hplace

/-- Taking the next slot, and setting its timer. -/
theorem takeSlot (h : Fits S i s) (hnone : s.delayedwork = none)
    (hd : d.data = BitVec.ofNat 32 i) :
    Fits S i { s with
      delayedwork := some s.kapi.idly
      kapi := ⟨Function.update s.kapi.dly s.kapi.idly d, s.kapi.idly + 1⟩ } := by
  have htake := h.slots.take (i := i) (by rw [Function.update_self, hnone])
  rw [Function.update_idem] at htake
  exact h.place htake (Nat.le_succ _) hd

theorem kapiScheduleDelayed (h : Fits S i s) (usec : CInt) :
    Fits S i (s.kapiScheduleDelayed usec) := by
  unfold Chan.kapiScheduleDelayed
  cases hk : s.delayedwork with
  | none =>
      simp only
      split
      · exact h
      · exact h.takeSlot hk h.minor
  | some k => exact h.setTimer hk h.minor

theorem disarm (h : Fits S i s) : Fits S i s.disarm := by
  unfold Chan.disarm
  cases hk : s.delayedwork with
  | none => exact h
  | some k =>
      have hdata := h.ok.data i k (by rw [put_self, hk])
      rw [kapi_put] at hdata
      exact h.setTimer hk hdata

end Slot

/-! ### The functions of the driver -/

section Functions

variable (h : Fits S i s)

include h

omit [Chip σ] in
theorem wakeWriters : Fits S i s.wakeWriters := by
  obtain ⟨n, hframe⟩ := wakeWriters_frame s
  rw [hframe]
  exact h.of_get rfl rfl

/-- The consumer may start the timer; the rest is not about the pool. -/
theorem txConsume : Fits S i (txConsume t s) := by
  -- an empty queue, a message that waits, a message that is loaded
  rw [txConsume_eq]
  split
  · exact h.of_get rfl rfl
  · split
    · exact (h.kapiScheduleDelayed _).of_get rfl rfl
    · exact h.of_get rfl rfl

theorem delayedmsgworker : Fits S i (delayedmsgworker t s) := (h.txConsume t).wakeWriters

theorem rxIrq (irqsrc : U8) (inf : Msginf) : Fits S i (rxIrq t irqsrc inf s) := by
  exact h.of_get (congrArg (fun r => r.setting.1) (rxIrq_standing s irqsrc inf))
    ((spares_rxIrq t irqsrc inf).get_eq s)

theorem errWarnIrq (irqsrc : U8) (inf : Msginf) : Fits S i (errWarnIrq t irqsrc inf s).2.2 := by
  have hspares : Chan.timers.Spares fun s => (Can4linux.errWarnIrq t irqsrc inf s).2.2 :=
    fun p s => congrArg (fun r => r.2.2) (errWarnIrq_set (σ := Recorder σ) t irqsrc inf p s)
  exact h.of_get (congrArg (fun r => r.setting.1) (errWarnIrq_standing s irqsrc inf))
    (hspares.get_eq s)

theorem txIrq (irqsrc : U8) : Fits S i (txIrq t irqsrc s) := by
  have hclear : Fits S i { s with txinprogress := 0 } := h.of_get rfl rfl
  unfold Can4linux.txIrq
  split
  · exact (hclear.txConsume t).wakeWriters
  · exact h

theorem overrunIrq (irqsrc : U8) (inf : Msginf) : Fits S i (overrunIrq t irqsrc inf s) := by
  exact h.of_get (congrArg (fun r => r.setting.1) (overrunIrq_standing s irqsrc inf))
    ((spares_overrunIrq t irqsrc inf).get_eq s)

theorem irqIteration (tstamp : Timeval) : Fits S i (irqIteration t tstamp s) := by
  have hread : Fits S i { s with chip := (canIn t .canirq s.chip).2 } := h.of_get rfl rfl
  unfold Can4linux.irqIteration
  simp only
  split
  · exact hread
  · exact (((hread.rxIrq t _ _).errWarnIrq t _ _).txIrq t _).overrunIrq t _ _

theorem writeOne (u : UserMsg) : Fits S i (writeOne t u s).2 := by
  rcases writeOne_any t s u with ⟨-, heq⟩ | ⟨-, heq⟩
  · rw [heq]
    exact h
  · rw [heq]
    have hput : Fits S i { s with
        txq := (s.txq.fill (u s.txq.freeSlot)).publish
        hist := { s.hist with accepted := s.hist.accepted ++ [u s.txq.freeSlot] } } :=
      h.of_get rfl rfl
    unfold kickIdle
    split
    · have hbusy : Fits S i { s with
          txq := (s.txq.fill (u s.txq.freeSlot)).publish.setIdle false
          hist := { s.hist with accepted := s.hist.accepted ++ [u s.txq.freeSlot] } } :=
        h.of_get rfl rfl
      exact hbusy.txConsume t
    · exact hput

end Functions

end Fits

/-- What a step does to its channel. -/
def chanAfter : ChanOp σ → Chan (Recorder σ) → Chan (Recorder σ)
  | .timer, s => delayedmsgworker t s.disarm
  | op, s => effect t op s

variable {S S' : Channels σ} {i j : Fin maxChannels} {op : ChanOp σ}

theorem fits_chanAfter (h : PoolOk S) : Fits S i (chanAfter t op (S.chan i)) := by
  have hself : Fits S i (S.chan i) := .self h
  cases op with
  | «open» env =>
      refine hself.of_get (congrArg Prod.fst (canOpen_setting _ env))
        (Lens.Spares.get_eq (f := fun s => _) ?_ _)
      exact fun p s => congrArg Prod.snd (canOpen_set t env p s)
  | close =>
      refine hself.of_get (congrArg Prod.fst (canClose_setting _))
        (Lens.Spares.get_eq (f := fun s => _) ?_ _)
      exact fun p s => congrArg Prod.snd (canClose_set t p s)
  | write accessOk us =>
      exact canWrite_rule (P := Fits S i) (fun u _ hs => hs.writeOne t u) hself accessOk us
  | read accessOk count =>
      refine hself.of_get (congrArg (fun r => r.setting.1) (canRead_standing _ accessOk count))
        (Lens.Spares.get_eq (f := fun s => _) ?_ _)
      exact fun p s => congrArg (fun r => r.2.2) (canRead_set accessOk count p s)
  | ioctl cmd env =>
      refine hself.of_get (canIoctl_minor _ cmd env) (Lens.Spares.get_eq (f := fun s => _) ?_ _)
      exact fun p s => congrArg (fun r => r.2.2) (canIoctl_set t cmd env p s)
  | sysctl sys => exact hself.of_get rfl rfl
  -- the operations that may arm the timer or find it run out
  | irq tstamp => exact hself.irqIteration t tstamp
  | timer => exact hself.disarm.delayedmsgworker t
  | device c => exact hself.of_get rfl rfl

/-- **An expiry works for the device that armed the timer.**  While the pool is in order, a
    step changes its own channel only, the timer included. -/
theorem step_eq (h : PoolOk S) : step t S (i, op) =
    if enabled (S.file i) op (S.chan i) then
      some { S.put i (chanAfter t op (S.chan i)) with
        file := Function.update S.file i (fileAfter t (S.file i) op (S.chan i)) }
    else none := by
  cases op with
  | timer =>
      unfold step
      cases hen : enabled (S.file i) .timer (S.chan i) with
      | false => rfl
      | true =>
          have harmed : (S.chan i).timerArmed = true := hen
          cases hk : (S.chan i).delayedwork with
          | none =>
              rw [Chan.timerArmed, hk] at harmed
              cases harmed
          | some k =>
              -- the slot names the device, also after the timer has run out
              have hdis : ((S.put i (S.chan i).disarm).kapi.dly k).data = BitVec.ofNat 32 i := by
                have hdw : (S.chan i).disarm.delayedwork = some k := by
                  obtain ⟨kapi, hframe⟩ := disarm_frame (S.chan i)
                  rw [hframe]
                  exact hk
                exact (Fits.self h).disarm.ok.data i k (by rw [put_self, hdw])
              have hfile : Function.update S.file i (S.file i) = S.file :=
                Function.update_eq_self i S.file
              simp only [if_true, expire, hk, hdis, candev_ofNat, Option.map_some, put_self,
                put_put, fileAfter, hfile]
              rfl
  | «open» _ | close | write _ _ | read _ _ | ioctl _ _ | sysctl _ | irq _ | device _ => rfl

/-- What a step does: its own channel goes on, and of the others nothing but the pool can
    change. -/
theorem step_spec (h : PoolOk S) (hstep : step t S (i, op) = some S') :
    enabled (S.file i) op (S.chan i) = true ∧
      S'.chan i = chanAfter t op (S.chan i) ∧
      S'.file i = fileAfter t (S.file i) op (S.chan i) ∧
      ∀ j, j ≠ i → S'.file j = S.file j ∧ ∃ kapi, S'.chan j = { S.chan j with kapi := kapi } := by
  rw [step_eq t h] at hstep
  split at hstep
  · rename_i hen
    obtain rfl := Option.some.inj hstep
    refine ⟨hen, put_self S _, Function.update_self .., ?_⟩
    intro j hj
    exact ⟨Function.update_of_ne hj .., _, put_other S hj _⟩
  · cases hstep

/-- Every step keeps the pool in order. -/
theorem step_poolOk (h : PoolOk S) {l : Fin maxChannels × ChanOp σ}
    (hstep : step t S l = some S') : PoolOk S' := by
  obtain ⟨i, op⟩ := l
  rw [step_eq t h] at hstep
  split at hstep
  · obtain rfl := Option.some.inj hstep
    exact ⟨(fits_chanAfter t h).ok.minor, (fits_chanAfter t h).ok.slots,
      (fits_chanAfter t h).ok.data, (fits_chanAfter t h).ok.armed⟩
  · cases hstep

/-- The pool is in order in every reachable state. -/
theorem reachable_poolOk {sys : Fin maxChannels → Sysctl} {dev : Fin maxChannels → σ}
    {ls : List (Fin maxChannels × ChanOp σ)}
    (hrun : Run.exec (step t) (loaded t sys dev) ls = some S) : PoolOk S :=
  Run.exec_invariant (fun _ _ _ h hstep => step_poolOk t h hstep) (poolOk_loaded t sys dev) hrun

/-- A driver with four AT-CAN-MINI controllers as they power on. -/
def sample : Channels (Sja1000 .atcanminiPelican) :=
  loaded .atcanminiPelican (fun _ => Chan.unopened.sys) fun _ => Sja1000.powerOn

/-- A `COMMAND` request. -/
def commandRequest (cmd : CInt) : IoctlEnv where
  readOk := true
  writeOk := true
  command := ⟨⟨0, 0, 0⟩, ⟨0, fun _ => ⟨cmd, 0, 0⟩⟩, ⟨0, id⟩⟩
  config := ⟨⟨0, 0, 0, 0, 0⟩, ⟨0, id⟩, ⟨0, id⟩⟩
  status := ⟨⟨0, 0, 0, 0, 0, 0, 0, 0, 0, 0, 0, 0⟩, ⟨0, id⟩, ⟨0, id⟩⟩

end Channels

/-- An address at which no controller answers: stores are lost, and what is read is whatever
    the bus floats to. -/
structure Floating where
  bus : U8
deriving DecidableEq

instance : Chip Floating where
  inb _ c := (c.bus, c)
  outb _ _ c := c

end Can4linux
