/-
  Can4linux.Stop

  A stop requested by `CMD_STOP`, and what the driver does to the reset request
  until the next `CMD_START`.  The controller is any device whose mode register
  shows the request as long as the driver has not taken it back (`Latch`); what
  else it shows, and what the other registers read, is left open.

  Only two places store a mode without the request: `CAN_StartChip`, and the
  error-warning branch of the interrupt handler, which undoes a reset that it
  takes for one of the controller's own.  So the stop stays in force exactly as
  long as no interrupt iteration finds an error warning.
-/

import Can4linux.Lib.Run
import Can4linux.Channels

namespace Can4linux

/-! ## A device that shows the request -/

/-- A device with a latch for the reset request: what the driver has last stored into the mode
    register, and how often it has taken its request back. -/
structure Latch (t : Target) (σ : Type) where
  dev : σ
  request : Bool
  taken : Nat

namespace Latch

variable {t : Target} {σ : Type} [Chip σ]

/-- A read of the mode register shows the request; everything else is as the device answers. -/
instance instChip : Chip (Latch t σ) where
  inb off c :=
    let rd := Chip.inb off c.dev
    (if off = Reg.canmode.offset t ∧ c.request = true then rd.1 ||| canResetRequest else rd.1,
      { c with dev := rd.2 })
  outb off v c :=
    if off = Reg.canmode.offset t then
      { dev := Chip.outb off v c.dev
        request := isSet v canResetRequest
        taken := if c.request && !isSet v canResetRequest then c.taken + 1 else c.taken }
    else { c with dev := Chip.outb off v c.dev }

/-- The latch. -/
def mode (c : Recorder (Latch t σ)) : Bool × Nat := (c.dev.request, c.dev.taken)

omit [Chip σ] in
theorem offset_canmode_ne {r : Reg} (hr : r ≠ .canmode) : r.offset t ≠ Reg.canmode.offset t := by
  rw [r.offset_eq, Reg.offset_eq]
  intro h
  have hnum := Nat.eq_of_mul_eq_mul_left t.stride_pos h
  cases r with
  | canmode => exact hr rfl
  | extCanxdata i => exact absurd hnum (by simp [Reg.number])
  | stdCandata i => exact absurd hnum (by simp [Reg.number])
  | _ => cases hnum

/-- A read does not touch the latch. -/
@[simp] theorem mode_canIn (r : Reg) (c : Recorder (Latch t σ)) :
    mode (canIn t r c).2 = mode c := rfl

/-- Nor does a store into another register. -/
theorem mode_canOut_ne {r : Reg} (hr : r ≠ .canmode) (v : U8) (c : Recorder (Latch t σ)) :
    mode (canOut t r v c) = mode c := by
  have hout : Chip.outb (r.offset t) v c.dev =
      { c.dev with dev := Chip.outb (r.offset t) v c.dev.dev } := if_neg (offset_canmode_ne hr)
  show ((Chip.outb (r.offset t) v c.dev).request, (Chip.outb (r.offset t) v c.dev).taken) = _
  rw [hout]
  rfl

/-- A store into the mode register. -/
theorem mode_canOut (v : U8) (c : Recorder (Latch t σ)) :
    mode (canOut t .canmode v c) = (isSet v canResetRequest,
      if c.dev.request && !isSet v canResetRequest then c.dev.taken + 1 else c.dev.taken) := by
  have hout : Chip.outb (Reg.canmode.offset t) v c.dev =
      { dev := Chip.outb (Reg.canmode.offset t) v c.dev.dev
        request := isSet v canResetRequest
        taken := if c.dev.request && !isSet v canResetRequest then c.dev.taken + 1
          else c.dev.taken } := if_pos rfl
  show ((Chip.outb _ v c.dev).request, (Chip.outb _ v c.dev).taken) = _
  rw [hout]

/-- What the driver has requested, it reads. -/
theorem canIn_canmode {c : Recorder (Latch t σ)} (h : c.dev.request = true) :
    isSet (canIn t .canmode c).1 canResetRequest = true := by
  have hin : (canIn t .canmode c).1 =
      (Chip.inb (Reg.canmode.offset t) c.dev.dev).1 ||| canResetRequest := if_pos ⟨rfl, h⟩
  rw [hin]
  exact isSet_or_self _ (by decide)

end Latch

/-! ## Functions that do not store into the mode register -/

section Rule

variable {σ : Type} [Chip σ] {t : Target} {P : σ → Prop}

/-- What survives every access but a store into the mode register. -/
structure Keeps (t : Target) (P : σ → Prop) : Prop where
  input : ∀ r c, P c → P (canIn t r c).2
  output : ∀ r v c, r ≠ .canmode → P c → P (canOut t r v c)

namespace Keeps

variable (h : Keeps t P) {c : σ} (hc : P c)

include h hc

theorem writeData {reg : Nat → Reg} (hreg : ∀ i, reg i ≠ .canmode) (m : Canmsg) (n : Nat) :
    P (writeData t reg m n c) := by
  induction n with
  | zero => exact hc
  | succ n ih => exact h.output _ _ _ (hreg n) ih

theorem loadFrame (m : Canmsg) : P (loadFrame t m c) := by
  refine h.output _ _ _ (by decide) ?_
  -- identifier registers first, then the data, in either format
  unfold writeFrame
  split
  · refine h.writeData ?_ (by simp) m m.rounds
    exact h.output _ _ _ (by decide) (h.output _ _ _ (by decide) (h.output _ _ _ (by decide)
      (h.output _ _ _ (by decide) (h.output _ _ _ (by decide) hc))))
  · refine h.writeData ?_ (by simp) m m.rounds
    exact h.output _ _ _ (by decide) (h.output _ _ _ (by decide) (h.output _ _ _ (by decide) hc))

theorem readData (reg : Nat → Reg) (n : Nat) (d : Fin 8 → U8) : P (readData t reg n d c).2 := by
  induction n with
  | zero => exact hc
  | succ n ih => exact h.input _ _ ih

theorem readcanmsg (inf : Msginf) (msg : Canmsg) : P (readcanmsg t inf msg c).2 := by
  refine h.output _ _ _ (by decide) (h.readData ?_ _ _ _)
  split
  · exact h.input _ _ (h.input _ _ (h.input _ _ (h.input _ _ (h.input _ _ hc))))
  · exact h.input _ _ (h.input _ _ (h.input _ _ hc))

theorem canSetTiming (baud : CInt) : P (canSetTiming t baud c) := by
  have hclk := h.output .canclk (canModePelican + canModeClk) c (by decide) hc
  unfold Can4linux.canSetTiming
  simp only
  split
  · exact h.input _ _ (h.input _ _ (h.output _ _ _ (by decide) (h.output _ _ _ (by decide) hclk)))
  · exact h.output _ _ _ (by decide) (h.output _ _ _ (by decide) hclk)

theorem canSetMask (code mask : CInt) : P (canSetMask t code mask c) := by
  have h1 := h.output .frameinfo ((code >>> 24 &&& 0xff).setWidth 8) c (by decide) hc
  have h2 := h.output .extCanid1 ((code >>> 16 &&& 0xff).setWidth 8) _ (by decide) h1
  have h3 := h.output .extCanid2 ((code >>> 8 &&& 0xff).setWidth 8) _ (by decide) h2
  have h4 := h.output .extCanid3 ((code >>> 0 &&& 0xff).setWidth 8) _ (by decide) h3
  have h5 := h.output .extCanid4 ((mask >>> 24 &&& 0xff).setWidth 8) _ (by decide) h4
  have h6 := h.output (.extCanxdata 0) ((mask >>> 16 &&& 0xff).setWidth 8) _ (by decide) h5
  have h7 := h.output (.extCanxdata 1) ((mask >>> 8 &&& 0xff).setWidth 8) _ (by decide) h6
  exact h.output (.extCanxdata 2) ((mask >>> 0 &&& 0xff).setWidth 8) _ (by decide) h7

end Keeps

namespace Keeps

variable (h : Keeps t P) {s : Chan σ} (hs : P s.chip)

include h hs

theorem txConsume : P (txConsume t s).chip := by
  -- the timer is not part of the controller; a load stores into the frame registers
  rw [txConsume_eq]
  split
  · exact hs
  · split
    · obtain ⟨dw, k, hframe⟩ := kapiScheduleDelayed_frame s
        (remainingDelay s.sys.baud s.txq.head.capLength)
      rw [hframe]
      exact hs
    · exact h.loadFrame hs _

omit [Chip σ] h in
theorem wakeWriters : P s.wakeWriters.chip := by
  obtain ⟨n, hframe⟩ := wakeWriters_frame s
  rw [hframe]
  exact hs

theorem writeOne (u : UserMsg) : P (writeOne t u s).2.chip := by
  rcases writeOne_any t s u with ⟨-, heq⟩ | ⟨-, heq⟩
  · rw [heq]
    exact hs
  · rw [heq]
    unfold kickIdle
    split
    · exact h.txConsume hs
    · exact hs

theorem canWrite (accessOk : Bool) (us : List UserMsg) : P (canWrite t accessOk us s).2.chip :=
  canWrite_rule (P := fun s => P s.chip) (fun u _ hs => h.writeOne hs u) hs accessOk us

omit [Chip σ] h in
theorem rxproduce {produce : Canmsg → σ → Canmsg × σ}
    (hproduce : ∀ m c, P c → P (produce m c).2) : P (rxproduce produce s).chip := by
  cases hfull : s.rxq.full with
  | true =>
      rw [rxproduce_full hfull]
      exact hs
  | false =>
      rw [rxproduce_room hfull]
      exact hproduce _ _ hs

theorem rxIrq (irqsrc : U8) (inf : Msginf) : P (rxIrq t irqsrc inf s).chip := by
  have hprod : P (Can4linux.rxproduce (Can4linux.readcanmsg t inf) s).chip :=
    rxproduce hs fun m _ hc => h.readcanmsg hc inf m
  have hread := h.input .canstat _ hprod
  unfold Can4linux.rxIrq
  split
  · simp only
    split
    · exact h.output _ _ _ (by decide) hread
    · exact hread
  · exact hs

theorem txIrq (irqsrc : U8) : P (txIrq t irqsrc s).chip := by
  unfold Can4linux.txIrq
  split
  · exact wakeWriters (h.txConsume (s := { s with txinprogress := 0 }) hs)
  · exact hs

theorem overrunIrq (irqsrc : U8) (inf : Msginf) : P (overrunIrq t irqsrc inf s).chip := by
  unfold Can4linux.overrunIrq
  split
  · exact h.output _ _ _ (by decide) (rxproduce (h.input _ _ hs) fun _ _ hc => hc)
  · exact hs

omit hs in
/-- Behind the test of the mode register the error-warning branch only reads. -/
theorem errWarnIrq (irqsrc : U8) (inf : Msginf)
    (hundo : P (if isSet irqsrc canErrorWarnInt then undoReset t s.chip else s.chip)) :
    P (errWarnIrq t irqsrc inf s).2.2.chip := by
  unfold Can4linux.errWarnIrq
  split
  · rename_i hew
    rw [if_pos hew] at hundo
    have hstat := h.input .canstat _ hundo
    simp only
    split
    · refine rxproduce ?_ fun _ _ hc => hc
      unfold lostTxInt
      split
      · exact h.input _ _ hstat
      · exact hstat
    · exact rxproduce hstat fun _ _ hc => hc
  · rename_i hew
    rwa [if_neg hew] at hundo

end Keeps

end Rule

/-! ## What an operation does to the request -/

namespace Latch

variable {t : Target} {σ : Type} [Chip σ]

theorem keeps_mode (k : Bool × Nat) :
    Keeps t fun c : Recorder (Latch t σ) => mode c = k where
  input r c h := (mode_canIn r c).trans h
  output _ v c hr h := (mode_canOut_ne hr v c).trans h

variable {s : Chan (Recorder (Latch t σ))} {k : Bool × Nat} {n : Nat}

/-- A stop gives the request, and does not take one back. -/
theorem canStopChip_mode (s : Chan (Recorder (Latch t σ))) :
    mode (canStopChip t s).chip = (true, s.chip.dev.taken) := by
  -- the stored mode has the bit, whatever was read
  have hset := mode_canOut ((canIn t .canmode s.chip).1 ||| canResetRequest)
    (canIn t .canmode s.chip).2
  rw [isSet_or_self _ (by decide), Bool.not_true, Bool.and_false] at hset
  exact hset

/-- A reset gives the request, whether the controller answers or not. -/
theorem canChipReset_mode (s : Chan (Recorder (Latch t σ))) :
    mode (canChipReset t s).2.chip = (true, s.chip.dev.taken) := by
  have hkeeps := keeps_mode (t := t) (σ := σ) (true, s.chip.dev.taken)
  have hreq : mode (requestReset t s.chip).2 = (true, s.chip.dev.taken) := by
    refine hkeeps.input _ _ (hkeeps.input _ _ ?_)
    rw [mode_canOut, Bool.and_comm]
    rfl
  -- behind the failing exit come the second mode and the configuration
  unfold canChipReset
  simp only
  split
  · exact hreq
  · refine hkeeps.canSetMask (hkeeps.canSetTiming (hkeeps.output _ _ _ (by decide) ?_) _) _ _
    have hclk := hkeeps.output .canclk (canModePelican + canModeClk) _ (by decide) hreq
    have hset := mode_canOut (canResetRequest + canModeDef)
      (canOut t .canclk (canModePelican + canModeClk) (requestReset t s.chip).2)
    have hbit : isSet (canResetRequest + canModeDef) canResetRequest = true := by decide
    rw [hbit, Bool.not_true, Bool.and_false] at hset
    exact hset.trans (congrArg (fun k => (true, k.2)) hclk)

theorem canConfig_mode (target : CInt) (val1 val2 : CLong) :
    mode (canConfig t target val1 val2 s).2.chip = mode s.chip := by
  have hkeeps := keeps_mode (t := t) (σ := σ) (mode s.chip)
  unfold canConfig
  split
  · exact hkeeps.canSetMask rfl _ _
  · split
    · exact hkeeps.canSetMask rfl _ _
    · split
      · exact hkeeps.canSetMask rfl _ _
      · split
        · exact hkeeps.canSetTiming rfl _
        · split
          · exact hkeeps.output _ _ _ (by decide) rfl
          · rfl

/-- The handler takes back a request that it finds. -/
theorem undoReset_mode {c : Recorder (Latch t σ)} (hc : mode c = (true, n)) :
    mode (undoReset t c) = (false, n + 1) := by
  have hread : isSet (canIn t .canmode c).1 canResetRequest = true :=
    canIn_canmode (congrArg Prod.fst hc)
  -- `CANreset` reads the mode a second time, and clears the bit in what it reads
  have hset := mode_canOut
    ((canIn t .canmode (canIn t .canmode c).2).1 &&& ~~~canResetRequest)
    (canIn t .canmode (canIn t .canmode c).2).2
  have hmode : mode (canIn t .canmode (canIn t .canmode c).2).2 = (true, n) := hc
  obtain ⟨hreq, htaken⟩ := Prod.mk.inj hmode
  rw [Sja1000.and_not_reset, hreq, htaken] at hset
  unfold undoReset
  rw [if_pos hread]
  exact hset

/-- An interrupt iteration takes a request back exactly if it finds an error warning. -/
theorem irqIteration_mode (tstamp : Timeval) (hs : mode s.chip = (true, n)) :
    mode (irqIteration t tstamp s).chip =
      if isSet (canIn t .canirq s.chip).1 canErrorWarnInt then (false, n + 1) else (true, n) := by
  have hkeeps := keeps_mode (t := t) (σ := σ)
  have hread : mode ({ s with chip := (canIn t .canirq s.chip).2 } : Chan _).chip = (true, n) := hs
  unfold irqIteration
  simp only
  split
  · rename_i h0
    rw [h0, if_neg (by decide)]
    exact hs
  -- the branches in order; only the second one stores into the mode register
  · have hrx := (hkeeps (true, n)).rxIrq hread (canIn t .canirq s.chip).1
      ⟨presetFlags s.rxstatus, tstamp⟩
    have hundo : mode (if isSet (canIn t .canirq s.chip).1 canErrorWarnInt then
        undoReset t (rxIrq t (canIn t .canirq s.chip).1 ⟨presetFlags s.rxstatus, tstamp⟩
          { s with chip := (canIn t .canirq s.chip).2 }).chip
        else (rxIrq t (canIn t .canirq s.chip).1 ⟨presetFlags s.rxstatus, tstamp⟩
          { s with chip := (canIn t .canirq s.chip).2 }).chip) =
        if isSet (canIn t .canirq s.chip).1 canErrorWarnInt then (false, n + 1) else (true, n) := by
      split
      · exact undoReset_mode hrx
      · exact hrx
    have hew := (hkeeps _).errWarnIrq _ ⟨presetFlags s.rxstatus, tstamp⟩ hundo
    exact (hkeeps _).overrunIrq ((hkeeps _).txIrq hew _) _ _

end Latch

/-! ## Between a stop and the next start -/

/-- A channel, and whether the user has stopped it. -/
structure Stoppable (t : Target) (σ : Type) where
  chan : Chan (Recorder (Latch t σ))
  stopped : Bool

namespace Stoppable

variable {t : Target} {σ : Type}

/-- What happens to an open device: no step opens or closes it, and the device itself neither
    gives nor takes back a request of the driver. -/
def allowed : ChanOp (Latch t σ) → Chan (Recorder (Latch t σ)) → Bool
  | .open _, _ | .close, _ => false
  | .device c, s => c.request = s.chip.dev.request ∧ c.taken = s.chip.dev.taken
  | _, _ => true

/-- Whether the operation is the request `cmd` for `can_Command`. -/
def isCommand (cmd : CInt) : ChanOp (Latch t σ) → Bool
  | .ioctl req env => ioctlCommand req env = some cmd
  | _ => false

/-- Whether the user has stopped the device, after an operation. -/
def stoppedAfter (stopped : Bool) (op : ChanOp (Latch t σ)) : Bool :=
  (stopped || isCommand cmdStop op) && !isCommand cmdStart op

variable [Chip σ]

/-- One step of an open device. -/
def step (x : Stoppable t σ) (op : ChanOp (Latch t σ)) : Option (Stoppable t σ) :=
  if Channels.enabled true op x.chan && allowed op x.chan then
    some ⟨Channels.chanAfter t op x.chan, stoppedAfter x.stopped op⟩
  else none

/-- The operation is an interrupt iteration that finds an error warning. -/
def Warned (op : ChanOp (Latch t σ)) (s : Chan (Recorder (Latch t σ))) : Prop :=
  ∃ tstamp, op = .irq tstamp ∧ isSet (canIn t .canirq s.chip).1 canErrorWarnInt = true

/-- While the device is stopped, every operation but a start leaves the request in force, and
    does not take it back on the way. -/
def StaysStopped (x : Stoppable t σ) (op : ChanOp (Latch t σ)) : Prop :=
  x.stopped = true → isCommand cmdStart op = false →
    Latch.mode (Channels.chanAfter t op x.chan).chip = (true, x.chan.chip.dev.taken)

theorem not_warned {op : ChanOp (Latch t σ)} {s : Chan (Recorder (Latch t σ))}
    (hop : ∀ tstamp, op ≠ .irq tstamp) : ¬ Warned op s := by
  rintro ⟨tstamp, h, -⟩
  exact hop tstamp h

/-- A command that is no start is a stop, a reset or rejected, and leaves a request in force. -/
theorem canIoctl_mode {s : Chan (Recorder (Latch t σ))} {n : Nat} {cmd : CInt} {env : IoctlEnv}
    (hs : Latch.mode s.chip = (true, n)) (hne : ioctlCommand cmd env ≠ some cmdStart) :
    Latch.mode (canIoctl t cmd env s).2.2.chip = (true, n) := by
  have hn : s.chip.dev.taken = n := congrArg Prod.snd hs
  rcases canIoctl_cases t s cmd env with ⟨c, hcmd, -, heq⟩ | ⟨a, -, -, heq⟩ |
    ⟨-, -, heq | ⟨stat, heq⟩⟩
  · rw [heq]
    rw [hcmd, ne_eq, Option.some.injEq] at hne
    unfold canCommand
    rw [if_neg hne]
    split
    · rw [Latch.canStopChip_mode, hn]
    · split
      · rw [Latch.canChipReset_mode, hn]
      · exact hs
  · rw [heq, Latch.canConfig_mode]
    exact hs
  · rw [heq]
    exact hs
  · rw [heq]
    exact hs

/-- What an operation makes of a request that is in force. -/
theorem mode_chanAfter {s : Chan (Recorder (Latch t σ))} {n : Nat} {op : ChanOp (Latch t σ)}
    (hs : Latch.mode s.chip = (true, n)) (hop : allowed op s = true)
    (hstart : isCommand cmdStart op = false) :
    (¬ Warned op s ∧ Latch.mode (Channels.chanAfter t op s).chip = (true, n)) ∨
    (Warned op s ∧ Latch.mode (Channels.chanAfter t op s).chip = (false, n + 1)) := by
  have hkeeps := Latch.keeps_mode (t := t) (σ := σ) (true, n)
  cases op with
  | irq tstamp =>
      have hirq := Latch.irqIteration_mode tstamp hs
      by_cases hw : isSet (canIn t .canirq s.chip).1 canErrorWarnInt = true
      · rw [if_pos hw] at hirq
        exact .inr ⟨⟨tstamp, rfl, hw⟩, hirq⟩
      · rw [if_neg hw] at hirq
        refine .inl ⟨?_, hirq⟩
        rintro ⟨_, -, hw'⟩
        exact hw hw'
  | «open» env => cases hop
  | close => cases hop
  | ioctl cmd env =>
      have hne : ioctlCommand cmd env ≠ some cmdStart := by simpa [isCommand] using hstart
      exact .inl ⟨not_warned (fun _ h => by cases h), canIoctl_mode hs hne⟩
  | write accessOk us =>
      exact .inl ⟨not_warned (fun _ h => by cases h), hkeeps.canWrite hs accessOk us⟩
  | read accessOk count =>
      refine .inl ⟨not_warned (fun _ h => by cases h), ?_⟩
      have hchip : (canRead accessOk count s).2.2.chip = s.chip := by
        cases accessOk with
        | false => rfl
        | true =>
            obtain ⟨rxq, hframe, -, -⟩ := readLoop_spec count s
            simp only [canRead, Bool.not_true, Bool.false_eq_true, if_false, hframe]
      exact (congrArg Latch.mode hchip).trans hs
  | timer =>
      refine .inl ⟨not_warned (fun _ h => by cases h), ?_⟩
      obtain ⟨k, hframe⟩ := disarm_frame s
      have hdis : Latch.mode s.disarm.chip = (true, n) := by rw [hframe]; exact hs
      exact Keeps.wakeWriters (P := fun c => Latch.mode c = (true, n)) (hkeeps.txConsume hdis)
  | sysctl sys => exact .inl ⟨not_warned (fun _ h => by cases h), hs⟩
  | device c =>
      have hsame : c.request = s.chip.dev.request ∧ c.taken = s.chip.dev.taken := by
        simpa [allowed] using hop
      refine .inl ⟨not_warned (fun _ h => by cases h), ?_⟩
      rw [← hs]
      exact Prod.ext hsame.1 hsame.2

/-- A stop leaves the request in force. -/
theorem request_of_stop {op : ChanOp (Latch t σ)} (s : Chan (Recorder (Latch t σ)))
    (hstop : isCommand cmdStop op = true) :
    (Channels.chanAfter t op s).chip.dev.request = true := by
  cases op with
  | ioctl cmd env =>
      have hcmd : ioctlCommand cmd env = some cmdStop := by simpa [isCommand] using hstop
      show (canIoctl t cmd env s).2.2.chip.dev.request = true
      rcases canIoctl_cases t s cmd env with ⟨c, hc, -, heq⟩ | ⟨a, hc, -, -⟩ | ⟨hc, -, -⟩
      · rw [hcmd, Option.some.injEq] at hc
        rw [heq, ← hc]
        exact congrArg Prod.fst (Latch.canStopChip_mode s)
      · rw [hcmd] at hc
        cases hc
      · rw [hcmd] at hc
        cases hc
  | _ => cases hstop

/-- **When a stop stays in force.**  In every run of an open device no operation takes back the
    request of a `CMD_STOP` before the next `CMD_START`, if and only if no interrupt iteration
    finds an error warning while the device is stopped. -/
theorem staysStopped_iff {x : Stoppable t σ} (hx : x.stopped = false)
    (ops : List (ChanOp (Latch t σ))) :
    Run.Along step StaysStopped x ops ↔
      Run.Along step (fun x op => x.stopped = true → ¬ Warned op x.chan) x ops := by
  have hstart : ∀ {op : ChanOp (Latch t σ)} {s}, Warned op s → isCommand cmdStart op = false := by
    rintro op s ⟨tstamp, rfl, -⟩
    rfl
  refine Run.along_congr_of (I := fun x : Stoppable t σ =>
    x.stopped = true → x.chan.chip.dev.request = true) ?_ ?_ ?_
  · -- the request is in force while the device is stopped
    intro x op x' hreq hstay hstep
    unfold step at hstep
    split at hstep
    · obtain rfl := Option.some.inj hstep
      intro hstopped
      obtain ⟨hor, hne⟩ := Bool.and_eq_true_iff.mp hstopped
      -- stopped before, or by this operation
      rcases Bool.or_eq_true_iff.mp hor with hbefore | hstop
      · exact congrArg Prod.fst (hstay hbefore (by simpa using hne))
      · exact request_of_stop x.chan hstop
    · cases hstep
  · intro x op x' hreq hstep
    unfold step at hstep
    split at hstep
    · rename_i hen
      have hop : allowed op x.chan = true := (Bool.and_eq_true_iff.mp hen).2
      constructor
      · intro hstay hstopped hw
        have hmode := hstay hstopped (hstart hw)
        rcases mode_chanAfter (Prod.ext (hreq hstopped) rfl) hop (hstart hw) with
          ⟨hnot, -⟩ | ⟨-, hlost⟩
        · exact hnot hw
        · rw [hlost] at hmode
          cases hmode
      · intro hnot hstopped hne
        rcases mode_chanAfter (Prod.ext (hreq hstopped) rfl) hop hne with ⟨-, hkept⟩ | ⟨hw, -⟩
        · exact hkept
        · exact absurd hw (hnot hstopped)
    · cases hstep
  · intro h
    rw [hx] at h
    cases h

/-- A device, just opened, whose registers all read an error warning. -/
def warning : Stoppable .atcanminiPelican Floating where
  chan := (canOpen .atcanminiPelican (.granted Canmsg.zero)
    (Chan.coreInit .atcanminiPelican 0 5 0x320 ⟨⟨⟨canErrorWarnInt⟩, false, 0⟩, []⟩)).2
  stopped := false

/-- The device is stopped and started, and an error warning comes after the start. -/
theorem staysStopped_iff_restart :
    Run.Along step StaysStopped warning
        [.ioctl reqCommand (Channels.commandRequest cmdStop),
          .ioctl reqCommand (Channels.commandRequest cmdStart), .irq ⟨0, 0⟩] ↔
      Run.Along step (fun x op => x.stopped = true → ¬ Warned op x.chan) warning
        [.ioctl reqCommand (Channels.commandRequest cmdStop),
          .ioctl reqCommand (Channels.commandRequest cmdStart), .irq ⟨0, 0⟩] :=
  staysStopped_iff rfl _

/-- The device is stopped, and an interrupt iteration starts it again. -/
theorem stop_undone : ¬ Run.Along step StaysStopped warning
    [.ioctl reqCommand (Channels.commandRequest cmdStop), .irq ⟨0, 0⟩] := by
  have hmap : (step warning (.ioctl reqCommand (Channels.commandRequest cmdStop))).map
      (fun x => (x.stopped, (step x (.irq ⟨0, 0⟩)).isSome,
        Latch.mode (Channels.chanAfter .atcanminiPelican (.irq ⟨0, 0⟩) x.chan).chip)) =
      some (true, true, (false, 2)) := by
    decide
  obtain ⟨x, hx, heq⟩ := Option.map_eq_some_iff.mp hmap
  obtain ⟨hstopped, hstep, hmode⟩ : x.stopped = true ∧ (step x (.irq ⟨0, 0⟩)).isSome = true ∧
      Latch.mode (Channels.chanAfter .atcanminiPelican (.irq ⟨0, 0⟩) x.chan).chip =
        (false, 2) := by
    simpa using heq
  obtain ⟨x', hx'⟩ := Option.isSome_iff_exists.mp hstep
  intro halong
  simp only [Run.Along, hx, hx'] at halong
  have hstay := halong.2.1 hstopped rfl
  rw [hmode] at hstay
  cases hstay

end Stoppable

end Can4linux
