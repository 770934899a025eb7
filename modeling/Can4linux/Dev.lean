/-
  Can4linux.Dev

  The state of one channel: `struct Dev`, the channel's entries of the sysctl
  arrays, the kernel resources it holds, the delay timers of `linux_2.6.c` and
  the controller.  All functions of the driver work on one `Chan`.

  `Hist` is history only: no function reads it.  It records what passed through
  the two queues, so that a statement about a run can speak about it.
-/

import Can4linux.MsgQ
import Can4linux.Regs

namespace Can4linux

/-- `struct Dev`.  `wq` counts the `wake_up_interruptible` calls on the wait queue;
    `delayedwork` is the timer slot the device owns (`none` is NULL). -/
structure Dev where
  minor : CInt
  isopen : CInt
  canRange : CInt
  requestedIrq : CInt
  wq : Nat
  rxq : MsgQ Canmsg
  txq : MsgQ Canmsg
  txinprogress : CInt
  rxstatus : CInt
  delayedwork : Option Nat

/-- The channel's entries of the arrays in `sysctl.c`. -/
structure Sysctl where
  irq : CInt
  base : CInt
  baud : CInt
  accCode : CInt
  accMask : CInt
  outc : CInt
  txErr : CInt
  rxErr : CInt
  overrun : CInt

/-- `struct Delayed`: the device number in `data`, and the time the timer runs to
    in nanoseconds while it is armed. -/
structure Delayed where
  data : CInt
  expires : Option CLong

/-- The pool `dly[MAX_CHANNELS]` and the number of slots handed out. -/
structure Kapi where
  dly : Nat → Delayed
  idly : Nat

/-- What the kernel has granted to the channel: I/O regions (start, length), IRQ
    lines, memory blocks, and the module use count. -/
structure Held where
  regions : List (CInt × CInt)
  irqs : List CInt
  bufs : List Nat
  users : Int

/-- What passed through the queues since the history was last cleared. -/
structure Hist where
  /-- messages `can_write` put into the transmit queue -/
  accepted : List Canmsg
  /-- messages `sendcanmsg` handed to the controller -/
  loaded : List Canmsg
  /-- messages `rxproduce` put into the receive queue -/
  received : List Canmsg
  /-- messages `can_read` took out and counted -/
  returned : List Canmsg

/-- No history. -/
def Hist.empty : Hist := ⟨[], [], [], []⟩

/-- One channel with a controller of type `σ`. -/
structure Chan (σ : Type) extends Dev where
  sys : Sysctl
  held : Held
  kapi : Kapi
  hist : Hist
  chip : σ

/-- `struct Msginf`. -/
structure Msginf where
  flags : CInt
  tstamp : Timeval

/-- A queue of static storage: all zeros, no buffer. -/
def MsgQ.zero : MsgQ Canmsg := ⟨0, 0, 0, fun _ => Canmsg.zero, none, false, false⟩

namespace Chan

variable {σ : Type}

/-- The channel after `core_init`, with `IRQ` and `Base` as configured. -/
def coreInit (t : Target) (minor irq base : CInt) (chip : σ) : Chan σ where
  minor := minor
  isopen := 0
  canRange := 0
  requestedIrq := 0
  wq := 0
  rxq := MsgQ.zero
  txq := MsgQ.zero
  txinprogress := 0
  rxstatus := 0
  delayedwork := none
  sys := ⟨irq, base, 125, 0xffffffff, 0xffffffff, t.outcVal, 0, 0, 0⟩
  held := ⟨[], [], [], 0⟩
  kapi := ⟨fun _ => ⟨0, none⟩, 0⟩
  hist := Hist.empty
  chip := chip

/-- Perform register accesses only. -/
def onChip (f : σ → σ) (s : Chan σ) : Chan σ := { s with chip := f s.chip }

/-- Whether the device's delay timer is armed. -/
def timerArmed (s : Chan σ) : Bool :=
  match s.delayedwork with
  | some i => (s.kapi.dly i).expires.isSome
  | none => false

/-- `wake_up_interruptible(&dev->wq)`. -/
def wakeUp (s : Chan σ) : Chan σ := { s with wq := s.wq + 1 }

/-- Wake the writers when the transmit queue is at most half full. -/
def wakeWriters (s : Chan σ) : Chan σ :=
  if s.txq.qlen.sle (s.txq.qsize.sdiv 2) then s.wakeUp else s

/-- `incusers`. -/
def incusers (s : Chan σ) : Chan σ := { s with held := { s.held with users := s.held.users + 1 } }

/-- `decusers`. -/
def decusers (s : Chan σ) : Chan σ := { s with held := { s.held with users := s.held.users - 1 } }

/-- Set the timer of pool slot `i`. -/
def setTimer (s : Chan σ) (i : Nat) (d : Delayed) : Chan σ :=
  { s with kapi := { s.kapi with dly := Function.update s.kapi.dly i d } }

/-- `kapi_schedule_delayed(&dev->delayedwork, delayedmsgworker, usec, dev)`: take a
    slot of the pool on first use, then start its timer for `usec*1000` ns. -/
def kapiScheduleDelayed (usec : CInt) (s : Chan σ) : Chan σ :=
  let d : Delayed := ⟨s.minor, some ((usec * 1000).signExtend 64)⟩
  match s.delayedwork with
  | none =>
      -- no slot is ever given back
      if s.kapi.idly = maxChannels then s
      else
        { s with
          delayedwork := some s.kapi.idly
          kapi := ⟨Function.update s.kapi.dly s.kapi.idly d, s.kapi.idly + 1⟩ }
  | some i => s.setTimer i d

/-- The timer of the device runs out: `dlyworker` finds it no longer armed. -/
def disarm (s : Chan σ) : Chan σ :=
  match s.delayedwork with
  | some i => s.setTimer i { s.kapi.dly i with expires := none }
  | none => s

/-- A device that has no timer slot yet finds one in the pool. -/
def HasSlot (s : Chan σ) : Prop := s.delayedwork = none → s.kapi.idly ≠ maxChannels

instance (s : Chan σ) : Decidable s.HasSlot :=
  inferInstanceAs (Decidable (s.delayedwork = none → s.kapi.idly ≠ maxChannels))

end Chan

end Can4linux
