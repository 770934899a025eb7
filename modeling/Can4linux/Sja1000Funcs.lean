/-
  Can4linux.Sja1000Funcs

  The functions of `sja1000funcs.c` behind the file operations: chip reset,
  start, stop and configuration, the interrupt handler and the delayed worker.
  Everything is written over an arbitrary `Chip`.

  One iteration of the loop in `CAN_Interrupt` is `irqBody`; its four branches
  are functions of their own.  `canInterrupt` runs the loop with fuel, since
  whether it ends depends on the device.
-/

import Can4linux.Transfer

namespace Can4linux

/-! ## Producing into the receive queue -/

section Produce

variable {σ : Type}

/-- `rxproduce`. -/
def rxproduce (produce : Canmsg → σ → Canmsg × σ) (s : Chan σ) : Chan σ :=
  let r := s.rxq.qproduce produce s.chip
  if r.2.2 then
    Chan.wakeUp { s with
      rxq := r.1, chip := r.2.1, rxstatus := bufOk
      hist := { s.hist with
        received := s.hist.received ++ [(produce s.rxq.freeSlot s.chip).1] } }
  else
    -- the callback has not run: a frame stays in the controller
    { s with rxq := r.1, chip := r.2.1, rxstatus := bufOverrun }

/-- `rxproduce(dev, errmsg, &msginf)`. -/
def rxproduceErr (inf : Msginf) (s : Chan σ) : Chan σ :=
  rxproduce (fun msg c => (errmsg inf msg, c)) s

end Produce

variable {σ : Type} [Chip σ] (t : Target)

/-! ## Configuration -/

/-- The `switch` of `CAN_SetTiming`: the standard rate, `none` for a custom one. -/
def rateIndex (baud : CInt) : Option Nat :=
  if baud = 10 then some 0
  else if baud = 20 then some 1
  else if baud = 50 then some 2
  else if baud = 100 then some 3
  else if baud = 125 then some 4
  else if baud = 250 then some 5
  else if baud = 500 then some 6
  else if baud = 800 then some 7
  else if baud = 1000 then some 8
  else none

/-- `CAN_SetTiming`. -/
def canSetTiming (baud : CInt) (c : σ) : σ :=
  let c := canOut t .canclk (canModePelican + canModeClk) c
  match rateIndex baud with
  | none =>
      let c := canOut t .cantim0 ((baud.sshiftRight 8).setWidth 8 &&& 0xff) c
      let c := canOut t .cantim1 ((baud &&& 0xff).setWidth 8) c
      -- the message to the log reads both registers back
      (canIn t .cantim1 (canIn t .cantim0 c).2).2
  | some i =>
      let c := canOut t .cantim0 (t.canTiming i).1 c
      canOut t .cantim1 (t.canTiming i).2 c

/-- `CAN_SetOMode`. -/
def canSetOMode (arg : CInt) (c : σ) : σ := canOut t .canoutc (arg.setWidth 8) c

/-- `CAN_SetMask`. -/
def canSetMask (code mask : CInt) (c : σ) : σ :=
  let c := canOut t .frameinfo ((code >>> 24 &&& 0xff).setWidth 8) c
  let c := canOut t .extCanid1 ((code >>> 16 &&& 0xff).setWidth 8) c
  let c := canOut t .extCanid2 ((code >>> 8 &&& 0xff).setWidth 8) c
  let c := canOut t .extCanid3 ((code >>> 0 &&& 0xff).setWidth 8) c
  let c := canOut t .extCanid4 ((mask >>> 24 &&& 0xff).setWidth 8) c
  let c := canOut t (.extCanxdata 0) ((mask >>> 16 &&& 0xff).setWidth 8) c
  let c := canOut t (.extCanxdata 1) ((mask >>> 8 &&& 0xff).setWidth 8) c
  canOut t (.extCanxdata 2) ((mask >>> 0 &&& 0xff).setWidth 8) c

/-- `CAN_StartChip`. -/
def canStartChip (s : Chan σ) : Chan σ :=
  { s with
    sys := { s.sys with rxErr := 0, txErr := 0 }
    chip :=
      -- clears the interrupts that are latched
      let c := (canIn t .canirq s.chip).2
      let c := canOut t .canirqEnable
        (canOverrunInt + canErrorWarnInt + canTransmitInt + canReceiveInt) c
      canReset t .canmode canResetRequest c }

/-- `CAN_StopChip`. -/
def canStopChip (s : Chan σ) : Chan σ := s.onChip (canSet t .canmode canResetRequest)

/-- The first accesses of `CAN_ChipReset`: request reset, read the status, then read
    back the mode register. -/
def requestReset (c : σ) : U8 × σ :=
  let c := canOut t .canmode canResetRequest c
  canIn t .canmode (canIn t .canstat c).2

/-- Whether the controller answers the reset request. -/
def entersReset (c : σ) : Bool := isSet (requestReset t c).1 canResetRequest

/-- `CAN_ChipReset`; `false` is the result -1. -/
def canChipReset (s : Chan σ) : Bool × Chan σ :=
  let c := (requestReset t s.chip).2
  if !entersReset t s.chip then
    -- the use count is taken back here, and by `can_open` once more
    (false, Chan.decusers { s with chip := c })
  else
    -- the board's value replaces a zero `Outc` for good
    let outc := if s.sys.outc = 0 then t.outcVal else s.sys.outc
    let c := canOut t .canclk (canModePelican + canModeClk) c
    let c := canOut t .canmode (canResetRequest + canModeDef) c
    let c := canOut t .canoutc (outc.setWidth 8) c
    let c := canSetTiming t s.sys.baud c
    let c := canSetMask t s.sys.accCode s.sys.accMask c
    (true, { s with sys := { s.sys with outc := outc }, chip := c })

/-! ## Transmission -/

/-- `qconsume(&dev->txq, sendcanmsg, dev)`. -/
def txConsume (s : Chan σ) : Chan σ :=
  let r := s.txq.qconsume (sendcanmsg t) s
  { r.2.1 with txq := r.1 }

/-- `delayedmsgworker`. -/
def delayedmsgworker (s : Chan σ) : Chan σ := (txConsume t s).wakeWriters

/-! ## Interrupts -/

/-- `if (irqsrc & CAN_RECEIVE_INT)` and its body. -/
def rxIrq (irqsrc : U8) (inf : Msginf) (s : Chan σ) : Chan σ :=
  if isSet irqsrc canReceiveInt then
    let s := rxproduce (readcanmsg t inf) s
    let rd := canIn t .canstat s.chip
    { s with chip :=
        -- an overrun is cleared without an error message here
        if isSet rd.1 canDataOverrun then canOut t .cancmd canClearOverrunStatus rd.2
        else rd.2 }
  else s

/-- `err`, from the status register. -/
def errFlags (stat : U8) : CInt :=
  -- `err = + MSG_BUSOFF` comes last and replaces the passive flag
  if isSet stat canBusStatus then msgBusoff
  else if isSet stat canErrorStatus then msgPassive
  else 0

/-- Undo a reset request that the controller made on its own. -/
def undoReset (c : σ) : σ :=
  let rd := canIn t .canmode c
  if isSet rd.1 canResetRequest then canReset t .canmode canResetRequest rd.2 else rd.2

/-- Whether a transmission came to an end without a transmit interrupt. -/
def lostTxInt (txinprogress : CInt) (irqsrc : U8) (c : σ) : Bool × σ :=
  if txinprogress != 0 && !isSet irqsrc canTransmitInt then
    let rd := canIn t .canstat c
    (isSet rd.1 canTransmitBufferAccess, rd.2)
  else (false, c)

/-- `if (irqsrc & CAN_ERROR_WARN_INT)` and its body; it may add a transmit interrupt to
    `irqsrc` and leaves its error flags in `msginf`. -/
def errWarnIrq (irqsrc : U8) (inf : Msginf) (s : Chan σ) : U8 × Msginf × Chan σ :=
  if isSet irqsrc canErrorWarnInt then
    let rd := canIn t .canstat (undoReset t s.chip)
    let err := errFlags rd.1
    if err = 0 then
      -- error active again: a reset may have aborted the frame in between
      let lost := lostTxInt t s.txinprogress irqsrc rd.2
      let irqsrc := if lost.1 then irqsrc ||| canTransmitInt else irqsrc
      (irqsrc, inf, rxproduceErr inf { s with chip := lost.2 })
    else
      let inf := { inf with flags := inf.flags + err }
      (irqsrc, inf, rxproduceErr inf { s with chip := rd.2 })
  else (irqsrc, inf, s)

/-- `if (irqsrc & CAN_TRANSMIT_INT)` and its body. -/
def txIrq (irqsrc : U8) (s : Chan σ) : Chan σ :=
  if isSet irqsrc canTransmitInt then (txConsume t { s with txinprogress := 0 }).wakeWriters
  else s

/-- `if (irqsrc & CAN_OVERRUN_INT)` and its body. -/
def overrunIrq (irqsrc : U8) (inf : Msginf) (s : Chan σ) : Chan σ :=
  if isSet irqsrc canOverrunInt then
    let s := { s with sys := { s.sys with overrun := s.sys.overrun + 1 } }
    let rd := canIn t .canstat s.chip
    let inf :=
      if isSet rd.1 canDataOverrun then { inf with flags := inf.flags + msgOvr } else inf
    (rxproduceErr inf { s with chip := rd.2 }).onChip (canOut t .cancmd canClearOverrunStatus)
  else s

/-- One iteration of the loop of `CAN_Interrupt`; `tstamp` is what
    `do_gettimeofday` returned. -/
def irqBody (tstamp : Timeval) (irqsrc : U8) (s : Chan σ) : Chan σ :=
  let inf : Msginf := ⟨presetFlags s.rxstatus, tstamp⟩
  let r := errWarnIrq t irqsrc inf (rxIrq t irqsrc inf s)
  overrunIrq t r.1 r.2.1 (txIrq t r.1 r.2.2)

/-- The loop of `CAN_Interrupt` from an interrupt source on, for at most `n`
    iterations; `now i` is the time at the head of iteration `i`. -/
def irqLoop : Nat → (Nat → Timeval) → U8 → Chan σ → Option (Chan σ)
  | 0, _, _, _ => none
  | n + 1, now, irqsrc, s =>
      let s := irqBody t (now 0) irqsrc s
      let rd := canIn t .canirq s.chip
      let s := { s with chip := rd.2 }
      if rd.1 = 0 then some s else irqLoop n (fun i => now (i + 1)) rd.1 s

/-- `CAN_Interrupt`; `none` says that the loop has not come to its end.  The two stores to the
    bridge with which the handler of the PCI build ends are no accesses to the controller and
    are not part of it. -/
def canInterrupt (n : Nat) (now : Nat → Timeval) (s : Chan σ) : Option (Chan σ) :=
  let rd := canIn t .canirq s.chip
  let s := { s with chip := rd.2 }
  if rd.1 = 0 then some s else irqLoop t n now rd.1 s

/-- The handler goes on for one more iteration, or returns. -/
theorem canInterrupt_succ (n : Nat) (now : Nat → Timeval) (s : Chan σ) :
    canInterrupt t (n + 1) now s =
      let rd := canIn t .canirq s.chip
      let s := { s with chip := rd.2 }
      if rd.1 = 0 then some s
      else canInterrupt t n (fun i => now (i + 1)) (irqBody t (now 0) rd.1 s) := rfl

/-- A read of the interrupt register and, if it shows anything, the iteration it
    leads to. -/
def irqIteration (tstamp : Timeval) (s : Chan σ) : Chan σ :=
  let rd := canIn t .canirq s.chip
  let s := { s with chip := rd.2 }
  if rd.1 = 0 then s else irqBody t tstamp rd.1 s

end Can4linux
