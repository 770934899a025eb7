/-
  Can4linux.FileOps

  The file operations: `can_open`, `can_close`, `can_read`, `can_write` and the
  `COMMAND` and `CONFIG` requests of `can_ioctl`, with the helpers of `util.c`
  they call.

  What a call gets from outside is an argument: the answers of the kernel to
  the requests of `can_open` (`OpenEnv`), and what the copies from user space
  leave in a slot (`UserMsg`; the source ignores how many bytes were copied).
-/

import Can4linux.Sja1000Funcs

namespace Can4linux

variable {σ : Type} (t : Target)

/-! ## open -/

/-- The kernel's answers during one `can_open`: whether the I/O region and the IRQ
    are granted, and the blocks `kmalloc` returns for the two queues, with what
    their memory happens to hold. -/
structure OpenEnv where
  regionFree : Bool
  irqFree : Bool
  rxBlock : Option (Nat × (CInt → Canmsg))
  txBlock : Option (Nat × (CInt → Canmsg))

/-- `request_region` or `request_mem_region`, where the build makes the request. -/
def requestRegion (env : OpenEnv) (s : Chan σ) : Option (Chan σ) :=
  match t.requestRegion s.sys.base s.canRange with
  -- the PCI scan has mapped the address before
  | none => some s
  | some r =>
      if env.regionFree then
        some { s with held := { s.held with regions := r :: s.held.regions } }
      else none

/-- The hardware reset that two boards make through a register of their own. -/
def boardReset [Chip σ] (base : CInt) (c : σ) : σ :=
  match t with
  | .ixxatPci03 | .pcm3680 =>
      Chip.outb (if isSet base 0x200 then 0x300 else 0x100) 0xff c
  | _ => c

/-- `Can_RequestIrq`. -/
def canRequestIrq (env : OpenEnv) (s : Chan σ) : Option (Chan σ) :=
  if env.irqFree then
    some { s with requestedIrq := 1, held := { s.held with irqs := s.sys.irq :: s.held.irqs } }
  else none

/-- `CAN_VendorInit`: the result and the channel afterwards. -/
def canVendorInit [Chip σ] (env : OpenEnv) (s : Chan σ) : CInt × Chan σ :=
  let s := { s with canRange := t.canRange }
  match requestRegion t env s with
  | none => (ebusy, s)
  | some s =>
      let s := s.onChip (boardReset t s.sys.base)
      if (0#32).slt s.sys.irq then
        match canRequestIrq env s with
        | none => (ebusy, s)
        | some s => (0, s)
      else (0, s)

/-- A block that `kmalloc` returned is on record until it is freed. -/
def Chan.holdBuf (block : Option (Nat × (CInt → Canmsg))) (s : Chan σ) : Chan σ :=
  match block with
  | none => s
  | some b => { s with held := { s.held with bufs := b.1 :: s.held.bufs } }

/-- `Can_FifoInit`; `false` is the result -1. -/
def canFifoInit (env : OpenEnv) (s : Chan σ) : Bool × Chan σ :=
  let rx := s.rxq.qcreate maxRxBufsize false env.rxBlock
  let s := Chan.holdBuf env.rxBlock { s with rxq := rx.1 }
  if !rx.2 then (false, s)
  else
    -- should this one fail, the first queue is not freed
    let tx := s.txq.qcreate maxTxBufsize true env.txBlock
    (tx.2, Chan.holdBuf env.txBlock { s with txq := tx.1 })

/-- `can_open`: the result and the channel afterwards. -/
def canOpen [Chip σ] (env : OpenEnv) (s : Chan σ) : CInt × Chan σ :=
  let s := s.incusers
  if (3#32).ult s.minor then (einval, s.decusers)
  else if s.isopen = 1 then (enxio, s.decusers)
  else
    -- set before anything that can fail; no exit below takes it back
    let s := { s with isopen := 1 }
    if s.sys.base = 0 then (enxio, s.decusers)
    else
      let vendor := canVendorInit t env s
      if vendor.1.slt 0 then (vendor.1, vendor.2.decusers)
      else
        -- `Can_WaitInit`
        let fifo := canFifoInit env { vendor.2 with wq := 0 }
        if !fifo.1 then (enomem, fifo.2.decusers)
        else
          let chip := canChipReset t fifo.2
          if !chip.1 then (einval, chip.2.decusers)
          else (0, canStartChip t chip.2)

/-! ## close -/

/-- `release_region` or `release_mem_region`, where the build makes the call. -/
def releaseRegion (s : Chan σ) : Chan σ :=
  match t.releaseRegion s.sys.base s.canRange with
  | none => s
  | some r => { s with held := { s.held with regions := s.held.regions.erase r } }

/-- `qfree`: the block goes back to the kernel, the pointer stays in the queue. -/
def Chan.qfree (q : MsgQ Canmsg) (s : Chan σ) : Chan σ :=
  match q.buf with
  | none => s
  | some b => { s with held := { s.held with bufs := s.held.bufs.erase b } }

/-- `Can_FifoCleanup`. -/
def canFifoCleanup (s : Chan σ) : Chan σ :=
  let s := s.qfree s.txq
  s.qfree s.rxq

/-- `Can_FreeIrq`. -/
def canFreeIrq (s : Chan σ) : Chan σ :=
  { s with requestedIrq := 0, held := { s.held with irqs := s.held.irqs.erase s.sys.irq } }

/-- `can_close`: the result and the channel afterwards. -/
def canClose [Chip σ] (s : Chan σ) : CInt × Chan σ :=
  -- everything is released before the flag is looked at
  let s := releaseRegion t (canStopChip t s)
  let s := canFreeIrq (canFifoCleanup s)
  if (0#32).slt s.isopen then (0, Chan.decusers { s with isopen := s.isopen - 1 })
  else (ebadf, s)

/-! ## write -/

/-- What `copyusermsg` leaves in a slot, given what was there. -/
abbrev UserMsg := Canmsg → Canmsg

/-- A message copied completely. -/
def UserMsg.ofMsg (m : Canmsg) : UserMsg := fun _ => m

/-- `if (txq->idle) { txq->idle = 0; qconsume(txq, sendcanmsg, dev); }`. -/
def kickIdle [Chip σ] (s : Chan σ) : Chan σ :=
  if s.txq.idle then txConsume t { s with txq := s.txq.setIdle false } else s

/-- One round of the loop in `can_write`; `false` when the queue is full. -/
def writeOne [Chip σ] (u : UserMsg) (s : Chan σ) : Bool × Chan σ :=
  let r := s.txq.qproduce (fun slot (_ : Unit) => (u slot, ())) ()
  if r.2.2 then
    (true, kickIdle t { s with
      txq := r.1
      hist := { s.hist with accepted := s.hist.accepted ++ [u s.txq.freeSlot] } })
  else (false, s)

/-- The loop of `can_write`: the number of messages written and the channel. -/
def writeLoop [Chip σ] : List UserMsg → Chan σ → Nat × Chan σ
  | [], s => (0, s)
  | u :: us, s =>
      let r := writeOne t u s
      if r.1 then
        let rest := writeLoop us r.2
        (rest.1 + 1, rest.2)
      else (0, r.2)

/-- `can_write`; `accessOk` is the answer of `access_ok`. -/
def canWrite [Chip σ] (accessOk : Bool) (us : List UserMsg) (s : Chan σ) : CInt × Chan σ :=
  if !accessOk then (einval, s)
  else
    let r := writeLoop t us s
    (BitVec.ofNat 32 r.1, r.2)

/-! ## read -/

/-- One round of the loop in `can_read`: the message copied to user space, `none`
    when the queue is empty. -/
def readOne (s : Chan σ) : Option Canmsg × Chan σ :=
  let r := s.rxq.qconsume (fun slot (_ : Option Canmsg) => (slot, true, some slot)) none
  (r.2.1, { s with
    rxq := r.1
    hist := { s.hist with returned := s.hist.returned ++ r.2.1.toList } })

/-- The loop of `can_read`: the messages copied and the channel. -/
def readLoop : Nat → Chan σ → List Canmsg × Chan σ
  | 0, s => ([], s)
  | n + 1, s =>
      let r := readOne s
      match r.1 with
      | none => ([], r.2)
      | some m =>
          let rest := readLoop n r.2
          (m :: rest.1, rest.2)

/-- `can_read` with room for `count` messages: the result, the messages copied to
    user space and the channel. -/
def canRead (accessOk : Bool) (count : Nat) (s : Chan σ) : CInt × List Canmsg × Chan σ :=
  if !accessOk then (einval, [], s)
  else
    let r := readLoop count s
    (BitVec.ofNat 32 r.1.length, r.1, r.2)

/-! ## ioctl -/

/-- `CMD_START`. -/
def cmdStart : CInt := 1
/-- `CMD_STOP`. -/
def cmdStop : CInt := 2
/-- `CMD_RESET`. -/
def cmdReset : CInt := 3

/-- `can_Command`. -/
def canCommand [Chip σ] (cmd : CInt) (s : Chan σ) : CInt × Chan σ :=
  if cmd = cmdStart then (0, canStartChip t s)
  else if cmd = cmdStop then (0, canStopChip t s)
  else if cmd = cmdReset then (0, (canChipReset t s).2)
  else (einval, s)

/-- `CONF_ACC`. -/
def confAcc : CInt := 0
/-- `CONF_ACCM`. -/
def confAccm : CInt := 1
/-- `CONF_ACCC`. -/
def confAccc : CInt := 2
/-- `CONF_TIMING`. -/
def confTiming : CInt := 3
/-- `CONF_OMODE`. -/
def confOmode : CInt := 4

/-- `CAN_SetMask(minor, AccCode[minor], AccMask[minor])`. -/
def setMask [Chip σ] (s : Chan σ) : Chan σ := s.onChip (canSetMask t s.sys.accCode s.sys.accMask)

/-- `can_Config`. -/
def canConfig [Chip σ] (target : CInt) (val1 val2 : CLong) (s : Chan σ) : CInt × Chan σ :=
  if target = confAcc then
    (0, setMask t { s with
      sys := { s.sys with accMask := val1.setWidth 32, accCode := val2.setWidth 32 } })
  else if target = confAccm then
    (0, setMask t { s with sys := { s.sys with accMask := val1.setWidth 32 } })
  else if target = confAccc then
    (0, setMask t { s with sys := { s.sys with accCode := val1.setWidth 32 } })
  else if target = confTiming then
    (0, ({ s with sys := { s.sys with baud := val1.setWidth 32 } } : Chan σ).onChip
      (canSetTiming t (val1.setWidth 32)))
  else if target = confOmode then (0, s.onChip (canSetOMode t (val1.setWidth 32)))
  else (einval, s)

end Can4linux
