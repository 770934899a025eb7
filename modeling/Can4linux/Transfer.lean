/-
  Can4linux.Transfer

  `sendcanmsg` and `readcanmsg`: from a message to the frame registers and back.
  Both are written register by register as in `sja1000funcs.c`, over any `Chip`.

  `sendcanmsg` first caps the length and works out whether the message has to
  wait (`waits`): then it only arms the delay timer and leaves the message
  unconsumed, with its delay cleared.
-/

import Can4linux.Dev

namespace Can4linux

section Send

variable {σ : Type} [Chip σ] (t : Target)

/-- `if (msg->length > 8) msg->length = 8`. -/
def Canmsg.capLength (m : Canmsg) : Canmsg :=
  { m with length := if (8 : BitVec 16).slt m.length then 8 else m.length }

/-- `msg->timestamp.tv_usec = 0`. -/
def Canmsg.clearDelay (m : Canmsg) : Canmsg :=
  { m with timestamp := { m.timestamp with tvUsec := 0 } }

/-- The message as it goes on the wire: length capped, no delay left. -/
def Canmsg.onWire (m : Canmsg) : Canmsg := m.capLength.clearDelay

/-- `nbits`, the bits of the shortest frame that carries the message. -/
def nbits (m : Canmsg) : CInt :=
  (1+11+1+1+1+4+15+1+1+1+7) + (if isSet m.flags msgExt then 18+2 else 0) +
    m.length.signExtend 32 * 8

/-- `dly` before the frame time is taken off: `tv_usec` as an `int`. -/
def requestedDelay (m : Canmsg) : CInt := m.timestamp.tvUsec.setWidth 32

/-- `dly` after the frame time is taken off.  The division by a zero `Baud` traps
    on the machine; here it has the value 0. -/
def remainingDelay (baud : CInt) (m : Canmsg) : CInt :=
  requestedDelay m - (nbits m * 1000).sdiv baud

/-- Whether `sendcanmsg` arms the timer instead of sending `m` (length capped). -/
def waits (baud : CInt) (m : Canmsg) : Bool :=
  requestedDelay m != 0 && (0 : CInt).slt (remainingDelay baud m)

/-- `tx2reg`, the length code and the remote bit. -/
def tx2reg (m : Canmsg) : U8 :=
  m.length.setWidth 8 ||| (if isSet m.flags msgRtr then canRtr else 0)

/-- The first `n` rounds of a loop that writes `msg->data[i]` to register `reg i`. -/
def writeData (reg : Nat → Reg) (m : Canmsg) : Nat → σ → σ
  | 0, c => c
  | n + 1, c => canOut t (reg n) (m.byte n) (writeData reg m n c)

/-- The rounds of `for (i = 0; i < msg->length; i++)`. -/
def Canmsg.rounds (m : Canmsg) : Nat := m.length.toInt.toNat

/-- The register writes of `sendcanmsg` up to the transmission request. -/
def writeFrame (m : Canmsg) (c : σ) : σ :=
  if isSet m.flags msgExt then
    let c := canOut t .frameinfo (canEff + tx2reg m) c
    let c := canOut t .extCanid1 ((m.id >>> 21).setWidth 8) c
    let c := canOut t .extCanid2 ((m.id >>> 13).setWidth 8) c
    let c := canOut t .extCanid3 ((m.id >>> 5).setWidth 8) c
    let c := canOut t .extCanid4 ((m.id <<< 3).setWidth 8 &&& 0xff) c
    writeData t .extCanxdata m m.rounds c
  else
    let c := canOut t .frameinfo (canSff + tx2reg m) c
    let c := canOut t .stdCanid1 ((m.id >>> 3).setWidth 8) c
    let c := canOut t .stdCanid2 ((m.id <<< 5).setWidth 8 &&& 0xe0) c
    writeData t .stdCandata m m.rounds c

/-- Write the frame and give the transmission request. -/
def loadFrame (m : Canmsg) (c : σ) : σ :=
  canOut t .cancmd canTransmissionRequest (writeFrame t m c)

/-- `sendcanmsg`: the message as it is left in its slot, whether it is consumed,
    and the channel afterwards. -/
def sendcanmsg (msg : Canmsg) (s : Chan σ) : Canmsg × Bool × Chan σ :=
  let m := msg.capLength
  if waits s.sys.baud m then
    -- not consumed: the timer finds the message again, without its delay
    (m.clearDelay, false, s.kapiScheduleDelayed (remainingDelay s.sys.baud m))
  else
    -- consumed, but `consumed++` is done by `qconsume` after the request is given
    (m, true, { s with
      chip := loadFrame t m s.chip
      txinprogress := 1
      hist := { s.hist with loaded := s.hist.loaded ++ [msg.onWire] } })

end Send

section Receive

variable {σ : Type} [Chip σ] (t : Target)

/-- The first `n` rounds of the loop that reads register `reg i` into `msg->data[i]`. -/
def readData (reg : Nat → Reg) : Nat → (Fin 8 → U8) → σ → (Fin 8 → U8) × σ
  | 0, d, c => (d, c)
  | n + 1, d, c =>
      let r := readData reg n d c
      let rd := canIn t (reg n) r.2
      (setByte r.1 n rd.1, rd.2)

/-- The identifier registers of an extended frame, as `readcanmsg` puts them together. -/
def readExtId (c : σ) : CInt × σ :=
  let r1 := canIn t .extCanid1 c
  let r2 := canIn t .extCanid2 r1.2
  let r3 := canIn t .extCanid3 r2.2
  let r4 := canIn t .extCanid4 r3.2
  ((r1.1.setWidth 32 <<< 21) + (r2.1.setWidth 32 <<< 13) + (r3.1.setWidth 32 <<< 5) +
    (r4.1.setWidth 32 >>> 3), r4.2)

/-- The identifier registers of a standard frame. -/
def readStdId (c : σ) : CInt × σ :=
  let r1 := canIn t .stdCanid1 c
  let r2 := canIn t .stdCanid2 r1.2
  ((r1.1.setWidth 32 <<< 3) + (r2.1.setWidth 32 >>> 5), r2.2)

/-- `readcanmsg`: fill the slot from the frame registers, then release them. -/
def readcanmsg (inf : Msginf) (msg : Canmsg) (c : σ) : Canmsg × σ :=
  let rd := canIn t .frameinfo c
  let reg := rd.1
  let flags := inf.flags ||| (if isSet reg canRtr then msgRtr else 0)
    ||| (if isSet reg canEff then msgExt else 0)
  let ext := isSet reg canEff
  let id := if ext then readExtId t rd.2 else readStdId t rd.2
  let len := reg &&& 0x0f
  -- a length code above 8 stays as it is in `length`, and is taken modulo 9 for the copy
  let data := readData t (if ext then .extCanxdata else .stdCandata) (len.toNat % 9) msg.data id.2
  ({ msg with
      timestamp := inf.tstamp
      flags := flags
      id := id.1.setWidth 64
      length := len.setWidth 16
      data := data.1 },
    canOut t .cancmd canReleaseReceiveBuffer data.2)

/-- `msginf.flags` at the head of an interrupt iteration. -/
def presetFlags (rxstatus : CInt) : CInt := if isSet rxstatus bufOverrun then msgBovr else 0

/-- `errmsg`: fill the slot with an error message. -/
def errmsg (inf : Msginf) (msg : Canmsg) : Canmsg :=
  { msg with id := 0xFFFFFFFF, timestamp := inf.tstamp, flags := inf.flags, length := 0 }

end Receive

end Can4linux
