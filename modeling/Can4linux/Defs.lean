/-
  Can4linux.Defs

  The C types and constants of `defs.h`, `can4linux.h` and `sja1000.h`: machine
  integers, the message structure, message flags, controller register bits and
  the build targets of `target/*.mk`.

  `int` is 32 bits wide and `long` 64; both are `BitVec`s and wrap.  Signed
  comparisons are written `slt`/`sle`, so that a reader sees where the source
  compares signed values.
-/

import Mathlib.Data.Fintype.Pi

namespace Can4linux

/-- `uint8`, the type of every controller register. -/
abbrev U8 := BitVec 8

/-- `int` and `unsigned int`. -/
abbrev CInt := BitVec 32

/-- `long` and `unsigned long`. -/
abbrev CLong := BitVec 64

/-- The test `x & m` of a condition. -/
def isSet {w : Nat} (x m : BitVec w) : Bool := x &&& m != 0

theorem isSet_or {w : Nat} (x y m : BitVec w) :
    isSet (x ||| y) m = (isSet x m || isSet y m) := by
  have hsplit : (x ||| y) &&& m = 0#w ↔ x &&& m = 0#w ∧ y &&& m = 0#w := by
    rw [BitVec.and_or_distrib_right]
    exact BitVec.or_eq_zero_iff
  rw [Bool.eq_iff_iff, Bool.or_eq_true]
  simp only [isSet, bne_iff_ne, ne_eq]
  exact (not_congr hsplit).trans Classical.not_and_iff_not_or_not

theorem isSet_and {w : Nat} (x k m : BitVec w) : isSet (x &&& k) m = isSet x (k &&& m) := by
  rw [isSet, isSet, BitVec.and_assoc]

theorem isSet_zero {w : Nat} (m : BitVec w) : isSet 0 m = false := by
  simp [isSet]

/-- A flag that is put into a word is set. -/
theorem isSet_or_self {w : Nat} (x : BitVec w) {m : BitVec w} (hm : m ≠ 0) :
    isSet (x ||| m) m = true := by
  rw [isSet_or, Bool.or_eq_true]
  right
  rw [isSet, BitVec.and_self, bne_iff_ne]
  exact hm

theorem isSet_if {w : Nat} (b : Bool) (x m : BitVec w) :
    isSet (if b then x else 0) m = (b && isSet x m) := by
  cases b with
  | true => rfl
  | false => exact isSet_zero m

theorem isSet_unless {w : Nat} (b : Bool) (x m : BitVec w) :
    isSet (if b then 0 else x) m = (!b && isSet x m) := by
  cases b with
  | true => exact isSet_zero m
  | false => rfl

/-! ## Messages -/

/-- `struct timeval`. -/
structure Timeval where
  tvSec : CLong
  tvUsec : CLong
deriving DecidableEq

/-- `canmsg_t`. -/
structure Canmsg where
  flags : CInt
  cob : CInt
  id : CLong
  timestamp : Timeval
  length : BitVec 16
  data : Fin 8 → U8
deriving DecidableEq

/-- A message of zero bytes. -/
def Canmsg.zero : Canmsg := ⟨0, 0, 0, ⟨0, 0⟩, 0, fun _ => 0⟩

/-- `data[i]`; the source never reads past `data[7]`. -/
def Canmsg.byte (m : Canmsg) (i : Nat) : U8 := if h : i < 8 then m.data ⟨i, h⟩ else 0

/-- `data[i] = v`. -/
def setByte (d : Fin 8 → U8) (i : Nat) (v : U8) : Fin 8 → U8 :=
  fun j => if j.val = i then v else d j

/-- `MSG_RTR`, a remote frame. -/
def msgRtr : CInt := 0x01
/-- `MSG_OVR`, a message was lost in the controller. -/
def msgOvr : CInt := 0x02
/-- `MSG_EXT`, extended message format. -/
def msgExt : CInt := 0x04
/-- `MSG_PASSIVE`, controller in error passive. -/
def msgPassive : CInt := 0x10
/-- `MSG_BUSOFF`, controller bus off. -/
def msgBusoff : CInt := 0x20
/-- `MSG_BOVR`, receive buffer overflow. -/
def msgBovr : CInt := 0x80

/-- `MAX_RX_BUFSIZE`. -/
def maxRxBufsize : CInt := 2048
/-- `MAX_TX_BUFSIZE`. -/
def maxTxBufsize : CInt := 128
/-- `MAX_CHANNELS`. -/
def maxChannels : Nat := 4

/-- `BUF_OK`. -/
def bufOk : CInt := 1
/-- `BUF_OVERRUN`. -/
def bufOverrun : CInt := 2

/-! ## Error numbers, as the driver returns them -/

/-- `-ENXIO`. -/
def enxio : CInt := -6
/-- `-EBADF`. -/
def ebadf : CInt := -9
/-- `-ENOMEM`. -/
def enomem : CInt := -12
/-- `-EBUSY`. -/
def ebusy : CInt := -16
/-- `-EINVAL`. -/
def einval : CInt := -22

/-! ## Controller register bits -/

/-- `CAN_RESET_REQUEST`, bit 0 of the mode register. -/
def canResetRequest : U8 := 0x01
/-- `CAN_MODE_DEF`, single acceptance filter. -/
def canModeDef : U8 := 0x08
/-- `CAN_MODE_PELICAN`. -/
def canModePelican : U8 := 0xC0
/-- `CAN_MODE_CLK`. -/
def canModeClk : U8 := 0x07

/-- `CAN_CLEAR_OVERRUN_STATUS`. -/
def canClearOverrunStatus : U8 := 0x08
/-- `CAN_RELEASE_RECEIVE_BUFFER`. -/
def canReleaseReceiveBuffer : U8 := 0x04
/-- `CAN_TRANSMISSION_REQUEST`. -/
def canTransmissionRequest : U8 := 0x01

/-- `CAN_BUS_STATUS`. -/
def canBusStatus : U8 := 0x80
/-- `CAN_ERROR_STATUS`. -/
def canErrorStatus : U8 := 0x40
/-- `CAN_TRANSMIT_BUFFER_ACCESS`. -/
def canTransmitBufferAccess : U8 := 0x04
/-- `CAN_DATA_OVERRUN`. -/
def canDataOverrun : U8 := 0x02
/-- `CAN_RECEIVE_BUFFER_STATUS`. -/
def canReceiveBufferStatus : U8 := 0x01

/-- `CAN_OVERRUN_INT`; the bit is also `CAN_OVERRUN_INT_ENABLE`. -/
def canOverrunInt : U8 := 0x08
/-- `CAN_ERROR_WARN_INT`; the bit is also `CAN_ERROR_WARN_INT_ENABLE`. -/
def canErrorWarnInt : U8 := 0x04
/-- `CAN_TRANSMIT_INT`; the bit is also `CAN_TRANSMIT_INT_ENABLE`. -/
def canTransmitInt : U8 := 0x02
/-- `CAN_RECEIVE_INT`; the bit is also `CAN_RECEIVE_INT_ENABLE`. -/
def canReceiveInt : U8 := 0x01

/-- `CAN_EFF`, extended frame format. -/
def canEff : U8 := 0x80
/-- `CAN_SFF`, standard frame format. -/
def canSff : U8 := 0x00
/-- `CAN_RTR`, bit 6 of the frame information. -/
def canRtr : U8 := 0x40

/-! ## Build targets -/

/-- The boards of `target/*.mk` whose controller is an SJA1000. -/
inductive Target where
  | atcanminiPelican
  | cpcPci
  | imeSlimline
  | ixxatPci03
  | pcm3680
  | trm816
deriving DecidableEq

/-- How a build reaches the controller registers (`CAN_PORT_IO`,
    `CAN_INDEXED_PORT_IO`, plain memory, `CAN4LINUX_PCI`). -/
inductive Access where
  | portIo
  | indexedPortIo
  | memIo
  | pci
deriving DecidableEq

namespace Target

/-- The register access method the target's makefile selects. -/
def access : Target → Access
  | atcanminiPelican => .portIo
  | cpcPci => .pci
  | trm816 => .indexedPortIo
  | imeSlimline | ixxatPci03 | pcm3680 => .memIo

/-- The I/O region that `CAN_VendorInit` requests at `Base` (start, length). -/
def requestRegion (t : Target) (base range : CInt) : Option (CInt × CInt) :=
  match t.access with
  | .portIo | .memIo => some (base, range)
  | .indexedPortIo => some (base, 2)
  | .pci => none

/-- The I/O region that `can_close` releases. -/
def releaseRegion (t : Target) (base range : CInt) : Option (CInt × CInt) :=
  match t.access with
  | .portIo | .pci => some (base, range)
  | .indexedPortIo => some (base, 2)
  | .memIo => none

/-- `CAN_OUTC_VAL`. -/
def outcVal : Target → CInt
  | atcanminiPelican => 0xfa
  | imeSlimline | cpcPci => 0xda
  | ixxatPci03 | pcm3680 => 0x5e
  | trm816 => 0x1a

/-- `dev->can_range` as `CAN_VendorInit` sets it. -/
def canRange : Target → CInt
  | ixxatPci03 | pcm3680 => 0x200
  | _ => 0x20

/-- `CanTiming[i]`, the register pair for the `i`-th standard rate; the values
    depend on `CAN_SYSCLK` (10 MHz on the TRM816, 8 MHz elsewhere). -/
def canTiming : Target → Nat → U8 × U8
  | trm816, 0 => (0x31, 0x2f)
  | trm816, 1 => (0x18, 0x2f)
  | trm816, 2 => (0x09, 0x2f)
  | trm816, 3 => (4, 0x2f)
  | trm816, 4 => (4, 0x1c)
  | trm816, 5 => (1, 0x2f)
  | trm816, 6 => (0, 0x2f)
  | trm816, _ => (0, 0x16)
  | _, 0 => (49, 0x1c)
  | _, 1 => (24, 0x1c)
  | _, 2 => (9, 0x1c)
  | _, 3 => (4, 0x1c)
  | _, 4 => (3, 0x1c)
  | _, 5 => (1, 0x1c)
  | _, 6 => (0, 0x1c)
  | _, 7 => (0, 0x16)
  | _, _ => (0, 0x14)

/-- `R_OFF`, the distance of two data registers in the frame buffer. -/
def rOff : Target → Nat
  | cpcPci => 4
  | _ => 1

/-- The distance of two members of `canregs_t`: the PCI layout puts three dummy
    bytes behind every register. -/
def stride : Target → Nat
  | cpcPci => 4
  | _ => 1

theorem rOff_eq_stride (t : Target) : t.rOff = t.stride := by cases t <;> rfl

theorem stride_pos (t : Target) : 0 < t.stride := by cases t <;> decide

end Target

end Can4linux
