/-
  Can4linux.Regs

  The register file as the driver sees it: the members of `canregs_t` and
  `union frame` with their byte offsets in the plain layout and in the PCI
  layout (`sja1000.h`), and the access macros `CANout`, `CANin`, `CANset` and
  `CANreset` (`io.h`).

  `Chip σ` is any device that answers byte accesses at an offset; reading may
  change it.  The driver is written over this class, so that what is proved of
  the driver alone holds whatever the hardware does.
-/

import Can4linux.Defs

namespace Can4linux

/-- The members of `canregs_t` and `union frame` that the driver accesses;
    `extCanxdata i` is `frame.extframe.canxdata[R_OFF * i]`, `stdCandata i` is
    `frame.stdframe.candata[R_OFF * i]`. -/
inductive Reg where
  | canmode
  | cancmd
  | canstat
  | canirq
  | canirqEnable
  | cantim0
  | cantim1
  | canoutc
  | errorcode
  | errorwarninglimit
  | rxerror
  | txerror
  | frameinfo
  | extCanid1
  | extCanid2
  | extCanid3
  | extCanid4
  | extCanxdata (i : Nat)
  | stdCanid1
  | stdCanid2
  | stdCandata (i : Nat)
  | canclk
deriving DecidableEq

/-- The byte offset of a member in `canregs_t`.  Both layouts order the registers
    the same way; in the PCI layout each takes four bytes. -/
def Reg.offset (t : Target) : Reg → Nat
  | canmode => 0
  | cancmd => t.stride * 1
  | canstat => t.stride * 2
  | canirq => t.stride * 3
  | canirqEnable => t.stride * 4
  | cantim0 => t.stride * 6
  | cantim1 => t.stride * 7
  | canoutc => t.stride * 8
  | errorcode => t.stride * 12
  | errorwarninglimit => t.stride * 13
  | rxerror => t.stride * 14
  | txerror => t.stride * 15
  | frameinfo => t.stride * 16
  | extCanid1 => t.stride * 17
  | extCanid2 => t.stride * 18
  | extCanid3 => t.stride * 19
  | extCanid4 => t.stride * 20
  | extCanxdata i => t.stride * 21 + t.rOff * i
  | stdCanid1 => t.stride * 17
  | stdCanid2 => t.stride * 18
  | stdCandata i => t.stride * 19 + t.rOff * i
  | canclk => t.stride * 31

/-- A device with byte-wide registers at offsets from its base address. -/
class Chip (σ : Type) where
  inb : Nat → σ → U8 × σ
  outb : Nat → U8 → σ → σ

section Access

variable {σ : Type} [Chip σ] (t : Target)

/-- `CANout(bd, adr, v)`. -/
def canOut (r : Reg) (v : U8) (c : σ) : σ := Chip.outb (r.offset t) v c

/-- `CANin(bd, adr)`. -/
def canIn (r : Reg) (c : σ) : U8 × σ := Chip.inb (r.offset t) c

/-- `CANset(bd, adr, m)`. -/
def canSet (r : Reg) (m : U8) (c : σ) : σ :=
  let rd := canIn t r c
  canOut t r (rd.1 ||| m) rd.2

/-- `CANreset(bd, adr, m)`. -/
def canReset (r : Reg) (m : U8) (c : σ) : σ :=
  let rd := canIn t r c
  canOut t r (rd.1 &&& ~~~m) rd.2

end Access

/-! ## Register numbers -/

/-- The number of a register in the controller's address map. -/
def Reg.number : Reg → Nat
  | canmode => 0
  | cancmd => 1
  | canstat => 2
  | canirq => 3
  | canirqEnable => 4
  | cantim0 => 6
  | cantim1 => 7
  | canoutc => 8
  | errorcode => 12
  | errorwarninglimit => 13
  | rxerror => 14
  | txerror => 15
  | frameinfo => 16
  | extCanid1 => 17
  | extCanid2 => 18
  | extCanid3 => 19
  | extCanid4 => 20
  | extCanxdata i => 21 + i
  | stdCanid1 => 17
  | stdCanid2 => 18
  | stdCandata i => 19 + i
  | canclk => 31

/-- The register number the controller decodes from an offset. -/
def regno (t : Target) (off : Nat) : Nat := off / t.stride

/-- Both layouts place a member at its number times the register distance. -/
theorem Reg.offset_eq (t : Target) (r : Reg) : r.offset t = t.stride * r.number := by
  cases r <;> simp [Reg.offset, Reg.number, t.rOff_eq_stride, Nat.mul_add]

/-- Both layouts place every member where the controller decodes its number. -/
theorem regno_offset (t : Target) (r : Reg) : regno t (r.offset t) = r.number := by
  rw [regno, r.offset_eq, Nat.mul_div_cancel_left _ t.stride_pos]

end Can4linux
