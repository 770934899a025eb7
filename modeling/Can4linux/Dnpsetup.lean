/-
  Can4linux.Dnpsetup

  The set-up tool of the TRM816 board (`trm816`): `parseCmdline` and `main` of
  `dnpsetup`, and `dnp_map_can`, which programmes the address decoder and the
  interrupt of the Elan SC4xx through an index and a data port.

  Each register is said to be changed in certain bits by the comments beside the
  store (`named`); the other bits are fields of somebody else.
-/

import Mathlib.Data.List.TakeWhile
import Mathlib.Logic.Function.Basic
import Can4linux.Defs

namespace Can4linux

/-! ## The registers -/

/-- The Elan: the register indexed last, the configuration registers, and what has been
    stored into them. -/
structure Elan where
  index : U8
  regs : U8 → U8
  stored : List (U8 × U8)

namespace Elan

/-- `outb` to `SC4xx_INDEX_REG` or `SC4xx_DATA_REG`. -/
def outb (v port : U8) (s : Elan) : Elan :=
  if port = 0x22 then { s with index := v }
  else
    { s with
      regs := Function.update s.regs s.index v
      stored := s.stored ++ [(s.index, v)] }

/-- `inb` from `SC4xx_DATA_REG`. -/
def inb (s : Elan) : U8 := s.regs s.index

/-- `write_port` -/
def writePort (index data : U8) (s : Elan) : Elan := (s.outb index 0x22).outb data 0x23

/-- `read_port`; the result is a `char`, and is used as an `int`. -/
def readPort (index : U8) (s : Elan) : CInt × Elan :=
  ((s.outb index 0x22).inb.signExtend 32, s.outb index 0x22)

end Elan

/-- `ADNPTRM` -/
def adnptrm : CInt := 1
/-- `XADNPTRM` -/
def xadnptrm : CInt := 2
/-- `ADNPCUST` -/
def adnpcust : CInt := 3
/-- `XADNPCUST` -/
def xadnpcust : CInt := 4

namespace Elan

/-- The first step of `dnp_map_can`: the interrupt, if none is mapped. -/
def mapIrq (irq : CInt) (s : Elan) : Elan :=
  let (v, s) := s.readPort 0xD7
  if v &&& 0x0F = 0 then
    let (v, s) := s.readPort 0xD7
    s.writePort 0xD7 ((v &&& 0xF0 ||| irq).setWidth 8)
  else s

/-- The registers that `dnp_map_can` sets for `ADNPTRM`. -/
def mapTrm (base : CInt) (s : Elan) : Elan :=
  let s := s.writePort 0xA6 0xFF
  let (v, s) := s.readPort 0xA0
  let s := s.writePort 0xA0 ((v ||| 0x0C).setWidth 8)
  let s := s.writePort 0xB6 ((base &&& 0x00FF).setWidth 8)
  let s := s.writePort 0xB7 ((base >>> 8 ||| 0x38).setWidth 8)
  let (v, s) := s.readPort 0xB8
  let s := s.writePort 0xB8 ((v &&& 0x0F ||| 0x30).setWidth 8)
  let (v, s) := s.readPort 0xB2
  let s := s.writePort 0xB2 ((v &&& 0x0F ||| 0x10).setWidth 8)
  s.writePort 0xA6 0x00

/-- `dnp_map_can`; for `ADNPCUST` it prints that the mapping is not implemented. -/
def dnpMapCan (base irq type : CInt) (s : Elan) : Elan :=
  let s := s.mapIrq irq
  if type = adnptrm then s.mapTrm base else s

end Elan

/-! ## The command line -/

/-- `isspace` -/
def isspace (c : Char) : Bool := c = ' ' || ('\t'.toNat ≤ c.toNat && c.toNat ≤ '\r'.toNat)

/-- The value of a digit, letters included. -/
def digitVal (c : Char) : Nat :=
  if c.isDigit then c.toNat - '0'.toNat
  else if 'a' ≤ c ∧ c ≤ 'z' then c.toNat - 'a'.toNat + 10
  else if 'A' ≤ c ∧ c ≤ 'Z' then c.toNat - 'A'.toNat + 10
  else 36

/-- A digit of the base. -/
def isDigitOf (b : Nat) (c : Char) : Bool := digitVal c < b

/-- The number that digits stand for. -/
def ofDigits (b : Nat) (cs : List Char) : Nat := cs.foldl (fun n c => b * n + digitVal c) 0

/-- The digits of base `b` at the head of a text: their number, and the rest. -/
def scanDigits (b : Nat) (cs : List Char) : Option (Nat × List Char) :=
  if (cs.takeWhile (isDigitOf b)).isEmpty then none
  else some (ofDigits b (cs.takeWhile (isDigitOf b)), cs.dropWhile (isDigitOf b))

/-- The prefix `0x`, if a digit follows it. -/
def hexPrefix : List Char → Option (List Char)
  | '0' :: 'x' :: c :: cs => if isDigitOf 16 c then some (c :: cs) else none
  | '0' :: 'X' :: c :: cs => if isDigitOf 16 c then some (c :: cs) else none
  | _ => none

/-- White space and a sign, then what `digits` makes of the text behind them. -/
def scanSigned (digits : List Char → Option (Nat × List Char)) (cs : List Char) :
    Option (Int × List Char) :=
  match cs.dropWhile isspace with
  | '-' :: cs => (digits cs).map fun r => (-r.1, r.2)
  | '+' :: cs => (digits cs).map fun r => (r.1, r.2)
  | cs => (digits cs).map fun r => (r.1, r.2)

/-- `strtol` with base 0: the base is in the text. -/
def strtol : List Char → Option (Int × List Char) :=
  scanSigned fun cs =>
    match hexPrefix cs with
    | some cs => scanDigits 16 cs
    | none => if cs.head? = some '0' then scanDigits 8 cs else scanDigits 10 cs

/-- `sscanf` with `%d`; what the conversion cannot represent is cut. -/
def sscanfD (cs : List Char) : Option CInt :=
  (scanSigned (scanDigits 10) cs).map fun r => BitVec.ofInt 32 r.1

/-- `sscanf` with `%x`. -/
def sscanfX (cs : List Char) : Option CInt :=
  (scanSigned (fun cs => scanDigits 16 ((hexPrefix cs).getD cs)) cs).map
    fun r => BitVec.ofInt 32 r.1

/-- `getIntOpt`: an integer, then nothing but white space, within the range of an `int`. -/
def getIntOpt (arg : String) : Option CInt :=
  match strtol arg.toList with
  | some (v, rest) =>
      if rest.all isspace ∧ -2 ^ 31 ≤ v ∧ v < 2 ^ 31 then some (BitVec.ofInt 32 v) else none
  | none => none

/-- `Cmdline`, with the values that are used. -/
structure Cmdline where
  base : String
  irq : CInt
  dnp : String
  hw : String

/-- The values of `cmd` before the command line is read. -/
def Cmdline.default : Cmdline := ⟨"0x280", 6, "1486", "trm816"⟩

/-- `parseCmdline`, from the arguments behind the program's name; `none` is an exit. -/
def parseCmdline : List String → Cmdline → Option Cmdline
  | [], cmd => some cmd
  | "-p" :: v :: args, cmd => parseCmdline args { cmd with base := v }
  | "-irq" :: v :: args, cmd =>
      match getIntOpt v with
      | some irq => parseCmdline args { cmd with irq := irq }
      | none => none
  | "-d" :: v :: args, cmd => parseCmdline args { cmd with dnp := v }
  | "-hw" :: v :: args, cmd => parseCmdline args { cmd with hw := v }
  | _ :: _, _ => none

/-- The call that `main` ends with. -/
inductive MapCall where
  | dnpMapCan (base irq type : CInt)
  | adnp1520MapCan (base type : CInt)
deriving DecidableEq

/-- `main`, for the user `uid`; `none` is an exit with an error. -/
def dnpsetup (uid : Nat) (args : List String) : Option MapCall := do
  let cmd ← parseCmdline args .default
  let port ← if cmd.base.toList.contains 'x' then sscanfX cmd.base.toList
    else sscanfD cmd.base.toList
  if cmd.dnp ≠ "1486" ∧ cmd.dnp ≠ "1520" then none
  else if cmd.hw ≠ "trm816" ∧ cmd.hw ≠ "custom" then none
  else if cmd.dnp = "1486" then
    if uid ≠ 0 then none
    else some (.dnpMapCan port cmd.irq (if cmd.hw = "trm816" then adnptrm else adnpcust))
  else some (.adnp1520MapCan port (if cmd.hw = "trm816" then xadnptrm else xadnpcust))

example : dnpsetup 0 [] = some (.dnpMapCan 0x280 6 adnptrm) := by decide

/-- An integer as it is given on the command line. -/
def intText (v : Int) : String :=
  String.ofList ((if v < 0 then ['-'] else []) ++ Nat.toDigits 10 v.natAbs)

theorem isDigitOf_ten {c : Char} (hc : c.isDigit = true) :
    isDigitOf 10 c = true ∧ digitVal c = c.toNat - '0'.toNat := by
  have hval : digitVal c = c.toNat - '0'.toNat := by
    rw [digitVal, if_pos hc]
  refine ⟨?_, hval⟩
  have hle : c.toNat ≤ '9'.toNat := (Char.isDigit_iff_toNat.mp hc).2
  have hnine : '9'.toNat = '0'.toNat + 9 := rfl
  rw [isDigitOf, hval, decide_eq_true_eq]
  omega

theorem ofDigits_eq (cs : List Char) (hcs : ∀ c ∈ cs, c.isDigit = true) (n : Nat) :
    cs.foldl (fun n c => 10 * n + digitVal c) n = Nat.ofDigitChars 10 cs n := by
  induction cs generalizing n with
  | nil => rw [List.foldl_nil, Nat.ofDigitChars_nil]
  | cons c cs ih =>
      rw [List.foldl_cons, Nat.ofDigitChars_cons, (isDigitOf_ten (hcs c List.mem_cons_self)).2]
      exact ih (fun c' hc' => hcs c' (List.mem_cons_of_mem c hc')) _

theorem scanDigits_toDigits (n : Nat) : scanDigits 10 (Nat.toDigits 10 n) = some (n, []) := by
  have hall : ∀ c ∈ Nat.toDigits 10 n, c.isDigit = true := fun c hc =>
    Nat.isDigit_of_mem_toDigits (by decide) (by decide) hc
  have hdigits : ∀ c ∈ Nat.toDigits 10 n, isDigitOf 10 c = true :=
    fun c hc => (isDigitOf_ten (hall c hc)).1
  have htake : (Nat.toDigits 10 n).takeWhile (isDigitOf 10) = Nat.toDigits 10 n :=
    List.takeWhile_eq_self_iff.mpr hdigits
  have hdrop : (Nat.toDigits 10 n).dropWhile (isDigitOf 10) = [] :=
    List.dropWhile_eq_nil_iff.mpr hdigits
  have hne : (Nat.toDigits 10 n).isEmpty = false := by
    rw [List.isEmpty_eq_false_iff]
    exact Nat.toDigits_ne_nil
  rw [scanDigits, htake, hdrop, hne, ofDigits, ofDigits_eq _ hall, Nat.ofDigitChars_ten_toDigits]
  rfl

/-- A number that is not zero is not written with a leading zero. -/
theorem head_toDigits {n : Nat} (h : (Nat.toDigits 10 n).head? = some '0') : n = 0 := by
  induction n using Nat.strong_induction_on with
  | _ n ih =>
      by_cases hlt : n < 10
      · rw [Nat.toDigits_of_lt_base hlt, List.head?_cons, Option.some.injEq] at h
        have hzero : ∀ n < 10, Nat.digitChar n = '0' → n = 0 := by decide
        exact hzero n hlt h
      · rw [Nat.toDigits_of_base_le (by decide) (by omega),
          List.head?_append_of_ne_nil _ Nat.toDigits_ne_nil] at h
        have hzero := ih (n / 10) (by omega) h
        omega

theorem not_isspace_of_isDigit {c : Char} (hc : c.isDigit = true) : ¬ isspace c = true := by
  have hle : '0'.toNat ≤ c.toNat := (Char.isDigit_iff_toNat.mp hc).1
  have hspace : c ≠ ' ' := by
    rintro rfl
    exact absurd hle (by decide)
  have hcr : '\r'.toNat < '0'.toNat := by decide
  simp only [isspace, Bool.or_eq_true, Bool.and_eq_true, decide_eq_true_eq]
  rintro (h | ⟨-, h⟩)
  · exact hspace h
  · omega

/-- Behind the sign stand the digits. -/
theorem scanSigned_intText {digits : List Char → Option (Nat × List Char)} (v : Int)
    (hdigits : digits (Nat.toDigits 10 v.natAbs) = some (v.natAbs, [])) :
    scanSigned digits (intText v).toList = some (v, []) := by
  unfold intText
  rw [String.toList_ofList]
  by_cases hneg : v < 0
  · rw [if_pos hneg]
    have hskip : (['-'] ++ Nat.toDigits 10 v.natAbs).dropWhile isspace =
        '-' :: Nat.toDigits 10 v.natAbs := rfl
    rw [scanSigned, hskip]
    simp only
    rw [hdigits, Option.map_some]
    have habs : -(v.natAbs : Int) = v := by omega
    rw [habs]
  · rw [if_neg hneg, List.nil_append]
    have habs : (v.natAbs : Int) = v := by omega
    cases hds : Nat.toDigits 10 v.natAbs with
    | nil => exact absurd hds Nat.toDigits_ne_nil
    | cons c cs =>
        have hmem : c ∈ Nat.toDigits 10 v.natAbs := by
          rw [hds]
          exact List.mem_cons_self
        have hc : c.isDigit = true := Nat.isDigit_of_mem_toDigits (by decide) (by decide) hmem
        have hskip : (c :: cs).dropWhile isspace = c :: cs := by
          rw [List.dropWhile_cons_of_neg]
          exact not_isspace_of_isDigit hc
        rw [hds] at hdigits
        rw [scanSigned, hskip]
        split
        · rename_i h
          obtain ⟨rfl, -⟩ := List.cons.inj h
          exact absurd hc (by decide)
        · rename_i h
          obtain ⟨rfl, -⟩ := List.cons.inj h
          exact absurd hc (by decide)
        · rw [hdigits, Option.map_some, habs]

theorem hexPrefix_of_head {cs : List Char} (h : cs.head? ≠ some '0') : hexPrefix cs = none := by
  unfold hexPrefix
  split
  · exact absurd rfl h
  · exact absurd rfl h
  · rfl

theorem strtol_intText (v : Int) : strtol (intText v).toList = some (v, []) := by
  apply scanSigned_intText
  by_cases hzero : v.natAbs = 0
  · rw [hzero]
    rfl
  · have hhead : (Nat.toDigits 10 v.natAbs).head? ≠ some '0' := fun h => hzero (head_toDigits h)
    rw [hexPrefix_of_head hhead]
    simp only
    rw [if_neg hhead]
    exact scanDigits_toDigits _

/-- A decimal number has no `x` in it. -/
theorem intText_decimal (v : Int) : (intText v).toList.contains 'x' = false := by
  have hdigits : 'x' ∉ Nat.toDigits 10 v.natAbs := fun h =>
    absurd (Nat.isDigit_of_mem_toDigits (by decide) (by decide) h) (by decide)
  rw [intText, String.toList_ofList, ← Bool.not_eq_true, List.contains_iff_mem, List.mem_append]
  rintro (h | h)
  · split at h <;> simp at h
  · exact hdigits h

/-- Every number of 32 bits can be given as a port address, and every one as an interrupt. -/
theorem dnpsetup_accepts (port irq : CInt) :
    dnpsetup 0 ["-p", intText port.toInt, "-irq", intText irq.toInt] =
      some (.dnpMapCan port irq adnptrm) := by
  have hport : sscanfD (intText port.toInt).toList = some port := by
    rw [sscanfD, scanSigned_intText _ (scanDigits_toDigits _), Option.map_some, BitVec.ofInt_toInt]
  have hirq : getIntOpt (intText irq.toInt) = some irq := by
    have hlow : -2 ^ 31 ≤ irq.toInt := BitVec.le_toInt irq
    have hhigh : irq.toInt < 2 ^ 31 := BitVec.toInt_lt
    rw [getIntOpt, strtol_intText]
    simp only
    rw [if_pos ⟨rfl, by omega, by omega⟩, BitVec.ofInt_toInt]
  have hcmd : parseCmdline ["-p", intText port.toInt, "-irq", intText irq.toInt] .default =
      some ⟨intText port.toInt, irq, "1486", "trm816"⟩ := by
    simp only [parseCmdline, hirq]
    rfl
  rw [dnpsetup, hcmd]
  simp only [Option.bind_eq_bind, Option.bind_some, intText_decimal, hport]
  rfl

/-! ## What the registers hold -/

namespace Elan

variable {base irq : CInt} {s : Elan} {r : U8}

@[simp] theorem readPort_fst (index : U8) :
    (s.readPort index).1 = (s.regs index).signExtend 32 := rfl
@[simp] theorem regs_readPort (index : U8) : (s.readPort index).2.regs = s.regs := rfl
@[simp] theorem stored_readPort (index : U8) : (s.readPort index).2.stored = s.stored := rfl
@[simp] theorem regs_writePort (index data : U8) :
    (s.writePort index data).regs = Function.update s.regs index data := rfl
@[simp] theorem stored_writePort (index data : U8) :
    (s.writePort index data).stored = s.stored ++ [(index, data)] := rfl

theorem setWidth_signExtend (x : U8) : (x.signExtend 32).setWidth 8 = x := by
  apply BitVec.eq_of_getLsbD_eq
  intro i hi
  have h32 : i < 32 := by omega
  rw [BitVec.getLsbD_setWidth, BitVec.getLsbD_signExtend, if_pos hi, decide_eq_true hi,
    decide_eq_true h32]
  rfl

/-- A field kept and a field set, in an `int` and stored as a register. -/
theorem setWidth_field (x : U8) (k n : CInt) :
    (x.signExtend 32 &&& k ||| n).setWidth 8 = x &&& k.setWidth 8 ||| n.setWidth 8 := by
  rw [BitVec.setWidth_or, BitVec.setWidth_and, setWidth_signExtend]

/-- A `char` that is made an `int` and masked by a byte. -/
theorem signExtend_and (x m : U8) : x.signExtend 32 &&& m.setWidth 32 = (x &&& m).setWidth 32 := by
  ext i hi
  by_cases h8 : i < 8
  · simp [BitVec.getElem_signExtend, BitVec.getElem_setWidth, h8]
  · simp [BitVec.getElem_signExtend, BitVec.getElem_setWidth, h8,
      BitVec.getLsbD_of_ge m i (by omega)]

theorem nibble_eq_zero_iff (x : U8) : x.signExtend 32 &&& 0x0F = 0 ↔ x &&& 0x0F = 0 := by
  have hand : x.signExtend 32 &&& 0x0F = (x &&& 0x0F).setWidth 32 := signExtend_and x 0x0F
  rw [hand, ← BitVec.toNat_inj, ← BitVec.toNat_inj, BitVec.toNat_setWidth]
  have hzero : (0 : CInt).toNat = 0 := rfl
  have hzero' : (0 : U8).toNat = 0 := rfl
  have hlt := (x &&& 0x0F).isLt
  omega

theorem regs_mapIrq : (s.mapIrq irq).regs =
    if s.regs 0xD7 &&& 0x0F = 0 then
      Function.update s.regs 0xD7 (s.regs 0xD7 &&& 0xF0 ||| irq.setWidth 8)
    else s.regs := by
  unfold mapIrq
  simp only [readPort_fst, nibble_eq_zero_iff, regs_readPort]
  split
  · rw [regs_writePort, setWidth_field]
    rfl
  · rfl

/-- The registers of the address decoder. -/
def trmRegs (base : CInt) (old : U8 → U8) (r : U8) : U8 :=
  if r = 0xA6 then 0
  else if r = 0xA0 then old r ||| 0x0C
  else if r = 0xB6 then base.setWidth 8
  else if r = 0xB7 then (base >>> 8).setWidth 8 ||| 0x38
  else if r = 0xB8 then old r &&& 0x0F ||| 0x30
  else if r = 0xB2 then old r &&& 0x0F ||| 0x10
  else old r

theorem regs_mapTrm : (s.mapTrm base).regs = trmRegs base s.regs := by
  funext r
  unfold trmRegs
  by_cases hA6 : r = 0xA6
  · rw [if_pos hA6, hA6]
    rfl
  rw [if_neg hA6]
  by_cases hA0 : r = 0xA0
  · rw [if_pos hA0, hA0]
    change ((s.regs 0xA0).signExtend 32 ||| 0x0C).setWidth 8 = _
    rw [BitVec.setWidth_or, setWidth_signExtend]
    rfl
  rw [if_neg hA0]
  by_cases hB6 : r = 0xB6
  · rw [if_pos hB6, hB6]
    change (base &&& 0x00FF).setWidth 8 = _
    rw [BitVec.setWidth_and]
    exact BitVec.and_allOnes
  rw [if_neg hB6]
  by_cases hB7 : r = 0xB7
  · rw [if_pos hB7, hB7]
    change (base >>> 8 ||| 0x38).setWidth 8 = _
    rw [BitVec.setWidth_or]
    rfl
  rw [if_neg hB7]
  by_cases hB8 : r = 0xB8
  · rw [if_pos hB8, hB8]
    change ((s.regs 0xB8).signExtend 32 &&& 0x0F ||| 0x30).setWidth 8 = _
    rw [setWidth_field]
    rfl
  rw [if_neg hB8]
  by_cases hB2 : r = 0xB2
  · rw [if_pos hB2, hB2]
    change ((s.regs 0xB2).signExtend 32 &&& 0x0F ||| 0x10).setWidth 8 = _
    rw [setWidth_field]
    rfl
  rw [if_neg hB2]
  simp only [mapTrm, regs_writePort, regs_readPort, Function.update_of_ne hA6,
    Function.update_of_ne hA0, Function.update_of_ne hB6, Function.update_of_ne hB7,
    Function.update_of_ne hB8, Function.update_of_ne hB2]

/-- The mapping always stores. -/
theorem stored_dnpMapCan (base irq : CInt) (s : Elan) :
    s.stored.length < (s.dnpMapCan base irq adnptrm).stored.length := by
  have hirq : s.stored.length ≤ (s.mapIrq irq).stored.length := by
    unfold mapIrq
    simp only
    split
    · simp
    · exact le_refl _
  rw [dnpMapCan, if_pos rfl]
  simp only [mapTrm, stored_writePort, stored_readPort, List.length_append, List.length_singleton]
  omega

end Elan

/-- The bits of a register that the comments in `dnp_map_can` name. -/
def named (r : U8) : U8 :=
  if r = 0xD7 then 0x0F else if r = 0xA6 then 0xFF else if r = 0xA0 then 0x0C
  else if r = 0xB6 then 0xFF else if r = 0xB7 then 0x3F else if r = 0xB8 then 0x70
  else if r = 0xB2 then 0xF0 else 0

/-- The registers decode the window `base` and pass the interrupt on, and differ from the old
    ones in the bits named only. -/
structure Programmed (base irq : CInt) (old new : U8 → U8) : Prop where
  decode : (new 0xB7 &&& 0x03).toNat * 256 + (new 0xB6).toNat = base.toNat
  mask : new 0xB7 &&& 0x3C = 0x38
  irq : old 0xD7 &&& 0x0F = 0 → (new 0xD7 &&& 0x0F).toNat = irq.toNat
  kept : old 0xD7 &&& 0x0F ≠ 0 → new 0xD7 &&& 0x0F = old 0xD7 &&& 0x0F
  others : ∀ r, new r &&& ~~~named r = old r &&& ~~~named r

/-- The address has ten bits, and the interrupt four. -/
def FitsFields (base irq : CInt) : Prop := base.toNat < 2 ^ 10 ∧ irq.toNat < 2 ^ 4

instance (base irq : CInt) : Decidable (FitsFields base irq) :=
  inferInstanceAs (Decidable (_ ∧ _))

/-- The registers after `dnp_map_can`. -/
def mapped (base irq : CInt) (old : U8 → U8) : U8 → U8 :=
  Elan.trmRegs base
    (if old 0xD7 &&& 0x0F = 0 then Function.update old 0xD7 (old 0xD7 &&& 0xF0 ||| irq.setWidth 8)
      else old)

theorem regs_dnpMapCan (base irq : CInt) (s : Elan) :
    (s.dnpMapCan base irq adnptrm).regs = mapped base irq s.regs := by
  rw [Elan.dnpMapCan, if_pos rfl, Elan.regs_mapTrm, Elan.regs_mapIrq, mapped]

section Bits

variable (base irq : CInt) (old : U8 → U8)

theorem mapped_D7 : mapped base irq old 0xD7 =
    if old 0xD7 &&& 0x0F = 0 then old 0xD7 &&& 0xF0 ||| irq.setWidth 8 else old 0xD7 := by
  change (if old 0xD7 &&& 0x0F = 0 then
    Function.update old 0xD7 (old 0xD7 &&& 0xF0 ||| irq.setWidth 8) else old) 0xD7 = _
  split
  · exact Function.update_self ..
  · rfl

/-- Only the interrupt's register is changed before the decoder. -/
theorem mapped_of_ne {r : U8} (hr : r ≠ 0xD7) :
    mapped base irq old r = Elan.trmRegs base old r := by
  have hold : (if old 0xD7 &&& 0x0F = 0 then
      Function.update old 0xD7 (old 0xD7 &&& 0xF0 ||| irq.setWidth 8) else old) r = old r := by
    split
    · exact Function.update_of_ne hr ..
    · rfl
  simp only [mapped, Elan.trmRegs, hold]

variable {base irq} {old}

/-- A field put beside what is left of a register, seen through a mask. -/
theorem field_and (x k n m : U8) : (x &&& k ||| n) &&& m = x &&& (k &&& m) ||| n &&& m := by
  rw [BitVec.and_or_distrib_right, BitVec.and_assoc]

/-- The page of an address of ten bits. -/
theorem page_of_lt (hbase : base.toNat < 2 ^ 10) :
    (base >>> 8).setWidth 8 = BitVec.ofNat 8 (base.toNat / 256) ∧ base.toNat / 256 < 4 := by
  refine ⟨?_, by omega⟩
  rw [← BitVec.ofNat_toNat, BitVec.toNat_ushiftRight, Nat.shiftRight_eq_div_pow]

theorem decode_of_lt (hbase : base.toNat < 2 ^ 10) :
    (mapped base irq old 0xB7 &&& 0x03).toNat * 256 + (mapped base irq old 0xB6).toNat =
        base.toNat ∧
      mapped base irq old 0xB7 &&& 0x3C = 0x38 ∧ mapped base irq old 0xB7 &&& 0xC0 = 0 := by
  obtain ⟨hpage, hlt⟩ := page_of_lt hbase
  have hB7 : mapped base irq old 0xB7 = BitVec.ofNat 8 (base.toNat / 256) ||| 0x38 := by
    rw [mapped_of_ne base irq old (by decide), ← hpage]
    rfl
  have hB6 : mapped base irq old 0xB6 = base.setWidth 8 :=
    mapped_of_ne base irq old (by decide)
  have hfields : ∀ q < 4, ((BitVec.ofNat 8 q ||| 0x38) &&& 0x03).toNat = q ∧
      (BitVec.ofNat 8 q ||| 0x38) &&& 0x3C = 0x38 ∧ (BitVec.ofNat 8 q ||| 0x38) &&& 0xC0 = 0 := by
    decide
  obtain ⟨hlow, hmask, hhigh⟩ := hfields _ hlt
  rw [hB7, hB6]
  refine ⟨?_, hmask, hhigh⟩
  rw [hlow, BitVec.toNat_setWidth]
  omega

theorem irq_of_lt (hirq : irq.toNat < 2 ^ 4) (hnone : old 0xD7 &&& 0x0F = 0) :
    (mapped base irq old 0xD7 &&& 0x0F).toNat = irq.toNat ∧
      mapped base irq old 0xD7 &&& 0xF0 = old 0xD7 &&& 0xF0 := by
  have hbyte : irq.setWidth 8 = BitVec.ofNat 8 irq.toNat := (BitVec.ofNat_toNat ..).symm
  have hfield : ∀ n < 16,
      (BitVec.ofNat 8 n &&& 0x0F).toNat = n ∧ BitVec.ofNat 8 n &&& 0xF0 = 0#8 := by
    decide
  obtain ⟨hlow, hhigh⟩ := hfield _ hirq
  rw [mapped_D7, if_pos hnone, hbyte, field_and, field_and, hhigh]
  have hcut : (0xF0 : U8) &&& 0x0F = 0#8 := by decide
  have hself : (0xF0 : U8) &&& 0xF0 = 0xF0 := by decide
  rw [hcut, hself, BitVec.and_zero, BitVec.zero_or, BitVec.or_zero]
  exact ⟨hlow, rfl⟩

/-- In 0xB8 the bit above the ones named is cleared. -/
theorem keeps_B8_iff (x : U8) : (x &&& 0x0F ||| 0x30) &&& 0x8F = x &&& 0x8F ↔ x &&& 0x80 = 0 := by
  have hkeep : (0x0F : U8) &&& 0x8F = 0x0F := by decide
  have hclear : (0x30 : U8) &&& 0x8F = 0#8 := by decide
  have hsplit : (0x8F : U8) = 0x0F ||| 0x80 := by decide
  rw [field_and, hkeep, hclear, BitVec.or_zero]
  constructor
  · intro h
    have hhigh := congrArg (· &&& (0x80 : U8)) h
    simp only [BitVec.and_assoc] at hhigh
    have hout : (0x0F : U8) &&& 0x80 = 0#8 := by decide
    have hin : (0x8F : U8) &&& 0x80 = 0x80 := by decide
    rw [hout, hin, BitVec.and_zero] at hhigh
    exact hhigh.symm
  · intro h
    have hzero : x &&& 0x80 = 0#8 := h
    rw [hsplit, BitVec.and_or_distrib_left, hzero, BitVec.or_zero]

/-- The bits that are not named keep their values exactly if the two registers that are
    overwritten hold nothing there. -/
theorem others_iff (hbase : base.toNat < 2 ^ 10) (hirq : irq.toNat < 2 ^ 4) :
    (∀ r, mapped base irq old r &&& ~~~named r = old r &&& ~~~named r) ↔
      old 0xB7 &&& 0xC0 = 0 ∧ old 0xB8 &&& 0x80 = 0 := by
  have hB7 : mapped base irq old 0xB7 &&& ~~~named 0xB7 = 0 := (decode_of_lt hbase).2.2
  have hB8 : mapped base irq old 0xB8 = old 0xB8 &&& 0x0F ||| 0x30 :=
    mapped_of_ne base irq old (by decide)
  constructor
  · intro h
    refine ⟨?_, ?_⟩
    · exact (h 0xB7).symm.trans hB7
    · have h8 := h 0xB8
      rw [hB8] at h8
      exact (keeps_B8_iff _).mp h8
  · rintro ⟨h7, h8⟩ r
    by_cases hD7 : r = 0xD7
    · rw [hD7]
      by_cases hnone : old 0xD7 &&& 0x0F = 0
      · exact (irq_of_lt hirq hnone).2
      · rw [mapped_D7, if_neg hnone]
    by_cases hB7' : r = 0xB7
    · rw [hB7', hB7]
      exact h7.symm
    by_cases hB8' : r = 0xB8
    · rw [hB8', hB8]
      exact (keeps_B8_iff _).mpr h8
    rw [mapped_of_ne base irq old hD7]
    by_cases hA0 : r = 0xA0
    · have hclear : (0x0C : U8) &&& 0xF3 = 0#8 := by decide
      rw [hA0]
      change (old 0xA0 ||| 0x0C) &&& 0xF3 = old 0xA0 &&& 0xF3
      rw [BitVec.and_or_distrib_right, hclear, BitVec.or_zero]
    by_cases hB2 : r = 0xB2
    · have hkeep : (0x0F : U8) &&& 0x0F = 0x0F := by decide
      have hclear : (0x10 : U8) &&& 0x0F = 0#8 := by decide
      rw [hB2]
      change (old 0xB2 &&& 0x0F ||| 0x10) &&& 0x0F = old 0xB2 &&& 0x0F
      rw [field_and, hkeep, hclear, BitVec.or_zero]
    -- all bits of the two others are named, and what is left is not touched
    have hall : ∀ x y : U8, x &&& ~~~0xFF = y &&& ~~~0xFF := by
      intro x y
      have hnone : ~~~(0xFF : U8) = 0#8 := by decide
      rw [hnone, BitVec.and_zero, BitVec.and_zero]
    by_cases hA6 : r = 0xA6
    · rw [hA6]
      exact hall _ _
    by_cases hB6 : r = 0xB6
    · rw [hB6]
      exact hall _ _
    rw [Elan.trmRegs, if_neg hA6, if_neg hA0, if_neg hB6, if_neg hB7', if_neg hB8', if_neg hB2]

end Bits

/-- **The mapping programmes the requested window or nothing.**  Any base and interrupt can be
    given on the command line.  For a base of ten bits and an interrupt of four the registers are
    programmed, and otherwise nothing is stored, exactly if base and interrupt do fit and the bits
    that are overwritten beside the fields are clear. -/
theorem dnpMapCan_programs_iff (base irq : CInt) (s : Elan) :
    (∃ args, dnpsetup 0 args = some (.dnpMapCan base irq adnptrm)) ∧
      ((FitsFields base irq →
            Programmed base irq s.regs (s.dnpMapCan base irq adnptrm).regs) ∧
          (¬ FitsFields base irq → (s.dnpMapCan base irq adnptrm).stored = s.stored) ↔
        FitsFields base irq ∧ s.regs 0xB7 &&& 0xC0 = 0 ∧ s.regs 0xB8 &&& 0x80 = 0) := by
  refine ⟨⟨_, dnpsetup_accepts base irq⟩, ?_⟩
  have hstored : (s.dnpMapCan base irq adnptrm).stored ≠ s.stored := by
    intro hsame
    have hlt := Elan.stored_dnpMapCan base irq s
    rw [hsame] at hlt
    exact lt_irrefl _ hlt
  rw [regs_dnpMapCan]
  constructor
  · rintro ⟨hprog, hreject⟩
    have hfits : FitsFields base irq := by
      by_contra hno
      exact hstored (hreject hno)
    exact ⟨hfits, (others_iff hfits.1 hfits.2).mp (hprog hfits).others⟩
  · rintro ⟨hfits, hclear⟩
    refine ⟨fun _ => ?_, fun hno => absurd hfits hno⟩
    obtain ⟨hdecode, hmask, -⟩ := @decode_of_lt base irq s.regs hfits.1
    refine ⟨hdecode, hmask, fun hnone => (irq_of_lt hfits.2 hnone).1, fun hset => ?_,
      (others_iff hfits.1 hfits.2).mpr hclear⟩
    rw [mapped_D7, if_neg hset]

/-- A base of eleven bits changes the address mask, and is not rejected. -/
theorem dnpMapCan_clobbers_mask :
    let s : Elan := ⟨0, fun _ => 0, []⟩
    dnpsetup 0 ["-p", "0x680"] = some (.dnpMapCan 0x680 6 adnptrm) ∧
      ¬ FitsFields 0x680 6 ∧
      (s.dnpMapCan 0x680 6 adnptrm).regs 0xB7 &&& 0x3C = 0x3C ∧
      (s.dnpMapCan 0x680 6 adnptrm).stored ≠ s.stored := by
  intro s
  exact ⟨by decide, by decide, by decide, by decide⟩

end Can4linux
