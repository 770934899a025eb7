/-
  Can4linux.AccFilter

  Which frames the acceptance filter lets in.  `can_ioctl` documents the four bytes
  of code and mask in the single filter configuration of the controller: identifier
  and remote bit from the top, then the first two data bytes of a base frame; a mask
  bit of one says that the code bit does not matter.  The programs of the examples
  set the filter with a stop, a `CONFIG` request and a start.  Afterwards the device
  is given the frames that match, and no others.
-/

import Can4linux.Forward
import Can4linux.Reinit
import Can4linux.RxPath

namespace Can4linux

variable {t : Target}

/-! ## What is on the bus -/

/-- The content of a frame on the bus. -/
structure BusFrame where
  ext : Bool
  rtr : Bool
  id : CLong
  code : Nat
  data : List U8
deriving DecidableEq

/-- The number of data bytes on the bus: none in a remote frame, never more than eight. -/
def Frame.dataBytes (f : Frame) : Nat := if isSet (f.reg 0) canRtr then 0 else min f.code 8

/-- What the registers of a controller put there, or take from there. -/
def Frame.onBus (f : Frame) : BusFrame where
  ext := isSet (f.reg 0) canEff
  rtr := isSet (f.reg 0) canRtr
  id := (decodeId f).setWidth 64
  code := f.code
  data := (List.range f.dataBytes).map fun j => f.reg (f.dataBase + j)

/-! ## The comparison in the controller -/

/-- Registers 17 to 20 of a frame. -/
def Frame.idWord (f : Frame) : CInt := f.reg 1 ++ f.reg 2 ++ f.reg 3 ++ f.reg 4

/-- What a frame shows the acceptance filter, in the order of the code registers. -/
def Frame.filterWord (f : Frame) : CInt :=
  if isSet (f.reg 0) canEff then
    (f.idWord &&& 0xfffffff8) ||| (if isSet (f.reg 0) canRtr then 0x4 else 0)
  else
    (f.idWord &&& 0xffe0ffff) ||| (if isSet (f.reg 0) canRtr then 0x100000 else 0)

/-- The bits that are not compared, whatever the mask says. -/
def Frame.uncompared (f : Frame) : CInt :=
  if isSet (f.reg 0) canEff then 0x3
  else
    0xf0000 ||| (if f.dataBytes < 1 then 0xff00 else 0) ||| (if f.dataBytes < 2 then 0xff else 0)

/-- The controller accepts the frame. -/
def Sja1000.passes (c : Sja1000 t) (f : Frame) : Bool :=
  (f.filterWord ^^^ c.acceptCode) &&& ~~~(c.acceptMask ||| f.uncompared) == 0

/-- Only the filter registers matter. -/
theorem Sja1000.passes_congr {c c' : Sja1000 t} (h : c'.acc = c.acc) (f : Frame) :
    c'.passes f = c.passes f := by
  rw [passes, passes, acceptCode, acceptMask, h]
  rfl

/-! ## What code and mask say about a frame -/

namespace BusFrame

/-- The number of identifier bits. -/
def idBits (b : BusFrame) : Nat := if b.ext then 29 else 11

/-- Where the identifier starts in code and mask: `id << 3` or `id << 21`. -/
def idShift (b : BusFrame) : Nat := if b.ext then 3 else 21

/-- Where the mask is zero the code has the bits of the frame; of a base frame the first two
    data bytes count as far as they are there. -/
structure Matches (code mask : CInt) (b : BusFrame) : Prop where
  id : ∀ i < b.idBits, mask.getLsbD (b.idShift + i) = false →
    b.id.getLsbD i = code.getLsbD (b.idShift + i)
  rtr : mask.getLsbD (b.idShift - 1) = false → b.rtr = code.getLsbD (b.idShift - 1)
  data : b.ext = false → ∀ k < 2, ∀ byte, b.data[k]? = some byte →
    ∀ i < 8, mask.getLsbD (8 * (1 - k) + i) = false →
      byte.getLsbD i = code.getLsbD (8 * (1 - k) + i)

end BusFrame

/-! ## Bits of a frame -/

/-- Masked words are equal exactly if they agree where the mask is zero. -/
theorem masked_eq_iff {w : Nat} (x y m : BitVec w) :
    (x ^^^ y) &&& ~~~m = 0 ↔ ∀ i < w, m.getLsbD i = false → x.getLsbD i = y.getLsbD i := by
  constructor
  · intro h i hi hm
    have hbit := congrArg (fun v : BitVec w => v.getLsbD i) h
    simp only [BitVec.getLsbD_and, BitVec.getLsbD_xor, BitVec.getLsbD_not, hi, hm]
      at hbit
    simpa using hbit
  · intro h
    refine BitVec.eq_of_getLsbD_eq fun i hi => ?_
    cases hm : m.getLsbD i with
    | true => simp [hm]
    | false => simp [h i hi hm]

namespace Frame

variable (f : Frame)

/-- The identifier is a part of the four registers. -/
theorem decodeId_eq_shift :
    decodeId f = f.idWord >>> (if isSet (f.reg 0) canEff then 3 else 21) := by
  have h2 := (f.reg 2).isLt
  have h3 := (f.reg 3).isLt
  have h4 := (f.reg 4).isLt
  have hword : f.idWord.toNat =
      ((f.reg 1).toNat * 256 + (f.reg 2).toNat) * 65536 + (f.reg 3).toNat * 256 +
        (f.reg 4).toNat := by
    unfold idWord
    rw [BitVec.toNat_append, BitVec.toNat_append, BitVec.toNat_append,
      ← Nat.shiftLeft_add_eq_or_of_lt h2, ← Nat.shiftLeft_add_eq_or_of_lt h3,
      ← Nat.shiftLeft_add_eq_or_of_lt h4]
    simp only [Nat.shiftLeft_eq]
    omega
  have h1 := (f.reg 1).isLt
  apply BitVec.eq_of_toNat_eq
  unfold decodeId
  split
  · simp only [BitVec.toNat_add, BitVec.toNat_shiftLeft, BitVec.toNat_ushiftRight,
      BitVec.toNat_setWidth, Nat.shiftLeft_eq, Nat.shiftRight_eq_div_pow, hword]
    omega
  · simp only [BitVec.toNat_add, BitVec.toNat_shiftLeft, BitVec.toNat_ushiftRight,
      BitVec.toNat_setWidth, Nat.shiftLeft_eq, Nat.shiftRight_eq_div_pow, hword]
    omega

/-- A constant has its bits where it is put in. -/
theorem getLsbD_ite (p : Prop) [Decidable p] (x : CInt) (i : Nat) :
    (if p then x else 0).getLsbD i = (decide p && x.getLsbD i) := by
  by_cases hp : p <;> simp [hp]

/-- Each identifier bit is shown at its place. -/
theorem filterWord_id {i : Nat} (hi : i < f.onBus.idBits) :
    f.filterWord.getLsbD (f.onBus.idShift + i) = f.onBus.id.getLsbD i := by
  have hid : f.onBus.id.getLsbD i = (decodeId f).getLsbD i := by
    have hlt : i < 64 := by
      unfold BusFrame.idBits at hi
      split at hi <;> omega
    rw [show f.onBus.id = (decodeId f).setWidth 64 from rfl, BitVec.getLsbD_setWidth]
    simp [hlt]
  have heff : ∀ i < 29, (0xfffffff8 : CInt).getLsbD (3 + i) = true ∧
      (0x4 : CInt).getLsbD (3 + i) = false := by decide
  have hsff : ∀ i < 11, (0xffe0ffff : CInt).getLsbD (21 + i) = true ∧
      (0x100000 : CInt).getLsbD (21 + i) = false := by decide
  have hinfo : f.onBus.ext = isSet (f.reg 0) canEff := rfl
  rw [hid, decodeId_eq_shift, BitVec.getLsbD_ushiftRight]
  rw [BusFrame.idBits, hinfo] at hi
  rw [BusFrame.idShift, filterWord, hinfo]
  cases hext : isSet (f.reg 0) canEff with
  | true =>
      rw [hext] at hi
      obtain ⟨hmask, hbit⟩ := heff i hi
      simp only [if_true, BitVec.getLsbD_or, BitVec.getLsbD_and, getLsbD_ite, hmask, hbit,
        Bool.and_true, Bool.and_false, Bool.or_false]
  | false =>
      rw [hext] at hi
      obtain ⟨hmask, hbit⟩ := hsff i hi
      simp only [Bool.false_eq_true, if_false, BitVec.getLsbD_or, BitVec.getLsbD_and,
        getLsbD_ite, hmask, hbit, Bool.and_true, Bool.and_false, Bool.or_false]

/-- The remote bit is shown below it. -/
theorem filterWord_rtr : f.filterWord.getLsbD (f.onBus.idShift - 1) = f.onBus.rtr := by
  have hinfo : f.onBus.ext = isSet (f.reg 0) canEff := rfl
  have hrtr : f.onBus.rtr = isSet (f.reg 0) canRtr := rfl
  have heff : (0xfffffff8 : CInt).getLsbD 2 = false ∧ (0x4 : CInt).getLsbD 2 = true := by decide
  have hsff : (0xffe0ffff : CInt).getLsbD 20 = false ∧ (0x100000 : CInt).getLsbD 20 = true := by
    decide
  rw [BusFrame.idShift, filterWord, hinfo, hrtr]
  cases hext : isSet (f.reg 0) canEff with
  | true =>
      simp only [if_true, Nat.reduceSub, BitVec.getLsbD_or, BitVec.getLsbD_and, getLsbD_ite,
        heff.1, heff.2, Bool.and_true, Bool.and_false, Bool.false_or, Bool.decide_eq_true]
  | false =>
      simp only [Bool.false_eq_true, if_false, Nat.reduceSub, BitVec.getLsbD_or,
        BitVec.getLsbD_and, getLsbD_ite, hsff.1, hsff.2, Bool.and_true, Bool.and_false,
        Bool.false_or, Bool.decide_eq_true]

/-- The first two data bytes of a base frame are shown at the bottom. -/
theorem filterWord_data (hext : f.onBus.ext = false) {k b : Nat} (hk : k < 2) (hb : b < 8) :
    f.filterWord.getLsbD (8 * (1 - k) + b) = (f.reg (3 + k)).getLsbD b := by
  have hinfo : isSet (f.reg 0) canEff = false := hext
  have hsff : ∀ j < 16, (0xffe0ffff : CInt).getLsbD j = true ∧
      (0x100000 : CInt).getLsbD j = false := by decide
  obtain ⟨hmask, hbit⟩ := hsff (8 * (1 - k) + b) (by omega)
  rw [filterWord, hinfo]
  simp only [Bool.false_eq_true, if_false, BitVec.getLsbD_or, BitVec.getLsbD_and, getLsbD_ite,
    hmask, hbit, Bool.and_true, Bool.and_false, Bool.or_false]
  unfold idWord
  obtain rfl | rfl : k = 0 ∨ k = 1 := by omega
  · rw [BitVec.getLsbD_append, if_neg (by omega), BitVec.getLsbD_append, if_pos (by omega)]
    congr 1
    omega
  · rw [BitVec.getLsbD_append, if_pos (by omega)]
    congr 1
    omega

/-- Identifier and remote bit are always compared. -/
theorem uncompared_id {i : Nat} (hi : i ≤ f.onBus.idBits) :
    f.uncompared.getLsbD (f.onBus.idShift - 1 + i) = false := by
  have hinfo : f.onBus.ext = isSet (f.reg 0) canEff := rfl
  have heff : ∀ i ≤ 29, (0x3 : CInt).getLsbD (3 - 1 + i) = false := by decide
  have hsff : ∀ i ≤ 11, (0xf0000 : CInt).getLsbD (21 - 1 + i) = false ∧
      (0xff00 : CInt).getLsbD (21 - 1 + i) = false ∧
      (0xff : CInt).getLsbD (21 - 1 + i) = false := by decide
  rw [BusFrame.idBits, hinfo] at hi
  rw [BusFrame.idShift, uncompared, hinfo]
  cases hext : isSet (f.reg 0) canEff with
  | true =>
      rw [hext] at hi
      exact heff i hi
  | false =>
      rw [hext] at hi
      obtain ⟨h0, h1, h2⟩ := hsff i hi
      simp only [Bool.false_eq_true, if_false, BitVec.getLsbD_or, getLsbD_ite, h0, h1, h2,
        Bool.and_false, Bool.or_false]

/-- A data byte of a base frame is compared if it is there. -/
theorem uncompared_data (hext : f.onBus.ext = false) {k b : Nat} (hk : k < 2) (hb : b < 8) :
    f.uncompared.getLsbD (8 * (1 - k) + b) = false ↔ k < f.dataBytes := by
  have hinfo : isSet (f.reg 0) canEff = false := hext
  have h0 : ∀ b < 8, (0xf0000 : CInt).getLsbD (8 * (1 - 0) + b) = false ∧
      (0xff00 : CInt).getLsbD (8 * (1 - 0) + b) = true ∧
      (0xff : CInt).getLsbD (8 * (1 - 0) + b) = false := by decide
  have h1 : ∀ b < 8, (0xf0000 : CInt).getLsbD (8 * (1 - 1) + b) = false ∧
      (0xff00 : CInt).getLsbD (8 * (1 - 1) + b) = false ∧
      (0xff : CInt).getLsbD (8 * (1 - 1) + b) = true := by decide
  rw [uncompared, hinfo]
  obtain rfl | rfl : k = 0 ∨ k = 1 := by omega
  · obtain ⟨hnone, hfirst, hsecond⟩ := h0 b hb
    simp only [Bool.false_eq_true, if_false, BitVec.getLsbD_or, getLsbD_ite, hnone, hfirst,
      hsecond, Bool.and_true, Bool.and_false, Bool.or_false, Bool.false_or,
      decide_eq_false_iff_not]
    omega
  · obtain ⟨hnone, hfirst, hsecond⟩ := h1 b hb
    simp only [Bool.false_eq_true, if_false, BitVec.getLsbD_or, getLsbD_ite, hnone, hfirst,
      hsecond, Bool.and_true, Bool.and_false, Bool.or_false, Bool.false_or,
      decide_eq_false_iff_not]
    omega

/-- The bits between are not compared. -/
theorem uncompared_rest {i : Nat} (hi : i + 1 < f.onBus.idShift)
    (hdata : f.onBus.ext = true ∨ 16 ≤ i) :
    f.uncompared.getLsbD i = true := by
  have hinfo : f.onBus.ext = isSet (f.reg 0) canEff := rfl
  have heff : ∀ i < 2, (0x3 : CInt).getLsbD i = true := by decide
  have hsff : ∀ i < 20, 16 ≤ i → (0xf0000 : CInt).getLsbD i = true := by decide
  rw [BusFrame.idShift, hinfo] at hi
  rw [hinfo] at hdata
  rw [uncompared]
  cases hext : isSet (f.reg 0) canEff with
  | true =>
      rw [hext] at hi
      rw [if_pos rfl] at hi
      exact heff i (by omega)
  | false =>
      rw [hext] at hi hdata
      rw [if_neg Bool.false_ne_true] at hi
      have hbit := hsff i (by omega) (by simpa using hdata)
      simp only [Bool.false_eq_true, if_false, BitVec.getLsbD_or, hbit, Bool.true_or]

/-- The data of a base frame are behind two identifier registers. -/
theorem onBus_data (hext : f.onBus.ext = false) {k : Nat} {byte : U8} :
    f.onBus.data[k]? = some byte ↔ k < f.dataBytes ∧ f.reg (3 + k) = byte := by
  have hinfo : isSet (f.reg 0) canEff = false := hext
  have hbase : f.dataBase = 3 := by rw [dataBase, hinfo, if_neg Bool.false_ne_true]
  show ((List.range f.dataBytes).map fun j => f.reg (f.dataBase + j))[k]? = some byte ↔ _
  rw [hbase, List.getElem?_map]
  by_cases hk : k < f.dataBytes
  · rw [List.getElem?_range hk]
    simp [hk]
  · rw [List.getElem?_eq_none (by simpa using hk)]
    simp [hk]

/-- A bit that is compared belongs to the identifier, is the remote bit, or belongs to a data
    byte that is there. -/
theorem compared_cases {i : Nat} (hi : i < 32) (hunc : f.uncompared.getLsbD i = false) :
    (∃ j < f.onBus.idBits, i = f.onBus.idShift + j) ∨ i = f.onBus.idShift - 1 ∨
      (f.onBus.ext = false ∧ ∃ k b, k < 2 ∧ b < 8 ∧ k < f.dataBytes ∧ i = 8 * (1 - k) + b) := by
  have hplace : f.onBus.idShift + f.onBus.idBits = 32 ∧ 3 ≤ f.onBus.idShift := by
    unfold BusFrame.idShift BusFrame.idBits
    split <;> decide
  by_cases hid : f.onBus.idShift ≤ i
  · obtain ⟨j, rfl⟩ := Nat.exists_eq_add_of_le hid
    exact .inl ⟨j, by omega, rfl⟩
  by_cases hrtr : i + 1 = f.onBus.idShift
  · exact .inr (.inl (by omega))
  -- below them only the data bytes of a base frame are compared
  have hdata : ¬(f.onBus.ext = true ∨ 16 ≤ i) := by
    intro hrest
    rw [f.uncompared_rest (by omega) hrest] at hunc
    cases hunc
  rw [not_or, Bool.not_eq_true] at hdata
  obtain ⟨hext, hlow⟩ := hdata
  have hbyte : ∃ k b, k < 2 ∧ b < 8 ∧ i = 8 * (1 - k) + b := by
    by_cases hfirst : 8 ≤ i
    · exact ⟨0, i - 8, by omega, by omega, by omega⟩
    · exact ⟨1, i, by omega, by omega, by omega⟩
  obtain ⟨k, b, hk, hb, rfl⟩ := hbyte
  exact .inr (.inr ⟨hext, k, b, hk, hb, (f.uncompared_data hext hk hb).mp hunc, rfl⟩)

end Frame

namespace Sja1000

variable (c : Sja1000 t) (f : Frame)

theorem passes_iff_bits : c.passes f = true ↔ ∀ i < 32, c.acceptMask.getLsbD i = false →
    f.uncompared.getLsbD i = false → f.filterWord.getLsbD i = c.acceptCode.getLsbD i := by
  rw [passes, beq_iff_eq, masked_eq_iff]
  simp only [BitVec.getLsbD_or, Bool.or_eq_false_iff, and_imp]

/-- The controller accepts a frame exactly if what is on the bus matches code and mask. -/
theorem passes_iff : c.passes f = true ↔ f.onBus.Matches c.acceptCode c.acceptMask := by
  have hplace : f.onBus.idShift + f.onBus.idBits = 32 ∧ 3 ≤ f.onBus.idShift := by
    unfold BusFrame.idShift BusFrame.idBits
    split <;> decide
  rw [passes_iff_bits]
  constructor
  · intro h
    refine ⟨?_, ?_, ?_⟩
    · intro i hi hmask
      have hunc := f.uncompared_id (i := i + 1) (by omega)
      rw [show f.onBus.idShift - 1 + (i + 1) = f.onBus.idShift + i by omega] at hunc
      rw [← f.filterWord_id hi]
      exact h _ (by omega) hmask hunc
    · intro hmask
      rw [← f.filterWord_rtr]
      exact h _ (by omega) hmask (f.uncompared_id (i := 0) (by omega))
    · intro hext k hk byte hbyte i hi hmask
      obtain ⟨hlt, rfl⟩ := (f.onBus_data hext).mp hbyte
      rw [← f.filterWord_data hext hk hi]
      exact h _ (by omega) hmask ((f.uncompared_data hext hk hi).mpr hlt)
  · intro h i hi hmask hunc
    rcases f.compared_cases hi hunc with ⟨j, hj, rfl⟩ | rfl | ⟨hext, k, b, hk, hb, hlt, rfl⟩
    · rw [f.filterWord_id hj]
      exact h.id j hj hmask
    · rw [f.filterWord_rtr]
      exact h.rtr hmask
    · rw [f.filterWord_data hext hk hb]
      exact h.data hext k hk _ ((f.onBus_data hext).mpr ⟨hlt, rfl⟩) b hb hmask

/-- So the rest of its registers is none of the filter's business. -/
theorem passes_of_onBus {f g : Frame} (h : g.onBus = f.onBus) : c.passes g = c.passes f := by
  rw [Bool.eq_iff_iff, passes_iff, passes_iff, h]

end Sja1000

/-! ## The filter last configured -/

/-- Code and mask after a step. -/
def Op.filterSet (cm : CInt × CInt) : Op → CInt × CInt
  | .config target val1 val2 =>
      if target = confAcc then (val2.setWidth 32, val1.setWidth 32)
      else if target = confAccm then (cm.1, val1.setWidth 32)
      else if target = confAccc then (val1.setWidth 32, cm.2)
      else cm
  | _ => cm

/-- `AccCode` and `AccMask`. -/
def Chan.filterSys (s : Chan (Sja1000 t)) : CInt × CInt := (s.sys.accCode, s.sys.accMask)

/-- Only a `CONFIG` request changes the arrays. -/
theorem Chan.step_filterSys {s s' : Chan (Sja1000 t)} {op : Op} (hstep : s.step op = some s') :
    s'.filterSys = op.filterSet s.filterSys := by
  cases hop : op.setsUp with
  | false =>
      have hsame : op.filterSet s.filterSys = s.filterSys := by
        cases op with
        | config target val1 val2 => cases hop
        | _ => rfl
      have hset := Chan.step_setup hop hstep
      rw [hsame]
      exact congrArg₂ Prod.mk (congrArg Setup.accCode hset) (congrArg Setup.accMask hset)
  | true =>
      cases op with
      | «open» env =>
          obtain ⟨-, ri, held, o, c, regs, rxb, txb, rfl⟩ := Chan.step_open hstep
          rfl
      | command cmd =>
          obtain ⟨-, rfl⟩ := Chan.whenOpen_eq_some.mp hstep
          unfold canCommand
          split
          · obtain ⟨regs, hstart⟩ := canStartChip_eq s
            rw [hstart]
            rfl
          · split
            · rw [canStopChip_eq]
              rfl
            · split
              · obtain ⟨o, regs, hreset⟩ := canChipReset_eq s
                rw [hreset]
                rfl
              · rfl
      | config target val1 val2 =>
          obtain ⟨-, rfl⟩ := Chan.whenOpen_eq_some.mp hstep
          simp only [canConfig, Op.filterSet]
          -- timing and output mode leave code and mask alone
          split_ifs <;> rfl
      | close | write _ _ | read _ _ | irq _ | timer | arrive _ | txDone | busEvent _ _ _
      | busOff => cases hop

/-! ## The programs that set it -/

/-- `set_accmask`: the `int` arguments become `unsigned long` parameters. -/
def setAccmask (newcode newmask : CInt) : List Op :=
  [.command cmdStop, .config confAcc (newmask.signExtend 64) (newcode.signExtend 64),
    .command cmdStart]

/-- `set_acccode`: `val2` is what was on the stack. -/
def setAcccode (newcode : CInt) (val2 : CLong) : List Op :=
  [.command cmdStop, .config confAccc (newcode.signExtend 64) val2, .command cmdStart]

/-- The driver cuts a parameter back to the value of the program. -/
theorem setWidth_signExtend (x : CInt) : ((x.signExtend 64).setWidth 32 : CInt) = x := by
  refine BitVec.eq_of_getLsbD_eq fun i hi => ?_
  have hlong : i < 64 := by omega
  rw [BitVec.getLsbD_setWidth, BitVec.getLsbD_signExtend]
  simp [hi, hlong]

theorem filterSet_setAccmask (newcode newmask : CInt) (cm : CInt × CInt) :
    (setAccmask newcode newmask).foldl Op.filterSet cm = (newcode, newmask) := by
  have hset : (setAccmask newcode newmask).foldl Op.filterSet cm =
      ((newcode.signExtend 64).setWidth 32, (newmask.signExtend 64).setWidth 32) := rfl
  rw [hset, setWidth_signExtend, setWidth_signExtend]

theorem filterSet_setAcccode (newcode : CInt) (val2 : CLong) (cm : CInt × CInt) :
    (setAcccode newcode val2).foldl Op.filterSet cm = (newcode, cm.2) := by
  have hset : (setAcccode newcode val2).foldl Op.filterSet cm =
      ((newcode.signExtend 64).setWidth 32, cm.2) := rfl
  rw [hset, setWidth_signExtend]

/-- Stopped, configured, started: an open device is operating again, and the request was made
    in reset mode. -/
theorem Chan.exec_stopped_config {s : Chan (Sja1000 t)} (hopen : s.isopen = 1) (target : CInt)
    (val1 val2 : CLong) :
    ∃ s', Run.exec Chan.filterStep s [.command cmdStop, .config target val1 val2,
        .command cmdStart] = some s' ∧
      s'.isopen = 1 ∧ s'.chip.inReset = false := by
  obtain ⟨s₁, hs₁⟩ : ∃ s₁, s₁ = s.onChip Sja1000.enterReset := ⟨_, rfl⟩
  obtain ⟨s₂, hs₂⟩ : ∃ s₂, s₂ = (canConfig t target val1 val2 s₁).2 := ⟨_, rfl⟩
  have hopen₁ : s₁.isopen = 1 := hs₁ ▸ hopen
  have hopen₂ : s₂.isopen = 1 := by
    obtain ⟨sys, acc, txbuf, regs, hframe⟩ := canConfig_chip (t := t) s₁ target val1 val2
    rw [hs₂, hframe]
    exact hopen₁
  have hres : s₁.chip.inReset = true := by
    rw [hs₁]
    exact s.chip.enterReset_inReset
  have hstop : Chan.filterStep s (.command cmdStop) = some s₁ := by
    refine Run.restrict_eq_some.mpr ⟨rfl, ?_⟩
    rw [Chan.step, Chan.whenOpen, if_pos hopen, canCommand, if_neg (by decide), if_pos rfl,
      canStopChip_eq, hs₁]
  have hconf : Chan.filterStep s₁ (.config target val1 val2) = some s₂ := by
    refine Run.restrict_eq_some.mpr ⟨?_, ?_⟩
    · rw [Chan.keepsFilter, hres, Bool.or_true, Bool.and_true]
      rfl
    · rw [Chan.step, Chan.whenOpen, if_pos hopen₁, hs₂]
  have hstart : Chan.filterStep s₂ (.command cmdStart) = some (canStartChip t s₂) := by
    refine Run.restrict_eq_some.mpr ⟨rfl, ?_⟩
    rw [Chan.step, Chan.whenOpen, if_pos hopen₂, canCommand, if_pos rfl]
  refine ⟨canStartChip t s₂, ?_, ?_⟩
  · rw [Run.exec_of_step hstop, Run.exec_of_step hconf, Run.exec_of_step hstart]
    rfl
  · obtain ⟨regs, hleave⟩ := canStartChip_eq s₂
    rw [hleave]
    exact ⟨hopen₂, Sja1000.inReset_leaveReset _⟩

/-- In such a session the filter follows the requests. -/
theorem filter_follows {s₀ s s' : Chan (Sja1000 t)} {env : OpenEnv} {ops : List Op}
    (hreached : Reached s₀) (hopen : s₀.step (.open env) = some s)
    (hrun : Run.exec Chan.filterStep s ops = some s') :
    Mirrors s' ∧ s'.filterSys = ops.foldl Op.filterSet s.filterSys := by
  obtain ⟨hrx, htx⟩ := hreached.bounds
  have hstart : Mirrors s ∧ (∃ v w, Flow v w s) ∧ s.filterSys = s.filterSys :=
    ⟨Mirrors.of_open hopen, ⟨_, _, Flow.of_open hrx htx hopen⟩, rfl⟩
  have hend := Run.exec_fold (g := Op.filterSet)
    (P := fun cm c => Mirrors c ∧ (∃ v w, Flow v w c) ∧ c.filterSys = cm)
    (fun cm c op c' hc hstep => ?_) hstart hrun
  · exact ⟨hend.1, hend.2.2⟩
  · obtain ⟨hm, ⟨v, w, hflow⟩, hcm⟩ := hc
    obtain ⟨hguard, hstep'⟩ := Run.restrict_eq_some.mp hstep
    refine ⟨hm.step hflow hguard hstep', ?_, ?_⟩
    · by_cases hop : ∃ env, op = .open env
      · obtain ⟨env', rfl⟩ := hop
        exact ⟨_, _, Flow.of_open hflow.rxWf.bound hflow.txWf.bound hstep'⟩
      · exact ⟨v, w, hflow.step (fun env' he => hop ⟨env', he⟩) hstep'⟩
    · rw [Chan.step_filterSys hstep', hcm]

/-- **The device is given what the filter last configured asks for.**  In every session, and
    over any reopening, in which filter requests are made in reset mode and no frame is loaded
    there, the controller accepts a frame exactly if identifier, remote bit and the first data
    bytes of a base frame have the bits of the last code wherever the last mask is zero. -/
theorem accepts_configured {s₀ s s' : Chan (Sja1000 t)} {env : OpenEnv} {ops : List Op}
    (hreached : Reached s₀) (hopen : s₀.step (.open env) = some s)
    (hrun : Run.exec Chan.filterStep s ops = some s') (f : Frame) :
    s'.chip.passes f = true ↔ f.onBus.Matches
      (ops.foldl Op.filterSet s.filterSys).1 (ops.foldl Op.filterSet s.filterSys).2 := by
  obtain ⟨hmir, hsys⟩ := filter_follows hreached hopen hrun
  rw [s'.chip.passes_iff f, hmir.code, hmir.mask, ← hsys]
  rfl

/-- The extended frames with identifier `0x124` are asked for, then traffic arrives. -/
theorem accepts_configured_opened :
    let ops := setAccmask 0x920 0x7 ++ [.arrive fun _ => 0x81, .irq ⟨0, 0⟩]
    ∃ s', Run.exec Chan.filterStep Chan.opened ops = some s' ∧
      (s'.chip.passes (fun _ => 0x81) = true ↔ (Frame.onBus fun _ => 0x81).Matches
        (ops.foldl Op.filterSet Chan.opened.filterSys).1
        (ops.foldl Op.filterSet Chan.opened.filterSys).2) := by
  intro ops
  obtain ⟨s', hs'⟩ := Option.isSome_iff_exists.mp
    (show (Run.exec Chan.filterStep Chan.opened ops).isSome = true by decide +kernel)
  exact ⟨s', hs', accepts_configured reached_unopened Chan.step_opened hs' _⟩

/-! ## One message -/

/-- The documented code for one identifier, `(id << 3) + (rtr << 2)` or
    `(id << 21) + (rtr << 20)`. -/
def acccode (ext rtr : Bool) (id : CInt) : CInt :=
  if ext then (id <<< 3) + (if rtr then 0x4 else 0) else (id <<< 21) + (if rtr then 0x100000 else 0)

/-- The mask with it: everything counts, but for the data bytes of a base frame. -/
def accmask (ext : Bool) : CInt := if ext then 0 else 0xfffff

/-- A bit set below a shifted value does not disturb it. -/
theorem getLsbD_shift_add {x id : CInt} {n : Nat}
    (hx : ∀ i < 32, n ≤ i → x.getLsbD i = false) {i : Nat} (hi : i < 32) :
    ((id <<< n) + x).getLsbD i = if i < n then x.getLsbD i else id.getLsbD (i - n) := by
  have hor : (id <<< n) + x = (id <<< n) ||| x := by
    refine BitVec.add_eq_or_of_and_eq_zero _ _ (BitVec.eq_of_getLsbD_eq fun i hi => ?_)
    rw [BitVec.getLsbD_and, BitVec.getLsbD_shiftLeft]
    by_cases hlow : i < n
    · simp [hlow]
    · simp [hx i hi (by omega)]
  rw [hor, BitVec.getLsbD_or, BitVec.getLsbD_shiftLeft]
  by_cases hlow : i < n
  · simp [hlow]
  · rw [hx i hi (by omega), if_neg hlow]
    simp [hlow, hi]

/-- The documented code has the bits of the identifier above the remote bit. -/
theorem acccode_eq (ext rtr : Bool) (id : CInt) {i : Nat} (hi : i < 32) :
    (acccode ext rtr id).getLsbD i =
      if i < (if ext then 3 else 21) then i == (if ext then 2 else 20) && rtr
      else id.getLsbD (i - (if ext then 3 else 21)) := by
  have heff : ∀ i < 32, (0x4 : CInt).getLsbD i = (i == 2) := by decide
  have hsff : ∀ i < 32, (0x100000 : CInt).getLsbD i = (i == 20) := by decide
  unfold acccode
  cases ext with
  | true =>
      rw [if_pos rfl, getLsbD_shift_add _ hi]
      · simp only [if_true, Frame.getLsbD_ite, heff i hi, Bool.decide_eq_true, Bool.and_comm]
      · intro j hj hn
        rw [Frame.getLsbD_ite, heff j hj, beq_false_of_ne (by omega), Bool.and_false]
  | false =>
      rw [if_neg Bool.false_ne_true, getLsbD_shift_add _ hi]
      · simp only [Bool.false_eq_true, if_false, Frame.getLsbD_ite, hsff i hi,
          Bool.decide_eq_true, Bool.and_comm]
      · intro j hj hn
        rw [Frame.getLsbD_ite, hsff j hj, beq_false_of_ne (by omega), Bool.and_false]

/-- They ask for one identifier and one kind of frame. -/
theorem matches_acccode {v : BusFrame} {id : CInt} {rtr : Bool} (hv : v.id.toNat < 2 ^ v.idBits)
    (hid : id.toNat < 2 ^ v.idBits) :
    v.Matches (acccode v.ext rtr id) (accmask v.ext) ↔
      v.id = id.setWidth 64 ∧ v.rtr = rtr := by
  have hplace : v.idShift + v.idBits = 32 ∧ 3 ≤ v.idShift ∧
      v.idShift = (if v.ext then 3 else 21) ∧ v.idShift - 1 = (if v.ext then 2 else 20) := by
    unfold BusFrame.idShift BusFrame.idBits
    cases v.ext <;> decide
  obtain ⟨hsum, hlow, hshift, hrtr⟩ := hplace
  have hcode : ∀ i < v.idBits,
      (acccode v.ext rtr id).getLsbD (v.idShift + i) = id.getLsbD i := by
    intro i hi
    rw [acccode_eq _ _ _ (by omega), ← hshift, if_neg (by omega), Nat.add_sub_cancel_left]
  have hbit : (acccode v.ext rtr id).getLsbD (v.idShift - 1) = rtr := by
    rw [acccode_eq _ _ _ (by omega), ← hshift, if_pos (by omega), hrtr, beq_self_eq_true,
      Bool.true_and]
  have hmask : ∀ i, v.idShift - 1 ≤ i → i < 32 → (accmask v.ext).getLsbD i = false := by
    rw [hrtr]
    unfold accmask
    cases v.ext <;> decide
  constructor
  · intro h
    refine ⟨BitVec.eq_of_getLsbD_eq fun i hi => ?_, ?_⟩
    · rw [BitVec.getLsbD_setWidth]
      by_cases hin : i < v.idBits
      · rw [h.id i hin (hmask _ (by omega) (by omega)), hcode i hin]
        simp [hi]
      · -- above its format an identifier has no bits
        have hpow : 2 ^ v.idBits ≤ 2 ^ i := Nat.pow_le_pow_right (by omega) (by omega)
        have hleft : v.id.getLsbD i = false := Nat.testBit_lt_two_pow (by omega)
        have hright : id.getLsbD i = false := Nat.testBit_lt_two_pow (by omega)
        rw [hleft, hright, Bool.and_false]
    · rw [h.rtr (hmask _ (Nat.le_refl _) (by omega)), hbit]
  · rintro ⟨hsame, rfl⟩
    refine ⟨?_, fun _ => hbit.symm, ?_⟩
    · intro i hi _
      rw [hcode i hi, hsame, BitVec.getLsbD_setWidth]
      simp [show i < 64 by omega]
    · intro hext k hk _ _ b hb hm
      have hall : ∀ j < 16, (accmask false).getLsbD j = true := by decide
      rw [hext, hall _ (by omega)] at hm
      cases hm

/-- An identifier fits its format. -/
theorem Frame.onBus_id_lt (f : Frame) : f.onBus.id.toNat < 2 ^ f.onBus.idBits := by
  have hinfo : f.onBus.ext = isSet (f.reg 0) canEff := rfl
  have hword := f.idWord.isLt
  rw [show f.onBus.id = (decodeId f).setWidth 64 from rfl, BusFrame.idBits, hinfo,
    decodeId_eq_shift, BitVec.toNat_setWidth, BitVec.toNat_ushiftRight, Nat.shiftRight_eq_div_pow]
  split <;> omega

section Selects

variable {s₀ s s' s'' : Chan (Sja1000 t)} {env : OpenEnv} {ops prog : List Op} {ext rtr : Bool}
  {id : CInt}

/-- A program whose requests end in the documented code and mask selects one message. -/
theorem selects_of_filterSet (hreached : Reached s₀) (hopen : s₀.step (.open env) = some s)
    (hrun : Run.exec Chan.filterStep s ops = some s')
    (hprog : Run.exec Chan.filterStep s' prog = some s'')
    (hset : prog.foldl Op.filterSet (ops.foldl Op.filterSet s.filterSys) =
      (acccode ext rtr id, accmask ext))
    (hid : id.toNat < 2 ^ (if ext then 29 else 11)) {f : Frame}
    (hext : f.onBus.ext = ext) :
    s''.chip.passes f = true ↔ f.onBus.id = id.setWidth 64 ∧ f.onBus.rtr = rtr := by
  have hall : Run.exec Chan.filterStep s (ops ++ prog) = some s'' := by
    rw [Run.exec_append, hrun, Option.bind_some]
    exact hprog
  obtain ⟨hmir, hsys⟩ := filter_follows hreached hopen hall
  rw [List.foldl_append, hset] at hsys
  have hbits : f.onBus.idBits = if ext then 29 else 11 := by rw [BusFrame.idBits, hext]
  rw [s''.chip.passes_iff f, hmir.code, hmir.mask,
    show s''.sys.accCode = _ from congrArg Prod.fst hsys,
    show s''.sys.accMask = _ from congrArg Prod.snd hsys, ← hext]
  exact matches_acccode f.onBus_id_lt (hbits ▸ hid)

/-- `set_acccode` moves the selection to another message of the format that the mask in force
    has been set for. -/
theorem set_acccode_moves (hreached : Reached s₀) (hopen : s₀.step (.open env) = some s)
    (hrun : Run.exec Chan.filterStep s ops = some s')
    (hisopen : s'.isopen = 1) (hmask : (ops.foldl Op.filterSet s.filterSys).2 = accmask ext)
    (hid : id.toNat < 2 ^ (if ext then 29 else 11)) (val2 : CLong) :
    ∃ s'', Run.exec Chan.step s' (setAcccode (acccode ext rtr id) val2) = some s'' ∧
      s''.chip.inReset = false ∧ ∀ f : Frame, f.onBus.ext = ext →
        (s''.chip.passes f = true ↔ f.onBus.id = id.setWidth 64 ∧ f.onBus.rtr = rtr) := by
  obtain ⟨s'', hset, -, hop⟩ := Chan.exec_stopped_config hisopen confAccc
    ((acccode ext rtr id).signExtend 64) val2
  refine ⟨s'', Run.exec_of_restrict hset, hop, fun f hext => ?_⟩
  refine selects_of_filterSet hreached hopen hrun hset ?_ hid hext
  rw [← hmask]
  exact filterSet_setAcccode _ _ _

end Selects

/-- **The program asks for one message.**  Run `set_accmask` with the documented code of an
    identifier and the mask of its format (`accmask`) on a device that is open, in any such
    session: the device operates again, and of the frames of that format, whatever they carry,
    it accepts those with this identifier and remote bit. -/
theorem set_accmask_selects {s₀ s s' : Chan (Sja1000 t)} {env : OpenEnv} {ops : List Op}
    (hreached : Reached s₀) (hopen : s₀.step (.open env) = some s)
    (hrun : Run.exec Chan.filterStep s ops = some s') (hisopen : s'.isopen = 1)
    (ext rtr : Bool) (id : CInt)
    (hid : id.toNat < 2 ^ (if ext then 29 else 11)) :
    ∃ s'', Run.exec Chan.step s' (setAccmask (acccode ext rtr id) (accmask ext)) = some s'' ∧
      s''.chip.inReset = false ∧ ∀ f : Frame, f.onBus.ext = ext →
        (s''.chip.passes f = true ↔ f.onBus.id = id.setWidth 64 ∧ f.onBus.rtr = rtr) := by
  obtain ⟨s'', hset, -, hop⟩ := Chan.exec_stopped_config hisopen confAcc
    ((accmask ext).signExtend 64) ((acccode ext rtr id).signExtend 64)
  refine ⟨s'', Run.exec_of_restrict hset, hop, fun f hext => ?_⟩
  exact selects_of_filterSet hreached hopen hrun hset (filterSet_setAccmask _ _ _) hid hext

/-- It is run on a device that is receiving. -/
theorem set_accmask_selects_opened :
    ∃ s', Run.exec Chan.filterStep Chan.opened
        [.arrive fun _ => 0x81, .irq ⟨0, 0⟩] = some s' ∧
      ∃ s'', Run.exec Chan.step s' (setAccmask (acccode true false 0x124) (accmask true)) =
          some s'' ∧
        s''.chip.inReset = false ∧ ∀ f : Frame, f.onBus.ext = true →
          (s''.chip.passes f = true ↔
            f.onBus.id = (0x124 : CInt).setWidth 64 ∧ f.onBus.rtr = false) := by
  obtain ⟨s', hs', hisopen⟩ := Option.map_eq_some_iff.mp
    (show (Run.exec Chan.filterStep Chan.opened [.arrive fun _ => 0x81, .irq ⟨0, 0⟩]).map
      (fun c => c.isopen) = some 1 by decide +kernel)
  exact ⟨s', hs', set_accmask_selects reached_unopened Chan.step_opened hs' hisopen true false
    0x124 (by decide)⟩

end Can4linux
