/-
  Can4linux.Codec

  What the register accesses of `sendcanmsg` and `readcanmsg` amount to, as
  functions on the 13 frame registers, and the law that ties them together.

  - `encodeFrame m f` is the frame `f` after the writes of `sendcanmsg`;
  - `decodeMsg inf msg f` is the slot `msg` after `readcanmsg` ran on the frame
    `f`, and `Frame.view` the part of it that comes from the frame alone.

  Nothing here depends on the device: it enters through a relation to frames that
  every store keeps (`writeFrame_rule`), or as one that `Shows` a frame.
-/

import Can4linux.Sja1000
import Can4linux.Transfer

namespace Can4linux

/-! ## Writing the frame registers -/

/-- `n` data bytes of `m` in the registers from `base` on. -/
def Frame.setData (base : Nat) (m : Canmsg) : Nat → Frame → Frame
  | 0, f => f
  | n + 1, f => (Frame.setData base m n f).setReg (base + n) (m.byte n)

/-- The frame registers after the writes of `sendcanmsg`. -/
def encodeFrame (m : Canmsg) (f : Frame) : Frame :=
  if isSet m.flags msgExt then
    Frame.setData 5 m m.rounds
      (((((f.setReg 0 (canEff + tx2reg m)).setReg 1 ((m.id >>> 21).setWidth 8)).setReg 2
        ((m.id >>> 13).setWidth 8)).setReg 3 ((m.id >>> 5).setWidth 8)).setReg 4
        ((m.id <<< 3).setWidth 8 &&& 0xff))
  else
    Frame.setData 3 m m.rounds
      (((f.setReg 0 (canSff + tx2reg m)).setReg 1 ((m.id >>> 3).setWidth 8)).setReg 2
        ((m.id <<< 5).setWidth 8 &&& 0xe0))

/-- A data register holds its byte. -/
theorem Frame.reg_setData {base n i : Nat} (m : Canmsg) (f : Frame) (hi : i < n)
    (hn : base + n ≤ 13) : (Frame.setData base m n f).reg (base + i) = m.byte i := by
  induction n with
  | zero => omega
  | succ n ih =>
      rw [Frame.setData]
      -- the last round writes its own register only
      by_cases h : i = n
      · subst h
        exact Frame.reg_setReg_self _ (by omega) _
      · rw [Frame.reg_setReg_ne _ (by omega)]
        exact ih (by omega) (by omega)

/-- The registers before the data are left alone. -/
theorem Frame.reg_setData_lt {base n j : Nat} (m : Canmsg) (f : Frame) (hj : j < base) :
    (Frame.setData base m n f).reg j = f.reg j := by
  induction n with
  | zero => rfl
  | succ n ih => rw [Frame.setData, Frame.reg_setReg_ne _ (by omega), ih]

/-- After the cap no loop over the data leaves `data`. -/
theorem Canmsg.rounds_capLength_le (m : Canmsg) : m.capLength.rounds ≤ 8 := by
  unfold Canmsg.rounds Canmsg.capLength
  by_cases h : (8 : BitVec 16).slt m.length
  · simp only [h, if_true]
    decide
  · simp only [h, Bool.false_eq_true, if_false]
    rw [BitVec.slt_iff_toInt_lt] at h
    have h8 : (8 : BitVec 16).toInt = 8 := by decide
    omega

section Rule

variable {σ : Type} [Chip σ] {t : Target} {V : σ → Frame → Prop}

theorem writeData_rule
    (hV : ∀ r i v c f, r.number = 16 + i → i < 13 → V c f → V (canOut t r v c) (f.setReg i v))
    {reg : Nat → Reg} {base : Nat} (hreg : ∀ i, (reg i).number = 16 + (base + i))
    (m : Canmsg) {n : Nat} (hn : base + n ≤ 13) {c : σ} {f : Frame} (h : V c f) :
    V (writeData t reg m n c) (Frame.setData base m n f) := by
  induction n with
  | zero => exact h
  | succ n ih => exact hV _ _ _ _ _ (hreg n) (by omega) (ih (by omega))

/-- The rule for `sendcanmsg`: a relation between device and frame that every store
    into a frame register keeps relates the device afterwards to `encodeFrame`. -/
theorem writeFrame_rule
    (hV : ∀ r i v c f, r.number = 16 + i → i < 13 → V c f → V (canOut t r v c) (f.setReg i v))
    {m : Canmsg} (hm : m.rounds ≤ 8) {c : σ} {f : Frame} (h : V c f) :
    V (writeFrame t m c) (encodeFrame m f) := by
  unfold writeFrame encodeFrame
  by_cases hext : isSet m.flags msgExt
  · simp only [hext, if_true]
    refine writeData_rule hV ?_ m (by omega) ?_
    · intro i
      simp only [Reg.number]
      omega
    · -- the stores before the data, in the order of the source
      have h0 := hV .frameinfo 0 (canEff + tx2reg m) c f rfl (by omega) h
      have h1 := hV .extCanid1 1 ((m.id >>> 21).setWidth 8) _ _ rfl (by omega) h0
      have h2 := hV .extCanid2 2 ((m.id >>> 13).setWidth 8) _ _ rfl (by omega) h1
      have h3 := hV .extCanid3 3 ((m.id >>> 5).setWidth 8) _ _ rfl (by omega) h2
      exact hV .extCanid4 4 ((m.id <<< 3).setWidth 8 &&& 0xff) _ _ rfl (by omega) h3
  · simp only [hext, Bool.false_eq_true, if_false]
    refine writeData_rule hV ?_ m (by omega) ?_
    · intro i
      simp only [Reg.number]
      omega
    · have h0 := hV .frameinfo 0 (canSff + tx2reg m) c f rfl (by omega) h
      have h1 := hV .stdCanid1 1 ((m.id >>> 3).setWidth 8) _ _ rfl (by omega) h0
      exact hV .stdCanid2 2 ((m.id <<< 5).setWidth 8 &&& 0xe0) _ _ rfl (by omega) h1

end Rule

/-! ## Reading the frame registers -/

/-- The identifier, as `readcanmsg` puts it together. -/
def decodeId (f : Frame) : CInt :=
  if isSet (f.reg 0) canEff then
    ((f.reg 1).setWidth 32 <<< 21) + ((f.reg 2).setWidth 32 <<< 13) +
      ((f.reg 3).setWidth 32 <<< 5) + ((f.reg 4).setWidth 32 >>> 3)
  else
    ((f.reg 1).setWidth 32 <<< 3) + ((f.reg 2).setWidth 32 >>> 5)

/-- The first data register of a frame. -/
def Frame.dataBase (f : Frame) : Nat := if isSet (f.reg 0) canEff then 5 else 3

/-- The number of data bytes `readcanmsg` copies. -/
def Frame.copied (f : Frame) : Nat := (f.reg 0 &&& 0x0f).toNat % 9

/-- What `readcanmsg` makes of the slot `msg` when the frame registers read `f`. -/
def decodeMsg (inf : Msginf) (msg : Canmsg) (f : Frame) : Canmsg :=
  { msg with
    timestamp := inf.tstamp
    flags := inf.flags ||| (if isSet (f.reg 0) canRtr then msgRtr else 0)
      ||| (if isSet (f.reg 0) canEff then msgExt else 0)
    id := (decodeId f).setWidth 64
    length := (f.reg 0 &&& 0x0f).setWidth 16
    data := fun j => if j.val < f.copied then f.reg (f.dataBase + j) else msg.data j }

/-- The device answers the reads of the frame registers with `f`, and reading does
    not change it. -/
def Shows {σ : Type} [Chip σ] (t : Target) (c : σ) (f : Frame) : Prop :=
  ∀ r i, r.number = 16 + i → i < 13 → canIn t r c = (f.reg i, c)

section Read

variable {σ : Type} [Chip σ] {t : Target} {c : σ} {f : Frame}

theorem readData_of_shows (hc : Shows t c f) {reg : Nat → Reg} {base : Nat}
    (hreg : ∀ i, (reg i).number = 16 + (base + i)) (d : Fin 8 → U8) {n : Nat}
    (hn : base + n ≤ 13) :
    readData t reg n d c = (fun j : Fin 8 => if j.val < n then f.reg (base + j) else d j, c) := by
  induction n with
  | zero => simp [readData]
  | succ n ih =>
      simp only [readData, ih (by omega), hc _ _ (hreg n) (by omega)]
      refine Prod.ext (funext ?_) rfl
      intro j
      -- round `n` reads byte `n` and no other
      simp only [setByte]
      by_cases hj : j.val = n
      · simp [hj]
      · have hiff : j.val < n + 1 ↔ j.val < n := by omega
        simp [hj, hiff]

theorem readId_of_shows (hc : Shows t c f) :
    (if isSet (f.reg 0) canEff then readExtId t c else readStdId t c) = (decodeId f, c) := by
  by_cases hext : isSet (f.reg 0) canEff
  · simp only [decodeId, hext, if_true, readExtId, hc .extCanid1 1 rfl (by omega),
      hc .extCanid2 2 rfl (by omega), hc .extCanid3 3 rfl (by omega),
      hc .extCanid4 4 rfl (by omega)]
  · simp only [decodeId, hext, Bool.false_eq_true, if_false, readStdId,
      hc .stdCanid1 1 rfl (by omega), hc .stdCanid2 2 rfl (by omega)]

/-- `readcanmsg` decodes what the frame registers show and releases the frame. -/
theorem readcanmsg_of_shows (hc : Shows t c f) (inf : Msginf) (msg : Canmsg) :
    readcanmsg t inf msg c =
      (decodeMsg inf msg f, canOut t .cancmd canReleaseReceiveBuffer c) := by
  have hn : f.copied ≤ 8 := by
    have hlt : f.copied < 9 := Nat.mod_lt _ (by decide)
    omega
  -- the data loop reads behind the identifier of either format
  have hdata : readData t (if isSet (f.reg 0) canEff then .extCanxdata else .stdCandata)
      f.copied msg.data c =
      (fun j : Fin 8 => if j.val < f.copied then f.reg (f.dataBase + j) else msg.data j, c) := by
    refine readData_of_shows hc ?_ _ ?_
    · intro i
      unfold Frame.dataBase
      split
      · simp only [Reg.number]
        omega
      · simp only [Reg.number]
        omega
    · unfold Frame.dataBase
      split
      · omega
      · omega
  unfold Frame.copied at hdata
  simp only [readcanmsg, hc .frameinfo 0 rfl (by omega), readId_of_shows hc, hdata]
  rfl

end Read

/-! ## The part of a message that comes from the frame -/

/-- Format, remote flag, identifier, length, and the data bytes `readcanmsg` copies. -/
structure RxView where
  ext : Bool
  rtr : Bool
  id : CLong
  length : BitVec 16
  data : List U8
deriving DecidableEq

/-- What a message says about its frame. -/
def Canmsg.view (m : Canmsg) : RxView where
  ext := isSet m.flags msgExt
  rtr := isSet m.flags msgRtr
  id := m.id
  length := m.length
  data := (List.range (m.length.toNat % 9)).map m.byte

/-- The frame decoded. -/
def Frame.view (f : Frame) : RxView where
  ext := isSet (f.reg 0) canEff
  rtr := isSet (f.reg 0) canRtr
  id := (decodeId f).setWidth 64
  length := (f.reg 0 &&& 0x0f).setWidth 16
  data := (List.range f.copied).map fun j => f.reg (f.dataBase + j)

/-- The preset of `msginf.flags` leaves the two frame flags to `readcanmsg`. -/
theorem flags_decodeMsg (rxstatus : CInt) (tstamp : Timeval) (msg : Canmsg) (f : Frame) :
    (decodeMsg ⟨presetFlags rxstatus, tstamp⟩ msg f).flags &&& msgExt =
        (if isSet (f.reg 0) canEff then msgExt else 0) ∧
      (decodeMsg ⟨presetFlags rxstatus, tstamp⟩ msg f).flags &&& msgRtr =
        (if isSet (f.reg 0) canRtr then msgRtr else 0) := by
  simp only [decodeMsg, presetFlags]
  split <;> split <;> split <;> decide

/-- What was in the slot, the preset and the time do not show in the decoded part. -/
theorem view_decodeMsg (rxstatus : CInt) (tstamp : Timeval) (msg : Canmsg) (f : Frame) :
    (decodeMsg ⟨presetFlags rxstatus, tstamp⟩ msg f).view = f.view := by
  obtain ⟨hfext, hfrtr⟩ := flags_decodeMsg rxstatus tstamp msg f
  have hext : isSet (decodeMsg ⟨presetFlags rxstatus, tstamp⟩ msg f).flags msgExt =
      isSet (f.reg 0) canEff := by
    rw [isSet, hfext]
    cases isSet (f.reg 0) canEff <;> decide
  have hrtr : isSet (decodeMsg ⟨presetFlags rxstatus, tstamp⟩ msg f).flags msgRtr =
      isSet (f.reg 0) canRtr := by
    rw [isSet, hfrtr]
    cases isSet (f.reg 0) canRtr <;> decide
  -- `length` keeps the whole length code, the copy takes it modulo 9
  have hlen : (decodeMsg ⟨presetFlags rxstatus, tstamp⟩ msg f).length.toNat % 9 = f.copied := by
    have hlt : (f.reg 0 &&& 0x0f).toNat < 2 ^ 16 :=
      Nat.lt_trans (f.reg 0 &&& 0x0f).isLt (by decide)
    simp only [decodeMsg, Frame.copied, BitVec.toNat_setWidth, Nat.mod_eq_of_lt hlt]
  have hn : f.copied ≤ 8 := by
    have hlt : f.copied < 9 := Nat.mod_lt _ (by decide)
    omega
  unfold Canmsg.view Frame.view
  rw [hext, hrtr, hlen]
  congr 1
  refine List.map_congr_left ?_
  intro j hj
  have hj' : j < f.copied := List.mem_range.mp hj
  simp [Canmsg.byte, decodeMsg, hj', show j < 8 by omega]

/-! ## Receiving undoes sending -/

/-- The frame information `sendcanmsg` writes, read back bit by bit. -/
theorem frameinfo_bits (l : U8) (hl : l ≤ 8) (rtr ext : Bool) :
    isSet ((if ext then canEff else canSff) + (l ||| (if rtr then canRtr else 0))) canEff = ext ∧
      isSet ((if ext then canEff else canSff) + (l ||| (if rtr then canRtr else 0))) canRtr = rtr ∧
      (if ext then canEff else canSff) + (l ||| (if rtr then canRtr else 0)) &&& 0x0f = l := by
  -- the three fields share no bit
  revert l
  cases rtr <;> cases ext <;> decide

theorem and_0xff (x : U8) : x &&& 0xff = x := by
  revert x
  decide

theorem toNat_and_0xe0 (x : U8) : (x &&& 0xe0).toNat = x.toNat / 32 * 32 := by
  revert x
  decide

/-- The four identifier registers of an extended frame keep 29 bits. -/
theorem extId_toNat (id : CLong) :
    ((((id >>> 21).setWidth 8 : U8).setWidth 32 <<< 21) +
      (((id >>> 13).setWidth 8 : U8).setWidth 32 <<< 13) +
      (((id >>> 5).setWidth 8 : U8).setWidth 32 <<< 5) +
      (((id <<< 3).setWidth 8 &&& 0xff : U8).setWidth 32 >>> 3) : CInt).toNat =
        id.toNat % 2 ^ 29 := by
  rw [and_0xff]
  -- the fields do not overlap, and the bits above the 29th are shifted out
  simp only [BitVec.toNat_add, BitVec.toNat_shiftLeft, BitVec.toNat_ushiftRight,
    BitVec.toNat_setWidth, Nat.shiftLeft_eq, Nat.shiftRight_eq_div_pow]
  omega

/-- The two identifier registers of a standard frame keep 11 bits. -/
theorem stdId_toNat (id : CLong) :
    ((((id >>> 3).setWidth 8 : U8).setWidth 32 <<< 3) +
      (((id <<< 5).setWidth 8 &&& 0xe0 : U8).setWidth 32 >>> 5) : CInt).toNat =
        id.toNat % 2 ^ 11 := by
  simp only [BitVec.toNat_add, BitVec.toNat_shiftLeft, BitVec.toNat_ushiftRight, toNat_and_0xe0,
    BitVec.toNat_setWidth, Nat.shiftLeft_eq, Nat.shiftRight_eq_div_pow]
  omega

section Encoded

variable (m : Canmsg) (f : Frame)

/-- The frame information register of an encoded message. -/
theorem encodeFrame_reg_zero :
    (encodeFrame m f).reg 0 = (if isSet m.flags msgExt then canEff else canSff) +
      (m.length.setWidth 8 ||| (if isSet m.flags msgRtr then canRtr else 0)) := by
  unfold encodeFrame
  split
  · rw [Frame.reg_setData_lt _ _ (by omega)]
    simp [tx2reg]
  · rw [Frame.reg_setData_lt _ _ (by omega)]
    simp [tx2reg]

/-- The identifier survives, cut to the field of its format. -/
theorem decodeId_encodeFrame
    (hext : isSet ((encodeFrame m f).reg 0) canEff = isSet m.flags msgExt) :
    ((decodeId (encodeFrame m f)).setWidth 64 : CLong).toNat =
      m.id.toNat % 2 ^ (if isSet m.flags msgExt then 29 else 11) := by
  have hid : (decodeId (encodeFrame m f)).toNat =
      m.id.toNat % 2 ^ (if isSet m.flags msgExt then 29 else 11) := by
    unfold decodeId
    rw [hext]
    by_cases h : isSet m.flags msgExt
    · simp only [h, if_true]
      rw [← extId_toNat]
      -- the identifier registers lie before the data
      simp only [encodeFrame, h, if_true, Frame.reg_setData_lt m _ (show 1 < 5 by omega),
        Frame.reg_setData_lt m _ (show 2 < 5 by omega),
        Frame.reg_setData_lt m _ (show 3 < 5 by omega),
        Frame.reg_setData_lt m _ (show 4 < 5 by omega)]
      simp
    · simp only [h, Bool.false_eq_true, if_false]
      rw [← stdId_toNat]
      simp only [encodeFrame, h, Bool.false_eq_true, if_false,
        Frame.reg_setData_lt m _ (show 1 < 3 by omega),
        Frame.reg_setData_lt m _ (show 2 < 3 by omega)]
      simp
  rw [BitVec.toNat_setWidth, hid]
  exact Nat.mod_eq_of_lt (Nat.lt_trans (hid ▸ BitVec.isLt _) (by decide))

/-- The data registers hold the message's bytes. -/
theorem data_encodeFrame {i : Nat} (hi : i < m.rounds) (hm : m.rounds ≤ 8)
    (hext : isSet ((encodeFrame m f).reg 0) canEff = isSet m.flags msgExt) :
    (encodeFrame m f).reg ((encodeFrame m f).dataBase + i) = m.byte i := by
  unfold Frame.dataBase
  rw [hext]
  unfold encodeFrame
  by_cases h : isSet m.flags msgExt
  · simp only [h, if_true]
    exact Frame.reg_setData m _ hi (by omega)
  · simp only [h, Bool.false_eq_true, if_false]
    exact Frame.reg_setData m _ hi (by omega)

end Encoded

/-- `got` is the message that the frame of `m` carries. -/
structure Canmsg.SameFrame (m got : Canmsg) : Prop where
  ext : got.flags &&& msgExt = m.flags &&& msgExt
  rtr : got.flags &&& msgRtr = m.flags &&& msgRtr
  id : got.id.toNat = m.id.toNat % 2 ^ (if isSet m.flags msgExt then 29 else 11)
  length : got.length = m.length
  data : ∀ i, i < m.length.toNat → got.byte i = m.byte i

/-- A test of one flag bit, turned back into the bit. -/
theorem ite_and_twoPow (x : CInt) (i : Nat) :
    (if isSet x (BitVec.twoPow 32 i) then BitVec.twoPow 32 i else 0) =
      x &&& BitVec.twoPow 32 i := by
  rw [isSet, BitVec.and_twoPow]
  by_cases hx : x.getLsbD i
  · by_cases h0 : BitVec.twoPow 32 i = 0#32
    · simp [hx, h0]
    · simp [hx, h0]
  · simp [hx]

/-- A length in the range of the format is the number of rounds over the data. -/
theorem Canmsg.rounds_eq {m : Canmsg} (h0 : 0 ≤ m.length.toInt) (h8 : m.length.toInt ≤ 8) :
    m.rounds = m.length.toNat ∧ m.rounds ≤ 8 := by
  have hint : m.length.toInt = m.length.toNat := by
    rw [BitVec.toInt_eq_toNat_cond] at h0 ⊢
    have hlt := m.length.isLt
    split at h0 <;> omega
  unfold Canmsg.rounds
  omega

/-- Decoding an encoded frame gives the message back. -/
theorem sameFrame_decodeMsg {m : Canmsg} (h0 : 0 ≤ m.length.toInt) (h8 : m.length.toInt ≤ 8)
    (rxstatus : CInt) (tstamp : Timeval) (slot : Canmsg) (f : Frame) :
    m.SameFrame (decodeMsg ⟨presetFlags rxstatus, tstamp⟩ slot (encodeFrame m f)) := by
  obtain ⟨hrounds, hle⟩ := Canmsg.rounds_eq h0 h8
  -- the frame information register gives back format, remote bit and length
  have hlen8 : (m.length.setWidth 8 : U8).toNat = m.length.toNat := by
    rw [BitVec.toNat_setWidth]
    omega
  have hbits := frameinfo_bits (m.length.setWidth 8) (by rw [BitVec.le_def, hlen8]; simp; omega)
    (isSet m.flags msgRtr) (isSet m.flags msgExt)
  rw [← encodeFrame_reg_zero m f] at hbits
  obtain ⟨hext, hrtr, hlen⟩ := hbits
  obtain ⟨hfext, hfrtr⟩ := flags_decodeMsg rxstatus tstamp slot (encodeFrame m f)
  have hcopied : (encodeFrame m f).copied = m.length.toNat := by
    rw [Frame.copied, hlen, hlen8]
    omega
  refine ⟨?_, ?_, decodeId_encodeFrame m f hext, ?_, ?_⟩
  · rw [hfext, hext, show msgExt = BitVec.twoPow 32 2 by decide]
    exact ite_and_twoPow m.flags 2
  · rw [hfrtr, hrtr, show msgRtr = BitVec.twoPow 32 0 by decide]
    exact ite_and_twoPow m.flags 0
  · show (((encodeFrame m f).reg 0 &&& 0x0f).setWidth 16 : BitVec 16) = m.length
    rw [hlen]
    exact BitVec.eq_of_toNat_eq (by rw [BitVec.toNat_setWidth, hlen8]; omega)
  · intro i hi
    have hi8 : i < 8 := by omega
    simp only [Canmsg.byte, hi8, dite_true, decodeMsg, hcopied, hi, if_true]
    rw [data_encodeFrame m f (by omega) hle hext, Canmsg.byte, dif_pos hi8]

end Can4linux
