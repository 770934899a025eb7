/-
  Can4linux.Forward

  A received frame as a message, and the message sent on.  Any contents of the
  frame registers are decoded: the length code has four bits and may be up to
  fifteen, which the format defines as eight data bytes.  `readcanmsg` stores the
  code itself as the length and copies as many bytes as its remainder modulo
  nine.
-/

import Can4linux.RoundTrip

namespace Can4linux

/-- The length code of a frame. -/
def Frame.code (f : Frame) : Nat := (f.reg 0 &&& 0x0f).toNat

/-- A well-formed message for the frame: as long as the frame has data bytes, which come
    from the data registers. -/
structure Frame.Decodes (f : Frame) (m : Canmsg) : Prop where
  length : m.length.toNat = min f.code 8
  data : ∀ i, i < m.length.toNat → m.byte i = f.reg (f.dataBase + i)

/-- The frame `g` says the same as `f`: format, remote bit, identifier, the length code
    capped at eight, and the data. -/
structure Frame.SameAs (f g : Frame) : Prop where
  ext : isSet (g.reg 0) canEff = isSet (f.reg 0) canEff
  rtr : isSet (g.reg 0) canRtr = isSet (f.reg 0) canRtr
  id : decodeId g = decodeId f
  code : g.code = min f.code 8
  data : ∀ i, i < min f.code 8 → g.reg (g.dataBase + i) = f.reg (f.dataBase + i)

/-! ## Decoding -/

section Decode

variable (inf : Msginf) (slot : Canmsg) (f : Frame)

theorem Frame.code_lt : f.code < 16 := by
  have h : f.reg 0 &&& 0x0f ≤ 0x0f := by
    generalize f.reg 0 = v
    revert v
    decide
  exact Nat.lt_succ_of_le (BitVec.le_def.mp h)

/-- The length is the length code, whatever it is. -/
theorem length_decodeMsg : (decodeMsg inf slot f).length.toNat = f.code := by
  have h := f.code_lt
  unfold Frame.code at h ⊢
  rw [decodeMsg, BitVec.toNat_setWidth]
  omega

/-- Up to a length code of eight all data bytes are copied. -/
theorem byte_decodeMsg (h8 : f.code ≤ 8) {i : Nat} (hi : i < f.code) :
    (decodeMsg inf slot f).byte i = f.reg (f.dataBase + i) := by
  have hcopied : f.copied = f.code := Nat.mod_eq_of_lt (show f.code < 9 by omega)
  have hi8 : i < 8 := by omega
  simp only [Canmsg.byte, hi8, dite_true, decodeMsg, hcopied, hi, if_true]

/-- The identifier fits into the field of the frame's format. -/
theorem decodeId_lt : (decodeId f).toNat < 2 ^ (if isSet (f.reg 0) canEff then 29 else 11) := by
  have h1 := (f.reg 1).isLt
  have h2 := (f.reg 2).isLt
  have h3 := (f.reg 3).isLt
  have h4 := (f.reg 4).isLt
  unfold decodeId
  split
  · simp only [BitVec.toNat_add, BitVec.toNat_shiftLeft, BitVec.toNat_ushiftRight,
      BitVec.toNat_setWidth, Nat.shiftLeft_eq, Nat.shiftRight_eq_div_pow]
    omega
  · simp only [BitVec.toNat_add, BitVec.toNat_shiftLeft, BitVec.toNat_ushiftRight,
      BitVec.toNat_setWidth, Nat.shiftLeft_eq, Nat.shiftRight_eq_div_pow]
    omega

/-- The flags of a decoded message are those of the frame. -/
theorem isSet_flags_decodeMsg (rxstatus : CInt) (tstamp : Timeval) :
    isSet (decodeMsg ⟨presetFlags rxstatus, tstamp⟩ slot f).flags msgExt =
        isSet (f.reg 0) canEff ∧
      isSet (decodeMsg ⟨presetFlags rxstatus, tstamp⟩ slot f).flags msgRtr =
        isSet (f.reg 0) canRtr := by
  obtain ⟨hext, hrtr⟩ := flags_decodeMsg rxstatus tstamp slot f
  constructor
  · rw [isSet, hext]
    cases isSet (f.reg 0) canEff <;> decide
  · rw [isSet, hrtr]
    cases isSet (f.reg 0) canRtr <;> decide

end Decode

/-! ## Sending on -/

/-- Encoding a decoded frame gives a frame that says the same. -/
theorem sameAs_encodeFrame (rxstatus : CInt) (tstamp : Timeval) (slot : Canmsg) {f : Frame}
    (h8 : f.code ≤ 8) (g : Frame) :
    f.SameAs (encodeFrame (decodeMsg ⟨presetFlags rxstatus, tstamp⟩ slot f).clearDelay g) := by
  obtain ⟨hfext, hfrtr⟩ := isSet_flags_decodeMsg slot f rxstatus tstamp
  have hlen := length_decodeMsg ⟨presetFlags rxstatus, tstamp⟩ slot f
  have hbyte := fun i => byte_decodeMsg ⟨presetFlags rxstatus, tstamp⟩ slot f h8 (i := i)
  have hid : (decodeMsg ⟨presetFlags rxstatus, tstamp⟩ slot f).id =
    (decodeId f).setWidth 64 := rfl
  -- only these facts about the message matter
  generalize hm : (decodeMsg ⟨presetFlags rxstatus, tstamp⟩ slot f) = m at *
  have hint : m.length.toInt = m.length.toNat :=
    BitVec.toInt_eq_toNat_of_lt (by omega)
  obtain ⟨hrounds, hle⟩ := Canmsg.rounds_eq (m := m) (by omega) (by omega)
  have hlen8 : (m.length.setWidth 8 : U8).toNat = m.length.toNat := by
    rw [BitVec.toNat_setWidth]
    omega
  have hbits := frameinfo_bits (m.length.setWidth 8) (by rw [BitVec.le_def, hlen8]; simp; omega)
    (isSet m.flags msgRtr) (isSet m.flags msgExt)
  have hreg : (encodeFrame m.clearDelay g).reg 0 =
      (if isSet m.flags msgExt then canEff else canSff) +
      (m.length.setWidth 8 ||| (if isSet m.flags msgRtr then canRtr else 0)) :=
    encodeFrame_reg_zero m.clearDelay g
  rw [← hreg] at hbits
  obtain ⟨hext, hrtr, hcode⟩ := hbits
  have hmin : min f.code 8 = f.code := Nat.min_eq_left h8
  refine ⟨hext.trans hfext, hrtr.trans hfrtr, ?_, ?_, ?_⟩
  · -- the field is wide enough for the identifier that was read
    have hdec := decodeId_encodeFrame m.clearDelay g hext
    have hwide : ∀ x : CInt, ((x.setWidth 64 : CLong)).toNat = x.toNat := by
      intro x
      have hx := x.isLt
      rw [BitVec.toNat_setWidth]
      omega
    rw [hwide, show m.clearDelay.id = m.id from rfl, hid, hwide,
      show isSet m.clearDelay.flags msgExt = isSet m.flags msgExt from rfl, hfext,
      Nat.mod_eq_of_lt (decodeId_lt f)] at hdec
    exact BitVec.eq_of_toNat_eq hdec
  · rw [Frame.code, hcode, hlen8, hlen, hmin]
  · intro i hi
    rw [hmin] at hi
    rw [data_encodeFrame m.clearDelay g (i := i) (show i < m.rounds by omega) hle hext]
    exact hbyte i hi

/-- **Receiving and sending on.**  Whatever the frame registers show, `readcanmsg` yields a
    well-formed message, which `sendcanmsg` turns into the same frame again, exactly if the
    length code is at most eight. -/
theorem readcanmsg_forward_iff {σ : Type} [Chip σ] {t : Target} {c : σ} {f : Frame}
    (hc : Shows t c f) (rxstatus : CInt) (tstamp : Timeval) (slot : Canmsg) (t' : Target)
    (s : Chan RegImage) :
    (f.Decodes (readcanmsg t ⟨presetFlags rxstatus, tstamp⟩ slot c).1 ∧
        f.SameAs ((sendcanmsg t' (readcanmsg t ⟨presetFlags rxstatus, tstamp⟩ slot
          c).1.clearDelay s).2.2.chip.frame t')) ↔
      f.code ≤ 8 := by
  rw [readcanmsg_of_shows hc]
  have hlen := length_decodeMsg ⟨presetFlags rxstatus, tstamp⟩ slot f
  constructor
  · rintro ⟨hdec, -⟩
    have hmin := hdec.length
    rw [hlen] at hmin
    omega
  · intro h8
    have hint : (decodeMsg ⟨presetFlags rxstatus, tstamp⟩ slot f).length.toInt = f.code := by
      rw [BitVec.toInt_eq_toNat_of_lt (by omega), hlen]
    refine ⟨⟨by rw [hlen, Nat.min_eq_left h8], ?_⟩, ?_⟩
    · intro i hi
      rw [hlen] at hi
      exact byte_decodeMsg _ _ _ h8 hi
    · rw [sendcanmsg_noDelay t' rfl (by rw [Canmsg.clearDelay, hint]; omega),
        RegImage.frame_loadFrame]
      · exact sameAs_encodeFrame rxstatus tstamp slot h8 _
      · exact (Canmsg.rounds_eq (m := Canmsg.clearDelay _) (by rw [Canmsg.clearDelay, hint]; omega)
          (by rw [Canmsg.clearDelay, hint]; omega)).2

/-- Registers that all read the same: an extended remote frame with three data bytes. -/
def remoteFrame : RegImage := ⟨fun _ => 0xC3⟩

theorem readcanmsg_forward_remote :
    ((remoteFrame.frame .cpcPci).Decodes
        (readcanmsg .cpcPci ⟨presetFlags bufOk, ⟨7, 0⟩⟩ Canmsg.zero remoteFrame).1 ∧
      (remoteFrame.frame .cpcPci).SameAs ((sendcanmsg .atcanminiPelican
        (readcanmsg .cpcPci ⟨presetFlags bufOk, ⟨7, 0⟩⟩ Canmsg.zero remoteFrame).1.clearDelay
        (Chan.coreInit .atcanminiPelican 0 5 0x320 remoteFrame)).2.2.chip.frame
          .atcanminiPelican)) ↔
      (remoteFrame.frame .cpcPci).code ≤ 8 :=
  readcanmsg_forward_iff (RegImage.shows_frame remoteFrame) _ _ _ _ _

/-- Registers that all read 9: a standard data frame with the length code 9. -/
def codeNine : RegImage := ⟨fun _ => 9⟩

/-- It has eight data bytes, and becomes a message of length 9 into which no byte has been
    copied. -/
theorem readcanmsg_code_nine :
    (readcanmsg .atcanminiPelican ⟨presetFlags bufOk, ⟨7, 0⟩⟩ Canmsg.zero codeNine).1 =
        { Canmsg.zero with id := 72, length := 9, timestamp := ⟨7, 0⟩ } ∧
      ¬ (codeNine.frame .atcanminiPelican).Decodes
        (readcanmsg .atcanminiPelican ⟨presetFlags bufOk, ⟨7, 0⟩⟩ Canmsg.zero codeNine).1 := by
  refine ⟨by decide, ?_⟩
  rintro ⟨hlen, -⟩
  exact absurd hlen (by decide)

end Can4linux
