/-
  Can4linux.FrameKind

  Which kind of frame a message from user space becomes.  `can_write` checks no
  field, and `sendcanmsg` caps the length from above only: a negative length is
  cut to eight bits and gets into the format and remote bits of the frame
  information, while the data loop runs zero times.
-/

import Can4linux.Recorder
import Can4linux.Delay

namespace Can4linux

/-! ## What a list of accesses stores -/

/-- The values stored into register `n`, in order. -/
def storedIn (t : Target) (n : Nat) (ws : List Event) : List U8 :=
  ws.filterMap fun
    | .outb off v => if off = t.stride * n then some v else none
    | .inb _ _ => none

/-- The numbers of the registers stored into from number `n` on, in order. -/
def storedFrom (t : Target) (n : Nat) (ws : List Event) : List Nat :=
  ws.filterMap fun
    | .outb off _ => if n ≤ regno t off then some (regno t off) else none
    | .inb _ _ => none

/-- The number of the first data register of a message's format. -/
def Canmsg.dataStart (m : Canmsg) : Nat := if isSet m.flags msgExt then 21 else 19

/-- The accesses load a frame of the kind that the flags of `m` ask for: the frame
    information is stored once, with the format and remote bits of the flags, no unused bit
    and a length code up to eight, and behind the identifier as many data registers are
    stored, in order from the first. -/
def SendsKind (t : Target) (m : Canmsg) (ws : List Event) : Prop :=
  ∃ v, storedIn t 16 ws = [v] ∧ isSet v canEff = isSet m.flags msgExt ∧
    isSet v canRtr = isSet m.flags msgRtr ∧ v &&& 0x30 = 0 ∧ (v &&& 0x0f).toNat ≤ 8 ∧
    storedFrom t m.dataStart ws = (List.range (v &&& 0x0f).toNat).map (m.dataStart + ·)

/-- The length leaves the other fields of the frame information alone: it is not negative,
    or none of its low bits shows, or the one that does is the remote bit of a remote frame. -/
def Canmsg.KeepsKind (m : Canmsg) : Prop :=
  0 ≤ m.length.toInt ∨ (m.length.setWidth 8 : U8) = 0 ∨
    ((m.length.setWidth 8 : U8) = canRtr ∧ isSet m.flags msgRtr = true)

/-! ## The stores of a frame -/

/-- The frame information of a message. -/
def Canmsg.info (m : Canmsg) : U8 :=
  (if isSet m.flags msgExt then canEff else canSff) + tx2reg m

theorem storedIn_events (t : Target) (n : Nat) (ws : List (Reg × U8)) :
    storedIn t n (storeEvents t ws) =
      ws.filterMap fun w => if w.1.number = n then some w.2 else none := by
  rw [storedIn, storeEvents, List.filterMap_map]
  congr 1
  funext w
  simp only [Function.comp_apply, Reg.offset_eq, Nat.mul_right_inj t.stride_pos.ne']

theorem storedFrom_events (t : Target) (n : Nat) (ws : List (Reg × U8)) :
    storedFrom t n (storeEvents t ws) =
      ws.filterMap fun w => if n ≤ w.1.number then some w.1.number else none := by
  rw [storedFrom, storeEvents, List.filterMap_map]
  congr 1
  funext w
  simp only [Function.comp_apply, regno_offset]

/-- The data registers lie behind each other. -/
theorem number_dataReg (m : Canmsg) (i : Nat) : (dataReg m i).number = m.dataStart + i := by
  unfold dataReg Canmsg.dataStart
  split <;> rfl

/-- The frame information is stored once. -/
theorem storedIn_frame (t : Target) (m : Canmsg) :
    storedIn t 16 (storeEvents t (frameStores m ++ [(.cancmd, canTransmissionRequest)])) =
      [m.info] := by
  have hdata : ((List.range m.rounds).map fun i => (dataReg m i, m.byte i)).filterMap
      (fun w => if w.1.number = 16 then some w.2 else none) = [] := by
    rw [List.filterMap_eq_nil_iff]
    intro w hw
    obtain ⟨i, -, rfl⟩ := List.mem_map.mp hw
    have hne : (dataReg m i).number ≠ 16 := by
      rw [number_dataReg, Canmsg.dataStart]
      split <;> omega
    exact if_neg hne
  rw [storedIn_events, frameStores, List.filterMap_append, List.filterMap_append, hdata,
    List.append_nil, frameHead, Canmsg.info]
  cases isSet m.flags msgExt <;> rfl

/-- The data registers are stored in order. -/
theorem storedFrom_frame (t : Target) (m : Canmsg) :
    storedFrom t m.dataStart
        (storeEvents t (frameStores m ++ [(.cancmd, canTransmissionRequest)])) =
      (List.range m.rounds).map (m.dataStart + ·) := by
  have hdata : ((List.range m.rounds).map fun i => (dataReg m i, m.byte i)).filterMap
      (fun w => if m.dataStart ≤ w.1.number then some w.1.number else none) =
        (List.range m.rounds).map (m.dataStart + ·) := by
    rw [List.filterMap_map, ← List.filterMap_eq_map]
    congr 1
    funext i
    simp [number_dataReg]
  have hhead : (frameHead m).filterMap
      (fun w => if m.dataStart ≤ w.1.number then some w.1.number else none) = [] := by
    unfold frameHead Canmsg.dataStart
    cases isSet m.flags msgExt <;> rfl
  have hcmd : ([(.cancmd, canTransmissionRequest)] : List (Reg × U8)).filterMap
      (fun w => if m.dataStart ≤ w.1.number then some w.1.number else none) = [] := by
    unfold Canmsg.dataStart
    cases isSet m.flags msgExt <;> rfl
  rw [storedFrom_events, frameStores, List.filterMap_append, List.filterMap_append, hdata, hhead,
    hcmd, List.append_nil, List.nil_append]

/-! ## The frame information -/

/-- The unused bits of the frame information of a proper length are clear. -/
theorem frameinfo_unused (l : U8) (hl : l ≤ 8) (rtr ext : Bool) :
    (if ext then canEff else canSff) + (l ||| (if rtr then canRtr else 0)) &&& 0x30 = 0 := by
  revert l
  cases rtr <;> cases ext <;> decide

/-- What the low byte of a length may be for the other fields to come through, where no
    data register is stored. -/
theorem frameinfo_empty_iff (l : U8) (rtr ext : Bool) :
    (isSet ((if ext then canEff else canSff) + (l ||| (if rtr then canRtr else 0))) canEff = ext ∧
      isSet ((if ext then canEff else canSff) + (l ||| (if rtr then canRtr else 0))) canRtr = rtr ∧
      (if ext then canEff else canSff) + (l ||| (if rtr then canRtr else 0)) &&& 0x30 = 0 ∧
      (if ext then canEff else canSff) + (l ||| (if rtr then canRtr else 0)) &&& 0x0f = 0) ↔
    l = 0 ∨ (l = canRtr ∧ rtr = true) := by
  revert l
  cases rtr <;> cases ext <;> decide

theorem Canmsg.info_eq (m : Canmsg) :
    m.info = (if isSet m.flags msgExt then canEff else canSff) +
      (m.length.setWidth 8 ||| (if isSet m.flags msgRtr then canRtr else 0)) := rfl

/-- A length between 0 and 8 is the length code, and the number of data registers. -/
theorem sendsKind_of_length (t : Target) {m : Canmsg} (h0 : 0 ≤ m.length.toInt)
    (h8 : m.length.toInt ≤ 8) :
    SendsKind t m (storeEvents t (frameStores m ++ [(.cancmd, canTransmissionRequest)])) := by
  obtain ⟨hrounds, hle⟩ := Canmsg.rounds_eq h0 h8
  have hlen8 : (m.length.setWidth 8 : U8).toNat = m.length.toNat := by
    rw [BitVec.toNat_setWidth]
    omega
  have hbound : (m.length.setWidth 8 : U8) ≤ 8 := by
    rw [BitVec.le_def, hlen8]
    exact hrounds ▸ hle
  obtain ⟨hext, hrtr, hcode⟩ := frameinfo_bits (m.length.setWidth 8) hbound
    (isSet m.flags msgRtr) (isSet m.flags msgExt)
  have hunused := frameinfo_unused (m.length.setWidth 8) hbound
    (isSet m.flags msgRtr) (isSet m.flags msgExt)
  rw [← m.info_eq] at hext hrtr hcode hunused
  refine ⟨m.info, storedIn_frame t m, hext, hrtr, hunused, ?_, ?_⟩
  · rw [hcode, hlen8, ← hrounds]
    exact hle
  · rw [storedFrom_frame, hcode, hlen8, hrounds]

/-- With a negative length no data register is stored, and the low byte of the length is
    the frame information but for the two flags. -/
theorem sendsKind_negative_iff (t : Target) {m : Canmsg} (h0 : m.length.toInt < 0) :
    SendsKind t m (storeEvents t (frameStores m ++ [(.cancmd, canTransmissionRequest)])) ↔
      (m.length.setWidth 8 : U8) = 0 ∨
        ((m.length.setWidth 8 : U8) = canRtr ∧ isSet m.flags msgRtr = true) := by
  have hrounds : m.rounds = 0 := by
    unfold Canmsg.rounds
    omega
  rw [← frameinfo_empty_iff (m.length.setWidth 8) (isSet m.flags msgRtr) (isSet m.flags msgExt),
    ← m.info_eq, SendsKind, storedIn_frame, storedFrom_frame, hrounds]
  constructor
  · rintro ⟨v, hv, hext, hrtr, hunused, -, hdata⟩
    obtain rfl : m.info = v := List.head_eq_of_cons_eq hv
    refine ⟨hext, hrtr, hunused, ?_⟩
    -- no register stored means the length code zero
    have hcode : (m.info &&& 0x0f).toNat = 0 := by
      simpa using congrArg List.length hdata.symm
    exact BitVec.eq_of_toNat_eq hcode
  · rintro ⟨hext, hrtr, hunused, hcode⟩
    refine ⟨m.info, rfl, hext, hrtr, hunused, ?_, ?_⟩
    · rw [hcode]
      decide
    · rw [hcode]
      rfl

/-! ## Any message -/

/-- The cap changes a length above 8 only. -/
theorem Canmsg.capLength_cases (m : Canmsg) :
    (m.length.toInt ≤ 8 ∧ m.capLength = m) ∨
      (8 < m.length.toInt ∧ m.capLength.length = 8) := by
  rcases lt_or_ge 8 m.length.toInt with h | h
  · refine .inr ⟨h, ?_⟩
    have hslt : (8 : BitVec 16).slt m.length = true := by
      rw [BitVec.slt_iff_toInt_lt]
      exact h
    rw [Canmsg.capLength, if_pos hslt]
  · exact .inl ⟨h, Canmsg.capLength_eq h⟩

/-- **The kind of frame a message becomes.**  Whatever the fields of a message are, when
    `sendcanmsg` loads it the frame is of the kind that the flags ask for, with a length
    code up to eight and as many data registers, exactly if the length keeps the kind. -/
theorem sendcanmsg_sendsKind_iff {σ : Type} [Chip σ] (t : Target) {m : Canmsg}
    {s : Chan (Recorder σ)} (hload : (sendcanmsg t m s).2.1 = true) :
    ∃ ws, (sendcanmsg t m s).2.2.chip.log = s.chip.log ++ ws ∧
      (SendsKind t m ws ↔ m.KeepsKind) := by
  have hw : waits s.sys.baud m.capLength = false := by
    cases hw : waits s.sys.baud m.capLength with
    | false => rfl
    | true =>
        simp only [sendcanmsg, hw, if_true] at hload
        cases hload
  refine ⟨storeEvents t (frameStores m.capLength ++ [(.cancmd, canTransmissionRequest)]), ?_, ?_⟩
  · simp only [sendcanmsg, hw, Bool.false_eq_true, if_false]
    exact log_loadFrame t m.capLength s.chip
  · -- the cap leaves the flags alone
    have hflags : SendsKind t m = SendsKind t m.capLength := rfl
    rw [hflags]
    rcases m.capLength_cases with ⟨h8, hcap⟩ | ⟨h8, hcap⟩
    · rw [hcap]
      rcases lt_or_ge m.length.toInt 0 with h0 | h0
      · rw [sendsKind_negative_iff t h0, Canmsg.KeepsKind, or_iff_right (Int.not_le.mpr h0)]
      · exact iff_of_true (sendsKind_of_length t h0 h8) (.inl h0)
    · refine iff_of_true (sendsKind_of_length t ?_ ?_) (.inl (by omega))
      · rw [hcap]
        decide
      · rw [hcap]
        decide

/-- A channel at rest whose accesses are on record. -/
def recorded : Chan (Recorder RegImage) :=
  Chan.coreInit .atcanminiPelican 0 5 0x320 ⟨⟨fun _ => 0⟩, []⟩

/-- A message of twenty bytes is sent with eight. -/
theorem sendcanmsg_sendsKind_long :
    ∃ ws, (sendcanmsg .atcanminiPelican ⟨msgExt, 0, 0x123, ⟨0, 0⟩, 20, fun _ => 0x55⟩
        recorded).2.2.chip.log = [] ++ ws ∧
      (SendsKind .atcanminiPelican ⟨msgExt, 0, 0x123, ⟨0, 0⟩, 20, fun _ => 0x55⟩ ws ↔
        Canmsg.KeepsKind ⟨msgExt, 0, 0x123, ⟨0, 0⟩, 20, fun _ => 0x55⟩) :=
  sendcanmsg_sendsKind_iff .atcanminiPelican (s := recorded) (by decide)

/-- A standard data frame of length -128 is sent as an extended one. -/
theorem sendcanmsg_flips_format :
    (sendcanmsg .atcanminiPelican ⟨0, 0, 0x123, ⟨0, 0⟩, -128, fun _ => 0x55⟩ recorded).2.1 = true ∧
    storedIn .atcanminiPelican 16 (sendcanmsg .atcanminiPelican
      ⟨0, 0, 0x123, ⟨0, 0⟩, -128, fun _ => 0x55⟩ recorded).2.2.chip.log = [canEff] ∧
    ¬ SendsKind .atcanminiPelican ⟨0, 0, 0x123, ⟨0, 0⟩, -128, fun _ => 0x55⟩
      (sendcanmsg .atcanminiPelican ⟨0, 0, 0x123, ⟨0, 0⟩, -128, fun _ => 0x55⟩
        recorded).2.2.chip.log := by
  refine ⟨by decide, by decide, ?_⟩
  rintro ⟨v, hv, hext, -⟩
  obtain rfl : canEff = v := List.head_eq_of_cons_eq hv
  exact absurd hext (by decide)

end Can4linux
