/-
  Can4linux.Delay

  The arithmetic of a delayed message.  `sendcanmsg` computes in `int`: the delay
  is cut to 32 bits, the time of the shortest frame is taken off, and what is
  left becomes nanoseconds in another 32-bit product.  Here every value is
  compared with the integer it stands for.

  `Baud` is a rate in kbit/s, or a pair of timing registers.  The driver divides
  by it in both cases; `bitTicks` is what the registers really programme.
-/

import Can4linux.RoundTrip
import Can4linux.Sja1000Funcs
import Mathlib.Tactic.Ring
import Mathlib.Tactic.Positivity

namespace Can4linux

/-! ## The bits of a frame -/

/-- The bits `sendcanmsg` counts, as a number: the fixed fields, and the data. -/
def Canmsg.bits (m : Canmsg) : Int :=
  (if isSet m.flags msgExt then 64 else 44) + 8 * m.length.toInt

/-- A length that has been capped keeps the sum within `int`. -/
theorem Canmsg.bits_bounds {m : Canmsg} (h8 : m.length.toInt ≤ 8) :
    -262144 < m.bits ∧ m.bits ≤ 128 := by
  have hlow : -32768 ≤ m.length.toInt := BitVec.le_toInt m.length
  unfold Canmsg.bits
  split
  · omega
  · omega

theorem Canmsg.capLength_toInt_le (m : Canmsg) : m.capLength.length.toInt ≤ 8 := by
  unfold Canmsg.capLength
  by_cases h : (8 : BitVec 16).slt m.length = true
  · simp only [h, if_true]
    decide
  · simp only [h, Bool.false_eq_true, if_false]
    rw [BitVec.slt_iff_toInt_lt] at h
    have h8 : (8 : BitVec 16).toInt = 8 := by decide
    omega

/-- A value of 32 bits that lies in the range of `int` is the number itself. -/
theorem bmod_of_int {x : Int} (hlo : -2147483648 ≤ x) (hhi : x ≤ 2147483647) :
    x.bmod (2 ^ 32) = x := by
  apply Int.bmod_eq_of_le_mul_two
  · omega
  · omega

theorem toInt_nbits {m : Canmsg} (h8 : m.length.toInt ≤ 8) : (nbits m).toInt = m.bits := by
  have hlow : -32768 ≤ m.length.toInt := BitVec.le_toInt m.length
  have hsign : (m.length.signExtend 32).toInt = m.length.toInt :=
    BitVec.toInt_signExtend_of_le (by decide)
  have hdata : (m.length.signExtend 32 * 8 : CInt).toInt = 8 * m.length.toInt := by
    rw [BitVec.toInt_mul, hsign, show (8 : CInt).toInt = 8 by decide, bmod_of_int (by omega)
      (by omega), Int.mul_comm]
  -- the fixed fields of either format
  have hfixed : ((1+11+1+1+1+4+15+1+1+1+7) +
      (if isSet m.flags msgExt then 18+2 else 0) : CInt).toInt =
        if isSet m.flags msgExt then 64 else 44 := by
    cases isSet m.flags msgExt <;> decide
  rw [nbits, BitVec.toInt_add, hfixed, hdata, Canmsg.bits]
  apply bmod_of_int
  · split <;> omega
  · split <;> omega

/-- `nbits*1000` does not overflow. -/
theorem toInt_nbits_mul {m : Canmsg} (h8 : m.length.toInt ≤ 8) :
    (nbits m * 1000).toInt = 1000 * m.bits := by
  obtain ⟨hlo, hhi⟩ := Canmsg.bits_bounds h8
  rw [BitVec.toInt_mul, toInt_nbits h8, show (1000 : CInt).toInt = 1000 by decide,
    bmod_of_int (by omega) (by omega), Int.mul_comm]

/-! ## The time taken off the delay -/

/-- `nbits*1000/Baud[dev->minor]`, in microseconds. -/
def frameTime (baud : CInt) (m : Canmsg) : CInt := (nbits m * 1000).sdiv baud

theorem remainingDelay_eq (baud : CInt) (m : Canmsg) :
    remainingDelay baud m = requestedDelay m - frameTime baud m := rfl

/-- The quotient is the one of the integers, rounded towards zero. -/
theorem toInt_frameTime {baud : CInt} {m : Canmsg} (h8 : m.length.toInt ≤ 8)
    (hbaud : 0 < baud.toInt) :
    (frameTime baud m).toInt = (1000 * m.bits).tdiv baud.toInt := by
  have hne : baud ≠ -1#32 := by
    rintro rfl
    exact absurd hbaud (by decide)
  rw [frameTime, BitVec.toInt_sdiv_of_ne_or_ne _ _ (.inr hne), toInt_nbits_mul h8]

/-- A quotient by a positive number is no larger than the dividend. -/
theorem tdiv_bounds {x b k : Int} (hx : -k ≤ x ∧ x ≤ k) : -k ≤ x.tdiv b ∧ x.tdiv b ≤ k := by
  have hle : (x.tdiv b).natAbs ≤ x.natAbs := by
    rw [Int.natAbs_tdiv]
    exact Nat.div_le_self _ _
  omega

/-- What `sendcanmsg` takes off the delay: nothing where the delay is zero as an `int`. -/
def takenOff (baud : CInt) (m : Canmsg) : CInt :=
  if requestedDelay m != 0 then requestedDelay m - remainingDelay baud m else 0

theorem takenOff_eq {baud : CInt} {m : Canmsg} (h : requestedDelay m ≠ 0) :
    takenOff baud m = frameTime baud m := by
  have hne : (requestedDelay m != 0) = true := bne_iff_ne.mpr h
  rw [takenOff, if_pos hne, remainingDelay_eq]
  bv_omega

/-! ## The bit rate that the registers programme -/

/-- `CAN_SYSCLK`, in MHz. -/
def Target.sysclk : Target → Int
  | trm816 => 10
  | _ => 8

/-- The length of a bit in clock cycles: the prescaler times the synchronisation segment
    and the two timing segments, each register field counting from zero. -/
def bitTicks (btr0 btr1 : U8) : Int :=
  ((btr0 &&& 0x3f).toNat + 1) * ((btr1 &&& 0x0f).toNat + (btr1 >>> 4 &&& 0x07).toNat + 3)

/-- The pair that `CAN_SetTiming` writes. -/
def timingPair (t : Target) (baud : CInt) : U8 × U8 :=
  match rateIndex baud with
  | none => ((baud.sshiftRight 8).setWidth 8 &&& 0xff, (baud &&& 0xff).setWidth 8)
  | some i => t.canTiming i

/-- The bits of the frame that goes on the wire: a remote frame has no data. -/
def Canmsg.wireBits (m : Canmsg) : Int :=
  (if isSet m.flags msgExt then 64 else 44) +
    (if isSet m.flags msgRtr then 0 else 8 * m.length.toInt)

namespace RegImage

/-- A register keeps what is written to it until it is written again. -/
theorem byte_canOut {t : Target} (r r' : Reg) (v : U8) (c : RegImage) :
    (canOut t r v c).byte (r'.offset t) =
      if r'.number = r.number then v else c.byte (r'.offset t) := by
  show Function.update c.byte (r.offset t) v (r'.offset t) = _
  by_cases h : r'.number = r.number
  · rw [if_pos h, r'.offset_eq, r.offset_eq, h, Function.update_self]
  · rw [if_neg h, Function.update_of_ne]
    rw [r'.offset_eq, r.offset_eq]
    intro heq
    exact h (Nat.eq_of_mul_eq_mul_left t.stride_pos heq)

/-- The timing registers hold the pair. -/
theorem byte_canSetTiming (t : Target) (baud : CInt) (c : RegImage) :
    (canSetTiming t baud c).byte (Reg.cantim0.offset t) = (timingPair t baud).1 ∧
      (canSetTiming t baud c).byte (Reg.cantim1.offset t) = (timingPair t baud).2 := by
  have hread : ∀ (r : Reg) (c : RegImage), (canIn t r c).2 = c := fun _ _ => rfl
  unfold canSetTiming timingPair
  cases rateIndex baud with
  | none =>
      simp only [hread, byte_canOut]
      exact ⟨rfl, rfl⟩
  | some i =>
      simp only [byte_canOut]
      exact ⟨rfl, rfl⟩

end RegImage

/-- The tables programme the rate they stand for, but for one entry. -/
theorem bitTicks_standard (t : Target) {baud : CInt} {i : Nat} (h : rateIndex baud = some i) :
    0 < baud.toInt ∧ baud.toInt ≤ 1000 ∧
      (¬ (t = .trm816 ∧ baud = 800) →
        baud.toInt * bitTicks (t.canTiming i).1 (t.canTiming i).2 = 1000 * t.sysclk) := by
  unfold rateIndex at h
  repeat' split at h
  all_goals first
    | (cases h; subst baud; cases t <;> decide)
    | cases h

/-! ## Never earlier than the frame time -/

/-- A quotient compared with a product, without the division. -/
theorem quotient_le_iff {x b k d : Int} (hb : 0 < b) :
    x / b * k ≤ d ↔ x * k ≤ b * d + k * (x % b) := by
  have hx : b * (x / b) + x % b = x := Int.mul_ediv_add_emod x b
  -- multiply by the divisor, and put the remainder back
  have hmul : x / b * k ≤ d ↔ b * (x / b * k) ≤ b * d := by
    constructor
    · intro h
      exact Int.mul_le_mul_of_nonneg_left h hb.le
    · intro h
      exact Int.le_of_mul_le_mul_left h hb
  have hsplit : x * k = b * (x / b * k) + k * (x % b) := by
    calc x * k = (b * (x / b) + x % b) * k := by rw [hx]
      _ = b * (x / b * k) + k * (x % b) := by ring
  rw [hmul, hsplit]
  exact (add_le_add_iff_right _).symm

/-- At a rate that the registers programme exactly, the time of `n` bits is the duration of
    `n` bits, and longer than that of a frame which is eight bits shorter. -/
theorem quotient_le_iff_of_exact {n w b k s : Int} (hb : 0 < b) (hb' : b ≤ 1000) (hs : 0 < s)
    (hexact : b * k = 1000 * s) (hw : w = n ∨ w + 8 ≤ n) :
    1000 * n / b * s ≤ w * k ↔ w = n := by
  have hlt : 1000 * n % b < b := Int.emod_lt_of_pos _ hb
  have hnonneg : 0 ≤ 1000 * n % b := Int.emod_nonneg _ hb.ne'
  have hprod : b * (w * k) = s * (1000 * w) := by
    calc b * (w * k) = w * (b * k) := by ring
      _ = s * (1000 * w) := by rw [hexact]; ring
  have hcancel : 1000 * n * s ≤ b * (w * k) + s * (1000 * n % b) ↔
      1000 * n ≤ 1000 * w + 1000 * n % b := by
    rw [hprod, ← Int.mul_add, Int.mul_comm (1000 * n) s]
    exact mul_le_mul_iff_right₀ hs
  rw [quotient_le_iff hb, hcancel]
  omega

/-- The time taken off is no longer than the frame: the delay is not looked at, or the rate
    is a standard one that is in the table and no data bits are counted for a remote frame,
    or the packed pair, read as a rate, is not too far below the one that it programmes. -/
def KeepsFrameTime (t : Target) (baud : CInt) (m : Canmsg) : Prop :=
  requestedDelay m = 0 ∨
    match rateIndex baud with
    | some _ => (isSet m.flags msgRtr = false ∨ m.length = 0) ∧ ¬ (t = .trm816 ∧ baud = 800)
    | none =>
        1000 * m.bits * t.sysclk ≤
          baud.toInt * (m.wireBits * bitTicks (timingPair t baud).1 (timingPair t baud).2) +
            t.sysclk * (1000 * m.bits % baud.toInt)

/-- The frame on the wire has the bits that are counted, or lacks the data. -/
theorem Canmsg.wireBits_cases {m : Canmsg} (h0 : 0 ≤ m.length.toInt) :
    (m.wireBits = m.bits ∧ (isSet m.flags msgRtr = false ∨ m.length = 0)) ∨
    (m.wireBits + 8 ≤ m.bits ∧ ¬ (isSet m.flags msgRtr = false ∨ m.length = 0)) := by
  have hzero : m.length = 0 ↔ m.length.toInt = 0 :=
    ⟨fun h => by rw [h]; rfl, fun h => BitVec.eq_of_toInt_eq h⟩
  unfold Canmsg.wireBits Canmsg.bits
  rw [hzero]
  cases isSet m.flags msgRtr with
  | false => exact .inl ⟨by simp, .inl rfl⟩
  | true =>
      by_cases hlen : m.length.toInt = 0
      · exact .inl ⟨by simp [hlen], .inr hlen⟩
      · refine .inr ⟨?_, by simp [hlen]⟩
        simp only [if_true]
        omega

theorem Canmsg.wireBits_nonneg {m : Canmsg} (h0 : 0 ≤ m.length.toInt) : 0 ≤ m.wireBits := by
  unfold Canmsg.wireBits
  split <;> split <;> omega

theorem bitTicks_nonneg (tim0 tim1 : U8) : 0 ≤ bitTicks tim0 tim1 := by
  unfold bitTicks
  positivity

/-- At 800 kbit/s the TRM816's entry programmes 1000 kbit/s, and the time of the counted bits
    is longer than that of the frame. -/
theorem gap_lt_quotient {m : Canmsg} {i : Nat} (h0 : 0 ≤ m.length.toInt) (hbits : 44 ≤ m.bits)
    (hrate : rateIndex 800 = some i) :
    m.wireBits * bitTicks (Target.trm816.canTiming i).1 (Target.trm816.canTiming i).2 <
      1000 * m.bits / (800 : CInt).toInt * Target.sysclk .trm816 := by
  obtain rfl : i = 7 := by
    simpa [rateIndex] using hrate.symm
  have hticks : bitTicks (Target.trm816.canTiming 7).1 (Target.trm816.canTiming 7).2 = 10 := by
    decide
  rw [hticks, show (800 : CInt).toInt = 800 by decide, show Target.sysclk .trm816 = 10 from rfl]
  rcases m.wireBits_cases h0 with ⟨hw, -⟩ | ⟨hw, -⟩
  · omega
  · omega

/-- **Not earlier than the frame time.**  With a positive `Baud`, the microseconds that
    `sendcanmsg` takes off the delay are at most the duration of the frame at the rate that
    `CAN_SetTiming` has programmed exactly if `KeepsFrameTime`. -/
theorem takenOff_le_frame_iff (t : Target) {baud : CInt} {m : Canmsg} (c : RegImage)
    (h0 : 0 ≤ m.length.toInt) (h8 : m.length.toInt ≤ 8) (hbaud : 0 < baud.toInt) :
    (takenOff baud m).toInt * t.sysclk ≤
        m.wireBits * bitTicks ((canSetTiming t baud c).byte (Reg.cantim0.offset t))
          ((canSetTiming t baud c).byte (Reg.cantim1.offset t)) ↔
      KeepsFrameTime t baud m := by
  obtain ⟨htim0, htim1⟩ := RegImage.byte_canSetTiming t baud c
  have hclk : 0 < t.sysclk := by cases t <;> decide
  have hbits : 44 ≤ m.bits := by
    unfold Canmsg.bits
    split <;> omega
  rw [htim0, htim1, KeepsFrameTime]
  by_cases hreq : requestedDelay m = 0
  · -- nothing is taken off
    have hzero : takenOff baud m = 0 := by simp [takenOff, hreq]
    rw [hzero]
    refine iff_of_true ?_ (.inl hreq)
    rw [show (0 : CInt).toInt = 0 from rfl, Int.zero_mul]
    exact Int.mul_nonneg (m.wireBits_nonneg h0) (bitTicks_nonneg _ _)
  · rw [takenOff_eq hreq, toInt_frameTime h8 hbaud, Int.tdiv_eq_ediv_of_nonneg (by omega),
      or_iff_right hreq]
    cases hrate : rateIndex baud with
    | none => exact quotient_le_iff hbaud
    | some i =>
        obtain ⟨-, hle, hexact⟩ := bitTicks_standard t hrate
        have hpair : timingPair t baud = t.canTiming i := by simp [timingPair, hrate]
        rw [hpair]
        by_cases hgap : t = .trm816 ∧ baud = 800
        · -- the entry for 800 kbit/s programmes 1000 kbit/s
          obtain ⟨rfl, rfl⟩ := hgap
          simp only [and_self, not_true_eq_false, and_false, iff_false, Int.not_le]
          exact gap_lt_quotient h0 hbits hrate
        · rw [quotient_le_iff_of_exact hbaud hle hclk (hexact hgap)
            (m.wireBits_cases h0 |>.imp And.left And.left)]
          rcases m.wireBits_cases h0 with ⟨hw, hcond⟩ | ⟨hw, hcond⟩
          · exact iff_of_true hw ⟨hcond, hgap⟩
          · refine iff_of_false ?_ fun h => hcond h.1
            omega

/-- A standard frame of eight data bytes, to be sent after a millisecond. -/
def millisecondMsg : Canmsg := ⟨0, 0, 0x123, ⟨0, 1000⟩, 8, fun _ => 0x55⟩

/-- A data frame at the rate of 125 kbit/s that `core_init` sets. -/
theorem takenOff_le_frame_data :
    (takenOff 125 millisecondMsg).toInt * Target.sysclk .atcanminiPelican ≤
      millisecondMsg.wireBits * bitTicks
        ((canSetTiming .atcanminiPelican 125 (RegImage.mk fun _ => 0)).byte
          (Reg.cantim0.offset .atcanminiPelican))
        ((canSetTiming .atcanminiPelican 125 (RegImage.mk fun _ => 0)).byte
          (Reg.cantim1.offset .atcanminiPelican)) :=
  (takenOff_le_frame_iff .atcanminiPelican _ (by decide) (by decide) (by decide)).mpr
    (.inr ⟨.inl rfl, by decide⟩)

/-- A remote frame at 125 kbit/s, a data frame at a packed pair that programmes 500 kbit/s,
    and one at 800 kbit/s on the TRM816 are sent too early. -/
theorem takenOff_exceeds_frame :
    (¬ (takenOff 125 { millisecondMsg with flags := msgRtr }).toInt * 8 ≤
      ({ millisecondMsg with flags := msgRtr } : Canmsg).wireBits *
        bitTicks (timingPair .atcanminiPelican 125).1 (timingPair .atcanminiPelican 125).2) ∧
    (¬ (takenOff 0x0114 millisecondMsg).toInt * 8 ≤ millisecondMsg.wireBits *
        bitTicks (timingPair .atcanminiPelican 0x0114).1 (timingPair .atcanminiPelican 0x0114).2) ∧
    (¬ (takenOff 800 millisecondMsg).toInt * 10 ≤ millisecondMsg.wireBits *
        bitTicks (timingPair .trm816 800).1 (timingPair .trm816 800).2) := by
  decide

/-! ## The timer -/

/-- The delay that is left when the message reaches the head of the queue, as a number: `tv_usec`
    less the frame time. -/
def Canmsg.remaining (baud : CInt) (m : Canmsg) : Int :=
  m.timestamp.tvUsec.toInt - (1000 * m.capLength.bits).tdiv baud.toInt

/-- The time the delay timer of the device runs to, in nanoseconds. -/
def Chan.timerNs {σ : Type} (s : Chan σ) : Option Int :=
  s.delayedwork.bind fun i => (s.kapi.dly i).expires.map BitVec.toInt

theorem toInt_requestedDelay (m : Canmsg) :
    (requestedDelay m).toInt = m.timestamp.tvUsec.toInt.bmod (2 ^ 32) := by
  rw [requestedDelay, BitVec.toInt_setWidth, BitVec.toInt_eq_toNat_bmod, Int.bmod_bmod_of_dvd]
  decide

/-- The subtraction is the one of the integers, cut to 32 bits. -/
theorem toInt_remainingDelay {baud : CInt} (m : Canmsg) (hbaud : 0 < baud.toInt) :
    (remainingDelay baud m.capLength).toInt = (m.remaining baud).bmod (2 ^ 32) := by
  have hreq : requestedDelay m.capLength = requestedDelay m := rfl
  rw [remainingDelay_eq, BitVec.toInt_sub, toInt_frameTime m.capLength_toInt_le hbaud, hreq,
    toInt_requestedDelay, Int.bmod_sub_bmod, Canmsg.remaining]

/-- Arming the timer sets it to the product that is computed in `int`. -/
theorem timerNs_schedule {σ : Type} {s : Chan σ} (h : s.HasSlot) (usec : CInt) :
    (s.kapiScheduleDelayed usec).timerNs = some ((usec * 1000).signExtend 64).toInt := by
  unfold Chan.kapiScheduleDelayed Chan.timerNs
  cases hdw : s.delayedwork with
  | none =>
      have hroom := h hdw
      simp [hroom]
  | some i => simp [Chan.setTimer, hdw]

/-- The nanoseconds that the timer is set to for a remaining delay. -/
theorem toInt_nanoseconds (usec : CInt) :
    ((usec * 1000).signExtend 64 : CLong).toInt = (1000 * usec.toInt).bmod (2 ^ 32) := by
  rw [BitVec.toInt_signExtend_of_le (by decide), BitVec.toInt_mul,
    show (1000 : CInt).toInt = 1000 by decide, Int.mul_comm]

/-- `sendcanmsg` waits for a message with a positive remaining delay, and sets the timer for
    all of it, exactly if the delay is not zero and the nanoseconds fit into an `int`. -/
theorem sendcanmsg_delays_iff {σ : Type} [Chip σ] (t : Target) {s : Chan σ} {m : Canmsg}
    (hslot : s.HasSlot) (hbaud : 0 < s.sys.baud.toInt) (hrem : 0 < m.remaining s.sys.baud) :
    ((sendcanmsg t m s).2.1 = false ∧
        (sendcanmsg t m s).2.2.timerNs = some (1000 * m.remaining s.sys.baud)) ↔
      m.timestamp.tvUsec ≠ 0 ∧ m.remaining s.sys.baud ≤ 2147483 := by
  have hleft := toInt_remainingDelay m hbaud
  -- the frame time is far from the limits of `int`
  obtain ⟨hlo, hhi⟩ := Canmsg.bits_bounds m.capLength_toInt_le
  obtain ⟨hlo', hhi'⟩ := tdiv_bounds (b := s.sys.baud.toInt)
    (show -262144000 ≤ 1000 * m.capLength.bits ∧ 1000 * m.capLength.bits ≤ 262144000 by omega)
  -- where the nanoseconds fit, every value on the way is the number it stands for
  by_cases hsmall : m.remaining s.sys.baud ≤ 2147483
  · have hexact : (remainingDelay s.sys.baud m.capLength).toInt = m.remaining s.sys.baud := by
      rw [hleft]
      exact bmod_of_int (by omega) (by omega)
    have hdly : (requestedDelay m).toInt = m.timestamp.tvUsec.toInt := by
      rw [toInt_requestedDelay]
      unfold Canmsg.remaining at hrem hsmall
      exact bmod_of_int (by omega) (by omega)
    by_cases hzero : m.timestamp.tvUsec = 0
    · -- a delay of zero is not looked at
      have hw := waits_of_noDelay s.sys.baud hzero
      refine iff_of_false ?_ fun h => h.1 hzero
      rintro ⟨hcons, -⟩
      rw [sendcanmsg] at hcons
      simp only [hw, Bool.false_eq_true, if_false] at hcons
      cases hcons
    · have hreq : requestedDelay m ≠ 0 := by
        intro h
        rw [h] at hdly
        exact hzero (BitVec.eq_of_toInt_eq hdly.symm)
      have hpos : (0 : CInt).slt (remainingDelay s.sys.baud m.capLength) = true := by
        rw [BitVec.slt_iff_toInt_lt, hexact]
        exact hrem
      have hw : waits s.sys.baud m.capLength = true := by
        rw [waits, hpos, Bool.and_true]
        exact bne_iff_ne.mpr hreq
      refine iff_of_true ?_ ⟨hzero, hsmall⟩
      simp only [sendcanmsg, hw, if_true, timerNs_schedule hslot, toInt_nanoseconds, hexact,
        true_and]
      rw [bmod_of_int (by omega) (by omega)]
  · -- a product in `int` is never as large as that
    refine iff_of_false ?_ fun h => hsmall h.2
    rintro ⟨hcons, hns⟩
    cases hw : waits s.sys.baud m.capLength with
    | false =>
        simp only [sendcanmsg, hw, Bool.false_eq_true, if_false] at hcons
        cases hcons
    | true =>
        simp only [sendcanmsg, hw, if_true, timerNs_schedule hslot, toInt_nanoseconds,
          Option.some.injEq] at hns
        have hlt := Int.bmod_lt (x := 1000 * (remainingDelay s.sys.baud m.capLength).toInt)
          (m := 2 ^ 32) (by decide)
        omega

end Can4linux
