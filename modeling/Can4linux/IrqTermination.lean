/-
  Can4linux.IrqTermination

  When the loop of `CAN_Interrupt` ends, with no bus event and no read in the
  meantime.  What decides it is the number of frames in the controller's FIFO
  and the room in the receive queue (`RxLevel`): an iteration takes a frame out
  only if there is room, an error message takes room as well, and a queue
  without room leaves the receive bit set for good.
-/

import Can4linux.Effects

namespace Can4linux

variable {t : Target}

/-- The handler returns: some number of iterations is enough. -/
def Returns (now : Nat → Timeval) (s : Chan (Sja1000 t)) : Prop :=
  ∃ n, (canInterrupt t n now s).isSome

/-! ## One more iteration -/

section Unfold

variable {now : Nat → Timeval} {s : Chan (Sja1000 t)}

theorem returns_of_irqBits_zero (h : s.chip.irqBits = 0) : Returns now s := by
  refine ⟨0, ?_⟩
  simp only [canInterrupt, Sja1000.canIn_canirq, h, if_true]
  rfl

/-- A handler that finds work returns iff it returns after one iteration. -/
theorem returns_iff_irqBody (h : s.chip.irqBits ≠ 0) :
    Returns now s ↔
      Returns (fun i => now (i + 1)) (irqBody t (now 0) s.chip.irqBits s.clearIrq) := by
  constructor
  · rintro ⟨n, hn⟩
    cases n with
    | zero =>
        simp only [canInterrupt, irqLoop, Sja1000.canIn_canirq, h, if_false] at hn
        cases hn
    | succ n =>
        rw [canInterrupt_succ] at hn
        simp only [Sja1000.canIn_canirq, h, if_false] at hn
        exact ⟨n, hn⟩
  · rintro ⟨n, hn⟩
    refine ⟨n + 1, ?_⟩
    rw [canInterrupt_succ]
    simp only [Sja1000.canIn_canirq, h, if_false]
    exact hn

end Unfold

/-! ## The level of the two receive stores -/

/-- 1 if the bit is set. -/
def bitCount (irqsrc b : U8) : Nat := if isSet irqsrc b then 1 else 0

/-- `f` frames in the controller, room for `r` messages in the queue, and no interrupt
    bit latched. -/
structure RxLevel (k f r : Nat) (s : Chan (Sja1000 t)) : Prop where
  wf : s.rxq.WF k
  fifo : s.chip.rxfifo.length = f
  room : s.rxq.qlen.toNat + r = 2 ^ k
  irq : s.chip.irq = 0

namespace RxLevel

variable {k f r : Nat} {s s' : Chan (Sja1000 t)}

/-- The level depends on the receive queue and two parts of the controller only. -/
theorem congr (h : RxLevel k f r s) (hq : s'.rxq = s.rxq)
    (hf : s'.chip.rxfifo = s.chip.rxfifo) (hi : s'.chip.irq = s.chip.irq) :
    RxLevel k f r s' :=
  ⟨hq ▸ h.wf, by rw [hf, h.fifo], by rw [hq, h.room], by rw [hi, h.irq]⟩

theorem clearOverrun (h : RxLevel k f r s) : RxLevel k f r (s.onChip Sja1000.clearOverrun) :=
  h.congr rfl rfl rfl

theorem full_iff (h : RxLevel k f r s) : s.rxq.full = true ↔ r = 0 := by
  have hroom := h.room
  rw [h.wf.full_iff]
  omega

/-- Producing into the queue takes room for one message; without room nothing happens. -/
theorem rxproduce (h : RxLevel k f r s) (produce : Canmsg → Sja1000 t → Canmsg × Sja1000 t)
    {f' : Nat} (hfifo : (produce s.rxq.freeSlot s.chip).2.rxfifo.length = f')
    (hirq : (produce s.rxq.freeSlot s.chip).2.irq = s.chip.irq) :
    RxLevel k (if r = 0 then f else f') (r - 1) (rxproduce produce s) := by
  cases hfull : s.rxq.full with
  | true =>
      have hr := h.full_iff.mp hfull
      rw [rxproduce_full hfull, if_pos hr]
      exact ⟨h.wf, h.fifo, by rw [← h.room, hr], h.irq⟩
  | false =>
      have hr : r ≠ 0 := fun h0 => by simp [h.full_iff.mpr h0] at hfull
      have hwf : (s.rxq.fill (produce s.rxq.freeSlot s.chip).1).WF k := h.wf.fill _
      have hlen := MsgQ.qlen_publish_toNat hwf
      have hlen' : (s.rxq.fill (produce s.rxq.freeSlot s.chip).1).qlen = s.rxq.qlen := rfl
      have hroom := h.room
      rw [rxproduce_room hfull, if_neg hr]
      refine ⟨hwf.publish hfull, hfifo, ?_, ?_⟩
      · show (s.rxq.fill (produce s.rxq.freeSlot s.chip).1).publish.qlen.toNat + (r - 1) = 2 ^ k
        rw [hlen, hlen']
        omega
      · exact hirq.trans h.irq

/-- An error message takes room for one message. -/
theorem err (h : RxLevel k f r s) (inf : Msginf) :
    RxLevel k f (r - 1) (rxproduceErr inf s) := by
  have hlevel := h.rxproduce (fun msg c => (errmsg inf msg, c)) h.fifo rfl
  rwa [ite_self] at hlevel

/-- The receive branch moves one frame from the controller to the queue if there is room. -/
theorem rxIrq (h : RxLevel k f r s) (irqsrc : U8) (inf : Msginf) :
    RxLevel k (if isSet irqsrc canReceiveInt ∧ r ≠ 0 then f - 1 else f)
      (r - bitCount irqsrc canReceiveInt) (rxIrq t irqsrc inf s) := by
  by_cases hb : isSet irqsrc canReceiveInt
  · have hread := s.chip.readcanmsg_eq inf s.rxq.freeSlot
    have hfifo : (readcanmsg t inf s.rxq.freeSlot s.chip).2.rxfifo.length = f - 1 := by
      rw [hread, List.length_tail, h.fifo]
    have hlevel := h.rxproduce (readcanmsg t inf) hfifo (by rw [hread])
    rw [rxIrq_eq inf s hb]
    by_cases hr : r = 0
    · simpa [bitCount, hb, hr] using hlevel.clearOverrun
    · simpa [bitCount, hb, hr] using hlevel.clearOverrun
  · simpa [bitCount, hb, Can4linux.rxIrq] using h

theorem errWarnIrq (h : RxLevel k f r s) (irqsrc : U8) (inf : Msginf) :
    RxLevel k f (r - bitCount irqsrc canErrorWarnInt) (errWarnIrq t irqsrc inf s).2.2 := by
  by_cases hb : isSet irqsrc canErrorWarnInt
  · have hleave : RxLevel k f r (s.onChip Sja1000.leaveReset) := h.congr rfl rfl rfl
    rw [errWarnIrq_eq inf s hb]
    simpa [bitCount, hb] using hleave.err _
  · simpa [bitCount, hb, Can4linux.errWarnIrq] using h

theorem txConsume (h : RxLevel k f r s) : RxLevel k f r (txConsume t s) := by
  obtain ⟨-, heq⟩ | ⟨-, -, heq⟩ | ⟨-, -, heq⟩ := txConsume_cases s
  · rw [heq]
    exact h.congr rfl rfl rfl
  · obtain ⟨dw, kapi, hframe⟩ :=
      kapiScheduleDelayed_frame s (remainingDelay s.sys.baud s.txq.head.capLength)
    rw [heq, hframe]
    exact h.congr rfl rfl rfl
  · rw [heq]
    exact h.congr rfl (by simp) (by simp)

theorem txIrq (h : RxLevel k f r s) (irqsrc : U8) : RxLevel k f r (txIrq t irqsrc s) := by
  have hprog : RxLevel k f r { s with txinprogress := 0 } := h.congr rfl rfl rfl
  obtain ⟨n, hframe⟩ := wakeWriters_frame (Can4linux.txConsume t { s with txinprogress := 0 })
  rw [Can4linux.txIrq, hframe]
  split
  · exact hprog.txConsume.congr rfl rfl rfl
  · exact h

theorem overrunIrq (h : RxLevel k f r s) (irqsrc : U8) (inf : Msginf) :
    RxLevel k f (r - bitCount irqsrc canOverrunInt) (overrunIrq t irqsrc inf s) := by
  by_cases hb : isSet irqsrc canOverrunInt
  · have hcount : RxLevel k f r { s with sys := { s.sys with overrun := s.sys.overrun + 1 } } :=
      h.congr rfl rfl rfl
    rw [overrunIrq_eq inf s hb]
    simpa [bitCount, hb] using (hcount.err _).clearOverrun
  · simpa [bitCount, hb, Can4linux.overrunIrq] using h

/-- What one iteration does to the level. -/
theorem irqBody (h : RxLevel k f r s) (tstamp : Timeval) (irqsrc : U8) :
    RxLevel k (if isSet irqsrc canReceiveInt ∧ r ≠ 0 then f - 1 else f)
      (r - bitCount irqsrc canReceiveInt - bitCount irqsrc canErrorWarnInt -
        bitCount irqsrc canOverrunInt) (irqBody t tstamp irqsrc s) := by
  -- a simulated transmit bit leaves the overrun bit as it was read
  have hov := errWarnIrq_isSet ⟨presetFlags s.rxstatus, tstamp⟩
    (Can4linux.rxIrq t irqsrc ⟨presetFlags s.rxstatus, tstamp⟩ s) irqsrc
    (show canTransmitInt &&& canOverrunInt = 0 by decide)
  have hew := (h.rxIrq irqsrc ⟨presetFlags s.rxstatus, tstamp⟩).errWarnIrq irqsrc
    ⟨presetFlags s.rxstatus, tstamp⟩
  rw [show bitCount irqsrc canOverrunInt = if isSet irqsrc canOverrunInt then 1 else 0 from rfl,
    ← hov]
  exact (hew.txIrq _).overrunIrq _ _

end RxLevel

/-! ## When the handler returns -/

section Returns

variable {k f r : Nat} {now : Nat → Timeval} {s : Chan (Sja1000 t)}

theorem RxLevel.clearIrq (h : RxLevel k f r s) : RxLevel k f r s.clearIrq :=
  h.congr rfl rfl h.irq.symm

/-- With frames left the handler sees the receive bit and nothing else. -/
theorem RxLevel.irqBits (h : RxLevel k f r s) :
    s.chip.irqBits = if f = 0 then 0 else canReceiveInt := by
  have hempty : s.chip.rxfifo.isEmpty = true ↔ f = 0 := by
    rw [List.isEmpty_iff_length_eq_zero, h.fifo]
  rw [s.chip.irqBits_of_irq_zero h.irq]
  by_cases hf : f = 0
  · simp [hf, hempty.mpr hf]
  · simp [hf, Bool.eq_false_of_not_eq_true (fun he => hf (hempty.mp he))]

/-- An iteration for the receive bit alone. -/
theorem RxLevel.receive (h : RxLevel k f r s) (tstamp : Timeval) :
    RxLevel k (if r ≠ 0 then f - 1 else f) (r - 1)
      (Can4linux.irqBody t tstamp canReceiveInt s) := by
  have hbits : isSet canReceiveInt canReceiveInt = true ∧
      bitCount canReceiveInt canReceiveInt = 1 ∧ bitCount canReceiveInt canErrorWarnInt = 0 ∧
      bitCount canReceiveInt canOverrunInt = 0 := by decide
  have hlevel := h.irqBody tstamp canReceiveInt
  rw [hbits.2.1, hbits.2.2.1, hbits.2.2.2] at hlevel
  simpa [hbits.1] using hlevel

/-- A queue without room and a frame in the controller: the loop never ends. -/
theorem canInterrupt_of_stuck {n : Nat} (hf : f ≠ 0) (h : RxLevel k f 0 s) :
    canInterrupt t n now s = none := by
  induction n generalizing now s with
  | zero =>
      have hbits := h.irqBits
      rw [if_neg hf] at hbits
      simp only [canInterrupt, Sja1000.canIn_canirq, hbits]
      rfl
  | succ n ih =>
      have hbits := h.irqBits
      rw [if_neg hf] at hbits
      rw [canInterrupt_succ]
      simp only [Sja1000.canIn_canirq, hbits]
      -- the iteration takes no frame out, so the next one finds the same level
      have hnext := h.clearIrq.receive (now 0)
      rw [if_neg (fun hne => hne rfl)] at hnext
      exact ih hnext

/-- With no interrupt latched the handler returns iff the queue can take every frame. -/
theorem RxLevel.returns_iff (h : RxLevel k f r s) : Returns now s ↔ f ≤ r := by
  -- induction on the frames: an iteration takes one out and room for one away
  induction f generalizing r now s with
  | zero => exact iff_of_true (returns_of_irqBits_zero h.irqBits) (Nat.zero_le r)
  | succ f ih =>
      by_cases hr : r = 0
      · subst hr
        refine iff_of_false (fun ⟨n, hn⟩ => ?_) (by omega)
        rw [canInterrupt_of_stuck (Nat.succ_ne_zero f) h] at hn
        cases hn
      · have hbits : s.chip.irqBits = canReceiveInt := h.irqBits
        rw [returns_iff_irqBody (by rw [hbits]; decide), hbits]
        have hnext := h.clearIrq.receive (now 0)
        rw [if_pos hr, Nat.add_sub_cancel] at hnext
        rw [ih hnext]
        omega

end Returns

/-- The level of any state with a proper receive queue, once its bits are read. -/
theorem rxLevel_clearIrq {k : Nat} {s : Chan (Sja1000 t)} (h : s.rxq.WF k) :
    RxLevel k s.chip.rxfifo.length (2 ^ k - s.rxq.contents.length) s.clearIrq := by
  refine ⟨h, rfl, ?_, rfl⟩
  have hbound := h.bound
  rw [MsgQ.contents_length]
  show s.rxq.qlen.toNat + (2 ^ k - s.rxq.qlen.toNat) = 2 ^ k
  omega

/-- **When the interrupt handler terminates.**  With `f` frames in the controller and room
    for `r` messages in the receive queue, the loop ends if and only if there is at most one
    frame and room for it, or room for all frames and for the error messages of the first
    iteration. -/
theorem canInterrupt_returns_iff {k : Nat} {s : Chan (Sja1000 t)} (h : s.rxq.WF k)
    (now : Nat → Timeval) :
    (∃ n, (canInterrupt t n now s).isSome) ↔
      (s.chip.rxfifo.length ≤ 1 ∧ s.chip.rxfifo.length ≤ 2 ^ k - s.rxq.contents.length) ∨
      s.chip.rxfifo.length + bitCount s.chip.irq canErrorWarnInt +
        bitCount s.chip.irq canOverrunInt ≤ 2 ^ k - s.rxq.contents.length := by
  show Returns now s ↔ _
  have hrx := s.chip.irqBits_receive
  by_cases hbits : s.chip.irqBits = 0
  · -- no bit, so no frame: the handler returns at once
    have hnil : s.chip.rxfifo.length = 0 := by
      rw [hbits, isSet_zero] at hrx
      rw [← List.isEmpty_iff_length_eq_zero]
      simpa using hrx
    refine iff_of_true (returns_of_irqBits_zero hbits) (.inl ?_)
    omega
  · -- the first iteration handles the latched bits, all others the receive bit alone
    have hlevel := (rxLevel_clearIrq h).irqBody (now 0) s.chip.irqBits
    have hew : bitCount s.chip.irqBits canErrorWarnInt = bitCount s.chip.irq canErrorWarnInt := by
      rw [bitCount, s.chip.irqBits_latched (.inl rfl), bitCount]
    have hov : bitCount s.chip.irqBits canOverrunInt = bitCount s.chip.irq canOverrunInt := by
      rw [bitCount, s.chip.irqBits_latched (.inr (.inr rfl)), bitCount]
    rw [returns_iff_irqBody hbits, hlevel.returns_iff, hew, hov, bitCount, hrx]
    cases hfifo : s.chip.rxfifo with
    | nil => simp
    | cons fr frs =>
        by_cases hr : 2 ^ k - s.rxq.contents.length = 0
        · simp [hr]
        · simp only [List.isEmpty_cons, Bool.not_false, ne_eq, hr, not_false_iff, and_self,
            if_true, List.length_cons]
          omega

/-- An open channel whose receive queue of 2048 slots holds 2048 messages, while the
    controller holds one more frame. -/
def fullChan : Chan (Sja1000 .atcanminiPelican) :=
  { Chan.coreInit .atcanminiPelican 0 5 0x320
      { (Sja1000.started : Sja1000 .atcanminiPelican) with rxfifo := [fun _ => 0] } with
    isopen := 1
    rxq := ⟨2048, 0, 2047, fun _ => Canmsg.zero, some 1, false, true⟩ }

theorem fullChan_level : RxLevel 11 1 0 fullChan :=
  ⟨⟨by decide, by decide, by decide⟩, rfl, rfl, rfl⟩

/-- On a full queue one received frame keeps the handler in its loop for ever. -/
theorem canInterrupt_fullChan :
    ¬ ∃ (now : Nat → Timeval) (n : Nat),
      (canInterrupt .atcanminiPelican n now fullChan).isSome := by
  rintro ⟨now, n, hn⟩
  rw [canInterrupt_of_stuck Nat.one_ne_zero fullChan_level] at hn
  cases hn

/-- The condition on the same channel: one frame, no room. -/
theorem canInterrupt_returns_iff_fullChan :
    (∃ n, (canInterrupt .atcanminiPelican n (fun _ => ⟨0, 0⟩) fullChan).isSome) ↔
      (fullChan.chip.rxfifo.length ≤ 1 ∧
        fullChan.chip.rxfifo.length ≤ 2 ^ 11 - fullChan.rxq.contents.length) ∨
      fullChan.chip.rxfifo.length + bitCount fullChan.chip.irq canErrorWarnInt +
        bitCount fullChan.chip.irq canOverrunInt ≤ 2 ^ 11 - fullChan.rxq.contents.length :=
  canInterrupt_returns_iff fullChan_level.wf fun _ => ⟨0, 0⟩

end Can4linux
