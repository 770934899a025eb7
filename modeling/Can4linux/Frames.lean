/-
  Can4linux.Frames

  What each function of the driver does not touch, over any `Chip`.  A frame is
  stated as `∃ ..., f s = { s with ... }` and names the fields that may change;
  whatever a proof needs of the others then holds by computation.
-/

import Can4linux.FileOps

namespace Can4linux

/-! ## Timers and wake-ups -/

section NoChip

variable {σ : Type} (s : Chan σ)

/-- Arming the timer changes the timer slot of the device and the pool. -/
theorem kapiScheduleDelayed_frame (usec : CInt) :
    ∃ dw k, s.kapiScheduleDelayed usec = { s with delayedwork := dw, kapi := k } := by
  unfold Chan.kapiScheduleDelayed
  cases hd : s.delayedwork with
  | none =>
      by_cases hi : s.kapi.idly = maxChannels
      · exact ⟨s.delayedwork, s.kapi, by simp [hi]⟩
      · exact ⟨some s.kapi.idly, _, by simp only [hi, if_false]; rfl⟩
  | some i => exact ⟨s.delayedwork, _, rfl⟩

/-- The timer running out changes the pool. -/
theorem disarm_frame : ∃ k, s.disarm = { s with kapi := k } := by
  unfold Chan.disarm
  cases s.delayedwork with
  | none => exact ⟨s.kapi, rfl⟩
  | some i => exact ⟨_, rfl⟩

/-- Waking the writers counts on the wait queue. -/
theorem wakeWriters_frame : ∃ n, s.wakeWriters = { s with wq := n } := by
  unfold Chan.wakeWriters
  split
  · exact ⟨_, rfl⟩
  · exact ⟨s.wq, rfl⟩

/-! ## Open and close -/

theorem holdBuf_frame (block : Option (Nat × (CInt → Canmsg))) :
    ∃ h, s.holdBuf block = { s with held := h } := by
  cases block with
  | none => exact ⟨s.held, rfl⟩
  | some b => exact ⟨_, rfl⟩

theorem qfree_frame (q : MsgQ Canmsg) : ∃ h, s.qfree q = { s with held := h } := by
  unfold Chan.qfree
  split
  · exact ⟨s.held, rfl⟩
  · exact ⟨_, rfl⟩

theorem releaseRegion_frame (t : Target) : ∃ h, releaseRegion t s = { s with held := h } := by
  unfold releaseRegion
  split
  · exact ⟨s.held, rfl⟩
  · exact ⟨_, rfl⟩

theorem canFifoCleanup_frame : ∃ h, canFifoCleanup s = { s with held := h } := by
  obtain ⟨h1, htx⟩ := qfree_frame s s.txq
  obtain ⟨h2, hrx⟩ := qfree_frame { s with held := h1 } s.rxq
  exact ⟨h2, by rw [canFifoCleanup, htx]; exact hrx⟩

theorem requestRegion_frame {t : Target} {env : OpenEnv} {s' : Chan σ}
    (h : requestRegion t env s = some s') : ∃ held, s' = { s with held := held } := by
  unfold requestRegion at h
  split at h
  · exact ⟨s.held, (Option.some.inj h).symm⟩
  · split at h
    · exact ⟨_, (Option.some.inj h).symm⟩
    · cases h

theorem canRequestIrq_frame {env : OpenEnv} {s' : Chan σ} (h : canRequestIrq env s = some s') :
    ∃ held, s' = { s with requestedIrq := 1, held := held } := by
  unfold canRequestIrq at h
  split at h
  · exact ⟨_, (Option.some.inj h).symm⟩
  · cases h

/-- Both queues are created, or the second is left alone. -/
theorem canFifoInit_frame (env : OpenEnv) :
    ∃ txq h, (canFifoInit env s).2 =
      { s with
        rxq := (s.rxq.qcreate maxRxBufsize false env.rxBlock).1, txq := txq, held := h } := by
  obtain ⟨h1, hrx⟩ := holdBuf_frame
    { s with rxq := (s.rxq.qcreate maxRxBufsize false env.rxBlock).1 } env.rxBlock
  simp only [canFifoInit, hrx]
  split
  · exact ⟨s.txq, h1, rfl⟩
  · obtain ⟨h2, htx⟩ := holdBuf_frame
      { s with
        rxq := (s.rxq.qcreate maxRxBufsize false env.rxBlock).1
        txq := (s.txq.qcreate maxTxBufsize true env.txBlock).1
        held := h1 } env.txBlock
    exact ⟨_, h2, htx⟩

theorem qcreate_snd (q : MsgQ Canmsg) (sz : CInt) (protect : Bool)
    (block : Option (Nat × (CInt → Canmsg))) :
    (q.qcreate sz protect block).2 = block.isSome := by
  cases block <;> rfl

theorem canFifoInit_fst (env : OpenEnv) :
    (canFifoInit env s).1 = (env.rxBlock.isSome && env.txBlock.isSome) := by
  simp only [canFifoInit, qcreate_snd]
  cases env.rxBlock.isSome <;> simp

end NoChip

section WithChip

variable {σ : Type} [Chip σ] (t : Target) (s : Chan σ)

theorem canVendorInit_frame (env : OpenEnv) :
    ∃ ri h c, (canVendorInit t env s).2 =
      { s with canRange := t.canRange, requestedIrq := ri, held := h, chip := c } := by
  simp only [canVendorInit]
  split
  · exact ⟨_, _, _, rfl⟩
  · rename_i s' hregion
    obtain ⟨h1, rfl⟩ := requestRegion_frame _ hregion
    split
    · split
      · exact ⟨_, _, _, rfl⟩
      · rename_i s'' hirq
        obtain ⟨h2, rfl⟩ := canRequestIrq_frame _ hirq
        exact ⟨_, _, _, rfl⟩
    · exact ⟨_, _, _, rfl⟩

theorem canChipReset_fst : (canChipReset t s).1 = entersReset t s.chip := by
  unfold canChipReset
  cases entersReset t s.chip <;> simp

theorem canChipReset_frame :
    ∃ h o c, (canChipReset t s).2 =
      { s with held := h, sys := { s.sys with outc := o }, chip := c } := by
  simp only [canChipReset]
  split
  · exact ⟨_, s.sys.outc, _, rfl⟩
  · exact ⟨s.held, _, _, rfl⟩

/-- `can_Command` changes the controller, its error counters and, where a reset fails,
    the use count. -/
theorem canCommand_frame (cmd : CInt) :
    ∃ h sys c, (canCommand t cmd s).2 = { s with held := h, sys := sys, chip := c } := by
  simp only [canCommand]
  split
  · exact ⟨s.held, _, _, rfl⟩
  · split
    · exact ⟨s.held, s.sys, _, rfl⟩
    · split
      · obtain ⟨h, o, c, hreset⟩ := canChipReset_frame t s
        exact ⟨h, _, c, hreset⟩
      · exact ⟨s.held, s.sys, s.chip, rfl⟩

/-- `can_Config` changes the configuration and the controller. -/
theorem canConfig_frame (target : CInt) (val1 val2 : CLong) :
    ∃ sys c, (canConfig t target val1 val2 s).2 = { s with sys := sys, chip := c } := by
  unfold canConfig
  repeat' split
  all_goals exact ⟨_, _, rfl⟩

theorem canVendorInit_fst (env : OpenEnv) :
    (canVendorInit t env s).1 = 0 ∨ (canVendorInit t env s).1 = ebusy := by
  simp only [canVendorInit]
  split
  · exact .inr rfl
  · split
    · split
      · exact .inr rfl
      · exact .inl rfl
    · exact .inl rfl

/-! ### The stages of an open -/

/-- `CAN_VendorInit`, on the channel whose open flag has been set. -/
def openVendor (env : OpenEnv) (s : Chan σ) : CInt × Chan σ :=
  canVendorInit t env { s.incusers with isopen := 1 }

/-- `Can_WaitInit` and `Can_FifoInit`. -/
def openFifo (env : OpenEnv) (s : Chan σ) : Bool × Chan σ :=
  canFifoInit env { (openVendor t env s).2 with wq := 0 }

/-- `CAN_ChipReset`. -/
def openReset (env : OpenEnv) (s : Chan σ) : Bool × Chan σ := canChipReset t (openFifo t env s).2

/-- The exits of `can_open` in order. -/
theorem canOpen_stages (env : OpenEnv) : canOpen t env s =
    if (3#32).ult s.minor then (einval, s.incusers.decusers)
    else if s.isopen = 1 then (enxio, s.incusers.decusers)
    else if s.sys.base = 0 then (enxio, Chan.decusers { s.incusers with isopen := 1 })
    else if (openVendor t env s).1.slt 0 then
      ((openVendor t env s).1, (openVendor t env s).2.decusers)
    else if !(openFifo t env s).1 then (enomem, (openFifo t env s).2.decusers)
    else if !(openReset t env s).1 then (einval, (openReset t env s).2.decusers)
    else (0, canStartChip t (openReset t env s).2) := rfl

/-- A successful `can_open` goes through all its steps. -/
theorem canOpen_path {env : OpenEnv} (h : (canOpen t env s).1 = 0) :
    (3#32).ult s.minor = false ∧ s.isopen ≠ 1 ∧ s.sys.base ≠ 0 ∧
      (canVendorInit t env { s.incusers with isopen := 1 }).1 = 0 ∧
      (canFifoInit env
        { (canVendorInit t env { s.incusers with isopen := 1 }).2 with wq := 0 }).1 = true ∧
      (canChipReset t (canFifoInit env
        { (canVendorInit t env { s.incusers with isopen := 1 }).2 with wq := 0 }).2).1 = true ∧
      (canOpen t env s).2 = canStartChip t (canChipReset t (canFifoInit env
        { (canVendorInit t env { s.incusers with isopen := 1 }).2 with wq := 0 }).2).2 := by
  unfold canOpen at h ⊢
  simp only at h ⊢
  -- every exit but the last one returns a nonzero value
  by_cases hminor : (3#32).ult s.incusers.minor
  · rw [if_pos hminor] at h
    exact absurd (show einval = 0 from h) (by decide)
  by_cases hopen : s.incusers.isopen = 1
  · rw [if_neg hminor, if_pos hopen] at h
    exact absurd (show enxio = 0 from h) (by decide)
  by_cases hbase : s.incusers.sys.base = 0
  · rw [if_neg hminor, if_neg hopen, if_pos hbase] at h
    exact absurd (show enxio = 0 from h) (by decide)
  rw [if_neg hminor, if_neg hopen, if_neg hbase] at h ⊢
  have hvendor : (canVendorInit t env { s.incusers with isopen := 1 }).1 = 0 := by
    rcases canVendorInit_fst t { s.incusers with isopen := 1 } env with h0 | hbusy
    · exact h0
    · rw [hbusy, if_pos (show ebusy.slt 0 = true by decide)] at h
      exact absurd (show ebusy = 0 from h) (by decide)
  rw [hvendor, if_neg (show ¬ (0 : CInt).slt 0 = true by decide)] at h ⊢
  cases hfifo : (canFifoInit env
      { (canVendorInit t env { s.incusers with isopen := 1 }).2 with wq := 0 }).1 with
  | false =>
      rw [hfifo] at h
      exact absurd (show enomem = 0 from h) (by decide)
  | true =>
      rw [hfifo] at h
      cases hreset : (canChipReset t (canFifoInit env
          { (canVendorInit t env { s.incusers with isopen := 1 }).2 with wq := 0 }).2).1 with
      | false =>
          simp only [Bool.not_true, Bool.false_eq_true, if_false, hreset, Bool.not_false,
            if_true] at h
          exact absurd (show einval = 0 from h) (by decide)
      | true =>
          refine ⟨Bool.eq_false_of_not_eq_true hminor, hopen, hbase, rfl, rfl, rfl, ?_⟩
          simp only [Bool.not_true, Bool.false_eq_true, if_false]

/-- A `can_open` that goes through all its steps is successful. -/
theorem canOpen_of_path {env : OpenEnv} (hminor : (3#32).ult s.minor = false)
    (hopen : s.isopen ≠ 1) (hbase : s.sys.base ≠ 0)
    (hvendor : (canVendorInit t env { s.incusers with isopen := 1 }).1 = 0)
    (hfifo : (canFifoInit env
      { (canVendorInit t env { s.incusers with isopen := 1 }).2 with wq := 0 }).1 = true)
    (hreset : (canChipReset t (canFifoInit env
      { (canVendorInit t env { s.incusers with isopen := 1 }).2 with wq := 0 }).2).1 = true) :
    (canOpen t env s).1 = 0 := by
  have hminor' : ¬ (3#32).ult s.incusers.minor = true := Bool.eq_false_iff.mp hminor
  have hnonneg : ¬ (0 : CInt).slt 0 = true := by
    decide
  unfold canOpen
  simp only
  rw [if_neg hminor', if_neg (show ¬ s.incusers.isopen = 1 from hopen),
    if_neg (show ¬ s.incusers.sys.base = 0 from hbase), hvendor, if_neg hnonneg, hfifo]
  simp only [Bool.not_true, Bool.false_eq_true, if_false, hreset]

/-- What a successful `can_open` did: both queues created, the chip reset and started. -/
theorem canOpen_success {env : OpenEnv} (h : (canOpen t env s).1 = 0) :
    ∃ ri held c rxb txb, env.rxBlock = some rxb ∧ env.txBlock = some txb ∧ s.isopen ≠ 1 ∧
      entersReset t c = true ∧
      (canOpen t env s).2 = canStartChip t (canChipReset t
        { s with
          isopen := 1, canRange := t.canRange, requestedIrq := ri, wq := 0
          held := held, chip := c
          rxq := (s.rxq.qcreate maxRxBufsize false (some rxb)).1
          txq := (s.txq.qcreate maxTxBufsize true (some txb)).1 }).2 := by
  obtain ⟨-, hopen, -, -, hfifo, hreset, heq⟩ := canOpen_path t s h
  obtain ⟨ri, h1, c, hvendor⟩ := canVendorInit_frame t { s.incusers with isopen := 1 } env
  rw [hvendor, canFifoInit_fst, Bool.and_eq_true] at hfifo
  obtain ⟨rxb, hrx⟩ := Option.isSome_iff_exists.mp hfifo.1
  obtain ⟨txb, htx⟩ := Option.isSome_iff_exists.mp hfifo.2
  rw [hvendor] at hreset heq
  rw [heq]
  simp only [canFifoInit, hrx, htx, qcreate_snd, Option.isSome_some, Bool.not_true,
    Bool.false_eq_true, if_false, Chan.holdBuf, canChipReset_fst] at hreset ⊢
  exact ⟨ri, _, c, rxb, txb, rfl, rfl, hopen, hreset, rfl⟩

/-- `can_close` of an open device. -/
theorem canClose_frame (h : s.isopen = 1) :
    ∃ held, (canClose t s).2 =
      { s with
        isopen := 0, requestedIrq := 0, held := held
        chip := canSet t .canmode canResetRequest s.chip } := by
  obtain ⟨h1, hrel⟩ := releaseRegion_frame (canStopChip t s) t
  obtain ⟨h2, hfifo⟩ := canFifoCleanup_frame { canStopChip t s with held := h1 }
  have hpos : (0#32).slt s.isopen = true := by
    rw [h]
    decide
  have hdec : s.isopen - 1 = 0 := by
    rw [h]
    decide
  simp only [canClose, hrel, hfifo]
  simp only [canFreeIrq, canStopChip, Chan.onChip, hpos, if_true, Chan.decusers, hdec]
  exact ⟨_, rfl⟩

end WithChip

end Can4linux
