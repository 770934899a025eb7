/-
  Can4linux.OpenFail

  What a failing `can_open` leaves behind, over an arbitrary `Chip`.  `NoFault`
  is the absence of every cause that makes the call fail behind
  `dev->isopen = 1`; `canOpen_fst` says that an open of a closed device fails
  exactly when one of them is present.  The exits for an illegal minor number
  and for a device that is already open undo what they did; every other exit
  keeps the flag, so that the device counts as open from then on.
-/

import Can4linux.Frames
import Can4linux.Sja1000
import Can4linux.Lib.Run

namespace Can4linux

/-! ## Causes of failure -/

section Kernel

variable {σ : Type}

/-- The kernel grants what `CAN_VendorInit` asks for. -/
structure Granted (t : Target) (env : OpenEnv) (s : Chan σ) : Prop where
  region : (t.requestRegion s.sys.base t.canRange).isSome → env.regionFree = true
  irq : (0#32).slt s.sys.irq → env.irqFree = true

/-- A legal minor number; `minor > 3` compares unsigned. -/
def Legal (s : Chan σ) : Prop := (3#32).ult s.minor = false

end Kernel

section Open

variable {σ : Type} [Chip σ] {t : Target}

/-- None of the causes is present that make an open fail once it has marked the
    device as open. -/
structure NoFault (t : Target) (env : OpenEnv) (s : Chan σ) : Prop where
  base : s.sys.base ≠ 0
  granted : Granted t env s
  rxBlock : env.rxBlock.isSome
  txBlock : env.txBlock.isSome
  reset : entersReset t (boardReset t s.sys.base s.chip) = true

/-! ## The parts of `can_open` -/

theorem canVendorInit_of_granted {env : OpenEnv} {s : Chan σ} (h : Granted t env s) :
    (canVendorInit t env s).1 = 0 ∧
      (canVendorInit t env s).2.chip = boardReset t s.sys.base s.chip := by
  obtain ⟨hregion, hirq⟩ := h
  unfold canVendorInit requestRegion canRequestIrq
  cases hr : t.requestRegion s.sys.base t.canRange with
  | none =>
      by_cases hi : (0#32).slt s.sys.irq
      · simp [hi, hirq hi, Chan.onChip, hr]
      · simp [hi, Chan.onChip, hr]
  | some r =>
      have hfree := hregion (by simp [hr])
      by_cases hi : (0#32).slt s.sys.irq
      · simp [hi, hirq hi, Chan.onChip, hr, hfree]
      · simp [hi, Chan.onChip, hr, hfree]

theorem canVendorInit_of_not_granted {env : OpenEnv} {s : Chan σ} (h : ¬ Granted t env s) :
    (canVendorInit t env s).1 = ebusy := by
  unfold canVendorInit requestRegion canRequestIrq
  cases hr : t.requestRegion s.sys.base t.canRange with
  | none =>
      have hirq : (0#32).slt s.sys.irq ∧ env.irqFree = false := by
        by_contra hc
        exact h ⟨by simp [hr], by simpa using hc⟩
      simp [hirq, Chan.onChip, hr]
  | some r =>
      by_cases hfree : env.regionFree = true
      · have hirq : (0#32).slt s.sys.irq ∧ env.irqFree = false := by
          by_contra hc
          exact h ⟨fun _ => hfree, by simpa using hc⟩
        simp [hirq, Chan.onChip, hr, hfree]
      · simp [hr, hfree]

/-! ## The result and the open flag -/

/-- A device that counts as open is turned away and stays as it is. -/
theorem canOpen_of_isopen (env : OpenEnv) {s : Chan σ} (h : s.isopen = 1) :
    (canOpen t env s).1.slt 0 = true ∧ (canOpen t env s).2 = s.incusers.decusers := by
  have hopen : s.incusers.isopen = 1 := h
  unfold canOpen
  by_cases hminor : (3#32).ult s.incusers.minor
  · simp only [hminor, if_true]
    exact ⟨by decide, trivial⟩
  · simp only [hminor, hopen, Bool.false_eq_true, if_false, if_true]
    exact ⟨by decide, trivial⟩

/-- An illegal minor number is turned away before anything is done. -/
theorem canOpen_of_not_legal (env : OpenEnv) {s : Chan σ} (h : ¬ Legal s) :
    (canOpen t env s).2 = s.incusers.decusers := by
  have hminor : (3#32).ult s.incusers.minor = true := Bool.eq_true_of_not_eq_false h
  simp only [canOpen, hminor, if_true]

/-- The result of an open that is not turned away at once. -/
theorem canOpen_fst_of_closed (env : OpenEnv) {s : Chan σ} (hlegal : Legal s)
    (hclosed : s.isopen ≠ 1) :
    (canOpen t env s).1 =
      if s.sys.base = 0 then enxio
      else if (canVendorInit t env { s.incusers with isopen := 1 }).1.slt 0 then
        (canVendorInit t env { s.incusers with isopen := 1 }).1
      else if !(env.rxBlock.isSome && env.txBlock.isSome) then enomem
      else if !entersReset t (canVendorInit t env { s.incusers with isopen := 1 }).2.chip then
        einval
      else 0 := by
  have hminor : (3#32).ult s.incusers.minor = false := hlegal
  have hopen : s.incusers.isopen ≠ 1 := hclosed
  have hbase : s.incusers.sys.base = s.sys.base := rfl
  have hchip : ∀ s : Chan σ, (canFifoInit env s).2.chip = s.chip := by
    intro s
    obtain ⟨txq, held, hframe⟩ := canFifoInit_frame s env
    rw [hframe]
  simp only [canOpen, hminor, hopen, Bool.false_eq_true, if_false, canFifoInit_fst,
    canChipReset_fst, hchip, hbase, apply_ite Prod.fst]

/-- Every exit behind the test of the minor number, the last one included, leaves the
    open flag set. -/
theorem canOpen_isopen (env : OpenEnv) {s : Chan σ} (hlegal : Legal s) :
    (canOpen t env s).2.isopen = 1 := by
  have hminor : (3#32).ult s.incusers.minor = false := hlegal
  have hvendor : ∀ s : Chan σ, (canVendorInit t env s).2.isopen = s.isopen := by
    intro s
    obtain ⟨ri, held, c, hframe⟩ := canVendorInit_frame t s env
    rw [hframe]
  have hfifo : ∀ s : Chan σ, (canFifoInit env s).2.isopen = s.isopen := by
    intro s
    obtain ⟨txq, held, hframe⟩ := canFifoInit_frame s env
    rw [hframe]
  have hreset : ∀ s : Chan σ, (canChipReset t s).2.isopen = s.isopen := by
    intro s
    obtain ⟨held, o, c, hframe⟩ := canChipReset_frame t s
    rw [hframe]
  -- none of the calls behind the flag writes it
  simp [canOpen, hminor, apply_ite Prod.snd, apply_ite (fun s : Chan σ => s.isopen),
    Chan.decusers, canStartChip, hvendor, hfifo, hreset]

/-- Without a fault the open of a closed device returns zero. -/
theorem canOpen_fst_of_noFault {env : OpenEnv} {s : Chan σ} (hlegal : Legal s)
    (hclosed : s.isopen ≠ 1) (h : NoFault t env s) : (canOpen t env s).1 = 0 := by
  have hgranted : Granted t env { s.incusers with isopen := 1 } :=
    ⟨h.granted.region, h.granted.irq⟩
  obtain ⟨hfst, hchip⟩ := canVendorInit_of_granted hgranted
  have hreset : entersReset t (boardReset t s.sys.base s.chip) = true := h.reset
  have hchip' : (canVendorInit t env { s.incusers with isopen := 1 }).2.chip =
      boardReset t s.sys.base s.chip := hchip
  rw [canOpen_fst_of_closed env hlegal hclosed, if_neg h.base, hfst, hchip', hreset,
    h.rxBlock, h.txBlock]
  rfl

/-- With a fault it returns a negative value. -/
theorem canOpen_fst_of_fault {env : OpenEnv} {s : Chan σ} (hlegal : Legal s)
    (hclosed : s.isopen ≠ 1) (h : ¬ NoFault t env s) : (canOpen t env s).1.slt 0 = true := by
  rw [canOpen_fst_of_closed env hlegal hclosed]
  by_cases hbase : s.sys.base = 0
  · rw [if_pos hbase]
    decide
  rw [if_neg hbase]
  by_cases hgrant : Granted t env { s.incusers with isopen := 1 }
  · obtain ⟨hfst, hchip⟩ := canVendorInit_of_granted hgrant
    rw [hfst, hchip, if_neg (by decide)]
    by_cases hbuf : env.rxBlock.isSome && env.txBlock.isSome
    · rw [hbuf, if_neg (by decide)]
      have hreset : entersReset t (boardReset t s.sys.base s.chip) = false := by
        by_contra hc
        rw [Bool.not_eq_false] at hc
        rw [Bool.and_eq_true] at hbuf
        exact h ⟨hbase, ⟨hgrant.region, hgrant.irq⟩, hbuf.1, hbuf.2, hc⟩
      show (if !entersReset t (boardReset t s.sys.base s.chip) then einval else 0).slt 0 = true
      rw [hreset]
      decide
    · rw [Bool.not_eq_true] at hbuf
      rw [hbuf, if_pos (by decide)]
      decide
  · rw [canVendorInit_of_not_granted hgrant, if_pos (by decide)]
    decide

/-! ## What a failing open leaves behind -/

/-- The open flag, the I/O region, the IRQ and the queue buffers are what they were. -/
structure Undone (s s' : Chan σ) : Prop where
  isopen : s'.isopen = s.isopen
  regions : s'.held.regions = s.held.regions
  irqs : s'.held.irqs = s.held.irqs
  bufs : s'.held.bufs = s.held.bufs

/-- One failing `can_open`. -/
def failingOpen (t : Target) (s : Chan σ) (env : OpenEnv) : Option (Chan σ) :=
  if (canOpen t env s).1.slt 0 then some (canOpen t env s).2 else none

omit [Chip σ] in
theorem Undone.inc_dec (s : Chan σ) : Undone s s.incusers.decusers := ⟨rfl, rfl, rfl, rfl⟩

/-- An open flag survives any number of failing opens. -/
theorem isopen_of_failing {s s' : Chan σ} {envs : List OpenEnv} (h : s.isopen = 1)
    (hrun : Run.exec (failingOpen t) s envs = some s') : s'.isopen = 1 := by
  refine Run.exec_invariant (P := fun s : Chan σ => s.isopen = 1) ?_ h hrun
  intro s env s' hopen hstep
  unfold failingOpen at hstep
  split at hstep
  · rw [← Option.some.inj hstep, (canOpen_of_isopen env hopen).2]
    exact hopen
  · cases hstep

/-- After the first failing open of a closed device it counts as open. -/
theorem isopen_of_failing_cons {s s' : Chan σ} {env : OpenEnv} {envs : List OpenEnv}
    (hlegal : Legal s) (hrun : Run.exec (failingOpen t) s (env :: envs) = some s') :
    s'.isopen = 1 := by
  rw [Run.exec_cons, Option.bind_eq_some_iff] at hrun
  obtain ⟨mid, hstep, hrest⟩ := hrun
  unfold failingOpen at hstep
  split at hstep
  · refine isopen_of_failing ?_ hrest
    rw [← Option.some.inj hstep]
    exact canOpen_isopen env hlegal
  · cases hstep

/-! ## When a failing open is undone -/

/-- One call: should it fail, nothing is left behind exactly if it is turned away at once or
    meets no fault. -/
theorem undone_of_failing_iff (env : OpenEnv) (s : Chan σ) :
    ((canOpen t env s).1.slt 0 = true → Undone s (canOpen t env s).2) ↔
      (¬ Legal s ∨ s.isopen = 1 ∨ NoFault t env s) := by
  constructor
  · intro hundone
    by_contra hc
    rw [not_or, not_or, not_not] at hc
    obtain ⟨hlegal, hclosed, hfault⟩ := hc
    -- the failure would have left the flag of a closed device set
    have hopen := (hundone (canOpen_fst_of_fault hlegal hclosed hfault)).isopen
    rw [canOpen_isopen env hlegal] at hopen
    exact hclosed hopen.symm
  · -- the two early exits only count the user up and down; without a fault nothing fails
    rintro (hlegal | hopen | hok) hneg
    · rw [canOpen_of_not_legal env hlegal]
      exact Undone.inc_dec s
    · rw [(canOpen_of_isopen env hopen).2]
      exact Undone.inc_dec s
    · by_cases hlegal : Legal s
      · by_cases hopen : s.isopen = 1
        · rw [(canOpen_of_isopen env hopen).2]
          exact Undone.inc_dec s
        · rw [canOpen_fst_of_noFault hlegal hopen hok] at hneg
          exact absurd hneg (by decide)
      · rw [canOpen_of_not_legal env hlegal]
        exact Undone.inc_dec s

/-- Many calls: behind failing opens of a closed device, an open without a fault succeeds
    exactly if there was none. -/
theorem opens_after_failing_iff {s s' : Chan σ} {envs : List OpenEnv} {env : OpenEnv}
    (hlegal : Legal s) (hclosed : s.isopen ≠ 1)
    (hrun : Run.exec (failingOpen t) s envs = some s') (hok : NoFault t env s') :
    (canOpen t env s').1 = 0 ↔ envs = [] := by
  cases envs with
  | nil =>
      rw [Run.exec_nil, Option.some.injEq] at hrun
      subst hrun
      exact iff_of_true (canOpen_fst_of_noFault hlegal hclosed hok) rfl
  | cons e es =>
      -- the first failure has marked the device as open
      have hopen := isopen_of_failing_cons hlegal hrun
      have hneg := (canOpen_of_isopen (t := t) env hopen).1
      refine iff_of_false ?_ (List.cons_ne_nil e es)
      intro h0
      rw [h0] at hneg
      exact absurd hneg (by decide)

/-- **A failing `can_open` is undone exactly by its first two exits.**  The call
    leaves open flag, region, IRQ and buffers as they were, should it fail, if and only
    if it is turned away at once or meets no fault; and after any number of failing
    opens of a closed device, an open without a fault succeeds if and only if there was
    no failing open. -/
theorem canOpen_undone_iff (s : Chan σ) :
    (∀ env, ((canOpen t env s).1.slt 0 = true → Undone s (canOpen t env s).2) ↔
      (¬ Legal s ∨ s.isopen = 1 ∨ NoFault t env s)) ∧
    (∀ envs env s', Legal s → s.isopen ≠ 1 → Run.exec (failingOpen t) s envs = some s' →
      NoFault t env s' → ((canOpen t env s').1 = 0 ↔ envs = [])) := by
  refine ⟨?_, ?_⟩
  · intro env
    exact undone_of_failing_iff env s
  · intro envs env s' hlegal hclosed hrun hok
    exact opens_after_failing_iff hlegal hclosed hrun hok

end Open

/-- The IRQ is busy: the open fails with the flag set and the I/O region kept, and once
    the IRQ is free the device still cannot be opened. -/
theorem canOpen_irqBusy :
    let s := Chan.coreInit .atcanminiPelican 0 5 0x320 (Sja1000.powerOn (t := .atcanminiPelican))
    let busy : OpenEnv := ⟨true, false, none, none⟩
    let free : OpenEnv :=
      ⟨true, true, some (1, fun _ => Canmsg.zero), some (2, fun _ => Canmsg.zero)⟩
    let s' := (canOpen .atcanminiPelican busy s).2
    (canOpen .atcanminiPelican busy s).1 = ebusy ∧ s.isopen = 0 ∧ s'.isopen = 1 ∧
      s.held.regions = [] ∧ s'.held.regions = [(0x320, 0x20)] ∧
      (canOpen .atcanminiPelican free s).1 = 0 ∧ (canOpen .atcanminiPelican free s').1 = enxio := by
  decide

end Can4linux
