/-
  Can4linux.UseCount

  The module use count of the 2.4 build, and the files that are open.  Every
  `can_open` counts up and every exit but the last counts down again; a close
  counts down.  `CAN_ChipReset` counts down as well where the controller does not
  enter reset mode, and neither of its callers expects that.

  So each failing reset, in an open or by `CMD_RESET`, loses one count for good,
  and the count is right exactly in the runs without one.
-/

import Can4linux.Channels
import Can4linux.OpenFail
import Mathlib.Algebra.BigOperators.Fin
import Mathlib.Algebra.Order.BigOperators.Group.Finset

namespace Can4linux

variable {σ : Type} [Chip σ] (t : Target)

/-! ## A failing reset -/

/-- The call reaches `CAN_ChipReset`, and the controller does not answer the request. -/
def OpenResetFails (env : OpenEnv) (s : Chan σ) : Prop :=
  Legal s ∧ s.isopen ≠ 1 ∧ s.sys.base ≠ 0 ∧ Granted t env s ∧ env.rxBlock.isSome = true ∧
    env.txBlock.isSome = true ∧ entersReset t (boardReset t s.sys.base s.chip) = false

/-- The request carries `CMD_RESET`, and the controller does not answer. -/
def IoctlResetFails (cmd : CInt) (env : IoctlEnv) (s : Chan σ) : Prop :=
  ioctlCommand cmd env = some cmdReset ∧ entersReset t s.chip = false

section Users

variable {t} (s : Chan σ)

/-- The count while the call is under way. -/
theorem openVendor_users (env : OpenEnv) :
    (openVendor t env s).2.held.users = s.held.users + 1 := by
  have hregion : ∀ (s s' : Chan σ), requestRegion t env s = some s' →
      s'.held.users = s.held.users := by
    intro s s' h
    unfold requestRegion at h
    split at h
    · rw [← Option.some.inj h]
    · split at h
      · rw [← Option.some.inj h]
      · cases h
  have hirq : ∀ (s s' : Chan σ), canRequestIrq env s = some s' →
      s'.held.users = s.held.users := by
    intro s s' h
    unfold canRequestIrq at h
    split at h
    · rw [← Option.some.inj h]
    · cases h
  -- neither request touches the count, so it is one more at either exit
  unfold openVendor canVendorInit
  simp only
  split
  · rfl
  · rename_i s' h
    have hs' := hregion _ s' h
    split
    · split
      · exact hs'
      · rename_i s'' h'
        exact (hirq _ s'' h').trans hs'
    · exact hs'

theorem openFifo_users (env : OpenEnv) :
    (openFifo t env s).2.held.users = s.held.users + 1 := by
  have hhold : ∀ (block : Option (Nat × (CInt → Canmsg))) (s : Chan σ),
      (s.holdBuf block).held.users = s.held.users := by
    intro block s
    cases block <;> rfl
  rw [← openVendor_users (t := t) s env]
  unfold openFifo canFifoInit
  simp only
  split
  · exact hhold env.rxBlock _
  · exact (hhold env.txBlock _).trans (hhold env.rxBlock _)

/-- A reset that fails counts down. -/
theorem canChipReset_users : (canChipReset t s).2.held.users =
    if entersReset t s.chip then s.held.users else s.held.users - 1 := by
  unfold canChipReset
  cases entersReset t s.chip <;> rfl

/-- The reset of an open fails where the call has come to the reset and that has failed. -/
theorem openResetFails_iff (env : OpenEnv) : OpenResetFails t env s ↔
    (3#32).ult s.minor = false ∧ s.isopen ≠ 1 ∧ s.sys.base ≠ 0 ∧
      (openVendor t env s).1.slt 0 = false ∧ (openFifo t env s).1 = true ∧
      (openReset t env s).1 = false := by
  have hfifo : (openFifo t env s).1 = (env.rxBlock.isSome && env.txBlock.isSome) :=
    canFifoInit_fst _ env
  have hchip : (openFifo t env s).2.chip = (openVendor t env s).2.chip := by
    obtain ⟨txq, h, hframe⟩ := canFifoInit_frame { (openVendor t env s).2 with wq := 0 } env
    rw [openFifo, hframe]
  rw [hfifo, Bool.and_eq_true, openReset, canChipReset_fst, hchip]
  by_cases hgrant : Granted t env { s.incusers with isopen := 1 }
  · obtain ⟨hzero, hboard⟩ := canVendorInit_of_granted hgrant
    have hzero : (openVendor t env s).1 = 0 := hzero
    have hboard : (openVendor t env s).2.chip = boardReset t s.sys.base s.chip := hboard
    rw [hzero, hboard]
    constructor
    · rintro ⟨hlegal, hopen, hbase, -, hrx, htx, hreset⟩
      exact ⟨hlegal, hopen, hbase, by decide, ⟨hrx, htx⟩, hreset⟩
    · rintro ⟨hlegal, hopen, hbase, -, ⟨hrx, htx⟩, hreset⟩
      exact ⟨hlegal, hopen, hbase, ⟨hgrant.region, hgrant.irq⟩, hrx, htx, hreset⟩
  · -- `CAN_VendorInit` has returned an error
    have hbusy : (openVendor t env s).1 = ebusy := canVendorInit_of_not_granted hgrant
    rw [hbusy]
    constructor
    · rintro ⟨-, -, -, hg, -⟩
      exact absurd ⟨hg.region, hg.irq⟩ hgrant
    · rintro ⟨-, -, -, hpos, -⟩
      exact absurd hpos (by decide)

/-- What an open does to the count: one more for a file, one less for a reset that fails. -/
theorem canOpen_users (env : OpenEnv) :
    ((canOpen t env s).1 = 0 ∧ ¬ OpenResetFails t env s ∧
      (canOpen t env s).2.held.users = s.held.users + 1) ∨
    ((canOpen t env s).1 ≠ 0 ∧ ¬ OpenResetFails t env s ∧
      (canOpen t env s).2.held.users = s.held.users) ∨
    ((canOpen t env s).1 ≠ 0 ∧ OpenResetFails t env s ∧
      (canOpen t env s).2.held.users = s.held.users - 1) := by
  have hvendor := openVendor_users (t := t) s env
  have hfifo := openFifo_users (t := t) s env
  have hreset : (openReset t env s).2.held.users =
      if (openReset t env s).1 then s.held.users + 1 else s.held.users := by
    rw [openReset, canChipReset_users, canChipReset_fst, hfifo, Int.add_sub_cancel]
  have hback : s.held.users + 1 - 1 = s.held.users := Int.add_sub_cancel ..
  have hinval : einval ≠ 0 := by decide
  have hnxio : enxio ≠ 0 := by decide
  have hnomem : enomem ≠ 0 := by decide
  rw [canOpen_stages, openResetFails_iff]
  -- the exits in order: each has counted down again, the reset that fails twice
  by_cases hminor : (3#32).ult s.minor = true
  · rw [if_pos hminor]
    exact .inr (.inl ⟨hinval, fun h => absurd (hminor.symm.trans h.1) (by decide), hback⟩)
  by_cases hopen : s.isopen = 1
  · rw [if_neg hminor, if_pos hopen]
    exact .inr (.inl ⟨hnxio, fun h => h.2.1 hopen, hback⟩)
  by_cases hbase : s.sys.base = 0
  · rw [if_neg hminor, if_neg hopen, if_pos hbase]
    exact .inr (.inl ⟨hnxio, fun h => h.2.2.1 hbase, hback⟩)
  rw [if_neg hminor, if_neg hopen, if_neg hbase]
  cases hv : (openVendor t env s).1.slt 0 with
  | true =>
      refine .inr (.inl ⟨?_, fun h => absurd h.2.2.2.1 (by decide), ?_⟩)
      · intro h0
        have h0 : (openVendor t env s).1 = 0 := h0
        rw [h0] at hv
        exact absurd hv (by decide)
      · exact (congrArg (· - 1) hvendor).trans hback
  | false =>
      cases hf : (openFifo t env s).1 with
      | false =>
          refine .inr (.inl ⟨hnomem, fun h => absurd h.2.2.2.2.1 (by decide), ?_⟩)
          exact (congrArg (· - 1) hfifo).trans hback
      | true =>
          cases hr : (openReset t env s).1 with
          | false =>
              rw [hr] at hreset
              refine .inr (.inr ⟨hinval, ⟨Bool.eq_false_of_not_eq_true hminor, hopen, hbase,
                rfl, rfl, rfl⟩, ?_⟩)
              exact congrArg (· - 1) hreset
          | true =>
              rw [hr] at hreset
              exact .inl ⟨rfl, fun h => absurd h.2.2.2.2.2 (by decide), hreset⟩

theorem canCommand_users (cmd : CInt) : (canCommand t cmd s).2.held.users =
    if cmd = cmdReset ∧ entersReset t s.chip = false then s.held.users - 1
    else s.held.users := by
  unfold canCommand
  by_cases hstart : cmd = cmdStart
  · rw [if_pos hstart, if_neg (by rw [hstart]; exact fun h => absurd h.1 (by decide))]
    rfl
  by_cases hstop : cmd = cmdStop
  · rw [if_neg hstart, if_pos hstop, if_neg (by rw [hstop]; exact fun h => absurd h.1 (by decide))]
    rfl
  rw [if_neg hstart, if_neg hstop]
  by_cases hcmd : cmd = cmdReset
  · rw [if_pos hcmd, canChipReset_users]
    cases entersReset t s.chip <;> simp [hcmd]
  · rw [if_neg hcmd, if_neg fun h => hcmd h.1]

/-- What an ioctl does to the count. -/
theorem canIoctl_users (cmd : CInt) (env : IoctlEnv) :
    (IoctlResetFails t cmd env s ∧ (canIoctl t cmd env s).2.2.held.users = s.held.users - 1) ∨
    (¬ IoctlResetFails t cmd env s ∧ (canIoctl t cmd env s).2.2.held.users = s.held.users) := by
  -- a command may be the reset; configuration and status leave the count alone
  rcases canIoctl_cases t s cmd env with ⟨c, hcmd, -, heq⟩ | ⟨a, hcmd, -, heq⟩ |
    ⟨hcmd, -, heq | ⟨stat, heq⟩⟩
  · rw [heq, canCommand_users, IoctlResetFails, hcmd, Option.some.injEq]
    by_cases hfail : c = cmdReset ∧ entersReset t s.chip = false
    · rw [if_pos hfail]
      exact .inl ⟨hfail, rfl⟩
    · rw [if_neg hfail]
      exact .inr ⟨hfail, rfl⟩
  · obtain ⟨sys, c, hframe⟩ := canConfig_frame t s a.1 a.2.1 a.2.2
    rw [heq, hframe, IoctlResetFails, hcmd]
    exact .inr ⟨(fun h => by cases h.1), rfl⟩
  · rw [heq, IoctlResetFails, hcmd]
    exact .inr ⟨(fun h => by cases h.1), rfl⟩
  · rw [heq, IoctlResetFails, hcmd]
    exact .inr ⟨(fun h => by cases h.1), rfl⟩

theorem canIoctl_isopen (cmd : CInt) (env : IoctlEnv) :
    (canIoctl t cmd env s).2.2.isopen = s.isopen := by
  rcases canIoctl_cases t s cmd env with ⟨c, -, -, heq⟩ | ⟨a, -, -, heq⟩ | ⟨-, -, heq | ⟨stat, heq⟩⟩
  · obtain ⟨h, sys, d, hframe⟩ := canCommand_frame t s c
    rw [heq, hframe]
  · obtain ⟨sys, c, hframe⟩ := canConfig_frame t s a.1 a.2.1 a.2.2
    rw [heq, hframe]
  · rw [heq]
  · rw [heq]
    rfl

/-- A close of an open device counts down. -/
theorem canClose_users (hopen : s.isopen = 1) :
    (canClose t s).2.held.users = s.held.users - 1 := by
  have hqfree : ∀ (q : MsgQ Canmsg) (s : Chan σ), (s.qfree q).held.users = s.held.users := by
    intro q s
    unfold Chan.qfree
    split <;> rfl
  have hregion : ∀ s : Chan σ, (releaseRegion t s).held.users = s.held.users := by
    intro s
    unfold releaseRegion
    split <;> rfl
  have husers : (closeRelease t s).held.users = s.held.users :=
    ((hqfree _ _).trans (hqfree _ _)).trans (hregion _)
  have hisopen : (closeRelease t s).isopen = 1 := by
    obtain ⟨h1, hr⟩ := releaseRegion_frame (canStopChip t s) t
    obtain ⟨h2, hf⟩ := canFifoCleanup_frame { canStopChip t s with held := h1 }
    rw [closeRelease, hr, hf]
    exact hopen
  rw [canClose_stages, hisopen, if_pos (by decide)]
  exact congrArg (· - 1) husers

end Users

/-! ## The count and the files -/

namespace Channels

/-- The operation makes a reset that fails. -/
def ResetFails (t : Target) : ChanOp σ → Chan (Recorder σ) → Prop
  | .open env, s => OpenResetFails t env s
  | .ioctl cmd env, s => IoctlResetFails t cmd env s
  | _, _ => False

/-- The counts that a channel has lost: one for its file, less the ones it holds. -/
def lost {σ : Type} (file : Bool) (s : Chan σ) : Int := (if file then 1 else 0) - s.held.users

section Step

variable {t} {s : Chan (Recorder σ)} {op : ChanOp σ} {file : Bool}

/-- An operation loses a count exactly if it makes a reset that fails. -/
theorem lost_chanAfter (hopen : file = true → s.isopen = 1) (hen : enabled file op s = true) :
    (ResetFails t op s ∧ lost (fileAfter t file op s) (chanAfter t op s) = lost file s + 1) ∨
    (¬ ResetFails t op s ∧ lost (fileAfter t file op s) (chanAfter t op s) = lost file s) := by
  have hsame : ∀ s' : Chan (Recorder σ), s'.held.users = s.held.users →
      lost file s' = lost file s := by
    intro s' h
    rw [lost, lost, h]
  cases op with
  | «open» env =>
      have hfile : fileAfter t file (.open env) s =
          (file || decide ((canOpen t env s).1 = 0)) := rfl
      -- a second open of an open device does not succeed
      have hclosed : (canOpen t env s).1 = 0 → file = false := by
        intro h0
        cases file with
        | false => rfl
        | true => exact absurd (hopen rfl) (canOpen_path t s h0).2.1
      rw [hfile]
      rcases canOpen_users s env (t := t) with ⟨h0, hok, hu⟩ | ⟨h0, hok, hu⟩ | ⟨h0, hfail, hu⟩
      · refine .inr ⟨hok, ?_⟩
        rw [hclosed h0, h0]
        show (1 : Int) - (canOpen t env s).2.held.users = 0 - s.held.users
        rw [hu]
        omega
      · rw [decide_eq_false h0, Bool.or_false]
        exact .inr ⟨hok, hsame _ hu⟩
      · rw [decide_eq_false h0, Bool.or_false]
        refine .inl ⟨hfail, ?_⟩
        show lost file (canOpen t env s).2 = lost file s + 1
        rw [lost, lost, hu]
        omega
  | close =>
      have htrue : file = true := hen
      refine .inr ⟨id, ?_⟩
      show (0 : Int) - (canClose t s).2.held.users = _
      rw [canClose_users s (hopen htrue), lost, htrue, if_pos rfl]
      omega
  | ioctl cmd env =>
      rcases canIoctl_users s cmd env (t := t) with ⟨hfail, hu⟩ | ⟨hok, hu⟩
      · refine .inl ⟨hfail, ?_⟩
        show lost file (canIoctl t cmd env s).2.2 = lost file s + 1
        rw [lost, lost, hu]
        omega
      · exact .inr ⟨hok, hsame _ hu⟩
  | write accessOk us =>
      exact .inr ⟨id, hsame _ (congrArg Standing.users (canWrite_standing s accessOk us))⟩
  | read accessOk count =>
      exact .inr ⟨id, hsame _ (congrArg Standing.users (canRead_standing s accessOk count))⟩
  | irq tstamp =>
      exact .inr ⟨id, hsame _ (congrArg Standing.users (irqIteration_standing s tstamp))⟩
  | timer => exact .inr ⟨id, hsame _ (congrArg Standing.users (timer_standing s))⟩
  | sysctl sys => exact .inr ⟨id, hsame _ rfl⟩
  | device c => exact .inr ⟨id, hsame _ rfl⟩

/-- A channel with a file counts as open. -/
theorem isopen_chanAfter (hopen : file = true → s.isopen = 1)
    (hfile : fileAfter t file op s = true) : (chanAfter t op s).isopen = 1 := by
  cases op with
  | «open» env =>
      have hor : (file || decide ((canOpen t env s).1 = 0)) = true := hfile
      rcases Bool.or_eq_true_iff.mp hor with htrue | h0
      · show (canOpen t env s).2.isopen = 1
        rw [(canOpen_of_isopen env (hopen htrue)).2]
        exact hopen htrue
      · exact canOpen_isopen env (canOpen_path t s (of_decide_eq_true h0)).1
  | close => cases hfile
  | ioctl cmd env => exact (canIoctl_isopen s cmd env).trans (hopen hfile)
  | write accessOk us =>
      exact (congrArg Standing.isopen (canWrite_standing s accessOk us)).trans (hopen hfile)
  | read accessOk count =>
      exact (congrArg Standing.isopen (canRead_standing s accessOk count)).trans (hopen hfile)
  | irq tstamp =>
      exact (congrArg Standing.isopen (irqIteration_standing s tstamp)).trans (hopen hfile)
  | timer => exact (congrArg Standing.isopen (timer_standing s)).trans (hopen hfile)
  | sysctl sys => exact hopen hfile
  | device c => exact hopen hfile

end Step

variable {t} {S S' : Channels σ} {ls : List (Fin maxChannels × ChanOp σ)}
  {sys : Fin maxChannels → Sysctl} {dev : Fin maxChannels → σ}

/-- The module use count, from the load of the driver on. -/
def useCount {σ : Type} (S : Channels σ) : Int := ∑ i, (S.chan i).held.users

/-- The number of files that are open. -/
def openFiles {σ : Type} (S : Channels σ) : Int := ∑ i, if S.file i then 1 else 0

/-- The count is the number of open files.  So it is not below its initial value, and as long
    as a file is open `core_cleanup` cannot run. -/
structure CountRight {σ : Type} (S : Channels σ) : Prop where
  count : S.useCount = S.openFiles
  floor : 0 ≤ S.useCount
  inUse : ∀ i, S.file i = true → 0 < S.useCount

/-- The files belong to devices that count as open, and no channel has gained a count. -/
structure Ledger {σ : Type} (S : Channels σ) : Prop where
  pool : PoolOk S
  isopen : ∀ i, S.file i = true → (S.chan i).isopen = 1
  bound : ∀ i, 0 ≤ lost (S.file i) (S.chan i)

/-- A channel has lost a count. -/
def countLost {σ : Type} (S : Channels σ) : Bool :=
  !decide (∀ i, lost (S.file i) (S.chan i) = 0)

omit [Chip σ] in
theorem ledger_loaded : Ledger (loaded t sys dev) where
  pool := poolOk_loaded t sys dev
  isopen _ h := by cases h
  bound _ := Int.le_refl 0

/-- A step loses a count in its own channel, and exactly if it makes a reset that fails. -/
theorem Ledger.lost_step (h : Ledger S) {i : Fin maxChannels} {op : ChanOp σ}
    (hstep : Channels.step t S (i, op) = some S') :
    ((ResetFails t op (S.chan i) ∧
        lost (S'.file i) (S'.chan i) = lost (S.file i) (S.chan i) + 1) ∨
      (¬ ResetFails t op (S.chan i) ∧
        lost (S'.file i) (S'.chan i) = lost (S.file i) (S.chan i))) ∧
    ∀ j, j ≠ i → lost (S'.file j) (S'.chan j) = lost (S.file j) (S.chan j) := by
  obtain ⟨hen, hchan, hfile, hother⟩ := step_spec t h.pool hstep
  rw [hchan, hfile]
  refine ⟨lost_chanAfter (h.isopen i) hen, ?_⟩
  intro j hj
  obtain ⟨hfile, kapi, hchan⟩ := hother j hj
  rw [hfile, hchan]
  rfl

/-- A step keeps the ledger. -/
theorem Ledger.step (h : Ledger S) {l : Fin maxChannels × ChanOp σ}
    (hstep : Channels.step t S l = some S') : Ledger S' := by
  obtain ⟨i, op⟩ := l
  obtain ⟨-, hchan, hfile, hother⟩ := step_spec t h.pool hstep
  obtain ⟨hlost, hsame⟩ := h.lost_step hstep
  refine ⟨step_poolOk t h.pool hstep, ?_, ?_⟩
  · intro j hj
    by_cases hji : j = i
    · subst hji
      rw [hfile] at hj
      rw [hchan]
      exact isopen_chanAfter (h.isopen j) hj
    · obtain ⟨hfile, kapi, hchan⟩ := hother j hji
      rw [hfile] at hj
      rw [hchan]
      exact h.isopen j hj
  · intro j
    have hnonneg := h.bound j
    by_cases hji : j = i
    · subst hji
      rcases hlost with ⟨-, hmore⟩ | ⟨-, heq⟩
      · omega
      · omega
    · rw [hsame j hji]
      exact hnonneg

/-- No channel has lost a count after a step exactly if none had before, and the step made no
    reset that failed. -/
theorem Ledger.countLost_step (h : Ledger S) {l : Fin maxChannels × ChanOp σ}
    (hstep : Channels.step t S l = some S') :
    S'.countLost = false ↔ S.countLost = false ∧ ¬ ResetFails t l.2 (S.chan l.1) := by
  obtain ⟨i, op⟩ := l
  obtain ⟨hlost, hsame⟩ := h.lost_step hstep
  have hnonneg := h.bound i
  simp only [countLost, Bool.not_eq_false', decide_eq_true_eq]
  constructor
  · intro hall
    have hi := hall i
    rcases hlost with ⟨-, hmore⟩ | ⟨hok, heq⟩
    · -- the channel would have gained a count before
      omega
    · refine ⟨fun j => ?_, hok⟩
      by_cases hji : j = i
      · rw [hji, ← heq]
        exact hi
      · rw [← hsame j hji]
        exact hall j
  · rintro ⟨hall, hok⟩ j
    by_cases hji : j = i
    · rcases hlost with ⟨hfail, -⟩ | ⟨-, heq⟩
      · exact absurd hfail hok
      · rw [hji, heq]
        exact hall i
    · rw [hsame j hji]
      exact hall j

omit [Chip σ] in
/-- The count is right exactly if no channel has lost one. -/
theorem countRight_iff (h : Ledger S) : CountRight S ↔ S.countLost = false := by
  have hsum : S.useCount = S.openFiles ↔ ∀ i, lost (S.file i) (S.chan i) = 0 := by
    -- what the channels have lost is the difference, and none of them has lost less than nothing
    have hdiff : S.openFiles - S.useCount = ∑ i, lost (S.file i) (S.chan i) :=
      (Finset.sum_sub_distrib ..).symm
    have hzero := Finset.sum_eq_zero_iff_of_nonneg (s := Finset.univ) fun i _ => h.bound i
    constructor
    · intro heq i
      rw [← hdiff, heq, Int.sub_self] at hzero
      exact hzero.mp rfl i (Finset.mem_univ i)
    · intro hall
      have hnone := hzero.mpr fun i _ => hall i
      rw [← hdiff] at hnone
      omega
  have hfiles : 0 ≤ S.openFiles := Finset.sum_nonneg fun i _ => by split <;> decide
  simp only [countLost, Bool.not_eq_false', decide_eq_true_eq]
  constructor
  · intro hright
    exact hsum.mp hright.count
  · intro hall
    have hcount := hsum.mpr hall
    refine ⟨hcount, hcount ▸ hfiles, ?_⟩
    intro i hi
    rw [hcount]
    have hone := Finset.single_le_sum (f := fun i => if S.file i then (1 : Int) else 0)
      (fun j _ => by split <;> decide) (Finset.mem_univ i)
    simp only [hi, if_true] at hone
    exact hone

/-- **When the use count is right.**  At the end of every run the module use count equals the
    number of open files, and is positive while there is one, if and only if no open and no
    `CMD_RESET` of the run has made a reset that failed. -/
theorem countRight_iff_along (hrun : Run.exec (step t) (loaded t sys dev) ls = some S) :
    CountRight S ↔
      Run.Along (step t) (fun S l => ¬ ResetFails t l.2 (S.chan l.1)) (loaded t sys dev) ls := by
  have hload : Ledger (loaded t sys dev) := ledger_loaded
  have hledger : Ledger S := Run.exec_invariant (P := Ledger)
    (fun _ _ _ h hstep => h.step hstep) hload hrun
  have hflag := Run.flag_iff_along (I := Ledger) (f := countLost)
    (fun _ _ _ h hstep => h.step hstep) (fun _ _ _ h hstep => h.countLost_step hstep) hload hrun
  have hstart : (loaded t sys dev).countLost = false := by
    simp [countLost, lost, loaded, Chan.coreInit]
  rw [countRight_iff hledger, hflag, hstart]
  exact and_iff_right rfl

/-! ### A controller that does not answer -/

/-- Four boards without a controller, the bus at first floating to ones. -/
def floating : Channels Floating :=
  loaded .atcanminiPelican (fun _ => Chan.unopened.sys) fun _ => ⟨0xff⟩

/-- Two files are opened, and one of them is closed. -/
theorem countRight_iff_along_two : ∃ S,
    Run.exec (step .atcanminiPelican) floating
      [(0, .open (.granted Canmsg.zero)), (1, .open (.granted Canmsg.zero)), (0, .close)] =
        some S ∧
    (CountRight S ↔ Run.Along (step .atcanminiPelican)
      (fun S l => ¬ ResetFails .atcanminiPelican l.2 (S.chan l.1)) floating
      [(0, .open (.granted Canmsg.zero)), (1, .open (.granted Canmsg.zero)), (0, .close)]) := by
  have hsome : (Run.exec (step .atcanminiPelican) floating
      [(0, .open (.granted Canmsg.zero)), (1, .open (.granted Canmsg.zero)),
        (0, .close)]).isSome = true := by
    decide
  obtain ⟨S, hS⟩ := Option.isSome_iff_exists.mp hsome
  exact ⟨S, hS, countRight_iff_along hS⟩

/-- The controller of an open device stops answering and `CMD_RESET` fails: the count is at its
    initial value although a file is open.  A second device that does not answer fails to
    open: the count is below the initial value. -/
theorem count_lost :
    (Run.exec (step .atcanminiPelican) floating
      [(0, .open (.granted Canmsg.zero)), (0, .device ⟨0⟩),
        (0, .ioctl reqCommand (commandRequest cmdReset))]).map
      (fun S => (S.useCount, S.openFiles)) = some (0, 1) ∧
    (Run.exec (step .atcanminiPelican) floating
      [(0, .device ⟨0⟩), (0, .open (.granted Canmsg.zero))]).map
      (fun S => (S.useCount, S.openFiles)) = some (-1, 0) := by
  decide

end Channels

end Can4linux
