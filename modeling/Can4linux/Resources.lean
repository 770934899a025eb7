/-
  Can4linux.Resources

  What `can_open` acquires and what `can_close` releases: an I/O region and an
  IRQ line.  The two calls decide it by `#if` ladders of their own, and the
  close reads `Base` and `IRQ` again, which user space may have changed.

  A `Board` has all channels of the driver, each with the values of `Base` and
  `IRQ` at its last open.  A close releases what the open acquired exactly if
  the build is one of the two that agree and the values are still the same.
-/

import Can4linux.Driver

namespace Can4linux

/-! ## What the calls request and release -/

/-- An I/O region (start, length) and an IRQ line, where there is one. -/
structure Resources where
  region : Option (CInt × CInt)
  irq : Option CInt
deriving DecidableEq

/-- What a successful `can_open` acquires with the given `Base` and `IRQ`. -/
def openAcquires (t : Target) (base irq : CInt) : Resources :=
  ⟨t.requestRegion base t.canRange, if (0#32).slt irq then some irq else none⟩

/-- What `can_close` releases: `free_irq` is called in any case. -/
def closeReleases {σ : Type} (t : Target) (s : Chan σ) : Resources :=
  ⟨t.releaseRegion s.sys.base s.canRange, some s.sys.irq⟩

/-- The part of a channel that concerns regions and IRQ lines. -/
structure Footprint where
  isopen : CInt
  canRange : CInt
  base : CInt
  irq : CInt
  regions : List (CInt × CInt)
  irqs : List CInt
deriving DecidableEq

/-- The footprint of a channel. -/
def Chan.footprint {σ : Type} (s : Chan σ) : Footprint :=
  ⟨s.isopen, s.canRange, s.sys.base, s.sys.irq, s.held.regions, s.held.irqs⟩

variable {σ : Type} [Chip σ] {t : Target}

/-! ## Open and close -/

section OpenClose

variable {s : Chan σ} {env : OpenEnv}

/-- `CAN_VendorInit` acquires everything that the open acquires. -/
theorem canVendorInit_footprint (h : (canVendorInit t env s).1 = 0) :
    (canVendorInit t env s).2.footprint = { s.footprint with
      canRange := t.canRange
      regions := (openAcquires t s.sys.base s.sys.irq).region.toList ++ s.held.regions
      irqs := (openAcquires t s.sys.base s.sys.irq).irq.toList ++ s.held.irqs } := by
  unfold canVendorInit requestRegion canRequestIrq at h ⊢
  simp only [openAcquires] at h ⊢
  cases hregion : t.requestRegion s.sys.base t.canRange with
  | none =>
      -- the PCI build requests no region
      simp only [hregion] at h ⊢
      cases hpos : (0#32).slt s.sys.irq with
      | false => simp [hpos, Chan.footprint, Chan.onChip]
      | true =>
          cases hirq : env.irqFree with
          | false => exact absurd h (by simp [hpos, hirq, Chan.onChip, ebusy])
          | true => simp [hpos, Chan.footprint, Chan.onChip]
  | some r =>
      simp only [hregion] at h ⊢
      cases hfree : env.regionFree with
      | false => exact absurd h (by simp [hfree, ebusy])
      | true =>
          simp only [if_true] at h ⊢
          cases hpos : (0#32).slt s.sys.irq with
          | false => simp [hpos, Chan.footprint, Chan.onChip]
          | true =>
              cases hirq : env.irqFree with
              | false => exact absurd h (by simp [hfree, hpos, hirq, Chan.onChip, ebusy])
              | true => simp [hpos, Chan.footprint, Chan.onChip]

omit [Chip σ] in
theorem canFifoInit_footprint : (canFifoInit env s).2.footprint = s.footprint := by
  have hhold : ∀ (block : Option (Nat × (CInt → Canmsg))) (s : Chan σ),
      (s.holdBuf block).footprint = s.footprint := by
    intro block s
    cases block <;> rfl
  simp only [canFifoInit]
  split
  · exact hhold env.rxBlock _
  · exact (hhold env.txBlock _).trans (hhold env.rxBlock _)

theorem canChipReset_footprint : (canChipReset t s).2.footprint = s.footprint := by
  unfold canChipReset
  simp only
  split <;> rfl

/-- What a successful `can_open` does to the footprint. -/
theorem canOpen_footprint (h : (canOpen t env s).1 = 0) :
    (canOpen t env s).2.footprint = { s.footprint with
      isopen := 1, canRange := t.canRange
      regions := (openAcquires t s.sys.base s.sys.irq).region.toList ++ s.held.regions
      irqs := (openAcquires t s.sys.base s.sys.irq).irq.toList ++ s.held.irqs } := by
  obtain ⟨-, -, -, hvendor, -, -, heq⟩ := canOpen_path t s h
  have hv := canVendorInit_footprint hvendor
  rw [heq]
  show (canChipReset t _).2.footprint = _
  rw [canChipReset_footprint, canFifoInit_footprint]
  exact hv

omit [Chip σ] in
theorem releaseRegion_footprint (s : Chan σ) :
    (releaseRegion t s).footprint = { s.footprint with
      regions := match (closeReleases t s).region with
        | none => s.held.regions
        | some r => s.held.regions.erase r } := by
  unfold releaseRegion closeReleases
  cases t.releaseRegion s.sys.base s.canRange <;> rfl

omit [Chip σ] in
theorem canFifoCleanup_footprint (s : Chan σ) :
    (canFifoCleanup s).footprint = s.footprint := by
  have hqfree : ∀ (q : MsgQ Canmsg) (s : Chan σ), (s.qfree q).footprint = s.footprint := by
    intro q s
    unfold Chan.qfree
    split <;> rfl
  exact (hqfree _ _).trans (hqfree _ _)

/-- What `can_close` of an open device does to the footprint. -/
theorem canClose_footprint (h : s.isopen = 1) :
    (canClose t s).2.footprint = { s.footprint with
      isopen := 0
      regions := match (closeReleases t s).region with
        | none => s.held.regions
        | some r => s.held.regions.erase r
      irqs := s.held.irqs.erase s.sys.irq } := by
  have hfoot : (canFifoCleanup (releaseRegion t (canStopChip t s))).footprint =
      { s.footprint with
        regions := match (closeReleases t s).region with
          | none => s.held.regions
          | some r => s.held.regions.erase r } :=
    (canFifoCleanup_footprint _).trans (releaseRegion_footprint (canStopChip t s))
  simp only [canClose]
  generalize canFifoCleanup (releaseRegion t (canStopChip t s)) = r at hfoot
  -- only the IRQ line and the flag are left
  have hopen : r.isopen = 1 := (congrArg Footprint.isopen hfoot).trans h
  have hpos : (0#32).slt (canFreeIrq r).isopen = true := by
    rw [show (canFreeIrq r).isopen = r.isopen from rfl, hopen]
    decide
  have hfree : (canFreeIrq r).footprint =
      { r.footprint with irqs := r.footprint.irqs.erase r.footprint.irq } := rfl
  rw [if_pos hpos]
  show { (canFreeIrq r).footprint with isopen := r.isopen - 1 } = _
  rw [hfree, hfoot, hopen]
  rfl

end OpenClose

/-! ## Between open and close -/

section Session

variable {s : Chan σ}

omit [Chip σ] in
theorem rxproduce_footprint (produce : Canmsg → σ → Canmsg × σ) (s : Chan σ) :
    (rxproduce produce s).footprint = s.footprint := by
  cases hfull : s.rxq.full with
  | true => rw [rxproduce_full hfull]; rfl
  | false => rw [rxproduce_room hfull]; rfl

theorem txConsume_footprint (s : Chan σ) : (txConsume t s).footprint = s.footprint := by
  rcases txConsume_any t s with ⟨-, heq⟩ | ⟨-, m, dw, k, heq⟩ | ⟨-, m, h, c, heq⟩
  · rw [heq]; rfl
  · rw [heq]; rfl
  · rw [heq]; rfl

omit [Chip σ] in
theorem wakeWriters_footprint (s : Chan σ) : s.wakeWriters.footprint = s.footprint := by
  obtain ⟨n, hframe⟩ := wakeWriters_frame s
  rw [hframe]
  rfl

theorem irqIteration_footprint (tstamp : Timeval) (s : Chan σ) :
    (irqIteration t tstamp s).footprint = s.footprint := by
  have hrx : ∀ (irqsrc : U8) (inf : Msginf) (s : Chan σ),
      (rxIrq t irqsrc inf s).footprint = s.footprint := by
    intro irqsrc inf s
    rcases rxIrq_any t s irqsrc inf with ⟨-, heq⟩ | ⟨-, c, heq⟩
    · rw [heq]
    · rw [heq]
      exact rxproduce_footprint _ s
  have hew : ∀ (irqsrc : U8) (inf : Msginf) (s : Chan σ),
      (errWarnIrq t irqsrc inf s).2.2.footprint = s.footprint := by
    intro irqsrc inf s
    rcases errWarnIrq_any t s irqsrc inf with ⟨-, heq⟩ | ⟨-, src', inf', c, -, heq⟩
    · rw [heq]
    · rw [heq]
      exact rxproduce_footprint _ { s with chip := c }
  have htx : ∀ (irqsrc : U8) (s : Chan σ), (txIrq t irqsrc s).footprint = s.footprint := by
    intro irqsrc s
    unfold txIrq
    split
    · exact (wakeWriters_footprint _).trans (txConsume_footprint { s with txinprogress := 0 })
    · rfl
  have hov : ∀ (irqsrc : U8) (inf : Msginf) (s : Chan σ),
      (overrunIrq t irqsrc inf s).footprint = s.footprint := by
    intro irqsrc inf s
    unfold overrunIrq
    split
    · exact rxproduce_footprint _ _
    · rfl
  unfold irqIteration
  simp only
  split
  · rfl
  · exact (hov _ _ _).trans ((htx _ _).trans ((hew _ _ _).trans (hrx _ _ _)))

theorem canWrite_footprint (accessOk : Bool) (us : List UserMsg) (s : Chan σ) :
    (canWrite t accessOk us s).2.footprint = s.footprint := by
  apply canWrite_rule (P := fun c => c.footprint = s.footprint)
  · intro u c hc
    rcases writeOne_any t c u with ⟨-, heq⟩ | ⟨-, heq⟩
    · rw [heq]
      exact hc
    · rw [heq]
      unfold kickIdle
      split
      · exact (txConsume_footprint _).trans hc
      · exact hc
  · rfl

omit [Chip σ] in
theorem canRead_footprint (accessOk : Bool) (count : Nat) (s : Chan σ) :
    (canRead accessOk count s).2.2.footprint = s.footprint := by
  cases accessOk with
  | false => rfl
  | true =>
      obtain ⟨rxq, hs, -, -⟩ := readLoop_spec count s
      simp only [canRead, Bool.not_true, Bool.false_eq_true, if_false, hs]
      rfl

theorem timer_footprint (s : Chan σ) :
    (delayedmsgworker t s.disarm).footprint = s.footprint := by
  obtain ⟨k, hdis⟩ := disarm_frame s
  have hd : s.disarm.footprint = s.footprint := by rw [hdis]; rfl
  exact ((wakeWriters_footprint _).trans (txConsume_footprint _)).trans hd

/-- Between an open and a close nothing is acquired or released. -/
theorem drive_footprint {s' : Chan σ} {op : DrvOp σ} (hop : op.inSession = true)
    (hsys : ∀ sys, op ≠ .sysctl sys) (h : s.drive t op = some s') :
    s'.footprint = s.footprint := by
  cases op with
  | «open» env => cases hop
  | close => cases hop
  | sysctl sys => exact absurd rfl (hsys sys)
  | device c =>
      obtain rfl := Option.some.inj h
      rfl
  | write accessOk us =>
      obtain ⟨-, rfl⟩ := Chan.ifOpen_eq_some.mp h
      exact canWrite_footprint accessOk us s
  | read accessOk count =>
      obtain ⟨-, rfl⟩ := Chan.ifOpen_eq_some.mp h
      exact canRead_footprint accessOk count s
  | command cmd =>
      obtain ⟨-, rfl⟩ := Chan.ifOpen_eq_some.mp h
      simp only [canCommand]
      split
      · rfl
      · split
        · rfl
        · split
          · exact canChipReset_footprint
          · rfl
  | config target val1 val2 =>
      obtain ⟨-, rfl⟩ := Chan.ifOpen_eq_some.mp h
      unfold canConfig
      repeat' split
      all_goals rfl
  | irq tstamp =>
      obtain ⟨-, rfl⟩ := Chan.ifOpen_eq_some.mp h
      exact irqIteration_footprint tstamp s
  | timer =>
      obtain ⟨-, rfl⟩ := Chan.drive_timer h
      exact timer_footprint s

end Session

/-! ## All channels -/

instance : NeZero maxChannels := ⟨by decide⟩

/-- The channels, each with `Base` and `IRQ` as they were at its last open. -/
structure Board (σ : Type) where
  chan : Fin maxChannels → Chan σ
  opened : Fin maxChannels → CInt × CInt

namespace Board

/-- The driver has been loaded; nothing is open yet. -/
def loaded {σ : Type} (t : Target) (sys : Fin maxChannels → Sysctl)
    (chip : Fin maxChannels → σ) : Board σ where
  chan i := { Chan.coreInit t (BitVec.ofNat 32 i) (sys i).irq (sys i).base (chip i) with
    sys := sys i }
  opened _ := (0, 0)

/-- In the PCI build `Base` and `IRQ` are read-only. -/
def writable {σ : Type} (t : Target) (s : Chan σ) : DrvOp σ → Bool
  | .sysctl sys => t.access ≠ .pci || (sys.base = s.sys.base && sys.irq = s.sys.irq)
  | _ => true

/-- One step of one channel. -/
def step (t : Target) (b : Board σ) (a : Fin maxChannels × DrvOp σ) : Option (Board σ) :=
  let s := b.chan a.1
  if writable t s a.2 then
    (s.drive t a.2).map fun s' =>
      { chan := Function.update b.chan a.1 s'
        opened := match a.2 with
          | .open _ => Function.update b.opened a.1 (s.sys.base, s.sys.irq)
          | _ => b.opened }
  else none

/-- What the open before acquired. -/
def acquired {σ : Type} (t : Target) (b : Board σ) (i : Fin maxChannels) : Resources :=
  openAcquires t (b.opened i).1 (b.opened i).2

/-- A close releases exactly what the matching open acquired, and afterwards the device is
    free and holds nothing. -/
structure Balanced {σ : Type} (t : Target) (b : Board σ) (i : Fin maxChannels)
    (b' : Board σ) : Prop where
  same : closeReleases t (b.chan i) = b.acquired t i
  free : (b'.chan i).isopen = 0
  regions : (b'.chan i).held.regions = []
  irqs : (b'.chan i).held.irqs = []

/-- The build is one that releases what it requests, the open registered an IRQ, and the
    arrays still have the values of the open. -/
def Meets {σ : Type} (t : Target) (b : Board σ) (i : Fin maxChannels) : Prop :=
  (t.access = .portIo ∨ t.access = .indexedPortIo) ∧ (0#32).slt (b.opened i).2 = true ∧
    (b.chan i).sys.base = (b.opened i).1 ∧ (b.chan i).sys.irq = (b.opened i).2

instance {σ : Type} (t : Target) (b : Board σ) (i : Fin maxChannels) :
    Decidable (Meets t b i) :=
  inferInstanceAs (Decidable (_ ∧ _ ∧ _ ∧ _))

/-- The step is not a close of a channel that does not meet the condition. -/
def Guard {σ : Type} (t : Target) (b : Board σ) (a : Fin maxChannels × DrvOp σ) : Prop :=
  a.2.isClose = true → Meets t b a.1

instance {σ : Type} (t : Target) (b : Board σ) (a : Fin maxChannels × DrvOp σ) :
    Decidable (Guard t b a) :=
  inferInstanceAs (Decidable (_ → _))

/-- What a channel holds: while it is open what its open acquired, otherwise nothing. -/
structure Holds {σ : Type} (t : Target) (b : Board σ) (i : Fin maxChannels) : Prop where
  range : (b.chan i).isopen = 1 → (b.chan i).canRange = t.canRange
  regions : (b.chan i).held.regions =
    if (b.chan i).isopen = 1 then (b.acquired t i).region.toList else []
  irqs : (b.chan i).held.irqs =
    if (b.chan i).isopen = 1 then (b.acquired t i).irq.toList else []

/-! ### When a close is balanced -/

omit [Chip σ] in
/-- The two `#if` ladders agree in two builds; the IRQ line is freed in any case. -/
theorem closeReleases_eq_iff {s : Chan σ} (hrange : s.canRange = t.canRange) (base irq : CInt) :
    closeReleases t s = openAcquires t base irq ↔
      (t.access = .portIo ∨ t.access = .indexedPortIo) ∧ (0#32).slt irq = true ∧
        s.sys.base = base ∧ s.sys.irq = irq := by
  have hirq : (some s.sys.irq = if (0#32).slt irq then some irq else none) ↔
      (0#32).slt irq = true ∧ s.sys.irq = irq := by
    cases (0#32).slt irq <;> simp
  have hregion : t.releaseRegion s.sys.base t.canRange = t.requestRegion base t.canRange ↔
      (t.access = .portIo ∨ t.access = .indexedPortIo) ∧ s.sys.base = base := by
    unfold Target.releaseRegion Target.requestRegion
    cases t.access <;> simp
  rw [closeReleases, openAcquires, Resources.mk.injEq, hrange, hirq, hregion]
  constructor
  · rintro ⟨⟨haccess, hbase⟩, hpos, hsame⟩
    exact ⟨haccess, hpos, hbase, hsame⟩
  · rintro ⟨haccess, hpos, hbase, hsame⟩
    exact ⟨⟨haccess, hbase⟩, hpos, hsame⟩

variable {b b' : Board σ} {i : Fin maxChannels}

/-- What a step of one channel does to the board. -/
theorem step_cases {op : DrvOp σ} (h : step t b (i, op) = some b') :
    ∃ s', (b.chan i).drive t op = some s' ∧ b'.chan = Function.update b.chan i s' ∧
      ((∀ env, op ≠ .open env) → b'.opened = b.opened) ∧
      ((∃ env, op = .open env) → b'.opened =
        Function.update b.opened i ((b.chan i).sys.base, (b.chan i).sys.irq)) := by
  simp only [step] at h
  split at h
  · obtain ⟨s', hs', rfl⟩ := Option.map_eq_some_iff.mp h
    refine ⟨s', hs', rfl, ?_, ?_⟩
    · intro hop
      cases op with
      | «open» env => exact absurd rfl (hop env)
      | _ => rfl
    · rintro ⟨env, rfl⟩
      rfl
  · cases h

/-- A close of a channel that holds what its open acquired. -/
theorem step_close (hhold : Holds t b i) (h : step t b (i, .close) = some b') :
    b'.opened = b.opened ∧ (b.chan i).isopen = 1 ∧
      ∃ s', b'.chan = Function.update b.chan i s' ∧ s'.footprint =
        { (b.chan i).footprint with
          isopen := 0
          regions := match (closeReleases t (b.chan i)).region with
            | none => (b.acquired t i).region.toList
            | some r => (b.acquired t i).region.toList.erase r
          irqs := (b.acquired t i).irq.toList.erase (b.chan i).sys.irq } := by
  obtain ⟨s', hs', hchan, hopened, -⟩ := step_cases h
  obtain ⟨hopen, rfl⟩ := Chan.ifOpen_eq_some.mp hs'
  have hregions := hhold.regions
  have hirqs := hhold.irqs
  rw [if_pos hopen] at hregions hirqs
  refine ⟨hopened (fun env he => by cases he), hopen, _, hchan, ?_⟩
  rw [canClose_footprint hopen, hregions, hirqs]

/-- A close is balanced exactly if the channel meets the condition. -/
theorem balanced_iff (hhold : Holds t b i) (h : step t b (i, .close) = some b') :
    Balanced t b i b' ↔ Meets t b i := by
  obtain ⟨hopened, hopen, s', hchan, hfoot⟩ := step_close hhold h
  have hiff := closeReleases_eq_iff (hhold.range hopen) (b.opened i).1 (b.opened i).2
  have hs' : b'.chan i = s' := by
    rw [hchan, Function.update_self]
  constructor
  · intro hbal
    exact hiff.mp hbal.same
  · intro hmeets
    have hsame : closeReleases t (b.chan i) = b.acquired t i := hiff.mpr hmeets
    have hirq : (b.acquired t i).irq = some (b.chan i).sys.irq := by
      rw [← hsame]
      rfl
    rw [hsame, hirq] at hfoot
    refine ⟨hsame, ?_, ?_, ?_⟩
    · rw [hs']
      exact congrArg Footprint.isopen hfoot
    · rw [hs']
      refine (congrArg Footprint.regions hfoot).trans ?_
      cases (b.acquired t i).region with
      | none => rfl
      | some r => simp
    · rw [hs']
      refine (congrArg Footprint.irqs hfoot).trans ?_
      simp

/-! ### Every run -/

omit [Chip σ] in
theorem holds_loaded (sys : Fin maxChannels → Sysctl) (chip : Fin maxChannels → σ)
    (i : Fin maxChannels) : Holds t (loaded t sys chip) i :=
  ⟨fun h => absurd h (show ¬ (0 : CInt) = 1 by decide), rfl, rfl⟩

omit [Chip σ] in
/-- What is held does not depend on the present `Base` and `IRQ`. -/
theorem Holds.congr (h : Holds t b i) (hopened : b'.opened i = b.opened i)
    (hisopen : (b'.chan i).isopen = (b.chan i).isopen)
    (hrange : (b'.chan i).canRange = (b.chan i).canRange)
    (hregions : (b'.chan i).held.regions = (b.chan i).held.regions)
    (hirqs : (b'.chan i).held.irqs = (b.chan i).held.irqs) : Holds t b' i := by
  have hacq : b'.acquired t i = b.acquired t i := by
    rw [acquired, hopened]
    rfl
  refine ⟨?_, ?_, ?_⟩
  · rw [hisopen, hrange]
    exact h.range
  · rw [hregions, hisopen, hacq]
    exact h.regions
  · rw [hirqs, hisopen, hacq]
    exact h.irqs

omit [Chip σ] in
/-- A close that meets the condition leaves nothing behind. -/
theorem Balanced.holds (h : Balanced t b i b') : Holds t b' i := by
  have hfree : ¬ (b'.chan i).isopen = 1 := by
    rw [h.free]
    decide
  refine ⟨fun ho => absurd ho hfree, ?_, ?_⟩
  · rw [if_neg hfree, h.regions]
  · rw [if_neg hfree, h.irqs]

/-- An open of a channel that holds nothing. -/
theorem Holds.open {env : OpenEnv} (h : Holds t b i)
    (hstep : Board.step t b (i, .open env) = some b') : Holds t b' i := by
  obtain ⟨s', hs', hchan, -, hopen⟩ := step_cases hstep
  obtain ⟨h0, rfl⟩ := Chan.drive_open hs'
  have hself : b'.chan i = (canOpen t env (b.chan i)).2 := by
    rw [hchan, Function.update_self]
  have hclosed : ¬ (b.chan i).isopen = 1 := (canOpen_path t (b.chan i) h0).2.1
  have hregions := h.regions
  have hirqs := h.irqs
  rw [if_neg hclosed] at hregions hirqs
  have hfoot := canOpen_footprint h0
  rw [hregions, hirqs, List.append_nil, List.append_nil, ← hself] at hfoot
  have hacq : b'.acquired t i = openAcquires t (b.chan i).sys.base (b.chan i).sys.irq := by
    rw [acquired, hopen ⟨env, rfl⟩, Function.update_self]
  have hone : (b'.chan i).isopen = 1 := congrArg Footprint.isopen hfoot
  refine ⟨fun _ => congrArg Footprint.canRange hfoot, ?_, ?_⟩
  · rw [if_pos hone, hacq]
    exact congrArg Footprint.regions hfoot
  · rw [if_pos hone, hacq]
    exact congrArg Footprint.irqs hfoot

/-- A step between an open and a close, a write to the arrays included. -/
theorem Holds.session {op : DrvOp σ} (h : Holds t b i) (hop : op.inSession = true)
    (hstep : Board.step t b (i, op) = some b') : Holds t b' i := by
  obtain ⟨s', hs', hchan, hother, -⟩ := step_cases hstep
  have hself : b'.chan i = s' := by
    rw [hchan, Function.update_self]
  have hne : ∀ env, op ≠ .open env := by
    rintro env rfl
    cases hop
  have hopened : b'.opened i = b.opened i := by rw [hother hne]
  by_cases hsys : ∃ sys, op = .sysctl sys
  · obtain ⟨sys, rfl⟩ := hsys
    obtain rfl := Option.some.inj hs'
    apply h.congr hopened
    · rw [hself]
    · rw [hself]
    · rw [hself]
    · rw [hself]
  · have hfoot := drive_footprint hop (fun sys he => hsys ⟨sys, he⟩) hs'
    rw [← hself] at hfoot
    exact h.congr hopened (congrArg Footprint.isopen hfoot) (congrArg Footprint.canRange hfoot)
      (congrArg Footprint.regions hfoot) (congrArg Footprint.irqs hfoot)

/-- A step of another channel. -/
theorem Holds.other {j : Fin maxChannels} {op : DrvOp σ} (h : Holds t b j) (hij : j ≠ i)
    (hstep : Board.step t b (i, op) = some b') : Holds t b' j := by
  obtain ⟨s', -, hchan, hother, hopen⟩ := step_cases hstep
  have hsame : b'.chan j = b.chan j := by
    rw [hchan, Function.update_of_ne hij]
  have hopened : b'.opened j = b.opened j := by
    by_cases hop : ∃ env, op = .open env
    · rw [hopen hop, Function.update_of_ne hij]
    · rw [hother (fun env he => hop ⟨env, he⟩)]
  apply h.congr hopened
  · rw [hsame]
  · rw [hsame]
  · rw [hsame]
  · rw [hsame]

/-- A step whose closes meet the condition keeps what every channel holds. -/
theorem Holds.step {a : Fin maxChannels × DrvOp σ} (h : ∀ i, Holds t b i)
    (hguard : Guard t b a) (hstep : Board.step t b a = some b') (j : Fin maxChannels) :
    Holds t b' j := by
  obtain ⟨i, op⟩ := a
  by_cases hij : j = i
  · subst hij
    cases op with
    | «open» env => exact (h j).open hstep
    | close => exact ((balanced_iff (h j) hstep).mpr (hguard rfl)).holds
    | write _ _ | read _ _ | command _ | config _ _ _ | sysctl _ | irq _ | timer | device _ =>
        exact (h j).session rfl hstep
  · exact (h j).other hij hstep

/-- **When open and close balance.**  In every run of the board whose closes so far meet the
    condition, the next close releases exactly what its open acquired, and leaves nothing
    behind, if and only if it meets the condition as well. -/
theorem close_balanced_iff {sys : Fin maxChannels → Sysctl} {chip : Fin maxChannels → σ}
    {acts : List (Fin maxChannels × DrvOp σ)}
    (hrun : Run.exec (Run.restrict (Board.step t) (Guard t)) (loaded t sys chip) acts = some b)
    (hclose : Board.step t b (i, .close) = some b') :
    Balanced t b i b' ↔ Meets t b i := by
  have hholds : ∀ i, Holds t b i :=
    Run.exec_restrict_invariant (P := fun b => ∀ i, Holds t b i)
      (fun _ _ _ h hguard hstep => Holds.step h hguard hstep) (holds_loaded sys chip) hrun
  exact balanced_iff (hholds i) hclose

/-- A board of controllers as they power on. -/
def sample (t : Target) : Board (Sja1000 t) :=
  loaded t (fun _ => Chan.unopened.sys) fun _ => Sja1000.powerOn

/-- A board of AT-CAN-MINI controllers: opened, a message written, closed. -/
theorem close_balanced_iff_reopened : ∃ b b' : Board (Sja1000 .atcanminiPelican),
    Run.exec (Run.restrict (Board.step .atcanminiPelican) (Guard .atcanminiPelican))
      (sample .atcanminiPelican)
      [(0, .open (.granted Canmsg.zero)), (0, .write true [.ofMsg Canmsg.zero]), (0, .close),
        (0, .open (.granted Canmsg.zero))] = some b ∧
    Board.step .atcanminiPelican b (0, .close) = some b' ∧
    (Balanced .atcanminiPelican b 0 b' ↔ Meets .atcanminiPelican b 0) := by
  have hopen : (Run.exec
      (Run.restrict (Board.step .atcanminiPelican) (Guard .atcanminiPelican))
      (sample .atcanminiPelican)
      [(0, .open (.granted Canmsg.zero)), (0, .write true [.ofMsg Canmsg.zero]), (0, .close),
        (0, .open (.granted Canmsg.zero))]).map (fun b => (b.chan 0).isopen) = some 1 := by
    decide
  obtain ⟨b, hb, hone⟩ := Option.map_eq_some_iff.mp hopen
  have hclose : Board.step .atcanminiPelican b (0, .close) = some
      { chan := Function.update b.chan 0 (canClose .atcanminiPelican (b.chan 0)).2
        opened := b.opened } := by
    simp [Board.step, writable, Chan.drive, Chan.ifOpen, hone]
  exact ⟨b, _, hb, hclose, close_balanced_iff hb hclose⟩

/-- In a memory-mapped build the region stays behind, and the next open is refused. -/
theorem close_keeps_region : ∃ b b' : Board (Sja1000 .imeSlimline),
    Run.exec (Board.step .imeSlimline)
      (sample .imeSlimline)
      [(0, .open (.granted Canmsg.zero))] = some b ∧
    Board.step .imeSlimline b (0, .close) = some b' ∧
    (b'.chan 0).held.regions = [(0x320, 0x20)] ∧ ¬ Balanced .imeSlimline b 0 b' := by
  have hrun : ((Run.exec (Board.step .imeSlimline)
      (sample .imeSlimline)
      [(0, .open (.granted Canmsg.zero))]).bind fun b => Board.step .imeSlimline b (0, .close)).map
        (fun b => (b.chan 0).held.regions) = some [(0x320, 0x20)] := by
    decide
  obtain ⟨b', hbind, hregions⟩ := Option.map_eq_some_iff.mp hrun
  obtain ⟨b, hb, hb'⟩ := Option.bind_eq_some_iff.mp hbind
  refine ⟨b, b', hb, hb', hregions, ?_⟩
  intro hbal
  rw [hbal.regions] at hregions
  cases hregions

end Board

end Can4linux
