/-
  Can4linux.Window

  The registers that the driver touches.  All accesses go through `CANin` and
  `CANout` with the address of a register; the address depends on data in two
  places, the loops over the data bytes, and both are kept in bounds: `sendcanmsg`
  caps the length at eight, `readcanmsg` takes the length code modulo nine.

  So no run of the driver leaves the 32 registers of the controller, but for the
  reset of the board in two builds.  That one stays in the window that is requested
  and mapped for the first controller of the board, and leaves it for the second.

  The PCI build is not among these: it requests no window, and its handler ends with
  two stores to the bridge of the board, behind a mapping of its own.
-/

import Can4linux.Stop

namespace Can4linux

/-! ## A rule for functions that stay in the window -/

section Rule

variable {σ : Type} [Chip σ] {t : Target} {P : σ → Prop}

/-- What survives every access to one of the 32 registers. -/
structure Within (t : Target) (P : σ → Prop) : Prop where
  input : ∀ (r : Reg) c, r.number < 32 → P c → P (canIn t r c).2
  output : ∀ (r : Reg) v c, r.number < 32 → P c → P (canOut t r v c)

namespace Within

variable (h : Within t P) {c : σ} (hc : P c)

include h hc

theorem set {r : Reg} (hr : r.number < 32) (m : U8) : P (canSet t r m c) :=
  h.output _ _ _ hr (h.input _ _ hr hc)

theorem reset {r : Reg} (hr : r.number < 32) (m : U8) : P (canReset t r m c) :=
  h.output _ _ _ hr (h.input _ _ hr hc)

/-- A loop over data registers stays in the window if its last round does. -/
theorem writeData {reg : Nat → Reg} {n : Nat} (hreg : ∀ i < n, (reg i).number < 32)
    (m : Canmsg) : P (writeData t reg m n c) := by
  induction n with
  | zero => exact hc
  | succ n ih =>
      exact h.output _ _ _ (hreg n (Nat.lt_succ_self n)) (ih fun i hi => hreg i (by omega))

theorem readData {reg : Nat → Reg} {n : Nat} (hreg : ∀ i < n, (reg i).number < 32)
    (d : Fin 8 → U8) : P (readData t reg n d c).2 := by
  induction n with
  | zero => exact hc
  | succ n ih =>
      exact h.input _ _ (hreg n (Nat.lt_succ_self n)) (ih fun i hi => hreg i (by omega))

/-- With the length capped the data of a message end in register 28 at the latest. -/
theorem loadFrame {m : Canmsg} (hm : m.rounds ≤ 8) : P (loadFrame t m c) := by
  have hext : ∀ i < m.rounds, (Reg.extCanxdata i).number < 32 := by
    intro i hi
    simp only [Reg.number]
    omega
  have hstd : ∀ i < m.rounds, (Reg.stdCandata i).number < 32 := by
    intro i hi
    simp only [Reg.number]
    omega
  refine h.output _ _ _ (by decide) ?_
  unfold writeFrame
  split
  · refine h.writeData ?_ hext m
    exact h.output _ _ _ (by decide) (h.output _ _ _ (by decide) (h.output _ _ _ (by decide)
      (h.output _ _ _ (by decide) (h.output _ _ _ (by decide) hc))))
  · refine h.writeData ?_ hstd m
    exact h.output _ _ _ (by decide) (h.output _ _ _ (by decide) (h.output _ _ _ (by decide) hc))

/-- Whatever the frame information register reads, at most eight data registers are read. -/
theorem readcanmsg (inf : Msginf) (msg : Canmsg) : P (readcanmsg t inf msg c).2 := by
  have hinfo := h.input .frameinfo c (by decide) hc
  have hlt : ((canIn t .frameinfo c).1 &&& 0x0f).toNat % 9 < 9 := Nat.mod_lt _ (by decide)
  refine h.output _ _ _ (by decide) (h.readData ?_ ?_ _)
  -- four identifier registers, or two
  · split
    · exact h.input _ _ (by decide) (h.input _ _ (by decide) (h.input _ _ (by decide)
        (h.input _ _ (by decide) hinfo)))
    · exact h.input _ _ (by decide) (h.input _ _ (by decide) hinfo)
  · intro i hi
    split
    · simp only [Reg.number]
      omega
    · simp only [Reg.number]
      omega

theorem canSetTiming (baud : CInt) : P (canSetTiming t baud c) := by
  have hclk := h.output .canclk (canModePelican + canModeClk) c (by decide) hc
  unfold Can4linux.canSetTiming
  simp only
  split
  · exact h.input _ _ (by decide) (h.input _ _ (by decide)
      (h.output _ _ _ (by decide) (h.output _ _ _ (by decide) hclk)))
  · exact h.output _ _ _ (by decide) (h.output _ _ _ (by decide) hclk)

theorem canSetMask (code mask : CInt) : P (canSetMask t code mask c) := by
  have h1 := h.output .frameinfo ((code >>> 24 &&& 0xff).setWidth 8) c (by decide) hc
  have h2 := h.output .extCanid1 ((code >>> 16 &&& 0xff).setWidth 8) _ (by decide) h1
  have h3 := h.output .extCanid2 ((code >>> 8 &&& 0xff).setWidth 8) _ (by decide) h2
  have h4 := h.output .extCanid3 ((code >>> 0 &&& 0xff).setWidth 8) _ (by decide) h3
  have h5 := h.output .extCanid4 ((mask >>> 24 &&& 0xff).setWidth 8) _ (by decide) h4
  have h6 := h.output (.extCanxdata 0) ((mask >>> 16 &&& 0xff).setWidth 8) _ (by decide) h5
  have h7 := h.output (.extCanxdata 1) ((mask >>> 8 &&& 0xff).setWidth 8) _ (by decide) h6
  exact h.output (.extCanxdata 2) ((mask >>> 0 &&& 0xff).setWidth 8) _ (by decide) h7

theorem requestReset : P (requestReset t c).2 :=
  h.input _ _ (by decide) (h.input _ _ (by decide) (h.output _ _ _ (by decide) hc))

theorem undoReset : P (undoReset t c) := by
  have hmode := h.input .canmode c (by decide) hc
  unfold Can4linux.undoReset
  simp only
  split
  · exact h.reset hmode (by decide) _
  · exact hmode

theorem lostTxInt (txinprogress : CInt) (irqsrc : U8) : P (lostTxInt t txinprogress irqsrc c).2 := by
  unfold Can4linux.lostTxInt
  split
  · exact h.input _ _ (by decide) hc
  · exact hc

end Within

/-! ### On a channel -/

namespace Within

variable (h : Within t P) {s : Chan σ} (hs : P s.chip)

include h hs

theorem canStartChip : P (canStartChip t s).chip :=
  h.reset (h.output _ _ _ (by decide) (h.input _ _ (by decide) hs)) (by decide) _

theorem canStopChip : P (canStopChip t s).chip := h.set hs (by decide) _

theorem canChipReset : P (canChipReset t s).2.chip := by
  have hreq := h.requestReset hs
  unfold Can4linux.canChipReset
  simp only
  split
  · exact hreq
  · exact h.canSetMask (h.canSetTiming (h.output _ _ _ (by decide) (h.output _ _ _ (by decide)
      (h.output _ _ _ (by decide) hreq))) _) _ _

theorem txConsume : P (txConsume t s).chip := by
  rw [txConsume_eq]
  split
  · exact hs
  · split
    · obtain ⟨dw, k, hframe⟩ := kapiScheduleDelayed_frame s
        (remainingDelay s.sys.baud s.txq.head.capLength)
      rw [hframe]
      exact hs
    · exact h.loadFrame hs (Canmsg.rounds_capLength_le _)

theorem writeOne (u : UserMsg) : P (writeOne t u s).2.chip := by
  rcases writeOne_any t s u with ⟨-, heq⟩ | ⟨-, heq⟩
  · rw [heq]
    exact hs
  · rw [heq]
    unfold kickIdle
    split
    · exact h.txConsume hs
    · exact hs

theorem canWrite (accessOk : Bool) (us : List UserMsg) : P (canWrite t accessOk us s).2.chip :=
  canWrite_rule (P := fun s => P s.chip) (fun u _ hs => h.writeOne hs u) hs accessOk us

/-! #### Interrupts -/

theorem rxIrq (irqsrc : U8) (inf : Msginf) : P (rxIrq t irqsrc inf s).chip := by
  have hprod : P (Can4linux.rxproduce (Can4linux.readcanmsg t inf) s).chip :=
    Keeps.rxproduce hs fun m _ hc => h.readcanmsg hc inf m
  have hread := h.input .canstat _ (by decide) hprod
  unfold Can4linux.rxIrq
  split
  · simp only
    split
    · exact h.output _ _ _ (by decide) hread
    · exact hread
  · exact hs

theorem errWarnIrq (irqsrc : U8) (inf : Msginf) : P (errWarnIrq t irqsrc inf s).2.2.chip := by
  have hstat := h.input .canstat _ (by decide) (h.undoReset hs)
  unfold Can4linux.errWarnIrq
  split
  · simp only
    split
    · exact Keeps.rxproduce (h.lostTxInt hstat _ _) fun _ _ hc => hc
    · exact Keeps.rxproduce hstat fun _ _ hc => hc
  · exact hs

theorem txIrq (irqsrc : U8) : P (txIrq t irqsrc s).chip := by
  unfold Can4linux.txIrq
  split
  · exact Keeps.wakeWriters (h.txConsume (s := { s with txinprogress := 0 }) hs)
  · exact hs

theorem overrunIrq (irqsrc : U8) (inf : Msginf) : P (overrunIrq t irqsrc inf s).chip := by
  unfold Can4linux.overrunIrq
  split
  · exact h.output _ _ _ (by decide)
      (Keeps.rxproduce (h.input _ _ (by decide) hs) fun _ _ hc => hc)
  · exact hs

theorem irqIteration (tstamp : Timeval) : P (irqIteration t tstamp s).chip := by
  have hread := h.input .canirq _ (by decide) hs
  unfold Can4linux.irqIteration
  simp only
  split
  · exact hread
  · exact h.overrunIrq (h.txIrq (h.errWarnIrq
      (h.rxIrq (s := { s with chip := (canIn t .canirq s.chip).2 }) hread _ _) _ _) _) _ _

/-! #### File operations -/

theorem canClose : P (canClose t s).2.chip := by
  have hstop := h.canStopChip hs
  obtain ⟨h1, hregion⟩ := releaseRegion_frame (Can4linux.canStopChip t s) t
  obtain ⟨h2, hfifo⟩ := canFifoCleanup_frame { Can4linux.canStopChip t s with held := h1 }
  have hrelease : P (closeRelease t s).chip := by
    rw [closeRelease, hregion, hfifo]
    exact hstop
  rw [canClose_stages]
  split
  · exact hrelease
  · exact hrelease

theorem canCommand (cmd : CInt) : P (canCommand t cmd s).2.chip := by
  unfold Can4linux.canCommand
  split
  · exact h.canStartChip hs
  · split
    · exact h.canStopChip hs
    · split
      · exact h.canChipReset hs
      · exact hs

theorem canConfig (target : CInt) (val1 val2 : CLong) :
    P (canConfig t target val1 val2 s).2.chip := by
  unfold Can4linux.canConfig
  split
  · exact h.canSetMask hs _ _
  · split
    · exact h.canSetMask hs _ _
    · split
      · exact h.canSetMask hs _ _
      · split
        · exact h.canSetTiming hs _
        · split
          · exact h.output _ _ _ (by decide) hs
          · exact hs

theorem canGetStat (stat : CanStatusPar) : P (canGetStat t stat s).2.2.chip :=
  h.input _ _ (by decide) (h.input _ _ (by decide) (h.input _ _ (by decide)
    (h.input _ _ (by decide) (h.input _ _ (by decide) hs))))

theorem canIoctl (cmd : CInt) (env : IoctlEnv) : P (canIoctl t cmd env s).2.2.chip := by
  rcases canIoctl_cases t s cmd env with ⟨c, -, -, heq⟩ | ⟨a, -, -, heq⟩ | ⟨-, -, heq | ⟨stat, heq⟩⟩
  · rw [heq]
    exact h.canCommand hs c
  · rw [heq]
    exact h.canConfig hs a.1 a.2.1 a.2.2
  · rw [heq]
    exact hs
  · rw [heq]
    exact h.canGetStat hs stat

end Within

end Rule

/-! ## The window of a controller -/

/-- The offset of an access. -/
def Event.offset : Event → Nat
  | .inb off _ => off
  | .outb off _ => off

/-- The bytes that `CAN_VendorInit` requests for each controller.  Behind indexed ports it is the
    index that counts. -/
def Target.window (t : Target) : Nat := t.canRange.toNat

/-- Whether `CAN_VendorInit` resets the board through a register of its own. -/
def Target.hasReset : Target → Bool
  | .ixxatPci03 | .pcm3680 => true
  | _ => false

/-- The window has room for the 32 registers, which on the PCI board are four bytes apart. -/
theorem Reg.offset_lt_window {t : Target} (ht : t ≠ .cpcPci) {r : Reg} (hr : r.number < 32) :
    r.offset t < t.window := by
  have hroom : t.stride * 32 ≤ t.window := by
    cases t with
    | cpcPci => exact absurd rfl ht
    | _ => decide
  rw [r.offset_eq]
  exact Nat.lt_of_lt_of_le (Nat.mul_lt_mul_of_pos_left hr t.stride_pos) hroom

namespace Recorder

variable {σ : Type}

/-- The accesses on record that are outside the window. -/
def strays (t : Target) (c : Recorder σ) : List Event :=
  c.log.filter fun e => t.window ≤ e.offset

/-- One more access. -/
theorem strays_snoc {t : Target} {c c' : Recorder σ} {e : Event} (hlog : c'.log = c.log ++ [e]) :
    c'.strays t = c.strays t ++ if t.window ≤ e.offset then [e] else [] := by
  rw [strays, hlog, List.filter_append, strays]
  by_cases hout : t.window ≤ e.offset
  · simp [hout]
  · simp [hout]

variable [Chip σ] {t : Target}

theorem within_strays (ht : t ≠ .cpcPci) (es : List Event) :
    Within t fun c : Recorder σ => c.strays t = es where
  input r c hr hc := by
    rw [strays_snoc (log_canIn t r c), Event.offset,
      if_neg (Nat.not_le.mpr (Reg.offset_lt_window ht hr)), List.append_nil, hc]
  output r v c hr hc := by
    rw [strays_snoc (log_canOut t r v c), Event.offset,
      if_neg (Nat.not_le.mpr (Reg.offset_lt_window ht hr)), List.append_nil, hc]

/-- The reset of the first controller is inside the window, and that of the second is not. -/
theorem strays_boardReset (base : CInt) (c : Recorder σ) :
    (boardReset t base c).strays t =
      c.strays t ++ if t.hasReset && isSet base 0x200 then [.outb 0x300 0xff] else [] := by
  have hout : ∀ off, (Chip.outb off 0xff c).strays t =
      c.strays t ++ if t.window ≤ off then [.outb off 0xff] else [] := fun off =>
    strays_snoc (e := .outb off 0xff) rfl
  unfold boardReset
  split
  · rw [hout]
    cases isSet base 0x200 <;> rfl
  · rw [hout]
    cases isSet base 0x200 <;> rfl
  · rename_i hixxat hpcm
    have hno : t.hasReset = false := by
      cases t with
      | ixxatPci03 => exact absurd rfl hixxat
      | pcm3680 => exact absurd rfl hpcm
      | _ => rfl
    simp [hno]

end Recorder

section Open

variable {σ : Type} [Chip σ] {t : Target} (s : Chan (Recorder σ)) (env : OpenEnv)

/-- Whether an open of a closed device gets to the reset of the second controller of a board. -/
def opensSecond (t : Target) (s : Chan (Recorder σ)) (env : OpenEnv) : Bool :=
  t.hasReset && s.isopen != 1 && env.regionFree && isSet s.sys.base 0x200

omit [Chip σ] in
/-- A board with a reset of its own has its region requested. -/
theorem regionFree_of_hasReset {s s' : Chan (Recorder σ)} {env : OpenEnv}
    (hreset : t.hasReset = true) (hregion : requestRegion t env s = some s') :
    env.regionFree = true := by
  have hsome : t.requestRegion s.sys.base s.canRange = some (s.sys.base, s.canRange) := by
    cases t with
    | ixxatPci03 | pcm3680 => rfl
    | _ => cases hreset
  unfold requestRegion at hregion
  rw [hsome] at hregion
  split at hregion
  · rename_i hnone
    cases hnone
  · split at hregion
    · assumption
    · cases hregion

/-- `CAN_VendorInit` makes the reset if it gets the region. -/
theorem strays_canVendorInit : (canVendorInit t env s).2.chip.strays t =
    s.chip.strays t ++
      if t.hasReset && env.regionFree && isSet s.sys.base 0x200 then [.outb 0x300 0xff] else [] := by
  cases hregion : requestRegion t env { s with canRange := t.canRange } with
  | none =>
      have hbusy : env.regionFree = false := by
        unfold requestRegion at hregion
        split at hregion
        · cases hregion
        · split at hregion
          · cases hregion
          · rename_i hfree
            simpa using hfree
      simp [canVendorInit, hregion, hbusy]
  | some s' =>
      obtain ⟨held, rfl⟩ := requestRegion_frame _ hregion
      -- only the boards without a reset do without the request
      have hfree : (t.hasReset && env.regionFree) = t.hasReset := by
        cases hreset : t.hasReset with
        | false => rfl
        | true => exact regionFree_of_hasReset hreset hregion
      have hchip : (canVendorInit t env s).2.chip = boardReset t s.sys.base s.chip := by
        simp only [canVendorInit, hregion]
        split
        · split
          · rfl
          · rename_i s' hirq
            obtain ⟨h2, rfl⟩ := canRequestIrq_frame _ hirq
            rfl
        · rfl
      rw [hchip, Recorder.strays_boardReset, hfree]

theorem strays_canOpen (ht : t ≠ .cpcPci) (hminor : (3#32).ult s.minor = false) :
    (canOpen t env s).2.chip.strays t =
      s.chip.strays t ++ if opensSecond t s env then [.outb 0x300 0xff] else [] := by
  have hwithin := Recorder.within_strays (σ := σ) ht
  have hvendor := strays_canVendorInit (t := t) { s.incusers with isopen := 1 } env
  unfold opensSecond
  rw [canOpen_stages, if_neg (by simp [hminor])]
  by_cases hopen : s.isopen = 1
  · rw [if_pos hopen, hopen]
    simp
    rfl
  rw [if_neg hopen]
  by_cases hbase : s.sys.base = 0
  · have hzero : isSet s.sys.base 0x200 = false := hbase ▸ isSet_zero _
    rw [if_pos hbase, hzero, Bool.and_false, if_neg (by decide), List.append_nil]
    rfl
  rw [if_neg hbase]
  have hne : (s.isopen != 1) = true := by simpa using hopen
  rw [hne, Bool.and_true]
  -- behind the reset of the board there is nothing outside
  have hfifo : (openFifo t env s).2.chip = (openVendor t env s).2.chip := by
    obtain ⟨txq, held, hframe⟩ := canFifoInit_frame { (openVendor t env s).2 with wq := 0 } env
    rw [openFifo, hframe]
  have hreset : (openReset t env s).2.chip.strays t = (openVendor t env s).2.chip.strays t :=
    (hwithin _).canChipReset (congrArg (Recorder.strays t) hfifo)
  split
  · exact hvendor
  · split
    · exact (congrArg (Recorder.strays t) hfifo).trans hvendor
    · split
      · exact hreset.trans hvendor
      · exact (hwithin _).canStartChip (hreset.trans hvendor)

end Open

/-! ## Runs -/

namespace Channels

variable {σ : Type} [Chip σ] (t : Target)

/-- What a step does outside the window that is requested for channel `j`: an open resets the
    second controller of a board. -/
def stray (j : Fin maxChannels) (S : Channels σ) (l : Fin maxChannels × ChanOp σ) : List Event :=
  match l.2 with
  | .open env =>
      if l.1 = j ∧ opensSecond t (S.chan j) env = true then [.outb 0x300 0xff] else []
  | _ => []

variable {t} {S S' : Channels σ}

/-- Every operation but an open stays in the window. -/
theorem strays_chanAfter (ht : t ≠ .cpcPci) (h : PoolOk S) (i : Fin maxChannels) (op : ChanOp σ) :
    (chanAfter t op (S.chan i)).chip.strays t =
      (S.chan i).chip.strays t ++ stray t i S (i, op) := by
  have hwithin := Recorder.within_strays (σ := σ) ht ((S.chan i).chip.strays t)
  have hself : (S.chan i).chip.strays t = (S.chan i).chip.strays t := rfl
  cases op with
  | «open» env =>
      have hminor : (3#32).ult (S.chan i).minor = false := by
        have hdevs : ∀ i : Fin maxChannels, (3#32).ult (BitVec.ofNat 32 i) = false := by decide
        rw [h.minor i]
        exact hdevs i
      simp only [stray, true_and]
      exact strays_canOpen _ _ ht hminor
  | close => exact (hwithin.canClose hself).trans (List.append_nil _).symm
  | write accessOk us =>
      exact (hwithin.canWrite hself accessOk us).trans (List.append_nil _).symm
  | read accessOk count =>
      have hchip : (canRead accessOk count (S.chan i)).2.2.chip = (S.chan i).chip := by
        cases accessOk with
        | false => rfl
        | true =>
            obtain ⟨rxq, hframe, -, -⟩ := readLoop_spec count (S.chan i)
            simp only [canRead, Bool.not_true, Bool.false_eq_true, if_false, hframe]
      exact (congrArg (Recorder.strays t) hchip).trans (List.append_nil _).symm
  | ioctl cmd env => exact (hwithin.canIoctl hself cmd env).trans (List.append_nil _).symm
  | sysctl sys => exact (List.append_nil _).symm
  | irq tstamp => exact (hwithin.irqIteration hself tstamp).trans (List.append_nil _).symm
  | timer =>
      obtain ⟨k, hframe⟩ := disarm_frame (S.chan i)
      have hdis : (S.chan i).disarm.chip.strays t = (S.chan i).chip.strays t := by rw [hframe]
      exact (Keeps.wakeWriters (P := fun c : Recorder σ => c.strays t = _)
        (hwithin.txConsume hdis)).trans (List.append_nil _).symm
  | device c => exact (List.append_nil _).symm

theorem strays_step (ht : t ≠ .cpcPci) (h : PoolOk S) {l : Fin maxChannels × ChanOp σ}
    (hstep : step t S l = some S') (j : Fin maxChannels) :
    (S'.chan j).chip.strays t = (S.chan j).chip.strays t ++ stray t j S l := by
  obtain ⟨i, op⟩ := l
  obtain ⟨-, hown, -, hothers⟩ := step_spec t h hstep
  by_cases hij : j = i
  · rw [hij, hown]
    exact strays_chanAfter ht h i op
  · obtain ⟨-, kapi, hkapi⟩ := hothers j hij
    have hnone : stray t j S (i, op) = [] := by
      unfold stray
      split
      · exact if_neg fun hand => hij hand.1.symm
      · rfl
    rw [hkapi, hnone, List.append_nil]

/-- **What the driver does outside its window.**  In every build that requests one, whatever a
    controller answers, in every run the accesses to it that are outside its window are the
    resets of the second controller of a board: one store of `0xff` at `0x300`, behind the 0x200
    bytes requested and mapped, for each open that gets to it.  Builds for other boards than
    these two make none. -/
theorem strays_run (ht : t ≠ .cpcPci) {sys : Fin maxChannels → Sysctl} {dev : Fin maxChannels → σ}
    {ls : List (Fin maxChannels × ChanOp σ)}
    (hrun : Run.exec (step t) (loaded t sys dev) ls = some S) (j : Fin maxChannels) :
    (S.chan j).chip.strays t = Run.observe (step t) (stray t j) (loaded t sys dev) ls := by
  have hload : PoolOk (loaded t sys dev) := poolOk_loaded t sys dev
  -- along the run the accesses so far are those that the steps account for
  have hrule : ([] ++ Run.observe (step t) (stray t j) (loaded t sys dev) ls) =
      (S.chan j).chip.strays t ∧ PoolOk S := by
    refine Run.exec_observe (P := fun es S => es = (S.chan j).chip.strays t ∧ PoolOk S) ?_
      ⟨rfl, hload⟩ hrun
    rintro es S l S' ⟨hes, h⟩ hstep
    refine ⟨?_, step_poolOk t h hstep⟩
    rw [hes, strays_step ht h hstep]
  exact hrule.1.symm

/-- Two controllers of a PCM-3680 board, the second one at an address with bit `0x200`. -/
def board : Channels Floating :=
  loaded .pcm3680 (fun i => { Chan.unopened.sys with base := if i = 1 then 0xd8200 else 0xd8000 })
    fun _ => ⟨0xff⟩

/-- Both are opened, and a frame is written to the second. -/
def openBoth : List (Fin maxChannels × ChanOp Floating) :=
  [(0, .open (.granted Canmsg.zero)), (1, .open (.granted Canmsg.zero)),
    (1, .write true [.ofMsg Canmsg.zero])]

theorem strays_run_two : ∃ S,
    Run.exec (step .pcm3680) board openBoth = some S ∧
    (S.chan 1).chip.strays .pcm3680 =
      Run.observe (step .pcm3680) (stray .pcm3680 1) board openBoth := by
  have hsome : (Run.exec (step .pcm3680) board openBoth).isSome = true := by
    decide
  obtain ⟨S, hS⟩ := Option.isSome_iff_exists.mp hsome
  exact ⟨S, hS, strays_run (by decide) hS 1⟩

end Channels

end Can4linux
