/-
  Can4linux.Filter

  The acceptance filter of the controller mirrors `AccCode` and `AccMask`.  Its
  registers are those of the transmit buffer, told apart by the reset mode; the
  driver never looks at the mode before it writes to them.  So the filter is
  safe in every run that writes it in reset mode and frames in operating mode.
-/

import Can4linux.Flow

namespace Can4linux

variable {t : Target}

/-! ## The filter as the controller holds it -/

namespace Sja1000

/-- The acceptance code in registers 16 to 19, most significant byte first. -/
def acceptCode (c : Sja1000 t) : CInt :=
  ((c.acc.reg 0).setWidth 32 <<< 24) + ((c.acc.reg 1).setWidth 32 <<< 16) +
    ((c.acc.reg 2).setWidth 32 <<< 8) + (c.acc.reg 3).setWidth 32

/-- The acceptance mask in registers 20 to 23. -/
def acceptMask (c : Sja1000 t) : CInt :=
  ((c.acc.reg 4).setWidth 32 <<< 24) + ((c.acc.reg 5).setWidth 32 <<< 16) +
    ((c.acc.reg 6).setWidth 32 <<< 8) + (c.acc.reg 7).setWidth 32

end Sja1000

/-- The four bytes that `CAN_SetMask` cuts a word into make up the word. -/
theorem bytes_join (x : CInt) :
    (((x >>> 24 &&& 0xff).setWidth 8 : U8).setWidth 32 <<< 24) +
      (((x >>> 16 &&& 0xff).setWidth 8 : U8).setWidth 32 <<< 16) +
      (((x >>> 8 &&& 0xff).setWidth 8 : U8).setWidth 32 <<< 8) +
      ((x >>> 0 &&& 0xff).setWidth 8 : U8).setWidth 32 = x := by
  -- each byte is a quotient modulo 256, and the shifts put them back in place
  have hmask : ∀ n : Nat, n &&& 255 = n % 256 := fun n => Nat.and_two_pow_sub_one_eq_mod n 8
  have hff : (0xff : CInt).toNat = 255 := rfl
  have hx := x.isLt
  apply BitVec.eq_of_toNat_eq
  simp only [BitVec.toNat_add, BitVec.toNat_shiftLeft, BitVec.toNat_ushiftRight,
    BitVec.toNat_setWidth, BitVec.toNat_and, Nat.shiftLeft_eq, Nat.shiftRight_eq_div_pow, hff,
    hmask]
  omega

/-- The frame registers read back as what `CAN_SetMask` put there. -/
theorem Sja1000.accept_maskFrame (c : Sja1000 t) {code mask : CInt} {f : Frame}
    (h : c.acc = maskFrame code mask f) : c.acceptCode = code ∧ c.acceptMask = mask := by
  constructor
  · rw [acceptCode, h]
    simp (disch := decide) only [maskFrame, Frame.reg_setReg_ne, Frame.reg_setReg_self]
    exact bytes_join code
  · rw [acceptMask, h]
    simp (disch := decide) only [maskFrame, Frame.reg_setReg_ne, Frame.reg_setReg_self]
    exact bytes_join mask

/-! ## The invariant -/

/-- The filter in the controller is the configured one. -/
structure Mirrors (s : Chan (Sja1000 t)) : Prop where
  code : s.chip.acceptCode = s.sys.accCode
  mask : s.chip.acceptMask = s.sys.accMask

namespace Mirrors

variable {s s' : Chan (Sja1000 t)}

theorem of_eq (h : Mirrors s) (hacc : s'.chip.acc = s.chip.acc)
    (hcode : s'.sys.accCode = s.sys.accCode) (hmask : s'.sys.accMask = s.sys.accMask) :
    Mirrors s' := by
  constructor
  · rw [Sja1000.acceptCode, hacc, hcode]
    exact h.code
  · rw [Sja1000.acceptMask, hacc, hmask]
    exact h.mask

theorem of_txSide (h : Mirrors s) (hside : s'.txSide = s.txSide) : Mirrors s' :=
  h.of_eq (congrArg TxSide.acc hside) (congrArg TxSide.accCode hside)
    (congrArg TxSide.accMask hside)

/-- The consumer touches the filter only when it loads a frame in reset mode. -/
theorem txConsume (h : Mirrors s) (hop : s.consumes = true → s.chip.inReset = false) :
    Mirrors (txConsume t s) := by
  rcases txConsume_cases s with ⟨-, heq⟩ | ⟨-, -, heq⟩ | ⟨hne, hw, heq⟩
  · rw [heq]
    exact h.of_eq rfl rfl rfl
  · obtain ⟨dw, kapi, hframe⟩ :=
      kapiScheduleDelayed_frame s (remainingDelay s.sys.baud s.txq.head.capLength)
    rw [heq, hframe]
    exact h.of_eq rfl rfl rfl
  · have hcons : s.consumes = true := by
      simp [Chan.consumes, hne, hw]
    rw [heq]
    exact h.of_eq (s.chip.load_acc _ (hop hcons)) rfl rfl

/-- `CAN_SetMask` in reset mode writes the filter as configured. -/
theorem setMask (hres : s.chip.inReset = true) : Mirrors (setMask t s) := by
  have hacc : (Can4linux.setMask t s).chip.acc =
      Sja1000.maskFrame s.sys.accCode s.sys.accMask s.chip.acc := by
    simp only [Can4linux.setMask, Chan.onChip, Sja1000.canSetMask_eq, hres, if_true]
  obtain ⟨hcode, hmask⟩ := Sja1000.accept_maskFrame _ hacc
  exact ⟨hcode, hmask⟩

/-- A filter that is configured in reset mode is the configured one. -/
theorem config (h : Mirrors s) {target : CInt} {val1 val2 : CLong}
    (hmode : (target = confAcc ∨ target = confAccm ∨ target = confAccc) →
      s.chip.inReset = true) : Mirrors (canConfig t target val1 val2 s).2 := by
  have hset : ∀ code mask : CInt, s.chip.inReset = true →
      Mirrors (Can4linux.setMask t
        { s with sys := { s.sys with accMask := mask, accCode := code } }) :=
    fun _ _ hres => setMask hres
  unfold canConfig
  -- three requests write the filter, the others registers outside it
  by_cases h0 : target = confAcc
  · rw [if_pos h0]
    exact hset (val2.setWidth 32) (val1.setWidth 32) (hmode (.inl h0))
  by_cases h1 : target = confAccm
  · rw [if_neg h0, if_pos h1]
    exact hset s.sys.accCode (val1.setWidth 32) (hmode (.inr (.inl h1)))
  by_cases h2 : target = confAccc
  · rw [if_neg h0, if_neg h1, if_pos h2]
    exact hset (val1.setWidth 32) s.sys.accMask (hmode (.inr (.inr h2)))
  by_cases h3 : target = confTiming
  · obtain ⟨regs, htiming⟩ := s.chip.canSetTiming_frame (val1.setWidth 32)
    rw [if_neg h0, if_neg h1, if_neg h2, if_pos h3]
    simp only [Chan.onChip, htiming]
    exact h.of_eq rfl rfl rfl
  by_cases h4 : target = confOmode
  · obtain ⟨regs, homode⟩ := s.chip.canSetOMode_frame (val1.setWidth 32)
    rw [if_neg h0, if_neg h1, if_neg h2, if_neg h3, if_pos h4]
    simp only [Chan.onChip, homode]
    exact h.of_eq rfl rfl rfl
  · rw [if_neg h0, if_neg h1, if_neg h2, if_neg h3, if_neg h4]
    exact h

/-- A start and a stop leave the filter alone, a reset writes it anew. -/
theorem command (h : Mirrors s) (cmd : CInt) : Mirrors (canCommand t cmd s).2 := by
  unfold canCommand
  split
  · obtain ⟨regs, hstart⟩ := canStartChip_eq s
    rw [hstart]
    exact h.of_eq rfl rfl rfl
  · split
    · rw [canStopChip_eq]
      exact h.of_eq rfl rfl rfl
    · split
      · obtain ⟨o, regs, hreset⟩ := canChipReset_eq s
        rw [hreset]
        obtain ⟨hcode, hmask⟩ := Sja1000.accept_maskFrame (t := t)
          { s.chip with
            mode := canResetRequest + canModeDef, tx := none
            acc := Sja1000.maskFrame s.sys.accCode s.sys.accMask s.chip.acc
            regs := regs } rfl
        exact ⟨hcode, hmask⟩
      · exact h

/-- An iteration runs the consumer in operating mode, or in reset mode on a message that
    waits. -/
theorem irq (h : Mirrors s) (tstamp : Timeval)
    (hload : s.loadsInReset (.irq tstamp) = false) : Mirrors (irqIteration t tstamp s) := by
  obtain ⟨mid, hmid, hside⟩ := irqIteration_txSide tstamp s
  have hentry : Mirrors s.irqEntry := by
    obtain ⟨mode, hframe⟩ := s.irqEntry_frame
    rw [hframe]
    exact h.of_eq rfl rfl rfl
  have hm : Mirrors mid := hentry.of_txSide hmid
  refine Mirrors.of_txSide ?_ hside
  split
  · rename_i hsig
    -- the consumer runs: the guard says in which mode it loads
    have hclear : Mirrors { mid with txinprogress := 0 } := hm.of_eq rfl rfl rfl
    refine hclear.txConsume ?_
    intro hcons
    have hop : mid.chip.inReset = false := Chan.irq_loads_operating hload hmid hsig hcons
    exact hop
  · exact hm

theorem timer (h : Mirrors s) (hload : s.loadsInReset .timer = false) :
    Mirrors (delayedmsgworker t s.disarm) := by
  obtain ⟨kapi, hdis⟩ := disarm_frame s
  have hcons : Mirrors (Can4linux.txConsume t s.disarm) := by
    rw [hdis]
    refine (h.of_eq rfl rfl rfl : Mirrors { s with kapi := kapi }).txConsume ?_
    intro hc
    have hc' : s.consumes = true := hc
    simpa [Chan.loadsInReset, hc'] using hload
  exact hcons.of_txSide (wakeWriters_txSide _)

/-- A write loads a frame in operating mode, or its first message waits. -/
theorem write {v w : List Canmsg} (h : Mirrors s) (hflow : Flow v w s) {accessOk : Bool}
    {us : List UserMsg} (hload : s.loadsInReset (.write accessOk us) = false) :
    Mirrors (canWrite t accessOk us s).2 := by
  refine (Chan.canWrite_operating_rule (P := fun c => Mirrors c ∧ Flow v w c)
    ?_ ?_ ?_ ⟨h, hflow⟩ hload).1
  · rintro u c ⟨hc, hf⟩ hfull -
    exact ⟨hc.of_eq rfl rfl rfl, hf.enqueue hfull u⟩
  · rintro u c ⟨hc, hf⟩ hfull hidle hop
    refine ⟨?_, (hf.enqueue hfull u).kickIdle⟩
    rw [kickIdle_enqueue hidle]
    have henq : Mirrors { c.enqueue u with txq := (c.enqueue u).txq.setIdle false } :=
      hc.of_eq rfl rfl rfl
    exact henq.txConsume hop
  · rintro u c ⟨-, hf⟩ hfull hidle
    exact kickIdle_busy hidle (hf.enqueue_ne_empty hfull u)

/-- A successful open leaves the filter as configured. -/
theorem of_open {env : OpenEnv} (hstep : s.step (.open env) = some s') : Mirrors s' := by
  obtain ⟨-, ri, held, o, c, regs, rxb, txb, rfl⟩ := Chan.step_open hstep
  obtain ⟨hcode, hmask⟩ := Sja1000.accept_maskFrame (t := t)
    { c with
      mode := canModeDef, irq := 0, tx := none
      acc := Sja1000.maskFrame s.sys.accCode s.sys.accMask c.acc, regs := regs } rfl
  exact ⟨hcode, hmask⟩

end Mirrors

/-! ## Runs -/

/-- The `CONFIG` requests that write the filter. -/
def Op.setsFilter : Op → Bool
  | .config target _ _ => target = confAcc || target = confAccm || target = confAccc
  | _ => false

/-- The filter is written in reset mode only, frames in operating mode only. -/
def Chan.keepsFilter (s : Chan (Sja1000 t)) (op : Op) : Bool :=
  !s.loadsInReset op && (!op.setsFilter || s.chip.inReset)

/-- The system of these steps. -/
def Chan.filterStep : Chan (Sja1000 t) → Op → Option (Chan (Sja1000 t)) :=
  Run.restrict Chan.step fun s op => s.keepsFilter op = true

theorem Mirrors.step {v w : List Canmsg} {s s' : Chan (Sja1000 t)} {op : Op} (h : Mirrors s)
    (hflow : Flow v w s) (hguard : s.keepsFilter op = true) (hstep : s.step op = some s') :
    Mirrors s' := by
  have hload : s.loadsInReset op = false := by
    simp only [Chan.keepsFilter, Bool.and_eq_true, Bool.not_eq_true'] at hguard
    exact hguard.1
  cases op with
  | «open» env => exact Mirrors.of_open hstep
  | close =>
      obtain ⟨hopen, rfl⟩ := Chan.whenOpen_eq_some.mp hstep
      obtain ⟨held, hframe⟩ := canClose_frame t s hopen
      rw [hframe, Sja1000.canSet_canmode]
      exact h.of_eq rfl rfl rfl
  | write accessOk us =>
      obtain ⟨-, rfl⟩ := Chan.whenOpen_eq_some.mp hstep
      exact h.write hflow hload
  | read accessOk count =>
      obtain ⟨-, rfl⟩ := Chan.whenOpen_eq_some.mp hstep
      exact h.of_txSide (canRead_txSide s accessOk count)
  | command cmd =>
      obtain ⟨-, rfl⟩ := Chan.whenOpen_eq_some.mp hstep
      exact h.command cmd
  | config target val1 val2 =>
      obtain ⟨-, rfl⟩ := Chan.whenOpen_eq_some.mp hstep
      refine h.config ?_
      intro htarget
      have hsets : Op.setsFilter (.config target val1 val2) = true := by
        simpa [Op.setsFilter, or_assoc] using htarget
      simpa [Chan.keepsFilter, hsets, hload] using hguard
  | irq tstamp =>
      obtain ⟨-, rfl⟩ := Chan.whenOpen_eq_some.mp hstep
      exact h.irq tstamp hload
  | timer =>
      obtain ⟨-, rfl⟩ := Chan.step_timer hstep
      exact h.timer hload
  | arrive f =>
      obtain ⟨-, rfl⟩ := Chan.step_arrive hstep
      exact h.of_eq rfl rfl rfl
  | txDone =>
      obtain ⟨-, rfl⟩ := Chan.step_txDone hstep
      exact h.of_eq rfl rfl rfl
  | busEvent bits stat overrun =>
      obtain ⟨-, rfl⟩ := Chan.step_busEvent hstep
      exact h.of_eq rfl rfl rfl
  | busOff =>
      obtain rfl := Chan.step_busOff hstep
      exact h.of_eq rfl rfl rfl

/-- **The filter mirrors the configuration.**  After a successful open, in every run in
    which filter requests are made in reset mode and no frame is loaded there, the
    acceptance code and mask of the controller are the configured ones. -/
theorem filter_mirrors {s0 s1 s : Chan (Sja1000 t)} {env : OpenEnv} {ops : List Op}
    (hreached : Reached s0) (hopen : s0.step (.open env) = some s1)
    (hrun : Run.exec Chan.filterStep s1 ops = some s) :
    s.chip.acceptCode = s.sys.accCode ∧ s.chip.acceptMask = s.sys.accMask := by
  obtain ⟨hrx, htx⟩ := hreached.bounds
  have hstart : Mirrors s1 ∧ ∃ v w, Flow v w s1 :=
    ⟨Mirrors.of_open hopen, _, _, Flow.of_open hrx htx hopen⟩
  have hs := Run.exec_restrict_invariant (P := fun s => Mirrors s ∧ ∃ v w, Flow v w s)
    (fun s op s' hs hguard hstep => ?_) hstart hrun
  · exact ⟨hs.1.code, hs.1.mask⟩
  · obtain ⟨hm, v, w, hflow⟩ := hs
    refine ⟨hm.step hflow hguard hstep, ?_⟩
    -- the flow is needed for the writes of later steps, a reopening included
    by_cases hop : ∃ env, op = .open env
    · obtain ⟨env', rfl⟩ := hop
      exact ⟨_, _, Flow.of_open hflow.rxWf.bound hflow.txWf.bound hstep⟩
    · exact ⟨v, w, hflow.step (fun env' he => hop ⟨env', he⟩) hstep⟩

/-- A filter is set the documented way: stop, configure, start; then a frame is sent. -/
theorem filter_mirrors_configured : ∃ s, Run.exec Chan.filterStep Chan.opened
    [.command cmdStop, .config confAcc 0xffff 0x12345678, .command cmdStart,
      .write true [.ofMsg Canmsg.zero]] = some s ∧
    s.chip.acceptCode = s.sys.accCode ∧ s.chip.acceptMask = s.sys.accMask := by
  obtain ⟨s, hs⟩ := Option.isSome_iff_exists.mp (show (Run.exec Chan.filterStep Chan.opened
    [.command cmdStop, .config confAcc 0xffff 0x12345678, .command cmdStart,
      .write true [.ofMsg Canmsg.zero]]).isSome = true by decide)
  exact ⟨s, hs, filter_mirrors reached_unopened Chan.step_opened hs⟩

/-- A message written while the controller is stopped goes into the filter: after the start
    the filter is not the configured one.  So does, the other way round, a filter that is
    configured in operating mode: it goes into the transmit buffer. -/
theorem filter_overwritten :
    (Run.exec Chan.step Chan.opened
      [.command cmdStop, .write true [.ofMsg Canmsg.zero], .command cmdStart]).map
      (fun s => (s.chip.inReset, s.chip.acceptCode == s.sys.accCode)) = some (false, false) ∧
    (Run.exec Chan.step Chan.opened [.config confAccc 0x12345678 0]).map
      (fun s => (s.chip.inReset, s.chip.acceptCode == s.sys.accCode)) =
        some (false, false) := by
  decide +kernel

end Can4linux
