/-
  Can4linux.Reinit

  The configuration that a reset or a reopening of the device finds again.
  `CAN_ChipReset` writes the controller from the sysctl arrays, and a `CONFIG`
  request is to keep its array and its registers together.  Four of the five do,
  in reset mode; `CONF_OMODE` writes the register alone, so that its value lasts
  until the controller is next initialised.

  The registers are compared with the arrays for any sequence of requests to a
  stopped device, from any state of it.  Bit timing and acceptance filter agree
  with their arrays once a request has set them, and otherwise if they did before
  (`configs_iff`); the output control is what was last asked for (`Chan.Driven`).
  A request for the bit timing to an operating device changes `Baud` and not the
  controller, and a frame written to a stopped one changes its filter: what the
  sequence finds is part of the condition.
-/

import Can4linux.Delay
import Can4linux.Filter
import Can4linux.Session

namespace Can4linux

variable {t : Target}

/-! ## The settings -/

/-- What `CAN_ChipReset` configures. -/
structure Settings where
  timing : U8 × U8
  code : CInt
  mask : CInt
  outc : U8
deriving DecidableEq

/-- The settings in the registers of the controller. -/
def Sja1000.settings (c : Sja1000 t) : Settings where
  timing := (c.regs Reg.cantim0.number, c.regs Reg.cantim1.number)
  code := c.acceptCode
  mask := c.acceptMask
  outc := c.regs Reg.canoutc.number

/-- The settings in the sysctl arrays. -/
def Chan.configured (s : Chan (Sja1000 t)) : Settings where
  timing := timingPair t s.sys.baud
  code := s.sys.accCode
  mask := s.sys.accMask
  outc := s.outcInForce.setWidth 8

/-- The timing registers after `CAN_SetTiming` in reset mode, and the register it leaves
    alone. -/
theorem Sja1000.regs_canSetTiming {c : Sja1000 t} (hres : c.inReset = true) (baud : CInt) :
    ((canSetTiming t baud c).regs Reg.cantim0.number,
        (canSetTiming t baud c).regs Reg.cantim1.number) = timingPair t baud ∧
      (canSetTiming t baud c).regs Reg.canoutc.number = c.regs Reg.canoutc.number := by
  -- three stores into three registers; reading the pair back changes nothing
  have hstore : ∀ (r : Reg), r.number ≠ 0 → r.number ≠ 1 → r.number < 16 ∨ 29 ≤ r.number →
      ∀ (v : U8) (regs : Nat → U8), canOut t r v { c with regs := regs } =
        { c with regs := Function.update regs r.number v } := fun r h0 h1 hframe v regs =>
    (Sja1000.canOut_setReg { c with regs := regs } h0 h1 hframe v).trans
      (Sja1000.setReg_reset { c with regs := regs } hres _ _)
  have hclk := hstore .canclk (by decide) (by decide) (.inr (by decide))
    (canModePelican + canModeClk) c.regs
  have htim0 := hstore .cantim0 (by decide) (by decide) (.inl (by decide))
  have htim1 := hstore .cantim1 (by decide) (by decide) (.inl (by decide))
  unfold canSetTiming timingPair
  cases rateIndex baud with
  | none =>
      simp only [hclk, htim0, htim1, Sja1000.canIn_snd (r := .cantim0) _ (by decide),
        Sja1000.canIn_snd (r := .cantim1) _ (by decide)]
      exact ⟨rfl, rfl⟩
  | some i =>
      simp only [hclk, htim0, htim1]
      exact ⟨rfl, rfl⟩

/-- A reset writes the settings as configured, and the arrays stay as they are in force. -/
theorem canChipReset_settings (s : Chan (Sja1000 t)) :
    (canChipReset t s).2.chip.settings = s.configured ∧
      (canChipReset t s).2.configured = s.configured := by
  obtain ⟨htiming, houtc⟩ := Sja1000.regs_canSetTiming (c := s.resetChip)
    (show isSet (canResetRequest + canModeDef) canResetRequest = true by decide) s.sys.baud
  obtain ⟨hcode, hmask⟩ := Sja1000.accept_maskFrame (t := t)
    { s.resetChip with
      acc := Sja1000.maskFrame s.sys.accCode s.sys.accMask s.chip.acc
      regs := (canSetTiming t s.sys.baud s.resetChip).regs } rfl
  rw [canChipReset_done]
  refine ⟨?_, ?_⟩
  · rw [Sja1000.settings, Chan.configured, hcode, hmask]
    exact congr_arg₂ (fun p o => Settings.mk p s.sys.accCode s.sys.accMask o) htiming houtc
  · -- a zero has been replaced, and the board's value is in force from then on
    have hforce : (if s.outcInForce = 0 then t.outcVal else s.outcInForce) = s.outcInForce := by
      unfold Chan.outcInForce
      split
      · split <;> rfl
      · rfl
    exact congrArg (fun o : CInt => Settings.mk (timingPair t s.sys.baud) s.sys.accCode
      s.sys.accMask (o.setWidth 8)) hforce

/-! ## What traffic leaves alone -/

/-- The arrays that configure the controller, and its registers outside the frame window. -/
structure Setup where
  baud : CInt
  accCode : CInt
  accMask : CInt
  outc : CInt
  regs : Nat → U8

/-- The set-up of a channel. -/
def Chan.setup (s : Chan (Sja1000 t)) : Setup where
  baud := s.sys.baud
  accCode := s.sys.accCode
  accMask := s.sys.accMask
  outc := s.sys.outc
  regs := s.chip.regs

section Traffic

variable (s : Chan (Sja1000 t))

theorem wakeWriters_setup : s.wakeWriters.setup = s.setup := by
  obtain ⟨n, hframe⟩ := wakeWriters_frame s
  rw [hframe]
  rfl

theorem disarm_setup : s.disarm.setup = s.setup := by
  obtain ⟨kapi, hframe⟩ := disarm_frame s
  rw [hframe]
  rfl

theorem Sja1000.load_regs (c : Sja1000 t) (m : Canmsg) : (c.load m).regs = c.regs := by
  unfold load
  split <;> rfl

theorem txConsume_setup : (txConsume t s).setup = s.setup := by
  rcases txConsume_cases s with ⟨-, heq⟩ | ⟨-, -, heq⟩ | ⟨-, -, heq⟩
  · rw [heq]
    rfl
  · obtain ⟨dw, kapi, hframe⟩ :=
      kapiScheduleDelayed_frame s (remainingDelay s.sys.baud s.txq.head.capLength)
    rw [heq, hframe]
    rfl
  · rw [heq]
    simp only [Chan.setup, Sja1000.load_regs]

theorem rxproduce_setup {produce : Canmsg → Sja1000 t → Canmsg × Sja1000 t}
    (hregs : (produce s.rxq.freeSlot s.chip).2.regs = s.chip.regs) :
    (rxproduce produce s).setup = s.setup := by
  cases hfull : s.rxq.full with
  | true =>
      rw [rxproduce_full hfull]
      rfl
  | false =>
      rw [rxproduce_room hfull]
      exact congrArg (Setup.mk s.sys.baud s.sys.accCode s.sys.accMask s.sys.outc) hregs

theorem rxIrq_setup (irqsrc : U8) (inf : Msginf) : (rxIrq t irqsrc inf s).setup = s.setup := by
  by_cases h : isSet irqsrc canReceiveInt
  · have hread : (readcanmsg t inf s.rxq.freeSlot s.chip).2.regs = s.chip.regs := by
      rw [s.chip.readcanmsg_eq]
    rw [rxIrq_eq inf s h]
    exact rxproduce_setup s hread
  · rw [rxIrq, if_neg h]

theorem errWarnIrq_setup (irqsrc : U8) (inf : Msginf) :
    (errWarnIrq t irqsrc inf s).2.2.setup = s.setup := by
  by_cases h : isSet irqsrc canErrorWarnInt
  · rw [errWarnIrq_eq inf s h]
    exact rxproduce_setup (s.onChip Sja1000.leaveReset) rfl
  · rw [errWarnIrq, if_neg h]

theorem txIrq_setup (irqsrc : U8) : (txIrq t irqsrc s).setup = s.setup := by
  unfold txIrq
  split
  · rw [wakeWriters_setup, txConsume_setup]
    rfl
  · rfl

theorem overrunIrq_setup (irqsrc : U8) (inf : Msginf) :
    (overrunIrq t irqsrc inf s).setup = s.setup := by
  by_cases h : isSet irqsrc canOverrunInt
  · rw [overrunIrq_eq inf s h]
    exact rxproduce_setup { s with sys := { s.sys with overrun := s.sys.overrun + 1 } } rfl
  · rw [overrunIrq, if_neg h]

theorem irqIteration_setup (tstamp : Timeval) : (irqIteration t tstamp s).setup = s.setup := by
  have hclear : s.clearIrq.setup = s.setup := rfl
  rw [irqIteration_eq]
  split
  · exact hclear
  · rw [irqBody, overrunIrq_setup, txIrq_setup, errWarnIrq_setup, rxIrq_setup, hclear]

theorem writeOne_setup (u : UserMsg) : (writeOne t u s).2.setup = s.setup := by
  cases hfull : s.txq.full with
  | true => rw [writeOne_full hfull]
  | false =>
      rw [writeOne_room hfull, kickIdle]
      split
      · rw [txConsume_setup]
        rfl
      · rfl

theorem canRead_setup (accessOk : Bool) (count : Nat) :
    (canRead accessOk count s).2.2.setup = s.setup := by
  cases accessOk with
  | false => rfl
  | true =>
      obtain ⟨rxq, hs, -, -⟩ := readLoop_spec count s
      simp only [canRead, Bool.not_true, Bool.false_eq_true, if_false, hs]
      rfl

end Traffic

/-- The steps that touch the set-up. -/
def Op.setsUp : Op → Bool
  | .open _ | .command _ | .config _ _ _ => true
  | _ => false

/-- Traffic, a close and the bus leave the set-up alone. -/
theorem Chan.step_setup {s s' : Chan (Sja1000 t)} {op : Op} (hop : op.setsUp = false)
    (h : s.step op = some s') : s'.setup = s.setup := by
  cases op with
  | «open» _ | command _ | config _ _ _ => cases hop
  | close =>
      obtain ⟨hopen, rfl⟩ := whenOpen_eq_some.mp h
      obtain ⟨held, hframe⟩ := canClose_frame t s hopen
      rw [hframe, Sja1000.canSet_canmode]
      rfl
  | write accessOk us =>
      obtain ⟨-, rfl⟩ := whenOpen_eq_some.mp h
      refine canWrite_rule (P := fun c => c.setup = s.setup) ?_ rfl accessOk us
      intro u c hc
      exact (writeOne_setup c u).trans hc
  | read accessOk count =>
      obtain ⟨-, rfl⟩ := whenOpen_eq_some.mp h
      exact canRead_setup s accessOk count
  | irq tstamp =>
      obtain ⟨-, rfl⟩ := whenOpen_eq_some.mp h
      exact irqIteration_setup s tstamp
  | timer =>
      obtain ⟨-, rfl⟩ := step_timer h
      rw [delayedmsgworker, wakeWriters_setup, txConsume_setup, disarm_setup]
  | arrive f =>
      obtain ⟨-, rfl⟩ := step_arrive h
      rfl
  | txDone =>
      obtain ⟨-, rfl⟩ := step_txDone h
      rfl
  | busEvent bits stat overrun =>
      obtain ⟨-, rfl⟩ := step_busEvent h
      rfl
  | busOff =>
      obtain rfl := step_busOff h
      rfl

/-! ## What initialises the controller -/

/-- A start leaves the settings alone. -/
theorem canStartChip_settings (s : Chan (Sja1000 t)) :
    (canStartChip t s).chip.settings = s.chip.settings ∧
      (canStartChip t s).configured = s.configured := by
  have hen := (Sja1000.canOut_setReg (t := t) (r := .canirqEnable)
    ({ s.chip with irq := 0 } : Sja1000 t) (by decide) (by decide) (.inl (by decide))
    (canOverrunInt + canErrorWarnInt + canTransmitInt + canReceiveInt)).trans
      (Sja1000.setReg_free _ (.inl (by decide)) _)
  simp only [canStartChip, Sja1000.canIn_canirq, hen, Sja1000.canReset_canmode]
  exact ⟨rfl, rfl⟩

/-- A successful open initialises the controller. -/
theorem open_settings {s s' : Chan (Sja1000 t)} {env : OpenEnv}
    (h : s.step (.open env) = some s') :
    s'.chip.settings = s.configured ∧ s'.configured = s.configured := by
  simp only [Chan.step] at h
  split at h
  · rename_i h0
    -- the channel that the reset finds has the arrays of the closed one
    obtain ⟨mid, hopen, hconf⟩ : ∃ mid, (canOpen t env s).2 =
        canStartChip t (canChipReset t mid).2 ∧ mid.configured = s.configured := by
      obtain ⟨ri, held, c, rxb, txb, -, -, -, -, hopen⟩ := canOpen_success t s h0
      exact ⟨_, hopen, rfl⟩
    obtain ⟨hchip, harrays⟩ := canChipReset_settings mid
    obtain ⟨hstart, hkeep⟩ := canStartChip_settings (canChipReset t mid).2
    rw [hconf] at hchip harrays
    rw [← Option.some.inj h]
    exact ⟨(congrArg (fun c => c.chip.settings) hopen).trans (hstart.trans hchip),
      (congrArg Chan.configured hopen).trans (hkeep.trans harrays)⟩
  · cases h

/-- An open and a stop leave the configured settings in a controller in reset mode. -/
theorem open_stop_settings {s s1 s2 : Chan (Sja1000 t)} {env : OpenEnv}
    (hopen : s.step (.open env) = some s1) (hstop : s1.step (.command cmdStop) = some s2) :
    s2.chip.inReset = true ∧ s2.chip.settings = s2.configured := by
  obtain ⟨hchip, harrays⟩ := open_settings hopen
  obtain ⟨-, rfl⟩ := Chan.whenOpen_eq_some.mp hstop
  have hframe : (canCommand t cmdStop s1).2 = s1.onChip Sja1000.enterReset := canStopChip_eq s1
  rw [hframe]
  exact ⟨s1.chip.enterReset_inReset, hchip.trans harrays.symm⟩

/-! ## Requests to a stopped device -/

/-- The step is a `CONFIG` request. -/
def Op.isConfig : Op → Bool
  | .config _ _ _ => true
  | _ => false

/-- The request sets the bit timing. -/
def Op.setsTiming : Op → Bool
  | .config target _ _ => target = confTiming
  | _ => false

/-- The value of the last `CONF_OMODE`, after a request. -/
def Op.omodeAfter (v : Option CLong) : Op → Option CLong
  | .config target val1 _ => if target = confOmode then some val1 else v
  | _ => v

/-- The value of the last `CONF_OMODE` among requests. -/
def lastOmode (cs : List Op) : Option CLong := cs.foldl Op.omodeAfter none

/-- The bit timing is the configured one. -/
def Chan.Timed (s : Chan (Sja1000 t)) : Prop :=
  s.chip.settings.timing = s.configured.timing

/-- The output control is the one last asked for, or without such a request that of `c`; what
    `CAN_ChipReset` writes there is the same as for `c`. -/
structure Chan.Driven (c : Chan (Sja1000 t)) (v : Option CLong) (s : Chan (Sja1000 t)) : Prop where
  outc : s.chip.settings.outc = (v.map (BitVec.setWidth 8)).getD c.chip.settings.outc
  inForce : s.outcInForce = c.outcInForce

section Stopped

variable {s : Chan (Sja1000 t)} (hres : s.chip.inReset = true)

/-- `CAN_SetMask` writes no register outside the frame window. -/
theorem Sja1000.canSetMask_regs (c : Sja1000 t) (code mask : CInt) :
    (canSetMask t code mask c).regs = c.regs := by
  rw [c.canSetMask_eq]
  split <;> rfl

/-- `CAN_SetOMode` on a stopped device. -/
theorem Sja1000.canSetOMode_reset {c : Sja1000 t} (hres : c.inReset = true) (arg : CInt) :
    canSetOMode t arg c =
      { c with regs := Function.update c.regs Reg.canoutc.number (arg.setWidth 8) } :=
  (c.canOut_setReg (by decide) (by decide) (.inl (by decide)) _).trans (c.setReg_reset hres _ _)

include hres

/-- A request to a stopped device sets the bit timing as configured, or leaves it and `Baud`
    alone. -/
theorem config_timed_iff (target : CInt) (val1 val2 : CLong) :
    (canConfig t target val1 val2 s).2.Timed ↔
      Op.setsTiming (.config target val1 val2) = true ∨ s.Timed := by
  have hkeep : ∀ {s' : Chan (Sja1000 t)}, s'.chip.regs = s.chip.regs →
      s'.sys.baud = s.sys.baud → (s'.Timed ↔ s.Timed) := by
    intro s' hregs hbaud
    rw [Chan.Timed, Chan.Timed, Sja1000.settings, Chan.configured, hregs, hbaud]
    rfl
  simp only [Op.setsTiming, decide_eq_true_eq]
  unfold canConfig
  by_cases h3 : target = confTiming
  · rw [if_neg (by rw [h3]; decide), if_neg (by rw [h3]; decide), if_neg (by rw [h3]; decide),
      if_pos h3]
    exact iff_of_true (Sja1000.regs_canSetTiming hres (val1.setWidth 32)).1 (.inl h3)
  rw [or_iff_right h3]
  -- the filter requests write the frame window only, `CONF_OMODE` only the output control
  split
  · exact hkeep (Sja1000.canSetMask_regs _ _ _) rfl
  · split
    · exact hkeep (Sja1000.canSetMask_regs _ _ _) rfl
    · split
      · exact hkeep (Sja1000.canSetMask_regs _ _ _) rfl
      · split
        · rw [Chan.onChip, Sja1000.canSetOMode_reset hres]
          exact Iff.rfl
        · exact Iff.rfl

/-- The output control of a stopped device follows the requests. -/
theorem Chan.Driven.config {c : Chan (Sja1000 t)} {v : Option CLong} (h : c.Driven v s)
    (target : CInt) (val1 val2 : CLong) :
    c.Driven (Op.omodeAfter v (.config target val1 val2)) (canConfig t target val1 val2 s).2 := by
  -- every other request leaves `Outc` and its register alone
  have hkeep : ∀ {s' : Chan (Sja1000 t)}, target ≠ confOmode →
      s'.chip.regs Reg.canoutc.number = s.chip.regs Reg.canoutc.number →
      s'.outcInForce = s.outcInForce →
      c.Driven (Op.omodeAfter v (.config target val1 val2)) s' := by
    intro s' hne hregs hforce
    rw [Op.omodeAfter, if_neg hne]
    exact ⟨Eq.trans hregs h.outc, hforce.trans h.inForce⟩
  unfold canConfig
  by_cases h0 : target = confAcc
  · rw [if_pos h0]
    exact hkeep (by rw [h0]; decide) (congrFun (Sja1000.canSetMask_regs _ _ _) _) rfl
  by_cases h1 : target = confAccm
  · rw [if_neg h0, if_pos h1]
    exact hkeep (by rw [h1]; decide) (congrFun (Sja1000.canSetMask_regs _ _ _) _) rfl
  by_cases h2 : target = confAccc
  · rw [if_neg h0, if_neg h1, if_pos h2]
    exact hkeep (by rw [h2]; decide) (congrFun (Sja1000.canSetMask_regs _ _ _) _) rfl
  by_cases h3 : target = confTiming
  · rw [if_neg h0, if_neg h1, if_neg h2, if_pos h3]
    exact hkeep (by rw [h3]; decide) (Sja1000.regs_canSetTiming hres (val1.setWidth 32)).2 rfl
  rw [if_neg h0, if_neg h1, if_neg h2, if_neg h3]
  by_cases h4 : target = confOmode
  · have hwidth : ((val1.setWidth 32).setWidth 8 : U8) = val1.setWidth 8 :=
      BitVec.setWidth_setWidth_of_le val1 (by decide)
    rw [if_pos h4, Op.omodeAfter, if_pos h4, Chan.onChip, Sja1000.canSetOMode_reset hres, hwidth]
    exact ⟨rfl, h.inForce⟩
  · rw [if_neg h4]
    exact hkeep h4 rfl rfl

/-- A request to a stopped device writes the filter as configured, or leaves it and the arrays
    behind it alone. -/
theorem config_mirrors_iff (target : CInt) (val1 val2 : CLong) :
    Mirrors (canConfig t target val1 val2 s).2 ↔
      Op.setsFilter (.config target val1 val2) = true ∨ Mirrors s := by
  simp only [Op.setsFilter, Bool.or_eq_true, decide_eq_true_eq]
  unfold canConfig
  by_cases h0 : target = confAcc
  · rw [if_pos h0]
    exact iff_of_true (Mirrors.setMask hres) (.inl (.inl (.inl h0)))
  by_cases h1 : target = confAccm
  · rw [if_neg h0, if_pos h1]
    exact iff_of_true (Mirrors.setMask hres) (.inl (.inl (.inr h1)))
  by_cases h2 : target = confAccc
  · rw [if_neg h0, if_neg h1, if_pos h2]
    exact iff_of_true (Mirrors.setMask hres) (.inl (.inr h2))
  rw [if_neg h0, if_neg h1, if_neg h2]
  -- no other request touches the filter or the arrays behind it
  have hnone : ¬ ((target = confAcc ∨ target = confAccm) ∨ target = confAccc) := by
    rintro ((h | h) | h)
    · exact h0 h
    · exact h1 h
    · exact h2 h
  rw [or_iff_right hnone]
  by_cases h3 : target = confTiming
  · obtain ⟨regs, htiming⟩ := s.chip.canSetTiming_frame (val1.setWidth 32)
    rw [if_pos h3, Chan.onChip, htiming]
    exact ⟨fun h => ⟨h.code, h.mask⟩, fun h => ⟨h.code, h.mask⟩⟩
  by_cases h4 : target = confOmode
  · obtain ⟨regs, homode⟩ := s.chip.canSetOMode_frame (val1.setWidth 32)
    rw [if_neg h3, if_pos h4, Chan.onChip, homode]
    exact ⟨fun h => ⟨h.code, h.mask⟩, fun h => ⟨h.code, h.mask⟩⟩
  · rw [if_neg h3, if_neg h4]

/-- The rule for sequences of requests: a request keeps the device stopped, so each one finds
    what the first did. -/
theorem configs_rule {P : List Op → Chan (Sja1000 t) → Prop} {s' : Chan (Sja1000 t)}
    {cs : List Op} (hnil : P [] s)
    (hsnoc : ∀ cs c target val1 val2, c.chip.inReset = true → P cs c →
      P (cs ++ [.config target val1 val2]) (canConfig t target val1 val2 c).2)
    (hconf : ∀ op ∈ cs, op.isConfig = true) (hrun : Run.exec Chan.step s cs = some s') :
    P cs s' ∧ s'.chip.inReset = true := by
  -- from the end of the sequence: the last request finds what the ones before it left
  induction cs using List.reverseRecOn generalizing s' with
  | nil =>
      obtain rfl := Option.some.inj hrun
      exact ⟨hnil, hres⟩
  | append_singleton cs op ih =>
      rw [Run.exec_append, Option.bind_eq_some_iff] at hrun
      obtain ⟨mid, hmid, hlast⟩ := hrun
      rw [Run.exec_cons, Option.bind_eq_some_iff] at hlast
      obtain ⟨last, hstep, hend⟩ := hlast
      obtain rfl := Option.some.inj hend
      obtain ⟨hP, hmode⟩ := ih (fun op hop => hconf op (List.mem_append_left _ hop)) hmid
      cases op with
      | config target val1 val2 =>
          obtain ⟨-, rfl⟩ := Chan.whenOpen_eq_some.mp hstep
          obtain ⟨sys, acc, txbuf, regs, hchip⟩ := canConfig_chip mid target val1 val2
          refine ⟨hsnoc cs mid target val1 val2 hmode hP, ?_⟩
          rw [hchip]
          exact hmode
      | _ => exact absurd (hconf _ (List.mem_append_right _ List.mem_cons_self)) Bool.false_ne_true

/-- What one kind of request brings about and the others leave alone holds after a sequence of
    requests exactly if one of them was of that kind, or it held before. -/
theorem configs_iff {Q : Chan (Sja1000 t) → Prop} {f : Op → Bool}
    (hQ : ∀ c : Chan (Sja1000 t), c.chip.inReset = true → ∀ target val1 val2,
      (Q (canConfig t target val1 val2 c).2 ↔ f (.config target val1 val2) = true ∨ Q c))
    {s' : Chan (Sja1000 t)} {cs : List Op} (hconf : ∀ op ∈ cs, op.isConfig = true)
    (hrun : Run.exec Chan.step s cs = some s') :
    Q s' ↔ (∃ op ∈ cs, f op = true) ∨ Q s := by
  refine (configs_rule hres (P := fun cs c => Q c ↔ (∃ op ∈ cs, f op = true) ∨ Q s) ?_ ?_
    hconf hrun).1
  · simp
  · intro cs c target val1 val2 hmode hP
    rw [hQ c hmode, hP, ← or_assoc, or_comm (a := f _ = true)]
    simp only [List.mem_append, List.mem_singleton, or_and_right, exists_or, exists_eq_left]

end Stopped

/-! ## Initialising the controller again -/

/-- The controller is initialised again: by `CMD_RESET`, or by a close and the next successful
    open, whatever happens while the device is closed. -/
inductive Chan.Reinit (s s' : Chan (Sja1000 t)) : Prop
  | reset (h : s.step (.command cmdReset) = some s')
  | reopen {s1 s2 : Chan (Sja1000 t)} {env : OpenEnv} {ops : List Op}
      (hclose : s.step .close = some s1)
      (hquiet : Run.exec (Run.restrict Chan.step fun c _ => c.isopen ≠ 1) s1 ops = some s2)
      (hopen : s2.step (.open env) = some s')

/-- Either way the controller gets the settings that were configured before. -/
theorem Chan.Reinit.settings {s s' : Chan (Sja1000 t)} (h : s.Reinit s') :
    s'.chip.settings = s.configured := by
  -- the configured settings are a function of the set-up
  have hsetup : ∀ {c c' : Chan (Sja1000 t)}, c'.setup = c.setup → c'.configured = c.configured :=
    fun hsame => congrArg (fun u : Setup => Settings.mk (timingPair t u.baud) u.accCode u.accMask
      ((if u.outc = 0 then t.outcVal else u.outc).setWidth 8)) hsame
  cases h with
  | reset h =>
      obtain ⟨-, rfl⟩ := whenOpen_eq_some.mp h
      exact (canChipReset_settings s).1
  | @reopen s1 s2 env ops hclose hquiet hopen =>
      have hclosed : s2.configured = s1.configured := by
        refine closed_run (P := fun c => c.configured = s1.configured) ?_ rfl hquiet
          (step_open hopen).1
        intro c op c' hne hop hsame hstep
        -- a closed device takes no commands and no requests
        cases hset : op.setsUp with
        | false => exact (hsetup (step_setup hset hstep)).trans hsame
        | true =>
            cases op with
            | «open» env => exact absurd rfl (hop env)
            | command _ | config _ _ _ => exact absurd (whenOpen_eq_some.mp hstep).1 hne
            | close | write _ _ | read _ _ | irq _ | timer | arrive _ | txDone | busEvent _ _ _
              | busOff => cases hset
      rw [(open_settings hopen).1, hclosed]
      exact hsetup (step_setup rfl hclose)

/-- The settings are the configured ones exactly if each part is. -/
theorem settings_eq_iff {s : Chan (Sja1000 t)} : s.chip.settings = s.configured ↔
    s.Timed ∧ s.chip.settings.outc = s.outcInForce.setWidth 8 ∧ Mirrors s := by
  constructor
  · intro heq
    exact ⟨congrArg Settings.timing heq, congrArg Settings.outc heq, congrArg Settings.code heq,
      congrArg Settings.mask heq⟩
  · rintro ⟨htiming, hout, hcode, hmask⟩
    exact congr (congr (congr (congrArg Settings.mk htiming) hcode) hmask) hout

/-- From any state of a stopped device, for every sequence of `CONFIG` requests: initialising the
    controller again leaves bit timing, output control and acceptance filter as they were
    exactly if the sequence sets the bit timing or found the configured one in the controller;
    the last `CONF_OMODE` of the sequence asks for the output control in `Outc`, or without such
    a request the controller had it; and the sequence sets the filter or found the configured
    one in the controller. -/
theorem reinit_settings_iff {s s2 s' : Chan (Sja1000 t)} {cs : List Op}
    (hstopped : s.chip.inReset = true) (hconf : ∀ op ∈ cs, op.isConfig = true)
    (hcs : Run.exec Chan.step s cs = some s2) (hre : s2.Reinit s') :
    s'.chip.settings = s2.chip.settings ↔
      ((∃ op ∈ cs, op.setsTiming = true) ∨ s.chip.settings.timing = s.configured.timing) ∧
        ((lastOmode cs).map (BitVec.setWidth 8)).getD s.chip.settings.outc =
          s.outcInForce.setWidth 8 ∧
        ((∃ op ∈ cs, op.setsFilter = true) ∨ Mirrors s) := by
  have hdriven : s.Driven (lastOmode cs) s2 :=
    (configs_rule hstopped (P := fun cs c => s.Driven (lastOmode cs) c) ⟨rfl, rfl⟩
      (fun cs c target val1 val2 hmode h => by
        rw [lastOmode, List.foldl_append]
        exact h.config hmode target val1 val2) hconf hcs).1
  -- what is written is what was configured, so the question is whether that was in force
  rw [hre.settings, eq_comm, settings_eq_iff, hdriven.outc, hdriven.inForce,
    configs_iff hstopped (fun c hmode => config_timed_iff hmode) hconf hcs,
    configs_iff hstopped (fun c hmode => config_mirrors_iff hmode) hconf hcs]
  rfl

/-- The channel of the AT-CAN-MINI build, opened and stopped. -/
def Chan.stopped : Chan (Sja1000 .atcanminiPelican) :=
  (canCommand .atcanminiPelican cmdStop Chan.opened).2

/-- Timing and filter are set on the stopped device, and the output control to what the board
    has; a reset keeps all of it. -/
theorem reinit_settings_iff_kept : ∃ s2 s' : Chan (Sja1000 .atcanminiPelican), s2.Reinit s' ∧
    (s'.chip.settings = s2.chip.settings ↔
      ((∃ op ∈ [Op.config confTiming 500 0, .config confOmode 0xfa 0,
          .config confAcc 0xffff 0x1234], op.setsTiming = true) ∨
        Chan.stopped.chip.settings.timing = Chan.stopped.configured.timing) ∧
      ((lastOmode [Op.config confTiming 500 0, .config confOmode 0xfa 0,
          .config confAcc 0xffff 0x1234]).map (BitVec.setWidth 8)).getD
        Chan.stopped.chip.settings.outc = Chan.stopped.outcInForce.setWidth 8 ∧
      ((∃ op ∈ [Op.config confTiming 500 0, .config confOmode 0xfa 0,
          .config confAcc 0xffff 0x1234], op.setsFilter = true) ∨ Mirrors Chan.stopped)) := by
  obtain ⟨s', hs'⟩ := Option.isSome_iff_exists.mp (show (Run.exec Chan.step Chan.stopped
    ([.config confTiming 500 0, .config confOmode 0xfa 0, .config confAcc 0xffff 0x1234] ++
      [.command cmdReset])).isSome = true by decide)
  rw [Run.exec_append, Option.bind_eq_some_iff] at hs'
  obtain ⟨s2, hs2, hs'⟩ := hs'
  rw [Run.exec_cons, Option.bind_eq_some_iff] at hs'
  obtain ⟨c, hc, hs'⟩ := hs'
  obtain rfl := Option.some.inj hs'
  exact ⟨s2, c, .reset hc, reinit_settings_iff (by decide) (by decide) hs2 (.reset hc)⟩

/-- Another output control is requested from the stopped device, and the controller is reset:
    it has the board's output control again. -/
theorem omode_reverted : ¬ ∀ (cs : List Op) (s2 s' : Chan (Sja1000 .atcanminiPelican)),
    (∀ op ∈ cs, op.isConfig = true) → Run.exec Chan.step Chan.stopped cs = some s2 →
      s2.Reinit s' → s'.chip.settings = s2.chip.settings := by
  intro h
  obtain ⟨s2, hs2, hbefore⟩ := Option.map_eq_some_iff.mp
    (show (Run.exec Chan.step Chan.stopped [.config confOmode 0x1b 0]).map
      (fun c => (c.isopen, c.chip.settings.outc, c.outcInForce)) = some (1, 0x1b, 0xfa) by decide)
  obtain ⟨hopen, hout, hforce⟩ : s2.isopen = 1 ∧ s2.chip.settings.outc = 0x1b ∧
      s2.outcInForce = 0xfa := by simpa using hbefore
  have hreset : s2.step (.command cmdReset) = some (canCommand _ cmdReset s2).2 :=
    Chan.whenOpen_eq_some.mpr ⟨hopen, rfl⟩
  have hsame := h _ s2 _ (by decide) hs2 (.reset hreset)
  rw [Chan.Reinit.settings (.reset hreset)] at hsame
  have hafter : s2.outcInForce.setWidth 8 = s2.chip.settings.outc := congrArg Settings.outc hsame
  rw [hforce, hout] at hafter
  exact absurd hafter (by decide)

end Can4linux
