/-
  Can4linux.RxPath

  The receive path neither loses, duplicates nor reorders frames.  What has been
  returned, what is queued and what is still in the controller make up one
  sequence (`RxHolds`); an arriving frame extends it at the end, and everything
  else, with room in the queue or without, leaves it as it is.
-/

import Can4linux.System

namespace Can4linux

variable {t : Target}

/-! ## The sequence -/

/-- The messages that `readcanmsg` filled, seen as frames; error messages carry the
    identifier `0xFFFFFFFF`. -/
def nonErrors (ms : List Canmsg) : List RxView :=
  (ms.filter fun m => m.id != 0xFFFFFFFF).map Canmsg.view

theorem nonErrors_append (ms ns : List Canmsg) :
    nonErrors (ms ++ ns) = nonErrors ms ++ nonErrors ns := by
  simp [nonErrors]

/-- Every frame the driver knows of: returned, then queued, then in the controller. -/
def Chan.rxTotal (s : Chan (Sja1000 t)) : List RxView :=
  nonErrors s.hist.returned ++ nonErrors s.rxq.contents ++ s.chip.rxfifo.map Frame.view

/-- The channel receives in operating mode and holds the frames `v`. -/
structure RxHolds (k : Nat) (v : List RxView) (s : Chan (Sja1000 t)) : Prop where
  wf : s.rxq.WF k
  operating : s.chip.inReset = false
  total : s.rxTotal = v

/-- A received identifier has at most 29 bits, so it is not the one of error messages. -/
theorem decodeId_ne (f : Frame) : ((decodeId f).setWidth 64 : CLong) ≠ 0xFFFFFFFF := by
  have hlt : (decodeId f).toNat < 2 ^ 29 := by
    have h1 := (f.reg 1).isLt
    have h2 := (f.reg 2).isLt
    have h3 := (f.reg 3).isLt
    have h4 := (f.reg 4).isLt
    unfold decodeId
    split
    · simp only [BitVec.toNat_add, BitVec.toNat_shiftLeft, BitVec.toNat_ushiftRight,
        BitVec.toNat_setWidth, Nat.shiftLeft_eq, Nat.shiftRight_eq_div_pow]
      omega
    · simp only [BitVec.toNat_add, BitVec.toNat_shiftLeft, BitVec.toNat_ushiftRight,
        BitVec.toNat_setWidth, Nat.shiftLeft_eq, Nat.shiftRight_eq_div_pow]
      omega
  intro h
  have hnat := congrArg BitVec.toNat h
  rw [BitVec.toNat_setWidth, Nat.mod_eq_of_lt (by omega)] at hnat
  rw [hnat] at hlt
  exact absurd hlt (by decide)

/-- The message `readcanmsg` makes of a frame counts as that frame. -/
theorem nonErrors_decodeMsg (rxstatus : CInt) (tstamp : Timeval) (slot : Canmsg) (f : Frame) :
    nonErrors [decodeMsg ⟨presetFlags rxstatus, tstamp⟩ slot f] = [f.view] := by
  have hne : (decodeMsg ⟨presetFlags rxstatus, tstamp⟩ slot f).id ≠ 0xFFFFFFFF := decodeId_ne f
  rw [nonErrors, List.filter_cons_of_pos (by simpa using hne)]
  simp [view_decodeMsg]

/-- An error message counts as no frame. -/
theorem nonErrors_errmsg (inf : Msginf) (slot : Canmsg) : nonErrors [errmsg inf slot] = [] := by
  simp [nonErrors, errmsg]

/-! ## What the steps do to the sequence -/

namespace RxHolds

variable {k : Nat} {v : List RxView} {s s' : Chan (Sja1000 t)}

theorem of_rxSide (h : RxHolds k v s) (hsame : s'.rxSide = s.rxSide) : RxHolds k v s' := by
  have hrxq : s'.rxq = s.rxq := congrArg RxSide.rxq hsame
  have hfifo : s'.chip.rxfifo = s.chip.rxfifo := congrArg RxSide.rxfifo hsame
  have hmode : s'.chip.mode = s.chip.mode := congrArg RxSide.mode hsame
  have hret : s'.hist.returned = s.hist.returned := congrArg RxSide.returned hsame
  refine ⟨hrxq ▸ h.wf, ?_, ?_⟩
  · rw [Sja1000.inReset, hmode]
    exact h.operating
  · rw [Chan.rxTotal, hrxq, hfifo, hret]
    exact h.total

/-- An error message goes into the queue, or is dropped: no frame is concerned. -/
theorem err (h : RxHolds k v s) (inf : Msginf) : RxHolds k v (rxproduceErr inf s) := by
  cases hfull : s.rxq.full with
  | true =>
      rw [rxproduceErr, rxproduce_full hfull]
      exact ⟨h.wf, h.operating, h.total⟩
  | false =>
      have hcont := h.wf.contents_produce hfull (errmsg inf s.rxq.freeSlot)
      rw [rxproduceErr, rxproduce_room hfull]
      refine ⟨(h.wf.fill _).publish hfull, h.operating, ?_⟩
      show nonErrors s.hist.returned ++
        nonErrors (s.rxq.fill (errmsg inf s.rxq.freeSlot)).publish.contents ++
          s.chip.rxfifo.map Frame.view = v
      rw [hcont, nonErrors_append, nonErrors_errmsg, List.append_nil]
      exact h.total

/-- The receive branch moves the oldest frame into the queue, or leaves it where it is. -/
theorem rxIrq (h : RxHolds k v s) {irqsrc : U8} (tstamp : Timeval) (rxstatus : CInt)
    (hbit : isSet irqsrc canReceiveInt = true → s.chip.rxfifo ≠ []) :
    RxHolds k v (rxIrq t irqsrc ⟨presetFlags rxstatus, tstamp⟩ s) := by
  by_cases hb : isSet irqsrc canReceiveInt
  · obtain ⟨f, fs, hfifo⟩ := List.exists_cons_of_ne_nil (hbit hb)
    have hshown : s.chip.shown = f := by
      simp [Sja1000.shown, h.operating, hfifo]
    rw [rxIrq_eq _ s hb]
    cases hfull : s.rxq.full with
    | true =>
        -- no room: the frame stays in the controller
        rw [rxproduce_full hfull]
        exact ⟨h.wf, h.operating, h.total⟩
    | false =>
        have hcont := h.wf.contents_produce hfull
          (decodeMsg ⟨presetFlags rxstatus, tstamp⟩ s.rxq.freeSlot f)
        rw [rxproduce_room hfull, s.chip.readcanmsg_eq, hshown]
        refine ⟨(h.wf.fill _).publish hfull, h.operating, ?_⟩
        show nonErrors s.hist.returned ++ nonErrors
          (s.rxq.fill (decodeMsg ⟨presetFlags rxstatus, tstamp⟩ s.rxq.freeSlot f)).publish.contents
            ++ s.chip.rxfifo.tail.map Frame.view = v
        rw [hcont, nonErrors_append, nonErrors_decodeMsg, hfifo, List.tail_cons, ← h.total,
          Chan.rxTotal, hfifo]
        simp
  · rw [Can4linux.rxIrq, if_neg hb]
    exact h

theorem errWarnIrq (h : RxHolds k v s) (irqsrc : U8) (inf : Msginf) :
    RxHolds k v (errWarnIrq t irqsrc inf s).2.2 := by
  by_cases hb : isSet irqsrc canErrorWarnInt
  · have hleave : RxHolds k v (s.onChip Sja1000.leaveReset) :=
      ⟨h.wf, s.chip.inReset_leaveReset, h.total⟩
    rw [errWarnIrq_eq inf s hb]
    exact hleave.err _
  · rw [Can4linux.errWarnIrq, if_neg hb]
    exact h

theorem txIrq (h : RxHolds k v s) (irqsrc : U8) : RxHolds k v (txIrq t irqsrc s) :=
  h.of_rxSide (txIrq_rxSide s irqsrc)

theorem overrunIrq (h : RxHolds k v s) (irqsrc : U8) (inf : Msginf) :
    RxHolds k v (overrunIrq t irqsrc inf s) := by
  by_cases hb : isSet irqsrc canOverrunInt
  · have hcount : RxHolds k v { s with sys := { s.sys with overrun := s.sys.overrun + 1 } } :=
      ⟨h.wf, h.operating, h.total⟩
    have herr := hcount.err
      (if s.chip.overrun then { inf with flags := inf.flags + msgOvr } else inf)
    rw [overrunIrq_eq inf s hb]
    exact ⟨herr.wf, herr.operating, herr.total⟩
  · rw [Can4linux.overrunIrq, if_neg hb]
    exact h

/-- An iteration with any combination of bits keeps the sequence. -/
theorem irq (h : RxHolds k v s) (tstamp : Timeval) : RxHolds k v (irqIteration t tstamp s) := by
  have hclear : RxHolds k v s.clearIrq := ⟨h.wf, h.operating, h.total⟩
  rw [irqIteration_eq]
  split
  · exact hclear
  · have hbit : isSet s.chip.irqBits canReceiveInt = true → s.clearIrq.chip.rxfifo ≠ [] := by
      intro hb hnil
      rw [s.chip.irqBits_receive, show s.chip.rxfifo = [] from hnil] at hb
      cases hb
    have hrx := hclear.rxIrq tstamp s.clearIrq.rxstatus hbit
    have hew := hrx.errWarnIrq s.chip.irqBits ⟨presetFlags s.clearIrq.rxstatus, tstamp⟩
    exact (hew.txIrq _).overrunIrq _ _

/-- A read of any count moves messages from the queue to the reader. -/
theorem read (h : RxHolds k v s) (accessOk : Bool) (count : Nat) :
    RxHolds k v (canRead accessOk count s).2.2 := by
  cases accessOk with
  | false => exact h
  | true =>
      obtain ⟨rxq, hs, happ, hwf⟩ := readLoop_spec count s
      simp only [canRead, Bool.not_true, Bool.false_eq_true, if_false, hs]
      refine ⟨hwf k h.wf, h.operating, ?_⟩
      show nonErrors (s.hist.returned ++ (readLoop count s).1) ++ nonErrors rxq.contents ++
        s.chip.rxfifo.map Frame.view = v
      rw [nonErrors_append, List.append_assoc (nonErrors s.hist.returned), ← nonErrors_append,
        happ]
      exact h.total

/-- A frame that the controller accepts is the last of the sequence. -/
theorem arrive (h : RxHolds k v s) (f : Frame) :
    RxHolds k (v ++ [f.view]) (s.onChip (Sja1000.arrive f)) := by
  refine ⟨h.wf, h.operating, ?_⟩
  show nonErrors s.hist.returned ++ nonErrors s.rxq.contents ++
    (s.chip.rxfifo ++ [f]).map Frame.view = v ++ [f.view]
  rw [← h.total, Chan.rxTotal, List.map_append, ← List.append_assoc]
  rfl

end RxHolds

/-! ## Runs -/

/-- The steps of a channel that is neither stopped, reset, reconfigured nor closed, and
    whose controller does not go bus-off. -/
def Op.receives : Op → Bool
  | .open _ | .close | .command _ | .config _ _ _ | .busOff => false
  | .write _ _ | .read _ _ | .irq _ | .timer | .arrive _ | .txDone | .busEvent _ _ _ => true

/-- Calm operation: the system of these steps. -/
def Chan.calmStep : Chan (Sja1000 t) → Op → Option (Chan (Sja1000 t)) :=
  Run.restrict Chan.step fun _ op => op.receives = true

/-- The frames that a step makes the controller accept. -/
def Op.arrivals : Op → List RxView
  | .arrive f => [f.view]
  | _ => []

/-- One step extends the sequence by the frame that arrives, if one does. -/
theorem RxHolds.step {k : Nat} {v : List RxView} {s s' : Chan (Sja1000 t)} {op : Op}
    (h : RxHolds k v s) (hop : op.receives = true) (hstep : s.step op = some s') :
    RxHolds k (v ++ op.arrivals) s' := by
  cases op with
  | «open» env => cases hop
  | close => cases hop
  | command cmd => cases hop
  | config target val1 val2 => cases hop
  | busOff => cases hop
  | write accessOk us =>
      obtain ⟨-, rfl⟩ := Chan.whenOpen_eq_some.mp hstep
      simp only [Op.arrivals, List.append_nil]
      refine canWrite_rule ?_ h accessOk us
      intro u s hs
      exact hs.of_rxSide (writeOne_rxSide s u)
  | read accessOk count =>
      obtain ⟨-, rfl⟩ := Chan.whenOpen_eq_some.mp hstep
      simp only [Op.arrivals, List.append_nil]
      exact h.read accessOk count
  | irq tstamp =>
      obtain ⟨-, rfl⟩ := Chan.whenOpen_eq_some.mp hstep
      simp only [Op.arrivals, List.append_nil]
      exact h.irq tstamp
  | timer =>
      obtain ⟨-, rfl⟩ := Chan.step_timer hstep
      simp only [Op.arrivals, List.append_nil]
      have hdisarm : RxHolds k v s.disarm := h.of_rxSide (disarm_rxSide s)
      exact hdisarm.of_rxSide (delayedmsgworker_rxSide s.disarm)
  | arrive f =>
      obtain ⟨-, rfl⟩ := Chan.step_arrive hstep
      exact h.arrive f
  | txDone =>
      obtain ⟨-, rfl⟩ := Chan.step_txDone hstep
      simp only [Op.arrivals, List.append_nil]
      exact ⟨h.wf, h.operating, h.total⟩
  | busEvent bits stat overrun =>
      obtain ⟨-, rfl⟩ := Chan.step_busEvent hstep
      simp only [Op.arrivals, List.append_nil]
      exact ⟨h.wf, h.operating, h.total⟩

/-- **The receive path is a FIFO.**  In every run without stop, reset or close, what
    `can_read` has returned, followed by what is queued, followed by what the controller
    still holds, is what there was at the start followed by the frames that arrived. -/
theorem rx_conserved {k : Nat} {s s' : Chan (Sja1000 t)} {ops : List Op} (hwf : s.rxq.WF k)
    (hop : s.chip.inReset = false)
    (hrun : Run.exec Chan.calmStep s ops = some s') :
    nonErrors s'.hist.returned ++ nonErrors s'.rxq.contents ++ s'.chip.rxfifo.map Frame.view =
      nonErrors s.hist.returned ++ nonErrors s.rxq.contents ++ s.chip.rxfifo.map Frame.view ++
        ops.flatMap Op.arrivals := by
  have hstart : RxHolds k s.rxTotal s := ⟨hwf, hop, rfl⟩
  refine (Run.exec_trace (P := RxHolds k) ?_ hstart hrun).total
  intro v s op s' hs hstep
  obtain ⟨hreceives, hstep'⟩ := Run.restrict_eq_some.mp hstep
  exact hs.step hreceives hstep'

/-- Two frames, one error state, a read between two iterations. -/
theorem rx_conserved_opened : ∃ s', Run.exec Chan.calmStep Chan.opened
    [.arrive (fun _ => 1), .arrive (fun _ => 2), .irq ⟨0, 0⟩, .read true 1,
      .busEvent canErrorWarnInt 0x40 false, .irq ⟨0, 1⟩] = some s' ∧
    nonErrors s'.hist.returned ++ nonErrors s'.rxq.contents ++ s'.chip.rxfifo.map Frame.view =
      nonErrors Chan.opened.hist.returned ++ nonErrors Chan.opened.rxq.contents ++
        Chan.opened.chip.rxfifo.map Frame.view ++
        ([.arrive (fun _ => 1), .arrive (fun _ => 2), .irq ⟨0, 0⟩, .read true 1,
          .busEvent canErrorWarnInt 0x40 false, .irq ⟨0, 1⟩] : List Op).flatMap Op.arrivals := by
  obtain ⟨s', hs'⟩ := Option.isSome_iff_exists.mp (show (Run.exec Chan.calmStep Chan.opened
    [.arrive (fun _ => 1), .arrive (fun _ => 2), .irq ⟨0, 0⟩, .read true 1,
      .busEvent canErrorWarnInt 0x40 false, .irq ⟨0, 1⟩]).isSome = true by decide)
  exact ⟨s', hs', rx_conserved (k := 11) ⟨by decide, by decide, by decide⟩ (by decide) hs'⟩

end Can4linux
