/-
  Can4linux.Intake

  Liveness of reception.  A frame is in the controller, in the receive queue, or
  with the reader; an iteration of the interrupt loop moves it from the first to
  the second if there is room, a read from the second to the third, and error
  messages join it on the way.  `rxToDo` counts what is left of that way: every
  step that takes something in lowers it, whatever the reads ask for and in
  whatever order they come between the iterations.  So a full queue holds
  reception up only until the next read, and where no step is left to take,
  everything received has been read.
-/

import Can4linux.Drain
import Can4linux.IrqTermination
import Can4linux.Status

namespace Can4linux

variable {t : Target}

namespace Chan

/-- What is left to do: two steps for a frame in the controller, one for a message in the
    queue; an error that is latched counts two. -/
def rxToDo (s : Chan (Sja1000 t)) : Nat :=
  2 * s.chip.rxfifo.length + s.rxq.qlen.toNat + 2 * bitCount s.chip.irq canErrorWarnInt +
    2 * bitCount s.chip.irq canOverrunInt

/-- The step takes something in: a read that finds a message, or an iteration that finds an
    error, or a frame and room for it. -/
def takesIn (s : Chan (Sja1000 t)) : Op → Bool
  | .read accessOk count => accessOk && count != 0 && !s.rxq.empty
  | .irq _ => !s.chip.rxfifo.isEmpty && !s.rxq.full || isSet s.chip.irq canErrorWarnInt ||
      isSet s.chip.irq canOverrunInt
  | _ => false

/-- The system of the steps that do. -/
def intakeStep : Chan (Sja1000 t) → Op → Option (Chan (Sja1000 t)) :=
  Run.restrict step fun s op => s.takesIn op = true

/-- The step, if it takes something in. -/
def takes (s : Chan (Sja1000 t)) (op : Op) : List Op := if s.takesIn op then [op] else []

theorem takes_length (s : Chan (Sja1000 t)) (op : Op) :
    (s.takes op).length = (s.takesIn op).toNat := by
  cases h : s.takesIn op <;> simp [takes, h]

end Chan

/-- What a step of the bus brings. -/
def Op.brings : Op → Nat
  | .arrive _ => 2
  | .busEvent bits _ _ => 2 * bitCount bits canErrorWarnInt + 2 * bitCount bits canOverrunInt
  | _ => 0

/-! ## The steps -/

section Steps

variable {s s' : Chan (Sja1000 t)}

theorem rxToDo_of_rxSide (hside : s'.rxSide = s.rxSide) : s'.rxToDo = s.rxToDo := by
  have hrxq : s'.rxq = s.rxq := congrArg RxSide.rxq hside
  have hfifo : s'.chip.rxfifo = s.chip.rxfifo := congrArg RxSide.rxfifo hside
  have hirq : s'.chip.irq = s.chip.irq := congrArg RxSide.irq hside
  rw [Chan.rxToDo, Chan.rxToDo, hrxq, hfifo, hirq]

theorem bitCount_or (x y b : U8) : bitCount (x ||| y) b ≤ bitCount x b + bitCount y b := by
  unfold bitCount
  rw [isSet_or]
  cases isSet x b <;> cases isSet y b <;> decide

theorem bitCount_le (x b : U8) : bitCount x b ≤ 1 := by
  unfold bitCount
  split <;> decide

theorem bitCount_latched {b : U8} (hb : b = canErrorWarnInt ∨ b = canOverrunInt) :
    bitCount s.chip.irqBits b = bitCount s.chip.irq b := by
  rw [bitCount, bitCount]
  rcases hb with rfl | rfl
  · rw [s.chip.irqBits_latched (.inl rfl)]
  · rw [s.chip.irqBits_latched (.inr (.inr rfl))]

/-- What an iteration takes in is a frame that there is room for, or an error. -/
theorem takesIn_irq_le (tstamp : Timeval) :
    (s.takesIn (.irq tstamp)).toNat ≤
      (if isSet s.chip.irqBits canReceiveInt ∧ s.rxq.full = false then 1 else 0) +
        bitCount s.chip.irq canErrorWarnInt + bitCount s.chip.irq canOverrunInt := by
  have hbool : ∀ e f w o : Bool, (!e && !f || w || o).toNat ≤
      (if (!e) = true ∧ f = false then 1 else 0) + (if w then 1 else 0) + if o then 1 else 0 := by
    decide
  rw [s.chip.irqBits_receive]
  exact hbool _ _ _ _

/-- An iteration that takes something in lowers what is left to do, no other raises it: an
    error message takes one step more, and the bit it stands for counted two. -/
theorem rxToDo_irq (hwf : s.rxq.WF 11) (tstamp : Timeval) :
    (s.takesIn (.irq tstamp)).toNat + (irqIteration t tstamp s).rxToDo ≤ s.rxToDo := by
  have htakes := takesIn_irq_le (s := s) tstamp
  have hew := bitCount_latched (s := s) (.inl rfl)
  have hov := bitCount_latched (s := s) (.inr rfl)
  have hzero : bitCount 0 canErrorWarnInt = 0 ∧ bitCount 0 canOverrunInt = 0 := by decide
  rw [irqIteration_eq]
  split
  · -- nothing is latched and no frame is stored
    rename_i hbits
    rw [hbits, hzero.1] at hew
    rw [hbits, hzero.2] at hov
    rw [hbits, isSet_zero, ← hew, ← hov, if_neg (by simp)] at htakes
    show _ + (2 * s.chip.rxfifo.length + s.rxq.qlen.toNat + 2 * bitCount 0 canErrorWarnInt +
      2 * bitCount 0 canOverrunInt) ≤ s.rxToDo
    rw [hzero.1, hzero.2, Chan.rxToDo]
    omega
  · -- the level of the queue and the FIFO behind the iteration, with its room `r`
    have hlevel := (rxLevel_clearIrq hwf).irqBody tstamp s.chip.irqBits
    have hfifo := hlevel.fifo
    have hroom := hlevel.room
    have hbound := hwf.bound
    rw [hew, hov] at hroom
    rw [Chan.rxToDo, Chan.rxToDo, hlevel.irq, hzero.1, hzero.2, hfifo]
    generalize hr : 2 ^ 11 - s.rxq.contents.length = r at hroom ⊢
    rw [MsgQ.contents_length] at hr
    have hfull : s.rxq.full = false ↔ r ≠ 0 := by
      rw [← Bool.not_eq_true, hwf.full_iff]
      omega
    have hone : bitCount s.chip.irqBits canReceiveInt =
        if isSet s.chip.irqBits canReceiveInt then 1 else 0 := rfl
    rw [hone] at hroom
    by_cases hb : isSet s.chip.irqBits canReceiveInt = true
    · have hpos : 0 < s.chip.rxfifo.length := by
        rw [s.chip.irqBits_receive] at hb
        refine List.length_pos_of_ne_nil fun hnil => ?_
        rw [hnil] at hb
        cases hb
      rw [if_pos hb] at hroom
      by_cases hzr : r = 0
      · rw [if_neg fun h => hfull.mp h.2 hzr] at htakes
        rw [if_neg fun h => h.2 hzr]
        omega
      · rw [if_pos ⟨hb, hfull.mpr hzr⟩] at htakes
        rw [if_pos ⟨hb, hzr⟩]
        omega
    · rw [if_neg hb] at hroom
      rw [if_neg fun h => hb h.1] at htakes ⊢
      omega

/-- Each message that a read returns is one step. -/
theorem rxToDo_read (accessOk : Bool) (count : Nat) :
    (s.takesIn (.read accessOk count)).toNat + (canRead accessOk count s).2.2.rxToDo ≤
      s.rxToDo := by
  cases accessOk with
  | false => exact Nat.le_of_eq (Nat.zero_add _)
  | true =>
      obtain ⟨rxq, hs, happ, -⟩ := readLoop_spec count s
      have hlen := congrArg List.length happ
      rw [List.length_append, readLoop_eq, List.length_take, MsgQ.contents_length,
        MsgQ.contents_length] at hlen
      simp only [canRead, Bool.not_true, Bool.false_eq_true, if_false, hs]
      show (s.takesIn (.read true count)).toNat + (2 * s.chip.rxfifo.length + rxq.qlen.toNat +
        2 * bitCount s.chip.irq canErrorWarnInt + 2 * bitCount s.chip.irq canOverrunInt) ≤
          s.rxToDo
      have htakes : (s.takesIn (.read true count)).toNat ≤ min count s.rxq.qlen.toNat := by
        cases hempty : s.rxq.empty with
        | true => simp [Chan.takesIn, hempty]
        | false =>
            have hpos := List.length_pos_of_ne_nil (MsgQ.contents_ne_nil hempty)
            rw [MsgQ.contents_length] at hpos
            cases count with
            | zero => simp [Chan.takesIn]
            | succ n =>
                have hbit := Bool.toNat_le (s.takesIn (.read true (n + 1)))
                omega
      rw [Chan.rxToDo]
      omega

/-- Every step of calm operation is paid for. -/
theorem rxToDo_step {v w : List Canmsg} {op : Op} (h : Flow v w s) (hop : op.receives = true)
    (hstep : s.step op = some s') : (s.takes op).length + s'.rxToDo ≤ s.rxToDo + op.brings := by
  rw [Chan.takes_length]
  cases op with
  | «open» env => cases hop
  | close => cases hop
  | command cmd => cases hop
  | config target val1 val2 => cases hop
  | busOff => cases hop
  | write accessOk us =>
      obtain ⟨-, rfl⟩ := Chan.whenOpen_eq_some.mp hstep
      have hside : (canWrite t accessOk us s).2.rxSide = s.rxSide :=
        canWrite_rule (P := fun c => c.rxSide = s.rxSide)
          (fun u c hc => (writeOne_rxSide c u).trans hc) rfl accessOk us
      rw [rxToDo_of_rxSide hside]
      exact Nat.le_of_eq (Nat.zero_add _)
  | read accessOk count =>
      obtain ⟨-, rfl⟩ := Chan.whenOpen_eq_some.mp hstep
      exact rxToDo_read accessOk count
  | irq tstamp =>
      obtain ⟨-, rfl⟩ := Chan.whenOpen_eq_some.mp hstep
      exact rxToDo_irq h.rxWf tstamp
  | timer =>
      obtain ⟨-, rfl⟩ := Chan.step_timer hstep
      have hside := (delayedmsgworker_rxSide s.disarm).trans (disarm_rxSide s)
      rw [rxToDo_of_rxSide hside]
      exact Nat.le_of_eq (Nat.zero_add _)
  | arrive f =>
      obtain ⟨-, rfl⟩ := Chan.step_arrive hstep
      show 0 + (2 * (s.chip.rxfifo ++ [f]).length + s.rxq.qlen.toNat +
        2 * bitCount s.chip.irq canErrorWarnInt + 2 * bitCount s.chip.irq canOverrunInt) ≤
          s.rxToDo + 2
      rw [List.length_append, List.length_singleton, Chan.rxToDo]
      omega
  | txDone =>
      -- the transmit bit is none of the error bits
      obtain ⟨-, rfl⟩ := Chan.step_txDone hstep
      have hew := bitCount_or s.chip.irq canTransmitInt canErrorWarnInt
      have hov := bitCount_or s.chip.irq canTransmitInt canOverrunInt
      have hnone : bitCount canTransmitInt canErrorWarnInt = 0 ∧
          bitCount canTransmitInt canOverrunInt = 0 := by decide
      show 0 + (2 * s.chip.rxfifo.length + s.rxq.qlen.toNat +
        2 * bitCount (s.chip.irq ||| canTransmitInt) canErrorWarnInt +
          2 * bitCount (s.chip.irq ||| canTransmitInt) canOverrunInt) ≤ s.rxToDo + 0
      rw [Chan.rxToDo]
      omega
  | busEvent bits stat overrun =>
      obtain ⟨-, rfl⟩ := Chan.step_busEvent hstep
      have hew := bitCount_or s.chip.irq bits canErrorWarnInt
      have hov := bitCount_or s.chip.irq bits canOverrunInt
      show 0 + (2 * s.chip.rxfifo.length + s.rxq.qlen.toNat +
        2 * bitCount (s.chip.irq ||| bits) canErrorWarnInt +
          2 * bitCount (s.chip.irq ||| bits) canOverrunInt) ≤
        s.rxToDo + (2 * bitCount bits canErrorWarnInt + 2 * bitCount bits canOverrunInt)
      rw [Chan.rxToDo]
      omega

end Steps

/-! ## Runs -/

/-- Where nothing can be taken in, everything is with the reader. -/
theorem rxEmpty_of_stuck {s : Chan (Sja1000 t)} (hwf : s.rxq.WF 11) (hopen : s.isopen = 1)
    (hstuck : ∀ op, s.takesIn op = true → s.step op = none) :
    s.rxq.contents = [] ∧ s.chip.rxfifo = [] := by
  have hempty : s.rxq.empty = true := by
    refine Bool.eq_true_of_not_eq_false fun hne => ?_
    have hnone := hstuck (.read true 1) (by simp [Chan.takesIn, hne])
    rw [Chan.step, Chan.whenOpen, if_pos hopen] at hnone
    cases hnone
  have hcont := MsgQ.empty_iff.mp hempty
  refine ⟨hcont, ?_⟩
  by_contra hne
  -- an empty queue has room, so the next iteration takes a frame in
  have hroom : s.rxq.full = false := by
    refine Bool.eq_false_of_not_eq_true fun hfull => ?_
    have hall := hwf.full_iff_length.mp hfull
    rw [hcont] at hall
    exact absurd hall (by decide)
  have hnone := hstuck (.irq ⟨0, 0⟩) (by simp [Chan.takesIn, hroom, hne])
  rw [Chan.step, Chan.whenOpen, if_pos hopen] at hnone
  cases hnone

/-- At most two errors are latched. -/
theorem Chan.rxToDo_le (s : Chan (Sja1000 t)) :
    s.rxToDo ≤ 2 * s.chip.rxfifo.length + s.rxq.contents.length + 4 := by
  have hew := bitCount_le s.chip.irq canErrorWarnInt
  have hov := bitCount_le s.chip.irq canOverrunInt
  rw [rxToDo, MsgQ.contents_length]
  omega

/-- Nothing else is left to do in a device that is ready. -/
theorem Ready.rxToDo_le {s : Chan (Sja1000 t)} (h : Ready s) : s.rxToDo ≤ 4 := by
  have hle := s.rxToDo_le
  rw [h.fifo, MsgQ.empty_iff.mp h.rxEmpty] at hle
  exact hle

/-- The sequence of the frames that have arrived since the device was ready. -/
theorem Ready.reception {s₀ s : Chan (Sja1000 t)} {ops : List Op} (h : Ready s₀)
    (hrun : Run.exec Chan.calmStep s₀ ops = some s) :
    RxHolds 11 (ops.flatMap Op.arrivals) s := by
  have hheld := Run.exec_trace (P := RxHolds 11) (g := Op.arrivals)
    (fun v c op c' hc hstep => by
      obtain ⟨hop, hstep'⟩ := Run.restrict_eq_some.mp hstep
      exact hc.step hop hstep') h.operates.reception hrun
  exact hheld

/-- A step that takes something in is one of calm operation, and brings nothing. -/
theorem Chan.takesIn_op {s : Chan (Sja1000 t)} {op : Op} (h : s.takesIn op = true) :
    op.receives = true ∧ op.brings = 0 := by
  cases op with
  | read _ _ | irq _ => exact ⟨rfl, rfl⟩
  | «open» _ | close | write _ _ | command _ | config _ _ _ | timer | arrive _ | txDone
  | busEvent _ _ _ | busOff => cases h

/-- **Reception drains.**  Operate a device in any way after an open that found nothing left
    over, as long as it is neither stopped, reset, reconfigured nor closed and does not go off
    the bus.  The reads and iterations that take something in are at most two for each frame
    that arrives, two for each error, and four; from any point no more of them can follow each
    other than two for each frame in the controller, one for each message in the queue, and
    four; and where none is left to take, every frame has been read, once and in order. -/
theorem reception_drains {s₀ s : Chan (Sja1000 t)} {ops : List Op} (hready : Ready s₀)
    (hrun : Run.exec Chan.calmStep s₀ ops = some s) :
    (Run.observe Chan.calmStep Chan.takes s₀ ops).length ≤ (ops.map Op.brings).sum + 4 ∧
      (∀ moves s', Run.exec Chan.intakeStep s moves = some s' →
          moves.length ≤ 2 * s.chip.rxfifo.length + s.rxq.contents.length + 4) ∧
      ((∀ op, s.takesIn op = true → s.step op = none) →
        s.rxq.contents = [] ∧ nonErrors s.hist.returned = ops.flatMap Op.arrivals) := by
  obtain ⟨heard, hoper⟩ := hready.run hrun
  refine ⟨?_, ?_, ?_⟩
  · have hpaid := Run.exec_potential (I := Flow [] []) (μ := Chan.rxToDo) (ν := fun _ => 0)
      (f := Chan.takes) (g := Op.brings) (fun c op c' hc hstep => ?_) (fun c op c' hc hstep => ?_)
      hready.operates.flow hrun
    · have hle := hready.rxToDo_le
      omega
    · obtain ⟨hop, hstep'⟩ := Run.restrict_eq_some.mp hstep
      refine hc.step ?_ hstep'
      rintro env rfl
      cases hop
    · obtain ⟨hop, hstep'⟩ := Run.restrict_eq_some.mp hstep
      exact rxToDo_step hc hop hstep'
  · intro moves s' hmoves
    have hlen := Run.exec_length_le (I := Flow [] []) (μ := Chan.rxToDo)
      (fun c op c' hc hstep => ?_) (fun c op c' hc hstep => ?_) hoper.flow hmoves
    · have hle := s.rxToDo_le
      omega
    · obtain ⟨hmove, hstep'⟩ := Run.restrict_eq_some.mp hstep
      refine hc.step ?_ hstep'
      rintro env rfl
      cases hmove
    · obtain ⟨hmove, hstep'⟩ := Run.restrict_eq_some.mp hstep
      obtain ⟨hop, hbrings⟩ := Chan.takesIn_op hmove
      have hpaid := rxToDo_step hc hop hstep'
      rw [Chan.takes_length, hmove, hbrings, Bool.toNat_true] at hpaid
      omega
  · intro hstuck
    obtain ⟨hcont, hfifo⟩ := rxEmpty_of_stuck hoper.flow.rxWf hoper.isopen hstuck
    have htotal := (hready.reception hrun).total
    rw [Chan.rxTotal, hcont, hfifo, List.map_nil, List.append_nil] at htotal
    exact ⟨hcont, (List.append_nil _).symm.trans htotal⟩

/-- Two frames arrive and an error warning with them; both are read. -/
theorem reception_drains_two : ∃ s, Run.exec Chan.calmStep Chan.opened
    [.arrive (fun _ => 1), .arrive (fun _ => 2), .busEvent canErrorWarnInt 0x40 false,
      .irq ⟨0, 0⟩, .read true 1, .irq ⟨0, 1⟩, .read true 5] = some s ∧
    (Run.observe Chan.calmStep Chan.takes Chan.opened
      [.arrive (fun _ => 1), .arrive (fun _ => 2), .busEvent canErrorWarnInt 0x40 false,
        .irq ⟨0, 0⟩, .read true 1, .irq ⟨0, 1⟩, .read true 5]).length ≤ 10 ∧
    (∀ moves s', Run.exec Chan.intakeStep s moves = some s' →
        moves.length ≤ 2 * s.chip.rxfifo.length + s.rxq.contents.length + 4) ∧
    ((∀ op, s.takesIn op = true → s.step op = none) →
      s.rxq.contents = [] ∧ nonErrors s.hist.returned =
        [Frame.view fun _ => 1, Frame.view fun _ => 2]) := by
  obtain ⟨s, hs⟩ := Option.isSome_iff_exists.mp (show (Run.exec Chan.calmStep Chan.opened
    [.arrive (fun _ => 1), .arrive (fun _ => 2), .busEvent canErrorWarnInt 0x40 false,
      .irq ⟨0, 0⟩, .read true 1, .irq ⟨0, 1⟩, .read true 5]).isSome = true by decide +kernel)
  exact ⟨s, hs, reception_drains ready_opened hs⟩

end Can4linux
