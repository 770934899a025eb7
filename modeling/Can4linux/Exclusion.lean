/-
  Can4linux.Exclusion

  Who may be inside `qproduce` and `qconsume` at once.  The queues are written
  for one producer and one consumer.  The handler is the only producer of
  received messages; for the rest there is no lock: the threads produce into the
  transmit queue and consume from the receive queue, and any context may come to
  consume from the transmit queue.

  As long as the callers keep apart (`careful`), whoever is inside runs the
  queue like the single producer or consumer of `Spsc`, and no message is
  overwritten or handed out twice.
-/

import Mathlib.Data.Fintype.Sum
import Can4linux.Lib.Sole
import Can4linux.Threads

namespace Can4linux

variable {t : Target}

/-! ## Who is inside -/

/-- A thread in `qproduce` on the transmit queue. -/
def ThreadPc.produces : ThreadPc → ProdPc Canmsg
  | .room => .room
  | .filled m => .filled m
  | .out | .published | .sawIdle | .kick _ | .found | .copied => .out

/-- A thread in `qconsume` on the transmit queue. -/
def ThreadPc.consumes : ThreadPc → Option QPc
  | .kick pc => some pc
  | .out | .room | .filled _ | .published | .sawIdle | .found | .copied => none

/-- A thread in `qconsume` on the receive queue. -/
def ThreadPc.reads : ThreadPc → ConsPc
  | .found => .found
  | .copied => .called true
  | .out | .room | .filled _ | .published | .sawIdle | .kick _ => .out

/-- The handler in `qproduce` on the receive queue. -/
def HandlerPart.produces : HandlerPart → ProdPc Canmsg
  | .room => .room
  | .filled m => .filled m
  | .plain | .consume _ | .consumed => .out

/-- The handler in `qconsume` on the transmit queue. -/
def HandlerPart.consumes : HandlerPart → Option QPc
  | .consume pc => some pc
  | .plain | .room | .filled _ | .consumed => none

/-- The worker of the timer in `qconsume` on the transmit queue. -/
def TimerPc.consumes : TimerPc → Option QPc
  | .consume pc => some pc
  | .out | .consumed => none

/-- The contexts that are not threads. -/
inductive Server where
  | irq
  | timer
deriving DecidableEq

instance : Fintype Server := ⟨{.irq, .timer}, fun c => by cases c <;> decide⟩

/-- A thread is inside `qproduce` on the transmit queue. -/
def ThreadPc.inTxProduce : ThreadPc → Bool
  | .room | .filled _ => true
  | .out | .published | .sawIdle | .kick _ | .found | .copied => false

/-- A thread is inside `qconsume` on the receive queue. -/
def ThreadPc.inRxConsume : ThreadPc → Bool
  | .found | .copied => true
  | .out | .room | .filled _ | .published | .sawIdle | .kick _ => false

namespace ThreadPc

variable {pc : ThreadPc}

theorem produces_eq_out (h : pc.inTxProduce = false) : pc.produces = .out := by
  cases pc with
  | room | filled _ => cases h
  | out | published | sawIdle | kick _ | found | copied => rfl

theorem produces_ne_out (h : pc.inTxProduce = true) : pc.produces ≠ .out := by
  cases pc with
  | room | filled _ => exact fun he => by cases he
  | out | published | sawIdle | kick _ | found | copied => cases h

theorem reads_eq_out (h : pc.inRxConsume = false) : pc.reads = .out := by
  cases pc with
  | found | copied => cases h
  | out | room | filled _ | published | sawIdle | kick _ => rfl

theorem reads_ne_out (h : pc.inRxConsume = true) : pc.reads ≠ .out := by
  cases pc with
  | found | copied => exact fun he => by cases he
  | out | room | filled _ | published | sawIdle | kick _ => cases h

end ThreadPc

namespace Threads

variable {ι : Type}

/-- Where each context stands in `qconsume` on the transmit queue. -/
def consumers (s : Threads ι t) : ι ⊕ Server → Option QPc :=
  Sum.elim (fun i => (s.thread i).consumes) fun
    | .irq => s.part.consumes
    | .timer => s.timer.consumes

/-- The handler runs the consumer before it reads `canirq` again; when it is at that, the
    role is counted with the place in `qconsume`. -/
def carries (s : Threads ι t) : Bool :=
  match s.part with
  | .plain | .room | .filled _ => s.pc.carries
  | .consume _ | .consumed => false

/-- The messages that are not in the controller yet: a context that stands between its
    transmission request and `consumed++` still has its message in the queue. -/
def unsent [Fintype ι] (s : Threads ι t) : List Canmsg :=
  if ∃ w, s.consumers w = some .loaded then s.chan.txq.contents.tail else s.chan.txq.contents

/-- The messages that have not been copied to user space yet. -/
def unread [Fintype ι] (s : Threads ι t) : List Canmsg :=
  if ∃ i, (s.thread i).reads = .called true then s.chan.rxq.contents.tail
  else s.chan.rxq.contents

end Threads

/-- A context that has taken the role of the consumer and has not loaded a frame yet. -/
def inRoleOf : Option QPc → Nat
  | some .entered | some .calling => 1
  | some .loaded | none => 0

/-- The consumer of `Spsc` at the place of a context. -/
def consOf : Option QPc → ConsPc
  | some .calling => .found
  | some .loaded => .called true
  | some .entered | none => .out

/-! ## The transmit queue -/

/-- The transmit queue is run by one producer at `p` and one consumer at `q`; `v` is what it
    has been given, and `n` of the handler's roles are still to be taken up. -/
structure TxOk (v : List Canmsg) (n : Nat) (chan : Chan (Sja1000 t)) (p : ProdPc Canmsg)
    (q : Option QPc) : Prop where
  spsc : Spsc.Inv Canmsg.onWire 7 ⟨chan.txq, p, consOf q, v, chan.hist.loaded, none⟩
  roles : chan.roles + n + inRoleOf q ≤ 1
  apart : chan.txq.idle.toNat + chan.timerArmed.toNat + q.isSome.toNat ≤ 1

namespace TxOk

variable {v : List Canmsg} {n : Nat} {chan : Chan (Sja1000 t)} {p : ProdPc Canmsg}
  {q : Option QPc}

/-- A context that finds the queue empty gives its role to the idle flag; otherwise it keeps
    it. -/
theorem testEmpty (h : TxOk v n chan p (some .entered)) :
    TxOk v n (qstep chan .entered).1 p (qstep chan .entered).2 := by
  have hroles := h.roles
  have hapart := h.apart
  rw [Chan.roles] at hroles
  simp only [inRoleOf, Option.isSome_some, Bool.toNat_true] at hroles hapart
  cases hempty : chan.txq.empty with
  | true =>
      have hstep : Spsc.step Canmsg.onWire
          ⟨chan.txq, p, consOf (some .entered), v, chan.hist.loaded, none⟩ .testEmpty =
            some ⟨chan.txq.setIdle true, p, .out, v, chan.hist.loaded, none⟩ := if_pos hempty
      rw [qstep_empty hempty]
      refine ⟨h.spsc.testEmpty hstep, ?_, ?_⟩
      · show 1 + chan.timerArmed.toNat + chan.chip.tx.isSome.toNat +
          (isSet chan.chip.irq canTransmitInt).toNat + n + 0 ≤ 1
        omega
      · show 1 + chan.timerArmed.toNat + 0 ≤ 1
        omega
  | false =>
      have hne : ¬ chan.txq.empty = true := by
        rw [hempty]
        exact Bool.false_ne_true
      have hstep : Spsc.step Canmsg.onWire
          ⟨chan.txq, p, consOf (some .entered), v, chan.hist.loaded, none⟩ .testEmpty =
            some ⟨chan.txq, p, .found, v, chan.hist.loaded, none⟩ := if_neg hne
      rw [qstep_found hempty]
      exact ⟨h.spsc.testEmpty hstep, h.roles, h.apart⟩

/-- The message stays in the queue, and the timer takes the role. -/
theorem waits (h : TxOk v n chan p (some .calling)) (hw : chan.headWaits = true) :
    TxOk v n (qstep chan .calling).1 p (qstep chan .calling).2 := by
  have hroles := h.roles
  have hapart := h.apart
  rw [Chan.roles] at hroles
  simp only [inRoleOf, Option.isSome_some, Bool.toNat_true] at hroles hapart
  have hcall : Spsc.step Canmsg.onWire
      ⟨chan.txq, p, consOf (some .calling), v, chan.hist.loaded, none⟩
      (.call chan.txq.head.onWire false) =
        some ⟨chan.txq.setHead chan.txq.head.onWire, p, .called false, v,
          chan.hist.loaded, none⟩ := if_pos (Canmsg.onWire_onWire _)
  have hadvance : Spsc.step Canmsg.onWire
      ⟨chan.txq.setHead chan.txq.head.onWire, p, .called false, v, chan.hist.loaded,
        none⟩ .advance =
        some ⟨chan.txq.setHead chan.txq.head.onWire, p, .out, v, chan.hist.loaded,
          none⟩ := rfl
  obtain ⟨dw, kapi, hframe⟩ := kapiScheduleDelayed_frame chan
    (remainingDelay chan.sys.baud chan.txq.head.capLength)
  have harmed := Bool.toNat_lt
    (Chan.timerArmed { chan with delayedwork := dw, kapi := kapi })
  rw [qstep_waits hw, hframe]
  refine ⟨(h.spsc.call hcall).advance hadvance, ?_, ?_⟩
  · show chan.txq.idle.toNat +
      (Chan.timerArmed { chan with delayedwork := dw, kapi := kapi }).toNat +
      chan.chip.tx.isSome.toNat + (isSet chan.chip.irq canTransmitInt).toNat + n + 0 ≤ 1
    omega
  · show chan.txq.idle.toNat +
      (Chan.timerArmed { chan with delayedwork := dw, kapi := kapi }).toNat + 0 ≤ 1
    omega

/-- The message is sent, and its frame takes the role. -/
theorem loads (h : TxOk v n chan p (some .calling)) (hw : chan.headWaits = false) :
    TxOk v n (qstep chan .calling).1 p (qstep chan .calling).2 := by
  have hroles := h.roles
  rw [Chan.roles] at hroles
  simp only [inRoleOf] at hroles
  have hkey : Canmsg.onWire chan.txq.head.capLength = Canmsg.onWire chan.txq.head := by
    rw [Canmsg.onWire, Canmsg.capLength_capLength]
    rfl
  have hcall : Spsc.step Canmsg.onWire
      ⟨chan.txq, p, consOf (some .calling), v, chan.hist.loaded, none⟩
      (.call chan.txq.head.capLength true) =
        some ⟨chan.txq.setHead chan.txq.head.capLength, p, .called true, v,
          chan.hist.loaded ++ [chan.txq.head.onWire], none⟩ := if_pos hkey
  have hpend := Bool.toNat_lt (chan.chip.load chan.txq.head.capLength).tx.isSome
  rw [qstep_loads hw]
  refine ⟨h.spsc.call hcall, ?_, h.apart⟩
  show chan.txq.idle.toNat + chan.timerArmed.toNat +
    (chan.chip.load chan.txq.head.capLength).tx.isSome.toNat +
    (isSet (chan.chip.load chan.txq.head.capLength).irq canTransmitInt).toNat + n + 0 ≤ 1
  rw [Sja1000.load_irq]
  omega

/-- A step of a context in `qconsume` is one of the consumer. -/
theorem qstep {pc : QPc} (h : TxOk v n chan p (some pc)) :
    TxOk v n (qstep chan pc).1 p (qstep chan pc).2 := by
  cases pc with
  | entered => exact h.testEmpty
  | calling =>
      cases hw : chan.headWaits with
      | true => exact h.waits hw
      | false => exact h.loads hw
  | loaded =>
      have hstep : Spsc.step Canmsg.onWire
          ⟨chan.txq, p, consOf (some .loaded), v, chan.hist.loaded, none⟩ .advance =
            some ⟨chan.txq.advance, p, .out, v, chan.hist.loaded, none⟩ := rfl
      refine ⟨h.spsc.advance hstep, h.roles, ?_⟩
      exact Nat.le_trans (Nat.add_le_add_left (Nat.zero_le _) _) h.apart

/-- A step outside the queue that gives nobody a new role. -/
theorem of_eq {n' : Nat} {chan' : Chan (Sja1000 t)} (h : TxOk v n chan p q)
    (htxq : chan'.txq = chan.txq) (hloaded : chan'.hist.loaded = chan.hist.loaded)
    (harmed : chan'.timerArmed = chan.timerArmed) (hroles : chan'.roles + n' ≤ chan.roles + n) :
    TxOk v n' chan' p q := by
  have hle := h.roles
  refine ⟨?_, ?_, ?_⟩
  · rw [htxq, hloaded]
    exact h.spsc
  · omega
  · rw [htxq, harmed]
    exact h.apart

/-- The full test finds room for a producer. -/
theorem room (h : TxOk v n chan .out q) (hroom : chan.txq.full = false) :
    TxOk v n chan .room q := by
  have hnot : ¬ chan.txq.full = true := by
    rw [hroom]
    exact Bool.false_ne_true
  have hstep : Spsc.step Canmsg.onWire ⟨chan.txq, .out, consOf q, v, chan.hist.loaded, none⟩
      .testFull = some ⟨chan.txq, .room, consOf q, v, chan.hist.loaded, none⟩ := if_neg hnot
  exact ⟨h.spsc.testFull hstep, h.roles, h.apart⟩

theorem fill (h : TxOk v n chan .room q) (m : Canmsg) :
    TxOk v n { chan with txq := chan.txq.fill m } (.filled m) q := by
  have hstep : Spsc.step Canmsg.onWire ⟨chan.txq, .room, consOf q, v, chan.hist.loaded, none⟩
      (.fill m) = some ⟨chan.txq.fill m, .filled m, consOf q, v, chan.hist.loaded, none⟩ := rfl
  exact ⟨h.spsc.fill hstep, h.roles, h.apart⟩

theorem publish {m : Canmsg} (h : TxOk v n chan (.filled m) q) {accepted : List Canmsg} :
    TxOk (v ++ [m.onWire]) n
      { chan with
        txq := chan.txq.publish, hist := { chan.hist with accepted := accepted } } .out q := by
  have hstep : Spsc.step Canmsg.onWire
      ⟨chan.txq, .filled m, consOf q, v, chan.hist.loaded, none⟩ .publish =
        some ⟨chan.txq.publish, .out, consOf q, v ++ [m.onWire], chan.hist.loaded, some true⟩ := rfl
  exact ⟨(h.spsc.publish hstep).ret none, h.roles, h.apart⟩

/-- The queue is idle or the timer armed: nobody is inside. -/
theorem nobody (h : TxOk v n chan p q)
    (hrole : chan.txq.idle = true ∨ chan.timerArmed = true) : q = none := by
  have hapart := h.apart
  cases q with
  | none => rfl
  | some pc =>
      rw [Option.isSome_some, Bool.toNat_true] at hapart
      rcases hrole with hidle | harmed
      · rw [hidle, Bool.toNat_true] at hapart
        omega
      · rw [harmed, Bool.toNat_true] at hapart
        omega

/-- A writer takes the role from the flag. -/
theorem clearIdle (h : TxOk v n chan p none) (hidle : chan.txq.idle = true) :
    TxOk v n { chan with txq := chan.txq.setIdle false } p (some .entered) := by
  have hroles := h.roles
  have hapart := h.apart
  rw [Chan.roles, hidle, Bool.toNat_true] at hroles
  rw [hidle, Bool.toNat_true] at hapart
  refine ⟨h.spsc.setIdle false, ?_, ?_⟩
  · show 0 + chan.timerArmed.toNat + chan.chip.tx.isSome.toNat +
      (isSet chan.chip.irq canTransmitInt).toNat + n + 1 ≤ 1
    omega
  · show 0 + chan.timerArmed.toNat + 1 ≤ 1
    omega

/-- The worker takes it from the timer. -/
theorem expire (h : TxOk v n chan p none) (harmed : chan.timerArmed = true) :
    TxOk v n chan.disarm p (some .entered) := by
  have hroles := h.roles
  have hapart := h.apart
  have hoff := timerArmed_disarm chan
  rw [Chan.roles, harmed, Bool.toNat_true] at hroles
  rw [harmed, Bool.toNat_true] at hapart
  obtain ⟨kapi, hframe⟩ := disarm_frame chan
  rw [hframe] at hoff ⊢
  refine ⟨h.spsc, ?_, ?_⟩
  · rw [Chan.roles, hoff]
    show chan.txq.idle.toNat + 0 + chan.chip.tx.isSome.toNat +
      (isSet chan.chip.irq canTransmitInt).toNat + n + 1 ≤ 1
    omega
  · rw [hoff]
    show chan.txq.idle.toNat + 0 + 1 ≤ 1
    omega

/-- The handler takes it from the interrupt it has read. -/
theorem takeIrq (h : TxOk v 1 chan p q) (hload : q ≠ some .loaded) :
    q = none ∧ TxOk v 0 chan p (some .entered) := by
  have hroles := h.roles
  cases q with
  | some pc =>
      cases pc with
      | loaded => exact absurd rfl hload
      | entered | calling =>
          simp only [inRoleOf] at hroles
          omega
  | none =>
      refine ⟨rfl, h.spsc, ?_, ?_⟩
      · simp only [inRoleOf] at hroles ⊢
        omega
      · rw [Chan.roles] at hroles
        rw [Option.isSome_some, Bool.toNat_true]
        omega

end TxOk

/-- Offering a message to the receive queue gives nobody a new role for the other one. -/
theorem offer_spec {pc next : IrqPc} {produce : Canmsg → Sja1000 t → Canmsg × Sja1000 t}
    (h : pc.offer (Sja1000 t) t = some (produce, next)) :
    next.carries = pc.carries ∧
      ∀ msg c, ∃ fifo, (produce msg c).2 = { c with rxfifo := fifo } := by
  cases pc with
  | rx irqsrc inf =>
      simp only [IrqPc.offer] at h
      split at h
      · obtain ⟨rfl, rfl⟩ := Prod.mk.inj (Option.some.inj h)
        refine ⟨rfl, ?_⟩
        intro msg c
        exact ⟨_, congrArg Prod.snd (c.readcanmsg_eq inf msg)⟩
      · cases h
  | warnMsg irqsrc inf | ovrMsg inf =>
      obtain ⟨rfl, rfl⟩ := Prod.mk.inj (Option.some.inj h)
      exact ⟨rfl, fun _ c => ⟨c.rxfifo, rfl⟩⟩
  | out | rxStat _ _ | rxClear _ _ | warn _ _ | undo _ _ | undoWrite _ _ _ | warnStat _ _
  | warnProg _ _ | warnAccess _ _ | tx _ _ | txRun _ _ | ovr _ _ | ovrClear => cases h

/-! ## The invariant -/

namespace Threads

variable {ι : Type} {c : Chan (Sja1000 t)} {s : Threads ι t} {p : ProdPc Canmsg}
  {q : Option QPc} {r : ConsPc}

/-- The receive queue is run by the handler and one consumer at `r`. -/
def RxOk (v : List Canmsg) (chan : Chan (Sja1000 t)) (p : ProdPc Canmsg) (r : ConsPc) : Prop :=
  Spsc.Inv id 11 ⟨chan.rxq, p, r, v, chan.hist.returned, none⟩

/-- At most one context is inside each operation: `p` and `q` are where the producer and the
    consumer of the transmit queue stand, `r` the consumer of the receive queue.  The run began
    with the channel `c`. -/
structure Inv (c : Chan (Sja1000 t)) (s : Threads ι t) (p : ProdPc Canmsg) (q : Option QPc)
    (r : ConsPc) : Prop where
  producer : Sole .out (fun i => (s.thread i).produces) p
  consumer : Sole none s.consumers q
  reader : Sole .out (fun i => (s.thread i).reads) r
  tx : TxOk ((c.txq.contents ++ s.chan.hist.accepted).map Canmsg.onWire) s.carries.toNat s.chan
    p q
  rx : RxOk (c.rxq.contents ++ s.chan.hist.received) s.chan s.part.produces r

/-- The invariant, whoever is inside. -/
def Ok (c : Chan (Sja1000 t)) (s : Threads ι t) : Prop := ∃ p q r, Inv c s p q r

variable [DecidableEq ι]

/-- A thread goes from one place to another. -/
theorem sole_goto {α : Type} {f : ThreadPc → α} {out a a' : α} {thread : ι → ThreadPc} {i : ι}
    {pc : ThreadPc} (h : Sole out (fun j => f (thread j)) a)
    (hi : f (thread i) = f pc ∧ a' = a ∨ (f (thread i) ≠ out ∨ a = out) ∧ a' = f pc) :
    Sole out (fun j => f (Function.update thread i pc j)) a' := by
  have hcomp : (fun j => f (Function.update thread i pc j)) =
      Function.update (fun j => f (thread j)) i (f pc) := Function.comp_update f thread i pc
  rw [hcomp]
  exact h.move hi

theorem consumers_goto (i : ι) (pc : ThreadPc) :
    (s.goto i pc).consumers = Function.update s.consumers (.inl i) pc.consumes := by
  have hcomp : (fun j => (Function.update s.thread i pc j).consumes) =
      Function.update (fun j => (s.thread j).consumes) i pc.consumes :=
    Function.comp_update ThreadPc.consumes s.thread i pc
  show Sum.elim (fun j => (Function.update s.thread i pc j).consumes) _ = _
  rw [hcomp, consumers, Sum.update_elim_inl]
  rfl

theorem consumers_part (part : HandlerPart) :
    ({ s with part := part } : Threads ι t).consumers =
      Function.update s.consumers (.inr .irq) part.consumes := by
  funext w
  rcases w with i | - | -
  · rfl
  · rfl
  · rfl

theorem consumers_timer (timer : TimerPc) :
    ({ s with timer := timer } : Threads ι t).consumers =
      Function.update s.consumers (.inr .timer) timer.consumes := by
  funext w
  rcases w with i | - | -
  · rfl
  · rfl
  · rfl

/-- Thread `i` goes on from `pc₀` to `pc` and leaves the channel `chan` behind. -/
theorem Inv.goto (h : Inv c s p q r) {i : ι} {pc₀ pc : ThreadPc} {chan : Chan (Sja1000 t)}
    {p' : ProdPc Canmsg} {q' : Option QPc} {r' : ConsPc} (hpc : s.thread i = pc₀)
    (hp : pc₀.produces = pc.produces ∧ p' = p ∨
      (pc₀.produces ≠ .out ∨ p = .out) ∧ p' = pc.produces)
    (hq : pc₀.consumes = pc.consumes ∧ q' = q ∨
      (pc₀.consumes ≠ none ∨ q = none) ∧ q' = pc.consumes)
    (hr : pc₀.reads = pc.reads ∧ r' = r ∨ (pc₀.reads ≠ .out ∨ r = .out) ∧ r' = pc.reads)
    (htx : TxOk ((c.txq.contents ++ chan.hist.accepted).map Canmsg.onWire) s.carries.toNat chan
      p' q')
    (hrx : RxOk (c.rxq.contents ++ chan.hist.received) chan s.part.produces r') :
    Inv c { s.goto i pc with chan := chan } p' q' r' := by
  subst hpc
  refine ⟨sole_goto h.producer hp, ?_, sole_goto h.reader hr, htx, hrx⟩
  show Sole none (s.goto i pc).consumers q'
  rw [consumers_goto]
  exact h.consumer.move hq

/-! ## What the callers have to keep apart -/

/-- No thread begins a call while another one is inside the same operation; a thread that has
    read `idle` as 1 finds it still up when it clears it; the handler does not come to run the
    consumer while a context stands between its transmission request and `consumed++`, and
    does not make up an interrupt while somebody else has the role of the consumer. -/
def careful [Fintype ι] (s : Threads ι t) : ThreadOp ι → Bool
  | .write _ => decide (∀ j, (s.thread j).inTxProduce = false)
  | .read _ => decide (∀ j, (s.thread j).inRxConsume = false)
  | .go i _ =>
      match s.thread i with
      | .sawIdle => s.chan.txq.idle
      | _ => true
  | .handler tstamp =>
      match s.part, s.pc with
      | .plain, .txRun _ _ => decide (∀ w, s.consumers w ≠ some .loaded)
      | .plain, .warnAccess _ _ =>
          TxBuf.timely ⟨s.chan, s.pc⟩ (.irq tstamp) &&
            decide (∀ w, inRoleOf (s.consumers w) = 0)
      | _, _ => true
  | .expire | .worker | .event _ => true

/-! ## What a step preserves -/

namespace Inv

/-- A round of `can_write` begins. -/
theorem write (h : Inv c s p q r) {i : ι} (hfree : ∀ j, (s.thread j).produces = .out)
    {s' : Threads ι t} (hstep : s.step (.write i) = some s') : Ok c s' := by
  obtain rfl := h.producer.nobody hfree
  simp only [step] at hstep
  split at hstep
  · rename_i hpc
    obtain rfl := Option.some.inj hstep
    cases hfull : s.chan.txq.full with
    | true => exact ⟨_, _, _, h⟩
    | false =>
        exact ⟨.room, q, r, h.goto hpc (.inr ⟨.inr rfl, rfl⟩) (.inl ⟨rfl, rfl⟩)
          (.inl ⟨rfl, rfl⟩) (h.tx.room hfull) h.rx⟩
  · cases hstep

/-- A round of `can_read` begins. -/
theorem read (h : Inv c s p q r) {i : ι} (hfree : ∀ j, (s.thread j).reads = .out)
    {s' : Threads ι t} (hstep : s.step (.read i) = some s') : Ok c s' := by
  obtain rfl := h.reader.nobody hfree
  simp only [step] at hstep
  split at hstep
  · rename_i hpc
    obtain rfl := Option.some.inj hstep
    cases hempty : s.chan.rxq.empty with
    | true =>
        have hidle : RxOk (c.rxq.contents ++ s.chan.hist.received)
            { s.chan with rxq := s.chan.rxq.setIdle true } s.part.produces .out :=
          Spsc.Inv.setIdle h.rx true
        exact ⟨p, q, .out, h.producer, h.consumer, h.reader,
          h.tx.of_eq rfl rfl rfl (Nat.le_refl _), hidle⟩
    | false =>
        have hne : ¬ s.chan.rxq.empty = true := by
          rw [hempty]
          exact Bool.false_ne_true
        have hfound : RxOk (c.rxq.contents ++ s.chan.hist.received) s.chan s.part.produces
            .found := by
          refine Spsc.Inv.testEmpty h.rx ?_
          exact if_neg hne
        exact ⟨p, q, .found, h.goto hpc (.inl ⟨rfl, rfl⟩) (.inl ⟨rfl, rfl⟩)
          (.inr ⟨.inr rfl, rfl⟩) h.tx hfound⟩
  · cases hstep

/-- Where a thread stands when its step in `qconsume` has left it at `o`. -/
theorem elim_kick (o : Option QPc) :
    (o.elim ThreadPc.out ThreadPc.kick).produces = .out ∧
      (o.elim ThreadPc.out ThreadPc.kick).consumes = o ∧
      (o.elim ThreadPc.out ThreadPc.kick).reads = .out := by
  cases o with
  | none => exact ⟨rfl, rfl, rfl⟩
  | some pc => exact ⟨rfl, rfl, rfl⟩

omit [DecidableEq ι] in
/-- The context inside `qconsume` on the transmit queue makes a step. -/
theorem consume {pc : QPc} (h : Inv c s p (some pc) r) :
    TxOk ((c.txq.contents ++ (qstep s.chan pc).1.hist.accepted).map Canmsg.onWire)
        s.carries.toNat (qstep s.chan pc).1 p (qstep s.chan pc).2 ∧
      RxOk (c.rxq.contents ++ (qstep s.chan pc).1.hist.received) (qstep s.chan pc).1
        s.part.produces r := by
  have htx := h.tx.qstep
  obtain ⟨txq, prog, dw, kapi, l, chip, hframe⟩ := qstep_frame s.chan pc
  rw [hframe] at htx ⊢
  exact ⟨htx, h.rx⟩

/-- A thread goes on in `can_write`. -/
theorem goWrite (h : Inv c s p q r) {i : ι} {u : UserMsg}
    (hidle : s.thread i = .sawIdle → s.chan.txq.idle = true) {s' : Threads ι t}
    (hreads : (s.thread i).reads = .out) (hstep : s.step (.go i u) = some s') : Ok c s' := by
  simp only [step, stepThread] at hstep
  cases hpc : s.thread i with
  | out =>
      rw [hpc] at hstep
      cases hstep
  | room =>
      rw [hpc] at hstep
      obtain rfl := Option.some.inj hstep
      have hplace : (s.thread i).produces = .room := by
        rw [hpc]
        rfl
      obtain rfl := h.producer.eq_of_place hplace (fun he => by cases he)
      exact ⟨_, q, r, h.goto hpc (.inr ⟨.inl (fun he => by cases he), rfl⟩) (.inl ⟨rfl, rfl⟩)
        (.inl ⟨rfl, rfl⟩) (h.tx.fill _) h.rx⟩
  | filled m =>
      rw [hpc] at hstep
      obtain rfl := Option.some.inj hstep
      have hplace : (s.thread i).produces = .filled m := by
        rw [hpc]
        rfl
      obtain rfl := h.producer.eq_of_place hplace (fun he => by cases he)
      refine ⟨_, q, r, h.goto hpc (.inr ⟨.inl (fun he => by cases he), rfl⟩) (.inl ⟨rfl, rfl⟩)
        (.inl ⟨rfl, rfl⟩) ?_ h.rx⟩
      show TxOk ((c.txq.contents ++ (s.chan.hist.accepted ++ [m])).map Canmsg.onWire) _ _ _ _
      rw [← List.append_assoc, List.map_append]
      exact h.tx.publish
  | published =>
      rw [hpc] at hstep
      obtain rfl := Option.some.inj hstep
      cases s.chan.txq.idle with
      | true =>
          exact ⟨p, q, r, h.goto hpc (.inl ⟨rfl, rfl⟩) (.inl ⟨rfl, rfl⟩) (.inl ⟨rfl, rfl⟩) h.tx
            h.rx⟩
      | false =>
          exact ⟨p, q, r, h.goto hpc (.inl ⟨rfl, rfl⟩) (.inl ⟨rfl, rfl⟩) (.inl ⟨rfl, rfl⟩) h.tx
            h.rx⟩
  | sawIdle =>
      rw [hpc] at hstep
      obtain rfl := Option.some.inj hstep
      have hflag := hidle hpc
      obtain rfl := h.tx.nobody (.inl hflag)
      exact ⟨p, _, r, h.goto hpc (.inl ⟨rfl, rfl⟩) (.inr ⟨.inr rfl, rfl⟩) (.inl ⟨rfl, rfl⟩)
        (h.tx.clearIdle hflag) h.rx⟩
  | kick pc =>
      rw [hpc] at hstep
      obtain rfl := Option.some.inj hstep
      have hplace : s.consumers (.inl i) = some pc := by
        show (s.thread i).consumes = some pc
        rw [hpc]
        rfl
      obtain rfl := h.consumer.eq_of_place hplace (fun he => by cases he)
      obtain ⟨htx, hrx⟩ := h.consume
      obtain ⟨hp, hq, hr⟩ := elim_kick (qstep s.chan pc).2
      exact ⟨p, _, r, h.goto hpc (.inl ⟨hp.symm, rfl⟩)
        (.inr ⟨.inl (fun he => by cases he), hq.symm⟩) (.inl ⟨hr.symm, rfl⟩) htx hrx⟩
  | found | copied =>
      rw [hpc] at hreads
      cases hreads

/-- A thread goes on in `can_read`. -/
theorem goRead (h : Inv c s p q r) {i : ι} {u : UserMsg} (hreads : (s.thread i).reads ≠ .out)
    {s' : Threads ι t} (hstep : s.step (.go i u) = some s') : Ok c s' := by
  simp only [step, stepThread] at hstep
  cases hpc : s.thread i with
  | found =>
      rw [hpc] at hstep
      obtain rfl := Option.some.inj hstep
      have hplace : (s.thread i).reads = .found := by
        rw [hpc]
        rfl
      obtain rfl := h.reader.eq_of_place hplace (fun he => by cases he)
      -- the callback leaves the slot as it is
      have hself : s.chan.rxq.setHead s.chan.rxq.head = s.chan.rxq := by
        simp [MsgQ.setHead, MsgQ.head]
      have hcopied : RxOk (c.rxq.contents ++ s.chan.hist.received)
          { s.chan with
            hist := { s.chan.hist with returned := s.chan.hist.returned ++ [s.chan.rxq.head] } }
          s.part.produces (.called true) := by
        refine Spsc.Inv.call (m := s.chan.rxq.head) (r := true) h.rx ?_
        simp [Spsc.step, hself]
      exact ⟨p, q, _, h.goto hpc (.inl ⟨rfl, rfl⟩) (.inl ⟨rfl, rfl⟩)
        (.inr ⟨.inl (fun he => by cases he), rfl⟩) (h.tx.of_eq rfl rfl rfl (Nat.le_refl _)) hcopied⟩
  | copied =>
      rw [hpc] at hstep
      obtain rfl := Option.some.inj hstep
      have hplace : (s.thread i).reads = .called true := by
        rw [hpc]
        rfl
      obtain rfl := h.reader.eq_of_place hplace (fun he => by cases he)
      have hgone : RxOk (c.rxq.contents ++ s.chan.hist.received)
          { s.chan with rxq := s.chan.rxq.advance } s.part.produces .out :=
        Spsc.Inv.advance h.rx rfl
      exact ⟨p, q, _, h.goto hpc (.inl ⟨rfl, rfl⟩) (.inl ⟨rfl, rfl⟩)
        (.inr ⟨.inl (fun he => by cases he), rfl⟩) (h.tx.of_eq rfl rfl rfl (Nat.le_refl _)) hgone⟩
  | out | room | filled _ | published | sawIdle | kick _ =>
      rw [hpc] at hreads
      exact absurd rfl hreads

/-- The handler goes on, at `pc` and `part`, and leaves the channel `chan` behind. -/
theorem handle (h : Inv c s p q r) {chan : Chan (Sja1000 t)} {pc : IrqPc} {part : HandlerPart}
    {q' : Option QPc}
    (hq : s.part.consumes = part.consumes ∧ q' = q ∨
      (s.part.consumes ≠ none ∨ q = none) ∧ q' = part.consumes)
    (htx : TxOk ((c.txq.contents ++ chan.hist.accepted).map Canmsg.onWire)
      (carries ⟨chan, s.thread, pc, part, s.timer⟩).toNat chan p q')
    (hrx : RxOk (c.rxq.contents ++ chan.hist.received) chan part.produces r) :
    Inv c { s with chan := chan, pc := pc, part := part } p q' r := by
  refine ⟨h.producer, ?_, h.reader, htx, hrx⟩
  show Sole none ({ s with part := part } : Threads ι t).consumers q'
  rw [consumers_part]
  exact h.consumer.move hq

/-- The worker of the timer goes on from `timer₀` to `timer`. -/
theorem work (h : Inv c s p q r) {chan : Chan (Sja1000 t)} {timer₀ timer : TimerPc}
    {q' : Option QPc} (htimer : s.timer = timer₀)
    (hq : timer₀.consumes = timer.consumes ∧ q' = q ∨
      (timer₀.consumes ≠ none ∨ q = none) ∧ q' = timer.consumes)
    (htx : TxOk ((c.txq.contents ++ chan.hist.accepted).map Canmsg.onWire) s.carries.toNat chan
      p q')
    (hrx : RxOk (c.rxq.contents ++ chan.hist.received) chan s.part.produces r) :
    Inv c { s with chan := chan, timer := timer } p q' r := by
  subst htimer
  refine ⟨h.producer, ?_, h.reader, htx, hrx⟩
  show Sole none ({ s with timer := timer } : Threads ι t).consumers q'
  rw [consumers_timer]
  exact h.consumer.move hq

omit [DecidableEq ι] in
/-- Waking somebody touches no queue. -/
theorem wakeWriters (h : Inv c s p q r) :
    TxOk ((c.txq.contents ++ s.chan.wakeWriters.hist.accepted).map Canmsg.onWire)
        s.carries.toNat s.chan.wakeWriters p q ∧
      RxOk (c.rxq.contents ++ s.chan.wakeWriters.hist.received) s.chan.wakeWriters
        s.part.produces r := by
  obtain ⟨n, hframe⟩ := wakeWriters_frame s.chan
  rw [hframe]
  exact ⟨h.tx.of_eq rfl rfl rfl (Nat.le_refl _), h.rx⟩

/-- The delay timer runs out. -/
theorem expire (h : Inv c s p q r) {s' : Threads ι t} (hstep : s.step .expire = some s') :
    Ok c s' := by
  simp only [step] at hstep
  split at hstep
  · rename_i htimer
    split at hstep
    · rename_i harmed
      obtain rfl := Option.some.inj hstep
      obtain rfl := h.tx.nobody (.inr harmed)
      have htx := h.tx.expire harmed
      obtain ⟨kapi, hframe⟩ := disarm_frame s.chan
      rw [hframe] at htx ⊢
      exact ⟨p, _, r, h.work htimer (.inr ⟨.inr rfl, rfl⟩) htx h.rx⟩
    · cases hstep
  · cases hstep

theorem worker (h : Inv c s p q r) {s' : Threads ι t} (hstep : s.step .worker = some s') :
    Ok c s' := by
  simp only [step, stepWorker] at hstep
  cases htimer : s.timer with
  | out =>
      rw [htimer] at hstep
      cases hstep
  | consume pc =>
      rw [htimer] at hstep
      obtain rfl := Option.some.inj hstep
      have hplace : s.consumers (.inr .timer) = some pc := by
        show s.timer.consumes = some pc
        rw [htimer]
        rfl
      obtain rfl := h.consumer.eq_of_place hplace (fun he => by cases he)
      obtain ⟨htx, hrx⟩ := h.consume
      refine ⟨p, _, r, h.work htimer (.inr ⟨.inl (fun he => by cases he), ?_⟩) htx hrx⟩
      cases (Can4linux.qstep s.chan pc).2 with
      | none => rfl
      | some pc' => rfl
  | consumed =>
      rw [htimer] at hstep
      obtain rfl := Option.some.inj hstep
      obtain ⟨htx, hrx⟩ := h.wakeWriters
      exact ⟨p, q, r, h.work htimer (.inl ⟨rfl, rfl⟩) htx hrx⟩

omit [DecidableEq ι] in
/-- The controller does something of its own. -/
theorem event (h : Inv c s p q r) {op : Op} {chan : Chan (Sja1000 t)} (hop : op.isEvent = true)
    (hstep : s.chan.step op = some chan) : Inv c { s with chan := chan } p q r := by
  obtain ⟨hroles, chip, rfl⟩ := roles_event hop hstep
  exact ⟨h.producer, h.consumer, h.reader,
    h.tx.of_eq rfl rfl rfl (Nat.add_le_add_right hroles _), h.rx⟩

/-- A step of the handler outside the queues. -/
theorem plain (h : Inv c s p q r) {tstamp : Timeval} (hpart : s.part = .plain)
    (hoffer : s.pc.offer (Sja1000 t) t = none) (hrun : ∀ irqsrc inf, s.pc ≠ .txRun irqsrc inf)
    (haccess : ∀ irqsrc inf, s.pc = .warnAccess irqsrc inf →
      TxBuf.timely ⟨s.chan, s.pc⟩ (.irq tstamp) = true ∧ inRoleOf q = 0) :
    Inv c { s with
      chan := (irqStep t tstamp s.chan s.pc).1, pc := (irqStep t tstamp s.chan s.pc).2 } p q r := by
  obtain ⟨chan, thread, pc, part, timer⟩ := s
  obtain rfl : part = .plain := hpart
  have hroles : chan.roles + pc.carries.toNat + inRoleOf q ≤ 1 := h.tx.roles
  obtain ⟨prog, sys, chip, hframe⟩ : ∃ prog sys chip, (irqStep t tstamp chan pc).1 =
      { chan with txinprogress := prog, sys := sys, chip := chip } := irqStep_frame hoffer hrun
  have hle : (irqStep t tstamp chan pc).1.roles + (irqStep t tstamp chan pc).2.carries.toNat +
      inRoleOf q ≤ 1 := by
    by_cases hacc : ∃ irqsrc inf, pc = .warnAccess irqsrc inf
    · obtain ⟨irqsrc, inf, rfl⟩ := hacc
      obtain ⟨htimely, hnone⟩ := haccess irqsrc inf rfl
      -- the made-up interrupt is the only one
      have hone : TxBuf.holders ⟨chan, .warnAccess irqsrc inf⟩ ≤ 1 :=
        Nat.le_trans (Nat.le_add_right _ _) hroles
      have hmade : (irqStep t tstamp chan (.warnAccess irqsrc inf)).1.roles +
          (irqStep t tstamp chan (.warnAccess irqsrc inf)).2.carries.toNat ≤ 1 :=
        (TxBuf.holders_access hone rfl rfl).mpr htimely
      omega
    · have hquiet : (irqStep t tstamp chan pc).1.roles +
          (irqStep t tstamp chan pc).2.carries.toNat ≤ chan.roles + pc.carries.toNat :=
        (TxBuf.Quiet.handler tstamp (fun irqsrc inf he => hacc ⟨irqsrc, inf, he⟩) hrun).holders
      omega
  refine h.handle (.inl ⟨rfl, rfl⟩) ⟨?_, hle, ?_⟩ ?_
  · rw [hframe]
    exact h.tx.spsc
  · rw [hframe]
    exact h.tx.apart
  · rw [hframe]
    exact h.rx

/-- The handler begins to offer a message to the receive queue. -/
theorem offer (h : Inv c s p q r) {tstamp : Timeval} (hpart : s.part = .plain)
    {produce : Canmsg → Sja1000 t → Canmsg × Sja1000 t} {next : IrqPc}
    (hoffer : s.pc.offer (Sja1000 t) t = some (produce, next)) {s' : Threads ι t}
    (hstep : s.step (.handler tstamp) = some s') : Ok c s' := by
  obtain ⟨chan, thread, pc, part, timer⟩ := s
  obtain rfl : part = .plain := hpart
  have hoffer' : pc.offer (Sja1000 t) t = some (produce, next) := hoffer
  obtain ⟨hcarry, -⟩ := offer_spec hoffer'
  simp only [step, stepHandler, hoffer'] at hstep
  split at hstep
  · obtain rfl := Option.some.inj hstep
    refine ⟨p, q, r, h.handle (.inl ⟨rfl, rfl⟩) (h.tx.of_eq rfl rfl rfl ?_) h.rx⟩
    show chan.roles + next.carries.toNat ≤ chan.roles + pc.carries.toNat
    rw [hcarry]
  · rename_i hroom
    obtain rfl := Option.some.inj hstep
    have hrx : RxOk (c.rxq.contents ++ chan.hist.received) chan .room r :=
      Spsc.Inv.testFull h.rx (if_neg hroom)
    exact ⟨p, q, r, h.handle (.inl ⟨rfl, rfl⟩) h.tx hrx⟩

/-- The handler goes on in `qproduce` on the receive queue. -/
theorem produce (h : Inv c s p q r) {tstamp : Timeval} {part : HandlerPart}
    (hpart : s.part = part) (hprod : part.produces ≠ .out) {s' : Threads ι t}
    (hstep : s.step (.handler tstamp) = some s') : Ok c s' := by
  subst hpart
  obtain ⟨chan, thread, pc, part, timer⟩ := s
  cases part with
  | room =>
      obtain ⟨⟨prod, next⟩, hoffer, rfl⟩ := Option.map_eq_some_iff.mp hstep
      obtain ⟨-, hfifo⟩ := offer_spec hoffer
      obtain ⟨fifo, hchip⟩ := hfifo chan.rxq.freeSlot chan.chip
      have hrx : RxOk (c.rxq.contents ++ chan.hist.received)
          { chan with rxq := chan.rxq.fill (prod chan.rxq.freeSlot chan.chip).1 }
          (.filled (prod chan.rxq.freeSlot chan.chip).1) r := Spsc.Inv.fill h.rx rfl
      refine ⟨p, q, r, h.handle (.inl ⟨rfl, rfl⟩) ?_ hrx⟩
      show TxOk _ _ { chan with
        rxq := chan.rxq.fill (prod chan.rxq.freeSlot chan.chip).1
        chip := (prod chan.rxq.freeSlot chan.chip).2 } p q
      rw [hchip]
      exact h.tx.of_eq rfl rfl rfl (Nat.le_refl _)
  | filled m =>
      obtain ⟨⟨prod, next⟩, hoffer, rfl⟩ := Option.map_eq_some_iff.mp hstep
      obtain ⟨hcarry, -⟩ := offer_spec hoffer
      have hrx : RxOk (c.rxq.contents ++ (chan.hist.received ++ [m]))
          { chan with
            rxq := chan.rxq.publish
            hist := { chan.hist with received := chan.hist.received ++ [m] } } .out r := by
        unfold RxOk
        rw [← List.append_assoc]
        exact (Spsc.Inv.publish h.rx rfl).ret none
      refine ⟨p, q, r, h.handle (.inl ⟨rfl, rfl⟩) (h.tx.of_eq rfl rfl rfl ?_) hrx⟩
      show chan.roles + next.carries.toNat ≤ chan.roles + pc.carries.toNat
      rw [hcarry]
  | plain | consume _ | consumed => exact absurd rfl hprod

/-- The handler runs the consumer of the transmit queue. -/
theorem run (h : Inv c s p q r) {tstamp : Timeval} {part : HandlerPart}
    (hpart : s.part = part) (hplain : part ≠ .plain) (hprod : part.produces = .out)
    {s' : Threads ι t} (hstep : s.step (.handler tstamp) = some s') : Ok c s' := by
  subst hpart
  obtain ⟨chan, thread, pc, part, timer⟩ := s
  cases part with
  | consume qpc =>
      obtain rfl := Option.some.inj hstep
      obtain rfl := h.consumer.eq_of_place (i := .inr .irq) (b := some qpc) rfl
        (fun he => by cases he)
      obtain ⟨htx, hrx⟩ := h.consume
      cases hnext : (qstep chan qpc).2 with
      | none =>
          rw [hnext] at htx
          exact ⟨p, none, r, h.handle (.inr ⟨.inl (fun he => by cases he), rfl⟩) htx hrx⟩
      | some qpc' =>
          rw [hnext] at htx
          exact ⟨p, some qpc', r, h.handle (.inr ⟨.inl (fun he => by cases he), rfl⟩) htx hrx⟩
  | consumed =>
      obtain ⟨htx, hrx⟩ := h.wakeWriters
      cases pc with
      | txRun irqsrc inf =>
          obtain rfl := Option.some.inj hstep
          exact ⟨p, q, r, h.handle (.inl ⟨rfl, rfl⟩) htx hrx⟩
      | out | rx _ _ | rxStat _ _ | rxClear _ _ | warn _ _ | undo _ _ | undoWrite _ _ _
      | warnStat _ _ | warnProg _ _ | warnAccess _ _ | warnMsg _ _ | tx _ _ | ovr _ _ | ovrMsg _
      | ovrClear => cases hstep
  | plain => exact absurd rfl hplain
  | room | filled _ => cases hprod

variable [Fintype ι]

/-- A step of the handler. -/
theorem handler (h : Inv c s p q r) {tstamp : Timeval} (hg : s.careful (.handler tstamp) = true)
    {s' : Threads ι t} (hstep : s.step (.handler tstamp) = some s') : Ok c s' := by
  cases hpart : s.part with
  | plain =>
      cases hoffer : s.pc.offer (Sja1000 t) t with
      | some next => exact h.offer hpart hoffer hstep
      | none =>
          by_cases hrun : ∃ irqsrc inf, s.pc = .txRun irqsrc inf
          · obtain ⟨irqsrc, inf, hpc⟩ := hrun
            simp only [careful, hpart, hpc, decide_eq_true_eq] at hg
            have henter : s.step (.handler tstamp) =
                some { s with chan := s.chan, pc := s.pc, part := .consume .entered } := by
              simp only [step, stepHandler, hpart, hoffer]
              rw [hpc]
            rw [henter] at hstep
            obtain rfl := Option.some.inj hstep
            -- nobody is behind a load, so the handler is the only one to enter
            have hcarry : s.carries.toNat = 1 := by
              rw [carries, hpart, hpc]
              rfl
            have htx := h.tx
            rw [hcarry] at htx
            have hload : q ≠ some .loaded := by
              rintro rfl
              obtain ⟨w, hw⟩ := h.consumer.exists_of_ne (fun he => by cases he)
              exact hg w hw
            obtain ⟨rfl, hentered⟩ := htx.takeIrq hload
            have hrx := h.rx
            rw [hpart] at hrx
            exact ⟨p, _, r, h.handle (.inr ⟨.inr rfl, rfl⟩) hentered hrx⟩
          · rw [stepHandler_plain hpart hoffer fun irqsrc inf he => hrun ⟨irqsrc, inf, he⟩]
              at hstep
            obtain rfl := Option.some.inj hstep
            refine ⟨p, q, r, h.plain hpart hoffer (fun irqsrc inf he => hrun ⟨irqsrc, inf, he⟩) ?_⟩
            intro irqsrc inf hpc
            simp only [careful, hpart, hpc, Bool.and_eq_true, decide_eq_true_eq] at hg
            rw [hpc]
            refine ⟨hg.1, ?_⟩
            cases q with
            | none => rfl
            | some qpc =>
                obtain ⟨w, hw⟩ := h.consumer.exists_of_ne (fun he => by cases he)
                rw [← hw]
                exact hg.2 w
  | room | filled m => exact h.produce hpart (fun he => by cases he) hstep
  | consume qpc | consumed => exact h.run hpart (fun he => by cases he) rfl hstep

end Inv

/-- Careful steps keep at most one context inside each operation. -/
theorem Ok.step [Fintype ι] (h : Ok c s) {op : ThreadOp ι} (hg : s.careful op = true)
    {s' : Threads ι t} (hstep : s.step op = some s') : Ok c s' := by
  obtain ⟨p, q, r, h⟩ := h
  cases op with
  | write i =>
      have hfree := of_decide_eq_true hg
      exact h.write (fun j => ThreadPc.produces_eq_out (hfree j)) hstep
  | read i =>
      have hfree := of_decide_eq_true hg
      exact h.read (fun j => ThreadPc.reads_eq_out (hfree j)) hstep
  | go i u =>
      by_cases hreads : (s.thread i).reads = .out
      · refine h.goWrite ?_ hreads hstep
        intro hpc
        simpa only [careful, hpc] using hg
      · exact h.goRead hreads hstep
  | handler tstamp => exact h.handler hg hstep
  | expire => exact h.expire hstep
  | worker => exact h.worker hstep
  | event op =>
      simp only [Threads.step] at hstep
      split at hstep
      · rename_i hop
        obtain ⟨chan, hchan, rfl⟩ := Option.map_eq_some_iff.mp hstep
        exact ⟨p, q, r, h.event hop hchan⟩
      · cases hstep

/-! ## Runs -/

/-- One producer and one consumer for each queue, and what that is good for.  Into the receive
    queue only the handler produces; the run began with the channel `c`. -/
structure OneEach [Fintype ι] (c : Chan (Sja1000 t)) (s : Threads ι t) : Prop where
  txProduce : ∀ i j, (s.thread i).inTxProduce = true → (s.thread j).inTxProduce = true → i = j
  txConsume : ∀ v w, (s.consumers v).isSome = true → (s.consumers w).isSome = true → v = w
  rxConsume : ∀ i j, (s.thread i).inRxConsume = true → (s.thread j).inRxConsume = true → i = j
  /-- no accepted message is overwritten: each is sent, or still in the queue, in order -/
  sent : s.chan.hist.loaded ++ s.unsent.map Canmsg.onWire =
    (c.txq.contents ++ s.chan.hist.accepted).map Canmsg.onWire
  /-- no received message is returned twice: each is returned, or still in the queue -/
  returned : s.chan.hist.returned ++ s.unread = c.rxq.contents ++ s.chan.hist.received

omit [DecidableEq ι] in
/-- What the known consumer has not finished with is what no context has finished with. -/
theorem Inv.queued_unsent [Fintype ι] (h : Inv c s p q r) (v l : List Canmsg) :
    Spsc.queued Canmsg.onWire ⟨s.chan.txq, p, consOf q, v, l, none⟩ =
      s.unsent.map Canmsg.onWire := by
  rw [Spsc.queued, unsent]
  congr 1
  by_cases hloaded : ∃ w, s.consumers w = some .loaded
  · obtain ⟨w, hw⟩ := hloaded
    obtain rfl := h.consumer.eq_of_place hw (fun he => by cases he)
    exact (if_pos ⟨w, hw⟩).symm
  · rw [if_neg hloaded]
    cases q with
    | none => rfl
    | some pc =>
        cases pc with
        | entered | calling => rfl
        | loaded => exact absurd (h.consumer.exists_of_ne (fun he => by cases he)) hloaded

omit [DecidableEq ι] in
theorem Inv.queued_unread [Fintype ι] (h : Inv c s p q r) (v l : List Canmsg) :
    Spsc.queued id ⟨s.chan.rxq, s.part.produces, r, v, l, none⟩ = s.unread := by
  rw [Spsc.queued, unread, List.map_id]
  by_cases hcopied : ∃ i, (s.thread i).reads = .called true
  · obtain ⟨i, hi⟩ := hcopied
    obtain rfl := h.reader.eq_of_place hi (fun he => by cases he)
    exact (if_pos ⟨i, hi⟩).symm
  · rw [if_neg hcopied]
    cases r with
    | out | found => rfl
    | called b =>
        cases b with
        | false => rfl
        | true => exact absurd (h.reader.exists_of_ne (fun he => by cases he)) hcopied

omit [DecidableEq ι] in
theorem Inv.oneEach [Fintype ι] (h : Inv c s p q r) : OneEach c s := by
  refine ⟨?_, ?_, ?_, ?_, ?_⟩
  · intro i j hi hj
    exact h.producer.alone i j (ThreadPc.produces_ne_out hi) (ThreadPc.produces_ne_out hj)
  · intro v w hv hw
    exact h.consumer.alone v w (Option.isSome_iff_ne_none.mp hv) (Option.isSome_iff_ne_none.mp hw)
  · intro i j hi hj
    exact h.reader.alone i j (ThreadPc.reads_ne_out hi) (ThreadPc.reads_ne_out hj)
  · have hfifo := h.tx.spsc.fifo
    rwa [h.queued_unsent] at hfifo
  · have hfifo := Spsc.Inv.fifo h.rx
    rwa [h.queued_unread] at hfifo

/-! ## Careless steps -/

section Careless

variable [Fintype ι] {s' : Threads ι t}

/-- A thread that enters while another one is in `qproduce` is let in: the slot that the other
    one fills is still free. -/
theorem Inv.careless_write (h : Inv c s p q r) {i : ι} (hg : s.careful (.write i) = false)
    (hstep : s.step (.write i) = some s') : ¬ OneEach c s' := by
  have hnot := of_decide_eq_false hg
  obtain ⟨j, hj⟩ := not_forall.mp hnot
  have hinside : (s.thread j).inTxProduce = true := Bool.eq_true_of_not_eq_false hj
  have hplace := h.producer.stands j (ThreadPc.produces_ne_out hinside)
  have hroom : s.chan.txq.full = false := by
    cases hpc : s.thread j with
    | room =>
        rw [hpc] at hplace
        exact h.tx.spsc.room hplace.symm
    | filled m =>
        rw [hpc] at hplace
        exact (h.tx.spsc.filled m hplace.symm).1
    | out | published | sawIdle | kick _ | found | copied =>
        rw [hpc] at hinside
        cases hinside
  simp only [step] at hstep
  split at hstep
  · rename_i hpc
    have hne : j ≠ i := by
      rintro rfl
      rw [hpc] at hinside
      cases hinside
    rw [hroom, if_neg Bool.false_ne_true] at hstep
    obtain rfl := Option.some.inj hstep
    intro hone
    refine hne (hone.txProduce j i ?_ ?_)
    · show (Function.update s.thread i .room j).inTxProduce = true
      rw [Function.update_of_ne hne]
      exact hinside
    · show (Function.update s.thread i .room i).inTxProduce = true
      rw [Function.update_self]
      rfl
  · cases hstep

/-- So is one that enters while another one is in `qconsume` on the receive queue: the message
    that the other one copies is still queued. -/
theorem Inv.careless_read (h : Inv c s p q r) {i : ι} (hg : s.careful (.read i) = false)
    (hstep : s.step (.read i) = some s') : ¬ OneEach c s' := by
  have hnot := of_decide_eq_false hg
  obtain ⟨j, hj⟩ := not_forall.mp hnot
  have hinside : (s.thread j).inRxConsume = true := Bool.eq_true_of_not_eq_false hj
  have hplace := h.reader.stands j (ThreadPc.reads_ne_out hinside)
  have hfound : s.chan.rxq.contents ≠ [] := by
    refine Spsc.Inv.found h.rx ?_
    show r ≠ .out
    rw [← hplace]
    exact ThreadPc.reads_ne_out hinside
  have hempty : s.chan.rxq.empty = false :=
    Bool.eq_false_of_not_eq_true fun he => hfound (MsgQ.empty_iff.mp he)
  simp only [step] at hstep
  split at hstep
  · rename_i hpc
    have hne : j ≠ i := by
      rintro rfl
      rw [hpc] at hinside
      cases hinside
    rw [hempty, if_neg Bool.false_ne_true] at hstep
    obtain rfl := Option.some.inj hstep
    intro hone
    refine hne (hone.rxConsume j i ?_ ?_)
    · show (Function.update s.thread i .found j).inRxConsume = true
      rw [Function.update_of_ne hne]
      exact hinside
    · show (Function.update s.thread i .found i).inRxConsume = true
      rw [Function.update_self]
      rfl
  · cases hstep

omit [DecidableEq ι] in
/-- So is the handler that comes to run the consumer while a context stands between its
    transmission request and `consumed++`. -/
theorem careless_run [DecidableEq ι] {tstamp : Timeval} {irqsrc : U8} {inf : Msginf}
    (hpart : s.part = .plain) (hpc : s.pc = .txRun irqsrc inf)
    (hg : s.careful (.handler tstamp) = false) (hstep : s.step (.handler tstamp) = some s') :
    ¬ OneEach c s' := by
  simp only [careful, hpart, hpc, decide_eq_false_iff_not, not_forall, not_not] at hg
  obtain ⟨w, hw⟩ := hg
  have henter : s.step (.handler tstamp) = some { s with part := .consume .entered } := by
    simp only [step, stepHandler, hpart, hpc, IrqPc.offer]
  rw [henter] at hstep
  obtain rfl := Option.some.inj hstep
  have hne : w ≠ .inr .irq := by
    rintro rfl
    have hirq : s.part.consumes = some .loaded := hw
    rw [hpart] at hirq
    cases hirq
  intro hone
  refine hne (hone.txConsume w (.inr .irq) ?_ rfl)
  rw [consumers_part, Function.update_of_ne hne, hw]
  rfl

end Careless

omit [DecidableEq ι] in
/-- All contexts outside, right after an open. -/
theorem Inv.start {s₀ : Chan (Sja1000 t)} {env : OpenEnv} (hreached : Reached s₀)
    (hopen : s₀.step (.open env) = some c) (htimer : c.timerArmed = false) :
    Inv c (Threads.start c : Threads ι t) .out none .out := by
  have hflow := Flow.of_open hreached.bounds.1 hreached.bounds.2 hopen
  have hroles := roles_open hopen htimer
  have hidle := Bool.toNat_lt c.txq.idle
  have hnone : (Threads.start c : Threads ι t).consumers = fun _ => none := by
    funext w
    rcases w with i | - | -
    · rfl
    · rfl
    · rfl
  refine ⟨Sole.start, hnone ▸ Sole.start, Sole.start, ⟨?_, ?_, ?_⟩, ?_⟩
  · exact ⟨hflow.txWf, fun he => (by cases he), fun m he => (by cases he), fun he => absurd rfl he,
      hflow.tx⟩
  · exact Nat.le_of_eq hroles
  · show c.txq.idle.toNat + c.timerArmed.toNat + 0 ≤ 1
    rw [htimer, Bool.toNat_false]
    omega
  · refine ⟨hflow.rxWf, fun he => (by cases he), fun m he => (by cases he), fun he => absurd rfl he,
      ?_⟩
    rw [Spsc.queued, List.map_id]
    exact hflow.rx

/-- **One producer and one consumer.**  Any number of threads on a device that has just been
    opened, no timer of an earlier session being armed: in every run whose steps are careful
    there is one context at most inside each operation, and no message is lost between
    acceptance and transmission or handed out twice. -/
theorem one_each [Fintype ι] {s₀ : Chan (Sja1000 t)} {env : OpenEnv} {ops : List (ThreadOp ι)}
    (hreached : Reached s₀) (hopen : s₀.step (.open env) = some c)
    (htimer : c.timerArmed = false)
    (hrun : Run.exec (Run.restrict step fun s op => s.careful op = true) (Threads.start c) ops =
      some s) : OneEach c s := by
  have hstart : Ok c (Threads.start c : Threads ι t) :=
    ⟨_, _, _, Inv.start hreached hopen htimer⟩
  obtain ⟨p, q, r, hinv⟩ := Run.exec_restrict_invariant
    (fun _ _ _ h hg hstep => Ok.step h hg hstep) hstart hrun
  exact hinv.oneEach

/-- One thread writes a message and sends it; while it does so another one reads, and then
    writes a message that the interrupt of the first one finds. -/
theorem one_each_two : ∃ s, Run.exec
    (Run.restrict step fun s op => s.careful op = true)
    (Threads.start Chan.opened : Threads Bool .atcanminiPelican)
    [.write false, .go false (.ofMsg Canmsg.zero), .read true, .go false (.ofMsg Canmsg.zero),
      .write true, .go false (.ofMsg Canmsg.zero), .go false (.ofMsg Canmsg.zero),
      .go true (.ofMsg Canmsg.zero), .go false (.ofMsg Canmsg.zero),
      .go false (.ofMsg Canmsg.zero), .go true (.ofMsg Canmsg.zero),
      .go false (.ofMsg Canmsg.zero), .event .txDone, .handler ⟨0, 0⟩, .handler ⟨0, 0⟩,
      .handler ⟨0, 0⟩, .handler ⟨0, 0⟩, .handler ⟨0, 0⟩, .handler ⟨0, 0⟩, .handler ⟨0, 0⟩] =
        some s ∧
    OneEach Chan.opened s := by
  obtain ⟨s, hs⟩ := Option.isSome_iff_exists.mp (show (Run.exec
    (Run.restrict step fun s op => s.careful op = true)
    (Threads.start Chan.opened : Threads Bool .atcanminiPelican)
    [.write false, .go false (.ofMsg Canmsg.zero), .read true, .go false (.ofMsg Canmsg.zero),
      .write true, .go false (.ofMsg Canmsg.zero), .go false (.ofMsg Canmsg.zero),
      .go true (.ofMsg Canmsg.zero), .go false (.ofMsg Canmsg.zero),
      .go false (.ofMsg Canmsg.zero), .go true (.ofMsg Canmsg.zero),
      .go false (.ofMsg Canmsg.zero), .event .txDone, .handler ⟨0, 0⟩, .handler ⟨0, 0⟩,
      .handler ⟨0, 0⟩, .handler ⟨0, 0⟩, .handler ⟨0, 0⟩, .handler ⟨0, 0⟩,
      .handler ⟨0, 0⟩]).isSome = true by decide +kernel)
  exact ⟨s, hs, one_each reached_unopened Chan.step_opened (by decide) hs⟩

/-- Two threads write at the same time: both find the same free slot, the second message
    overwrites the first one, and a stale slot is published.  Two threads read at the same
    time: both get the one message received. -/
theorem threads_collide :
    ¬ (∀ ops s, Run.exec step (Threads.start Chan.opened : Threads Bool .atcanminiPelican) ops =
      some s → OneEach Chan.opened s) ∧
    (Run.exec step (Threads.start Chan.opened : Threads Bool .atcanminiPelican)
      [.write false, .write true, .go false (.ofMsg { Canmsg.zero with id := 1 }),
        .go true (.ofMsg { Canmsg.zero with id := 2 }), .go false (.ofMsg Canmsg.zero),
        .go true (.ofMsg Canmsg.zero)]).map
      (fun s => (s.chan.hist.accepted.map Canmsg.id, s.chan.txq.contents.map Canmsg.id)) =
        some ([1, 2], [2, 0]) ∧
    (Run.exec step (Threads.start Chan.opened : Threads Bool .atcanminiPelican)
      [.event (.arrive fun _ => 0), .handler ⟨0, 0⟩, .handler ⟨0, 0⟩, .handler ⟨0, 0⟩,
        .handler ⟨0, 0⟩, .read false, .read true, .go false (.ofMsg Canmsg.zero),
        .go true (.ofMsg Canmsg.zero)]).map
      (fun s => (s.chan.hist.received.length, s.chan.hist.returned.length)) = some (1, 2) := by
  refine ⟨?_, by decide +kernel, by decide +kernel⟩
  intro h
  have hrun : (Run.exec step (Threads.start Chan.opened : Threads Bool .atcanminiPelican)
      [.write false, .write true]).map
      (fun s => ((s.thread false).inTxProduce, (s.thread true).inTxProduce)) =
        some (true, true) := by
    decide +kernel
  obtain ⟨s, hs, hval⟩ := Option.map_eq_some_iff.mp hrun
  obtain ⟨hone, htwo⟩ := Prod.mk.inj hval
  have hsame := (h _ s hs).txProduce false true hone htwo
  cases hsame

end Threads

end Can4linux
