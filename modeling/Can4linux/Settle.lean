/-
  Can4linux.Settle

  Liveness of a whole bus.  A message that is accepted on one node costs at most
  five steps there (`Chan.toDo`), and every node that hears its frame at most two
  more (`Chan.rxToDo`), or two for the overrun where it has no room.  So what a
  node has to do for the bus is paid for when the message is accepted, whatever
  the nodes do in between and in whatever order: traffic cannot keep itself going,
  and where no step is left that would bring it to its end, what was written on one
  node has been read on the others.
-/

import Can4linux.Intake
import Can4linux.Network
import Mathlib.Algebra.BigOperators.Group.Finset.Piecewise
import Mathlib.Algebra.BigOperators.Ring.Finset
import Mathlib.Algebra.Order.BigOperators.Group.Finset

namespace Can4linux

/-! ## What a node has to do -/

section Node

variable {t : Target}

/-- The frames that a node still has to send. -/
def Chan.unsent (s : Chan (Sja1000 t)) : Nat :=
  s.txq.contents.length + s.chip.tx.toList.length

/-- What is left to do because of a node, where a frame that it sends costs `w` elsewhere. -/
def Chan.load (w : Nat) (s : Chan (Sja1000 t)) : Nat := s.toDo + s.rxToDo + w * s.unsent

/-- The step brings transmission or reception closer to its end. -/
def Chan.settles (s : Chan (Sja1000 t)) (op : Op) : Bool := s.movesOn op || s.takesIn op

/-- Nothing is on its way: no delay, no frame, no message to read, and no interrupt that would
    change that. -/
def Chan.drained (s : Chan (Sja1000 t)) : Bool :=
  !s.timerArmed && s.chip.tx.isNone && s.chip.rxfifo.isEmpty && s.rxq.empty &&
    !isSet s.chip.irq canTransmitInt && !isSet s.chip.irq canErrorWarnInt &&
    !isSet s.chip.irq canOverrunInt

variable {acc : Frame} {sent : List Frame} {heard : List RxView} {s s' : Chan (Sja1000 t)}

/-- Then no such step is left. -/
theorem Chan.step_of_drained (h : s.drained = true) {op : Op} (hset : s.settles op = true) :
    s.step op = none := by
  simp only [drained, Bool.and_eq_true, Bool.not_eq_true', Option.isNone_iff_eq_none] at h
  obtain ⟨⟨⟨⟨⟨⟨harmed, htx⟩, hfifo⟩, hempty⟩, htxint⟩, hew⟩, hov⟩ := h
  cases op with
  | timer => rw [Chan.step, if_neg (by rw [harmed]; decide)]
  | txDone => rw [Chan.step, Sja1000.txDone, htx, Option.map_none]
  | irq tstamp => simp [settles, movesOn, takesIn, htxint, hfifo, hew, hov] at hset
  | read accessOk count => simp [settles, movesOn, takesIn, hempty] at hset
  | «open» _ | close | write _ _ | command _ | config _ _ _ | arrive _ | busEvent _ _ _
  | busOff => cases hset

/-- Such a step brings nothing, and no message. -/
theorem Chan.settles_op {op : Op} (h : s.settles op = true) :
    op.receives = true ∧ op.brings = 0 ∧ ∀ accessOk us, op ≠ .write accessOk us := by
  cases op with
  | read _ _ | timer | txDone | irq _ => exact ⟨rfl, rfl, fun _ _ heq => by cases heq⟩
  | «open» _ | close | write _ _ | command _ | config _ _ _ | arrive _ | busEvent _ _ _
  | busOff => cases h

/-- What was accepted has been sent, or will be. -/
theorem Operates.sent_add_unsent (h : Operates acc sent heard s) :
    sent.length + s.unsent = s.hist.accepted.length := by
  have hflow := congrArg List.length h.flow.tx
  have hsent := h.sending.all.length_eq
  rw [List.nil_append, List.length_append, List.length_map, List.length_map] at hflow
  rw [List.length_append] at hsent
  rw [Chan.unsent]
  omega

/-- At most a full queue, and the frame in the controller. -/
theorem Operates.unsent_le (h : Operates acc sent heard s) : s.unsent ≤ 129 := by
  have hbound := h.flow.txWf.bound
  have htx := Option.length_toList_le (o := s.chip.tx)
  rw [Chan.unsent, MsgQ.contents_length]
  omega

/-- What is left to do because of a node is bounded by what it has received. -/
theorem Operates.load_le (h : Operates acc sent heard s) (w : Nat) :
    s.load w ≤ 2 * s.chip.rxfifo.length + s.rxq.contents.length + (646 + 129 * w) := by
  have htx := h.sending.calm.toDo_le h.flow.txWf
  have hrx := s.rxToDo_le
  have hsent := Nat.mul_le_mul_left w h.unsent_le
  rw [Chan.load]
  omega

/-- Every step of a node is paid for: by what it takes off what was left to do, by a message
    that it accepts, or by what it brings; a frame that it sends pays `w`. -/
theorem Operates.load_step (h : Operates acc sent heard s) {op : Op} (hop : op.receives = true)
    (hstep : s.step op = some s') (w : Nat) :
    (s.settles op).toNat + w * (s.sends op).length + s'.load w +
        (5 + w) * s.hist.accepted.length ≤
      s.load w + (5 + w) * s'.hist.accepted.length + op.brings := by
  have hnext := h.step hop hstep
  have htx := toDo_step h.sending h.flow hop hstep
  have hrx := rxToDo_step h.flow hop hstep
  have hone : (s.settles op).toNat ≤ (s.movesOn op).toNat + (s.takesIn op).toNat := by
    unfold Chan.settles
    cases s.movesOn op <;> cases s.takesIn op <;> decide
  -- what is not sent by this step is still to be sent after it
  have hleft : s'.unsent + (s.sends op).length + s.hist.accepted.length =
      s.unsent + s'.hist.accepted.length := by
    have hold := h.sent_add_unsent
    have hnew := hnext.sent_add_unsent
    rw [List.length_append] at hnew
    omega
  have hpays := congrArg (w * ·) hleft
  simp only [Nat.mul_add] at hpays
  rw [Chan.takes_length] at hrx
  rw [Chan.load, Chan.load, Nat.add_mul, Nat.add_mul]
  omega

/-- Nothing is left to do but an error or two where a device is ready. -/
theorem Ready.load_le (h : Ready s) (w : Nat) : s.load w ≤ 4 := by
  have htx := h.paid.paid
  have hrx := h.rxToDo_le
  have hsent := h.operates.sent_add_unsent
  rw [h.hist] at htx hsent
  have hacc : Hist.empty.accepted.length = 0 := rfl
  rw [hacc] at htx hsent
  have hzero : s.unsent = 0 := by omega
  rw [Chan.load, hzero, Nat.mul_zero]
  omega

end Node

/-! ## What the nodes have to do together -/

section Net

variable {ι : Type} [DecidableEq ι] {t : ι → Target}

/-- What a step brings from outside. -/
def NetOp.brings : NetOp ι → Nat
  | .node _ op => op.brings
  | .bus _ _ _ => 0

namespace Net

/-- The step brings traffic closer to its end: a frame goes out, or one of the nodes gets on
    with what it sends or with what it has received. -/
def settles (s : Net t) : NetOp ι → Bool
  | .node i op => (s.node i).settles op
  | .bus _ _ _ => true

/-- The step, if it does so. -/
def settling (s : Net t) (a : NetOp ι) : List (NetOp ι) := if s.settles a then [a] else []

omit [DecidableEq ι] in
theorem settling_length (s : Net t) (a : NetOp ι) :
    (s.settling a).length = (s.settles a).toNat := by
  cases h : s.settles a <;> simp [settling, h]

/-- What a frame on the bus makes a node do. -/
theorem does_bus {s : Net t} {i j : ι} {shown : ι → Frame} {lost : ι → Bool} {op : Op}
    (hdoes : s.does j (.bus i shown lost) = some op) :
    op = .txDone ∨ (∃ stat, op = .busEvent canOverrunInt stat true) ∨ op = .arrive (shown j) := by
  simp only [does] at hdoes
  split at hdoes
  · exact .inl (Option.some.inj hdoes).symm
  · split at hdoes
    · cases hdoes
    · split at hdoes
      · cases hdoes
      · split at hdoes
        · exact .inr (.inl ⟨_, (Option.some.inj hdoes).symm⟩)
        · exact .inr (.inr (Option.some.inj hdoes).symm)

theorem does_receives {s : Net t} {a : NetOp ι} {j : ι} {op : Op} (ha : a.receives = true)
    (hdoes : s.does j a = some op) : op.receives = true := by
  cases a with
  | node i op' =>
      simp only [does] at hdoes
      split at hdoes
      · obtain rfl := Option.some.inj hdoes
        exact ha
      · cases hdoes
  | bus i shown lost =>
      obtain rfl | ⟨stat, rfl⟩ | rfl := does_bus hdoes <;> rfl

omit [DecidableEq ι] in
theorem settles_receives {s : Net t} {a : NetOp ι} (hset : s.settles a = true) :
    a.receives = true ∧ a.brings = 0 := by
  cases a with
  | node i op =>
      obtain ⟨hop, hbrings, -⟩ := Chan.settles_op hset
      exact ⟨hop, hbrings⟩
  | bus i shown lost => exact ⟨rfl, rfl⟩

/-- No node writes in such a step. -/
theorem does_not_write {s : Net t} {a : NetOp ι} {j : ι} {op : Op} (hset : s.settles a = true)
    (hdoes : s.does j a = some op) (accessOk : Bool) (us : List UserMsg) :
    op ≠ .write accessOk us := by
  cases a with
  | node i op' =>
      simp only [does] at hdoes
      split at hdoes
      · obtain rfl := Option.some.inj hdoes
        exact (Chan.settles_op hset).2.2 accessOk us
      · cases hdoes
  | bus i shown lost =>
      rintro rfl
      obtain heq | ⟨stat, heq⟩ | heq := does_bus hdoes <;> cases heq

/-- A frame brings two steps to a node, or an overrun, which counts as much. -/
theorem brings_of_bus {s : Net t} {i j : ι} {shown : ι → Frame} {lost : ι → Bool} {op : Op}
    (hdoes : s.does j (.bus i shown lost) = some op) : op.brings ≤ 2 := by
  obtain rfl | ⟨stat, rfl⟩ | rfl := does_bus hdoes
  · exact Nat.zero_le 2
  · show 2 * bitCount canOverrunInt canErrorWarnInt + 2 * bitCount canOverrunInt canOverrunInt ≤ 2
    decide
  · exact Nat.le_refl 2

variable [Fintype ι]

/-- What is left to do on all nodes. -/
def load (s : Net t) : Nat := ∑ j, (s.node j).load (2 * Fintype.card ι)

/-- The system of the steps that bring traffic closer to its end. -/
def settleStep : Net t → NetOp ι → Option (Net t) :=
  Run.restrict step fun s a => s.settles a = true

/-- What the messages accepted so far have paid. -/
def paid (s : Net t) : Nat :=
  ∑ j, (5 + 2 * Fintype.card ι) * (s.node j).hist.accepted.length

/-- What a step takes off on node `j`. -/
def takesOff (s : Net t) (a : NetOp ι) (j : ι) : Nat :=
  (s.does j a).elim 0 fun op =>
    ((s.node j).settles op).toNat + 2 * Fintype.card ι * ((s.node j).sends op).length

/-- What it brings there. -/
def bringsTo (s : Net t) (a : NetOp ι) (j : ι) : Nat := (s.does j a).elim 0 Op.brings

/-- What a frame brings to the others, its sender has taken off. -/
theorem sum_bringsTo_le {s : Net t} {a : NetOp ι} (hen : s.enabled a = true) :
    (s.settles a).toNat + ∑ j, s.bringsTo a j ≤ (∑ j, s.takesOff a j) + a.brings := by
  cases a with
  | node i op =>
      have hthere : s.does i (.node i op) = some op := if_pos rfl
      have hbrings : ∑ j, s.bringsTo (.node i op) j = op.brings := by
        rw [Finset.sum_eq_single_of_mem i (Finset.mem_univ i), bringsTo, hthere, Option.elim_some]
        intro j _ hne
        rw [bringsTo, does, if_neg hne.symm, Option.elim_none]
      have hoff : s.takesOff (.node i op) i ≤ ∑ j, s.takesOff (.node i op) j :=
        Finset.single_le_sum (fun _ _ => Nat.zero_le _) (Finset.mem_univ i)
      rw [takesOff, hthere, Option.elim_some] at hoff
      rw [hbrings, settles, NetOp.brings]
      omega
  | bus i shown lost =>
      -- the sender takes off one step and two for every node, whether it hears the frame or not
      have hthere : s.does i (.bus i shown lost) = some .txDone := if_pos rfl
      have hone : ((s.node i).sends .txDone).length = 1 := by
        obtain ⟨f, htx, -⟩ := pending_of_bus hen
        rw [Chan.sends, htx, Option.toList_some, List.length_singleton]
      have hbrings : ∑ j, s.bringsTo (.bus i shown lost) j ≤ Fintype.card ι * 2 := by
        refine (Finset.sum_le_sum fun j _ => ?_).trans_eq (Finset.sum_const_nat fun _ _ => rfl)
        rw [bringsTo]
        cases hdoes : s.does j (.bus i shown lost) with
        | none => exact Nat.zero_le 2
        | some op => exact brings_of_bus hdoes
      have hoff : s.takesOff (.bus i shown lost) i ≤ ∑ j, s.takesOff (.bus i shown lost) j :=
        Finset.single_le_sum (fun _ _ => Nat.zero_le _) (Finset.mem_univ i)
      have hmoves : ((s.node i).settles .txDone).toNat = 1 := rfl
      rw [takesOff, hthere, Option.elim_some, hmoves, hone] at hoff
      rw [settles, Bool.toNat_true, NetOp.brings]
      omega

end Net

namespace Net.Calm

variable [Fintype ι] {s₀ s s' : Net t} {log : List (Sent ι)} {a : NetOp ι}

/-- What a step does on one node is paid for. -/
theorem load_node (h : Net.Calm s₀ log s) (ha : a.receives = true)
    (hstep : s.step a = some s') (j : ι) :
    s.takesOff a j + (s'.node j).load (2 * Fintype.card ι) +
        (5 + 2 * Fintype.card ι) * (s.node j).hist.accepted.length ≤
      (s.node j).load (2 * Fintype.card ι) +
        (5 + 2 * Fintype.card ι) * (s'.node j).hist.accepted.length + s.bringsTo a j := by
  obtain ⟨heard, hop, -⟩ := h j
  obtain ⟨hnone, hsome⟩ := Net.step_node hstep j
  rw [Net.takesOff, Net.bringsTo]
  cases hdoes : s.does j a with
  | none =>
      rw [hnone hdoes, Option.elim_none, Option.elim_none]
      omega
  | some op => exact hop.load_step (Net.does_receives ha hdoes) (hsome op hdoes) _

/-- Every step of the whole is paid for. -/
theorem load_step (h : Net.Calm s₀ log s) (ha : a.receives = true)
    (hstep : s.step a = some s') :
    (s.settling a).length + s'.load + s.paid ≤ s.load + s'.paid + a.brings := by
  have hsum := Finset.sum_le_sum fun j (_ : j ∈ Finset.univ) => h.load_node ha hstep j
  simp only [Finset.sum_add_distrib] at hsum
  have hbus := Net.sum_bringsTo_le (Net.step_enabled hstep)
  rw [Net.settling_length]
  unfold Net.load Net.paid
  omega

/-- A step that brings traffic closer to its end accepts no message. -/
theorem paid_of_settles (hset : s.settles a = true) (hstep : s.step a = some s') :
    s'.paid = s.paid := by
  refine Finset.sum_congr rfl fun j _ => ?_
  obtain ⟨hnone, hsome⟩ := Net.step_node hstep j
  cases hdoes : s.does j a with
  | none => rw [hnone hdoes]
  | some op =>
      have hopen : ∀ env, op ≠ .open env := by
        rintro env rfl
        cases Net.does_receives (Net.settles_receives hset).1 hdoes
      rw [Chan.accepted_step hopen (Net.does_not_write hset hdoes) (hsome op hdoes)]

/-- So it lowers what is left to do. -/
theorem load_of_settles (h : Net.Calm s₀ log s) (hset : s.settles a = true)
    (hstep : s.step a = some s') : s'.load < s.load := by
  obtain ⟨ha, hbrings⟩ := Net.settles_receives hset
  have hload := h.load_step ha hstep
  rw [Net.settling_length, hset, Bool.toNat_true, paid_of_settles hset hstep, hbrings] at hload
  omega

/-- What is left to do is bounded by what the nodes have received. -/
theorem load_le (h : Net.Calm s₀ log s) :
    s.load ≤ (∑ j, (2 * (s.node j).chip.rxfifo.length + (s.node j).rxq.contents.length)) +
      Fintype.card ι * (646 + 258 * Fintype.card ι) := by
  have hsum : s.load ≤ ∑ j, (2 * (s.node j).chip.rxfifo.length +
      (s.node j).rxq.contents.length + (646 + 129 * (2 * Fintype.card ι))) := by
    refine Finset.sum_le_sum fun j _ => ?_
    obtain ⟨heard, hop, -⟩ := h j
    exact hop.load_le _
  rw [Finset.sum_add_distrib, Finset.sum_const_nat fun _ _ => rfl, ← Nat.mul_assoc 129] at hsum
  exact hsum

/-- Where no such step is left, the nodes are at rest. -/
theorem at_rest (h : Net.Calm s₀ log s) (hstuck : ∀ a, s.settles a = true → s.step a = none)
    (i : ι) : (s.node i).txq.contents = [] ∧ (s.node i).chip.tx = none ∧
      (s.node i).rxq.contents = [] ∧ (s.node i).chip.rxfifo = [] := by
  obtain ⟨heard, hop, -⟩ := h i
  have hstops : ∀ a, s.settles a = true → s.enabled a = false := by
    intro a hset
    refine Bool.eq_false_of_not_eq_true fun hen => ?_
    have hnone := hstuck a hset
    rw [Net.step, if_pos hen] at hnone
    cases hnone
  have hpend : (s.node i).chip.tx = none := by
    cases htx : (s.node i).chip.tx with
    | none => rfl
    | some f =>
        -- a pending frame can always go out, here to receivers that have room
        have hno := hstops (.bus i (fun _ => f) fun _ => false) rfl
        simp [Net.enabled, htx] at hno
  have hnode : ∀ op, (s.node i).settles op = true → (s.node i).step op = none := by
    intro op hset
    cases hbus : op.fromBus with
    | false =>
        have hno := hstops (.node i op) hset
        rw [Net.enabled, hbus, Bool.not_false, Bool.true_and] at hno
        exact Option.not_isSome_iff_eq_none.mp (by rw [hno]; decide)
    | true =>
        -- a node sends through a step of the bus only, and there is nothing to send
        cases op with
        | txDone => rw [Chan.step, Sja1000.txDone, hpend, Option.map_none]
        | arrive _ => cases hset
        | «open» _ | close | write _ _ | read _ _ | command _ | config _ _ _ | irq _ | timer
        | busEvent _ _ _ | busOff => cases hbus
  obtain ⟨hidle, htx⟩ := hop.sending.calm.idle_of_stuck hop.isopen fun op hmove =>
    hnode op (by rw [Chan.settles, hmove, Bool.true_or])
  obtain ⟨hrxq, hfifo⟩ := rxEmpty_of_stuck hop.flow.rxWf hop.isopen fun op htake =>
    hnode op (by rw [Chan.settles, htake, Bool.or_true])
  exact ⟨(hop.sent_all hidle htx).1, htx, hrxq, hfifo⟩

/-- Then the messages of a node are the frames it has sent. -/
theorem sent_of_stuck (h : Net.Calm s₀ log s)
    (hstuck : ∀ a, s.settles a = true → s.step a = none)
    (hlen : ∀ i, ∀ m ∈ (s.node i).hist.accepted, 0 ≤ m.length.toInt) (i : ι) :
    (s.node i).hist.accepted.map Canmsg.onBus = (sentBy i log).map Frame.onBus := by
  obtain ⟨htxq, htx, -, -⟩ := h.at_rest hstuck i
  have hacc := h.accepted_onBus (hlen i)
  rwa [htxq, htx, Option.toList_none, List.map_nil, List.map_nil, List.append_nil,
    List.append_nil] at hacc

/-- And what it has heard it has read. -/
theorem read_of_stuck (h : Net.Calm s₀ log s)
    (hstuck : ∀ a, s.settles a = true → s.step a = none)
    (hlen : ∀ i, ∀ m ∈ (s.node i).hist.accepted, 0 ≤ m.length.toInt) (j : ι) :
    (nonErrors (s.node j).hist.returned).map RxView.onBus =
      (log.filter fun e => e.sender ≠ j && (s₀.node j).chip.passes e.frame && !e.lost j).map
        fun e => e.frame.onBus := by
  obtain ⟨-, -, hrxq, hfifo⟩ := h.at_rest hstuck j
  have hread := h.heard_onBus hlen j
  rwa [hrxq, hfifo, List.map_nil, List.append_nil, show nonErrors [] = [] from rfl,
    List.append_nil] at hread

end Net.Calm

/-- Drained nodes are where traffic ends. -/
theorem Net.step_of_drained [Fintype ι] {s : Net t} {a : NetOp ι}
    (h : ∀ j, (s.node j).drained = true) (hset : s.settles a = true) : s.step a = none := by
  refine if_neg fun hen => ?_
  cases a with
  | node i op =>
      rw [Net.enabled, Chan.step_of_drained (h i) hset] at hen
      simp at hen
  | bus i shown lost =>
      obtain ⟨f, htx, -⟩ := Net.pending_of_bus hen
      have hdrained := h i
      simp [Chan.drained, htx] at hdrained

/-! ## Runs -/

/-- Where node `j`, whose controller is `c`, lets in and loses nothing of the others, it hears
    each of their frames once. -/
theorem heard_all [Fintype ι] {u : Target} {c : Sja1000 u} {j : ι} {log : List (Sent ι)}
    (hall : ∀ e ∈ log, e.sender ≠ j → c.passes e.frame = true ∧ e.lost j = false) :
    (((log.filter fun e => e.sender ≠ j && c.passes e.frame && !e.lost j).map
        fun e => e.frame.onBus : List BusFrame) : Multiset BusFrame) =
      ∑ i ∈ Finset.univ.erase j, (((sentBy i log).map Frame.onBus : List BusFrame) :
        Multiset BusFrame) := by
  induction log with
  | nil => simp [sentBy]
  | cons e log ih =>
      have hone : ∀ i, (((sentBy i (e :: log)).map Frame.onBus : List BusFrame) :
          Multiset BusFrame) = (if e.sender = i then {e.frame.onBus} else 0) +
            (((sentBy i log).map Frame.onBus : List BusFrame) : Multiset BusFrame) := by
        intro i
        by_cases h : e.sender = i <;> simp [sentBy, h]
      have hrest := ih fun e' he' => hall e' (List.mem_cons_of_mem e he')
      simp only [hone, Finset.sum_add_distrib, Finset.sum_ite_eq, Finset.mem_erase,
        Finset.mem_univ, and_true, ← hrest]
      by_cases h : e.sender = j
      · simp [h]
      · obtain ⟨hpass, hroom⟩ := hall e List.mem_cons_self h
        simp [h, hpass, hroom]

variable [Fintype ι] {s₀ s : Net t} {ops : List (NetOp ι)}

omit [DecidableEq ι] in
/-- Nodes that are ready have nothing to do but an error or two, and have accepted nothing. -/
theorem Net.load_le_of_ready (hready : ∀ j, Ready (s₀.node j)) :
    s₀.load ≤ 4 * Fintype.card ι ∧ s₀.paid = 0 := by
  constructor
  · refine (Finset.sum_le_sum fun j _ => (hready j).load_le _).trans_eq ?_
    rw [Finset.sum_const_nat fun _ _ => rfl, Finset.card_univ, Nat.mul_comm]
  · refine Finset.sum_eq_zero fun j _ => ?_
    rw [(hready j).hist]
    rfl

/-- **The bus settles.**  Nodes that found nothing left over at their open run in any way, none
    of them stopped, reset, reconfigured, closed or off the bus; a node may lose frames for
    which its controller has no room.  With `n` nodes, the steps that bring traffic closer to
    its end are at most `5 + 2 * n` for each message accepted, two for each error, and four
    for each node; from any point no more of them can follow each other than what the nodes
    have received allows.  Where none is left to take, and none was given a message of negative
    length, what a node has accepted has been sent, in order, and what a node has read are the
    frames of the others that pass its filter and that it did not lose, in the order of the
    bus: where it lets all in and loses none, all that the others have accepted, each message
    once. -/
theorem net_settles (hready : ∀ j, Ready (s₀.node j))
    (hrun : Run.exec Net.calmStep s₀ ops = some s) :
    let log := Run.observe Net.calmStep Net.sends s₀ ops
    (Run.observe Net.calmStep Net.settling s₀ ops).length ≤
      (5 + 2 * Fintype.card ι) * (∑ j, (s.node j).hist.accepted.length) +
        (ops.map NetOp.brings).sum + 4 * Fintype.card ι ∧
    (∀ moves s', Run.exec Net.settleStep s moves = some s' → moves.length ≤
        (∑ j, (2 * (s.node j).chip.rxfifo.length + (s.node j).rxq.contents.length)) +
          Fintype.card ι * (646 + 258 * Fintype.card ι)) ∧
    ((∀ a, s.settles a = true → s.step a = none) →
      (∀ i, ∀ m ∈ (s.node i).hist.accepted, 0 ≤ m.length.toInt) →
      (∀ i, (s.node i).hist.accepted.map Canmsg.onBus = (sentBy i log).map Frame.onBus) ∧
      ∀ j, (nonErrors (s.node j).hist.returned).map RxView.onBus =
          ((log.filter fun e => e.sender ≠ j && (s₀.node j).chip.passes e.frame && !e.lost j).map
            fun e => e.frame.onBus) ∧
        ((∀ e ∈ log, e.sender ≠ j →
            (s₀.node j).chip.passes e.frame = true ∧ e.lost j = false) →
          (((nonErrors (s.node j).hist.returned).map RxView.onBus : List BusFrame) :
            Multiset BusFrame) = ∑ i ∈ Finset.univ.erase j,
              (((s.node i).hist.accepted.map Canmsg.onBus : List BusFrame) :
                Multiset BusFrame))) := by
  intro log
  have hcalm : Net.Calm s₀ log s := Net.calm_run hready hrun
  refine ⟨?_, ?_, ?_⟩
  · -- the messages accepted are the account that pays
    have hpaid := Run.exec_potential (I := fun c => ∃ log, Net.Calm s₀ log c) (μ := Net.load)
      (ν := Net.paid) (f := Net.settling) (g := NetOp.brings) (fun c a c' hc hstep => ?_)
      (fun c a c' hc hstep => ?_) ⟨[], fun j => ⟨[], (hready j).operates, rfl⟩⟩ hrun
    · obtain ⟨hload, hzero⟩ := Net.load_le_of_ready hready
      rw [hzero, Net.paid, ← Finset.mul_sum] at hpaid
      omega
    · obtain ⟨log, hc⟩ := hc
      obtain ⟨ha, hstep'⟩ := Run.restrict_eq_some.mp hstep
      exact ⟨_, hc.step ha hstep'⟩
    · obtain ⟨log, hc⟩ := hc
      obtain ⟨ha, hstep'⟩ := Run.restrict_eq_some.mp hstep
      exact hc.load_step ha hstep'
  · intro moves s' hmoves
    -- no message is accepted any more, so what is left to do is a measure
    have hlen := Run.exec_length_le (I := fun c => ∃ log, Net.Calm s₀ log c) (μ := Net.load)
      (fun c a c' hc hstep => ?_) (fun c a c' hc hstep => ?_) ⟨_, hcalm⟩ hmoves
    · have hle := hcalm.load_le
      omega
    · obtain ⟨log, hc⟩ := hc
      obtain ⟨hset, hstep'⟩ := Run.restrict_eq_some.mp hstep
      exact ⟨_, hc.step (Net.settles_receives hset).1 hstep'⟩
    · obtain ⟨log, hc⟩ := hc
      obtain ⟨hset, hstep'⟩ := Run.restrict_eq_some.mp hstep
      exact hc.load_of_settles hset hstep'
  · intro hstuck hlen
    have hsent := hcalm.sent_of_stuck hstuck hlen
    refine ⟨hsent, fun j => ⟨hcalm.read_of_stuck hstuck hlen j, fun hall => ?_⟩⟩
    rw [hcalm.read_of_stuck hstuck hlen j]
    simp only [hsent]
    exact heard_all hall

end Net

/-- One of two nodes sends two messages, the other one reads them; then nothing is left to
    do. -/
theorem net_settles_two :
    let s₀ : Net (fun _ : Fin 2 => Target.atcanminiPelican) := ⟨fun _ => Chan.opened⟩
    let first : Canmsg := { Canmsg.zero with id := 0x123, length := 2 }
    let ops : List (NetOp (Fin 2)) :=
      [.node 0 (.write true [.ofMsg first, .ofMsg Canmsg.zero]),
        .bus 0 (fun _ => encodeFrame first fun _ => 0) (fun _ => false), .node 0 (.irq ⟨0, 0⟩),
        .node 1 (.irq ⟨0, 0⟩), .node 1 (.read true 1),
        .bus 0 (fun _ => encodeFrame Canmsg.zero fun _ => 0) (fun _ => false),
        .node 0 (.irq ⟨0, 1⟩), .node 1 (.irq ⟨0, 1⟩), .node 1 (.read true 1)]
    let log := Run.observe Net.calmStep Net.sends s₀ ops
    ∃ s, Run.exec Net.calmStep s₀ ops = some s ∧
      (Run.observe Net.calmStep Net.settling s₀ ops).length ≤
        (5 + 2 * Fintype.card (Fin 2)) * (∑ j, (s.node j).hist.accepted.length) +
          (ops.map NetOp.brings).sum + 4 * Fintype.card (Fin 2) ∧
      (∀ moves s', Run.exec Net.settleStep s moves = some s' → moves.length ≤
          (∑ j, (2 * (s.node j).chip.rxfifo.length + (s.node j).rxq.contents.length)) +
            Fintype.card (Fin 2) * (646 + 258 * Fintype.card (Fin 2))) ∧
      (∀ i, (s.node i).hist.accepted.map Canmsg.onBus = (sentBy i log).map Frame.onBus) ∧
      ∀ j, (((nonErrors (s.node j).hist.returned).map RxView.onBus : List BusFrame) :
          Multiset BusFrame) = ∑ i ∈ Finset.univ.erase j,
            (((s.node i).hist.accepted.map Canmsg.onBus : List BusFrame) :
              Multiset BusFrame) := by
  intro s₀ first ops log
  obtain ⟨s, hs, hend⟩ := Option.map_eq_some_iff.mp
    (show (Run.exec Net.calmStep s₀ ops).map (fun s => decide
      ((∀ j, (s.node j).drained = true) ∧ (∀ i, ∀ m ∈ (s.node i).hist.accepted,
        0 ≤ m.length.toInt) ∧ ∀ j, ∀ e ∈ log, e.sender ≠ j →
          (s₀.node j).chip.passes e.frame = true ∧ e.lost j = false)) = some true by
            decide +kernel)
  obtain ⟨hdrained, hlen, hall⟩ := of_decide_eq_true hend
  obtain ⟨hpaid, hmoves, hrest⟩ := net_settles (fun _ => ready_opened) hs
  obtain ⟨hsent, hread⟩ := hrest (fun a => Net.step_of_drained hdrained) hlen
  exact ⟨s, hs, hpaid, hmoves, hsent, fun j => (hread j).2 (hall j)⟩

end Can4linux
