/-
  Can4linux.Network

  Devices on one bus, each with its own driver.  What one controller has pending
  goes out when it wins the bus, and is stored by every other controller that
  operates, whose acceptance filter lets it in and whose receive buffer has room;
  a controller without room raises its overrun interrupt.  Everything else happens
  on one node alone.

  A controller puts on the bus identifier, format, remote bit, length code and, in
  a data frame, the data (`Frame.onBus`); what a receiver has in its other
  registers is its own affair.  In calm operation each bus frame is a message that
  was written on its node, in the order written, and each node reads the frames
  that its filter lets in, in the order of the bus.
-/

import Can4linux.AccFilter
import Can4linux.Calm
import Can4linux.FrameKind
import Mathlib.Data.Fintype.Defs

namespace Can4linux

/-! ## What is on the bus -/

/-- What a message asks to be put there. -/
def Canmsg.onBus (m : Canmsg) : BusFrame where
  ext := isSet m.flags msgExt
  rtr := isSet m.flags msgRtr
  id := BitVec.ofNat 64 (m.id.toNat % 2 ^ (if isSet m.flags msgExt then 29 else 11))
  code := m.capLength.length.toNat
  data := if isSet m.flags msgRtr then [] else (List.range m.capLength.length.toNat).map m.byte

/-- What a decoded message says about it. -/
def RxView.onBus (v : RxView) : BusFrame where
  ext := v.ext
  rtr := v.rtr
  id := v.id
  code := v.length.toNat
  data := if v.rtr then [] else v.data

/-- What `readcanmsg` copies of it: the length code modulo nine. -/
def BusFrame.copied (b : BusFrame) : BusFrame := { b with data := b.data.take (b.code % 9) }

section Content

variable {f g : Frame}

/-- Decoding shows what was on the bus. -/
theorem Frame.view_onBus (f : Frame) : f.view.onBus = f.onBus.copied := by
  have hcode : (f.reg 0 &&& 0x0f).toNat < 16 := by
    rw [BitVec.toNat_and]
    exact Nat.lt_of_le_of_lt Nat.and_le_right (by decide)
  have hlen : ((f.reg 0 &&& 0x0f).setWidth 16 : BitVec 16).toNat = f.code := by
    rw [BitVec.toNat_setWidth, Nat.mod_eq_of_lt (by omega)]
    rfl
  have hdata : (if isSet (f.reg 0) canRtr then [] else
      (List.range f.copied).map fun j => f.reg (f.dataBase + j)) =
        ((List.range f.dataBytes).map fun j => f.reg (f.dataBase + j)).take (f.code % 9) := by
    unfold dataBytes
    cases hrtr : isSet (f.reg 0) canRtr with
    | true => simp
    | false =>
        have hmin : min (f.code % 9) (min f.code 8) = f.copied := by
          unfold copied
          unfold code
          omega
        rw [if_neg Bool.false_ne_true, if_neg Bool.false_ne_true, ← List.map_take,
          List.take_range, hmin]
  rw [RxView.onBus, BusFrame.copied]
  simp only [view, onBus, BusFrame.mk.injEq, true_and]
  exact ⟨hlen, hdata⟩

/-- A length that is not negative stays so when it is capped. -/
theorem Canmsg.capLength_nonneg {m : Canmsg} (h0 : 0 ≤ m.length.toInt) :
    0 ≤ m.capLength.length.toInt := by
  rcases m.capLength_cases with ⟨-, hcap⟩ | ⟨-, hcap⟩
  · rw [hcap]
    exact h0
  · rw [hcap]
    decide

/-- A message whose length is not negative is put on the bus as it is. -/
theorem Carries.onBus {m : Canmsg} (h : Carries m f) (h0 : 0 ≤ m.length.toInt) :
    f.onBus = m.onBus := by
  obtain ⟨g, rfl⟩ := h
  have hpos : 0 ≤ m.onWire.length.toInt := Canmsg.capLength_nonneg h0
  obtain ⟨hrounds, hle⟩ := Canmsg.rounds_eq hpos m.capLength_toInt_le
  have hlen8 : (m.onWire.length.setWidth 8 : U8).toNat = m.onWire.length.toNat := by
    rw [BitVec.toNat_setWidth]
    omega
  have hbits := frameinfo_bits (m.onWire.length.setWidth 8)
    (by rw [BitVec.le_def, hlen8]; simp; omega) (isSet m.onWire.flags msgRtr)
    (isSet m.onWire.flags msgExt)
  rw [← encodeFrame_reg_zero m.onWire g] at hbits
  obtain ⟨hext, hrtr, hlen⟩ := hbits
  have hcode : (encodeFrame m.onWire g).code = m.onWire.length.toNat := by
    rw [Frame.code, hlen, hlen8]
  have hid : (encodeFrame m.onWire g).onBus.id = m.onBus.id := by
    have hdec := decodeId_encodeFrame m.onWire g hext
    have hlt := (encodeFrame m.onWire g).onBus.id.isLt
    refine BitVec.eq_of_toNat_eq (hdec.trans ?_)
    show _ = (BitVec.ofNat 64 (m.id.toNat % 2 ^ (if isSet m.flags msgExt then 29 else 11))).toNat
    rw [BitVec.toNat_ofNat, Nat.mod_eq_of_lt (a := _ % _) (hdec ▸ hlt)]
    rfl
  have hdata : (encodeFrame m.onWire g).onBus.data = m.onBus.data := by
    show (List.range (encodeFrame m.onWire g).dataBytes).map _ = if isSet m.flags msgRtr then [] else
      (List.range m.onWire.length.toNat).map m.byte
    rw [Frame.dataBytes, hrtr, hcode]
    cases hflag : isSet m.flags msgRtr with
    | true =>
        have hwire : isSet m.onWire.flags msgRtr = true := hflag
        rw [hwire]
        rfl
    | false =>
        have hwire : isSet m.onWire.flags msgRtr = false := hflag
        rw [hwire, if_neg Bool.false_ne_true, if_neg Bool.false_ne_true, Nat.min_eq_left (by omega)]
        refine List.map_congr_left fun j hj => ?_
        rw [List.mem_range] at hj
        exact data_encodeFrame m.onWire g (by omega) hle hext
  exact congr (congr (congr (congrArg₂ BusFrame.mk hext hrtr) hid) hcode) hdata

end Content

/-! ## The messages of a node -/

/-- A message puts all its data on the bus. -/
theorem Canmsg.onBus_copied {m : Canmsg} (h0 : 0 ≤ m.length.toInt) :
    m.onBus.copied = m.onBus := by
  obtain ⟨hrounds, hle⟩ := Canmsg.rounds_eq (Canmsg.capLength_nonneg h0) m.capLength_toInt_le
  have hcode : m.onBus.code ≤ 8 := by
    show m.capLength.length.toNat ≤ 8
    omega
  have hlen : m.onBus.data.length ≤ m.onBus.code := by
    unfold Canmsg.onBus
    cases isSet m.flags msgRtr <;> simp
  rw [BusFrame.copied, Nat.mod_eq_of_lt (by omega), List.take_of_length_le hlen]

/-- Cap and delay do not show on the bus. -/
theorem Canmsg.onBus_onWire (m : Canmsg) : m.onWire.onBus = m.onBus := by
  have hwire : m.onWire.onWire.length = m.onWire.length := by rw [m.onWire_onWire]
  have hcap : m.onWire.capLength.length = m.capLength.length := hwire
  simp only [Canmsg.onBus, hcap]
  rfl

theorem forall₂_onBus {ms : List Canmsg} {fs : List Frame} (h : List.Forall₂ Carries ms fs)
    (hlen : ∀ m ∈ ms, 0 ≤ m.length.toInt) : fs.map Frame.onBus = ms.map Canmsg.onBus := by
  induction h with
  | nil => rfl
  | @cons m f ms fs hm hms ih =>
      rw [List.map_cons, List.map_cons, hm.onBus (hlen m List.mem_cons_self),
        ih fun m' hm' => hlen m' (List.mem_cons_of_mem m hm')]

/-- What a node has accepted went out, is pending, or is queued. -/
theorem Operates.accepted_onBus {t : Target} {acc : Frame} {sent : List Frame}
    {heard : List RxView} {s : Chan (Sja1000 t)} (h : Operates acc sent heard s)
    (hlen : ∀ m ∈ s.hist.accepted, 0 ≤ m.length.toInt) :
    (sent ++ s.chip.tx.toList).map Frame.onBus ++ s.txq.contents.map Canmsg.onBus =
      s.hist.accepted.map Canmsg.onBus := by
  have hflow := h.flow.tx
  rw [List.nil_append] at hflow
  have hloaded : ∀ m ∈ s.hist.loaded, 0 ≤ m.length.toInt := by
    intro m hm
    have hmem : m ∈ s.hist.accepted.map Canmsg.onWire := hflow ▸ List.mem_append_left _ hm
    obtain ⟨m', hm', rfl⟩ := List.mem_map.mp hmem
    exact Canmsg.capLength_nonneg (hlen m' hm')
  have hmap := congrArg (List.map Canmsg.onBus) hflow
  rw [List.map_append, List.map_map, List.map_map] at hmap
  have hwire : Canmsg.onBus ∘ Canmsg.onWire = Canmsg.onBus := funext Canmsg.onBus_onWire
  rw [forall₂_onBus h.sending.all hloaded]
  rwa [hwire] at hmap

/-! ## What a node sends and hears -/

/-- A frame that was on the bus: its sender, its registers there, and who had no room. -/
structure Sent (ι : Type) where
  sender : ι
  frame : Frame
  lost : ι → Bool

section Log

variable {ι : Type} [DecidableEq ι]

/-- The frames of node `i`. -/
def sentBy (i : ι) (log : List (Sent ι)) : List Frame :=
  (log.filter fun e => e.sender = i).map Sent.frame

/-- What node `j`, whose controller is `c`, takes from the bus: the frames of the others that
    pass its filter and for which it had room. -/
def heardBy {t : Target} (c : Sja1000 t) (j : ι) (log : List (Sent ι)) : List BusFrame :=
  (log.filter fun e => e.sender ≠ j && c.passes e.frame && !e.lost j).map
    fun e => e.frame.onBus.copied

theorem sentBy_append (i : ι) (log : List (Sent ι)) (e : Sent ι) :
    sentBy i (log ++ [e]) = sentBy i log ++ if e.sender = i then [e.frame] else [] := by
  rw [sentBy, sentBy, List.filter_append, List.map_append]
  by_cases h : e.sender = i <;> simp [h]

theorem heardBy_append {t : Target} (c : Sja1000 t) (j : ι) (log : List (Sent ι)) (e : Sent ι) :
    heardBy c j (log ++ [e]) = heardBy c j log ++
      if e.sender ≠ j ∧ c.passes e.frame = true ∧ e.lost j = false
        then [e.frame.onBus.copied] else [] := by
  rw [heardBy, heardBy, List.filter_append, List.map_append]
  by_cases h : e.sender ≠ j ∧ c.passes e.frame = true ∧ e.lost j = false
  · rw [if_pos h]
    obtain ⟨hne, hpass, hroom⟩ := h
    simp [hne, hpass, hroom]
  · rw [if_neg h, List.filter_cons_of_neg (by simpa [and_assoc] using h)]
    rfl

end Log

/-! ## The nodes -/

section Net

variable {ι : Type} [DecidableEq ι] {t : ι → Target}

/-- Devices that share a bus. -/
structure Net (t : ι → Target) where
  node : (i : ι) → Chan (Sja1000 (t i))

/-- A step of the whole. -/
inductive NetOp (ι : Type) where
  /-- a step of one node that does not come from the bus -/
  | node (i : ι) (op : Op)
  /-- the pending frame of node `i` goes out: what each receiver has in its registers then,
      and which of them have no room for it -/
  | bus (i : ι) (shown : ι → Frame) (lost : ι → Bool)

/-- The steps that traffic causes. -/
def Op.fromBus : Op → Bool
  | .arrive _ | .txDone => true
  | _ => false

namespace Net

/-- What a step makes node `j` do. -/
def does (s : Net t) (j : ι) : NetOp ι → Option Op
  | .node i op => if i = j then some op else none
  | .bus i shown lost =>
      if i = j then some .txDone
      else if (s.node j).chip.inReset then none
      else if (s.node j).chip.passes (shown j) = false then none
      else if lost j then some (.busEvent canOverrunInt (s.node j).chip.stat true)
      else some (.arrive (shown j))

/-- The frame that a step puts on the bus. -/
def sends (s : Net t) : NetOp ι → List (Sent ι)
  | .node _ _ => []
  | .bus i _ lost => (s.node i).chip.tx.toList.map fun f => ⟨i, f, lost⟩

end Net

/-! ## Calm operation -/

/-- A step of the nodes in calm operation. -/
def NetOp.receives : NetOp ι → Bool
  | .node _ op => op.receives
  | .bus _ _ _ => true

/-- Every node is in calm operation; it has sent its frames of the log and heard the others'. -/
def Net.Calm (s₀ : Net t) (log : List (Sent ι)) (s : Net t) : Prop :=
  ∀ j, ∃ heard, Operates (s₀.node j).chip.acc (sentBy j log) heard (s.node j) ∧
    heard.map RxView.onBus = heardBy (s₀.node j).chip j log

namespace Net.Calm

variable {s₀ s : Net t} {log : List (Sent ι)}

/-- The messages of a node are the frames it has sent, the pending one, and those queued. -/
theorem accepted_onBus (h : Net.Calm s₀ log s) {i : ι}
    (hlen : ∀ m ∈ (s.node i).hist.accepted, 0 ≤ m.length.toInt) :
    (s.node i).hist.accepted.map Canmsg.onBus =
      (sentBy i log).map Frame.onBus ++ (s.node i).chip.tx.toList.map Frame.onBus ++
        (s.node i).txq.contents.map Canmsg.onBus := by
  obtain ⟨heard, hop, -⟩ := h i
  rw [← hop.accepted_onBus hlen, List.map_append]

/-- What a node has read, queued and received are the frames it has heard. -/
theorem heard_onBus (h : Net.Calm s₀ log s)
    (hlen : ∀ i, ∀ m ∈ (s.node i).hist.accepted, 0 ≤ m.length.toInt) (j : ι) :
    (nonErrors (s.node j).hist.returned ++ nonErrors (s.node j).rxq.contents ++
        (s.node j).chip.rxfifo.map Frame.view).map RxView.onBus =
      (log.filter fun e => e.sender ≠ j && (s₀.node j).chip.passes e.frame && !e.lost j).map
        fun e => e.frame.onBus := by
  obtain ⟨heard, hop, hheard⟩ := h j
  rw [show nonErrors _ ++ nonErrors _ ++ _ = heard from hop.reception.total, hheard]
  refine List.map_congr_left fun e he => ?_
  -- the frame carries a message that its sender has accepted
  have hmem : e.frame.onBus ∈ (s.node e.sender).hist.accepted.map Canmsg.onBus := by
    rw [h.accepted_onBus (hlen e.sender), List.append_assoc]
    refine List.mem_append_left _ (List.mem_map_of_mem (List.mem_map_of_mem ?_))
    exact List.mem_filter.mpr ⟨(List.mem_filter.mp he).1, by simp⟩
  obtain ⟨m, hm, hon⟩ := List.mem_map.mp hmem
  rw [← hon]
  exact Canmsg.onBus_copied (hlen _ m hm)

end Net.Calm

/-! ## Steps -/

variable [Fintype ι]

namespace Net

/-- A node takes its own steps where it can; a pending frame goes out, and every node sees the
    same on the bus. -/
def enabled (s : Net t) : NetOp ι → Bool
  | .node i op => !op.fromBus && ((s.node i).step op).isSome
  | .bus i shown _ =>
      match (s.node i).chip.tx with
      | none => false
      | some f => decide (∀ j, (shown j).onBus = f.onBus)

/-- One step. -/
def step (s : Net t) (a : NetOp ι) : Option (Net t) :=
  if s.enabled a then
    some ⟨fun j => (s.does j a).elim (s.node j) fun op => ((s.node j).step op).getD (s.node j)⟩
  else none

/-- Calm operation of all nodes. -/
def calmStep : Net t → NetOp ι → Option (Net t) := Run.restrict step fun _ a => a.receives = true

variable {s s' : Net t} {a : NetOp ι}

omit [DecidableEq ι] in
/-- A node whose frame goes out has it pending, and all see the same. -/
theorem pending_of_bus {i : ι} {shown : ι → Frame} {lost : ι → Bool}
    (hen : s.enabled (.bus i shown lost) = true) :
    ∃ f, (s.node i).chip.tx = some f ∧ ∀ j, (shown j).onBus = f.onBus := by
  cases htx : (s.node i).chip.tx with
  | none => simp [enabled, htx] at hen
  | some f => exact ⟨f, rfl, by simpa [enabled, htx] using hen⟩

/-- What an enabled step makes a node do, it can do. -/
theorem step_isSome {j : ι} {op : Op} (hen : s.enabled a = true) (hdoes : s.does j a = some op) :
    ((s.node j).step op).isSome = true := by
  cases a with
  | node i op' =>
      simp only [does] at hdoes
      split at hdoes
      · rename_i hij
        obtain rfl := hij
        obtain rfl := Option.some.inj hdoes
        simp only [enabled, Bool.and_eq_true] at hen
        exact hen.2
      · cases hdoes
  | bus i shown lost =>
      simp only [does] at hdoes
      split at hdoes
      · rename_i hij
        obtain rfl := hij
        obtain rfl := Option.some.inj hdoes
        obtain ⟨f, htx, -⟩ := pending_of_bus hen
        simp [Chan.step, Sja1000.txDone, htx]
      · split at hdoes
        · cases hdoes
        · rename_i hop
          split at hdoes
          · cases hdoes
          · split at hdoes
            · obtain rfl := Option.some.inj hdoes
              rw [Chan.step, if_neg (by decide)]
              rfl
            · obtain rfl := Option.some.inj hdoes
              rw [Chan.step, if_neg hop]
              rfl

theorem step_enabled (h : s.step a = some s') : s.enabled a = true := by
  unfold step at h
  split at h
  · assumption
  · cases h

/-- Every node does its part, and no more. -/
theorem step_node (h : s.step a = some s') (j : ι) :
    (s.does j a = none → s'.node j = s.node j) ∧
      ∀ op, s.does j a = some op → (s.node j).step op = some (s'.node j) := by
  unfold step at h
  split at h
  · rename_i hen
    obtain rfl := (Option.some.inj h).symm
    refine ⟨fun hdoes => ?_, fun op hdoes => ?_⟩
    · simp only [hdoes, Option.elim_none]
    · obtain ⟨c, hc⟩ := Option.isSome_iff_exists.mp (step_isSome hen hdoes)
      simp only [hdoes, Option.elim_some, hc, Option.getD_some]
  · cases h

end Net

namespace Net.Calm

variable {s₀ s s' : Net t} {log : List (Sent ι)}

/-- A step of one node is a step of calm operation for it, and none for the others. -/
theorem node (h : Net.Calm s₀ log s) {i : ι} {op : Op} (ha : op.receives = true)
    (hstep : s.step (.node i op) = some s') : Net.Calm s₀ log s' := by
  intro j
  obtain ⟨heard, hop, hheard⟩ := h j
  obtain ⟨hnone, hsome⟩ := Net.step_node hstep j
  by_cases hij : i = j
  · have hbus : op.fromBus = false := by
      have hen := Net.step_enabled hstep
      simp only [Net.enabled, Bool.and_eq_true, Bool.not_eq_true'] at hen
      exact hen.1
    have hnext := hop.step ha (hsome op (if_pos hij))
    have hsends : (s.node j).sends op = [] ∧ op.arrivals = [] := by
      cases op with
      | arrive _ | txDone => cases hbus
      | _ => exact ⟨rfl, rfl⟩
    rw [hsends.1, hsends.2, List.append_nil, List.append_nil] at hnext
    exact ⟨heard, hnext, hheard⟩
  · rw [hnone (if_neg hij)]
    exact ⟨heard, hop, hheard⟩

/-- The sender gets rid of its frame, the others take it or do not. -/
theorem bus (h : Net.Calm s₀ log s) {i : ι} {shown : ι → Frame} {lost : ι → Bool}
    (hstep : s.step (.bus i shown lost) = some s') :
    Net.Calm s₀ (log ++ s.sends (.bus i shown lost)) s' := by
  obtain ⟨f, htx, hsame⟩ := Net.pending_of_bus (Net.step_enabled hstep)
  have hsends : s.sends (.bus i shown lost) = [⟨i, f, lost⟩] := by
    rw [Net.sends, htx]
    rfl
  rw [hsends]
  intro j
  obtain ⟨heard, hop, hheard⟩ := h j
  obtain ⟨hnone, hsome⟩ := Net.step_node hstep j
  rw [sentBy_append, heardBy_append]
  by_cases hij : i = j
  · -- the sender does not hear itself
    subst hij
    have hnext := hop.step rfl (hsome .txDone (if_pos rfl))
    rw [Chan.sends, htx] at hnext
    refine ⟨heard, ?_, ?_⟩
    · rw [if_pos rfl]
      simpa [Op.arrivals] using hnext
    · rw [if_neg (by simp), List.append_nil]
      exact hheard
  · rw [if_neg hij, List.append_nil]
    have hoper : (s.node j).chip.inReset = false := hop.sending.calm.operating
    have hpass : (s.node j).chip.passes (shown j) = (s₀.node j).chip.passes f := by
      rw [Sja1000.passes_congr hop.sending.calm.filter, Sja1000.passes_of_onBus _ (hsame j)]
    have hdoes : s.does j (.bus i shown lost) =
        if (s₀.node j).chip.passes f = false then none
        else if lost j then some (.busEvent canOverrunInt (s.node j).chip.stat true)
        else some (.arrive (shown j)) := by
      rw [Net.does, if_neg hij, hoper, if_neg Bool.false_ne_true, hpass]
    cases hp : (s₀.node j).chip.passes f with
    | false =>
        rw [hp, if_pos rfl] at hdoes
        rw [hnone hdoes, if_neg (by simp), List.append_nil]
        exact ⟨heard, hop, hheard⟩
    | true =>
        rw [hp, if_neg (by decide)] at hdoes
        cases hl : lost j with
        | true =>
            rw [hl, if_pos rfl] at hdoes
            have hnext := hop.step rfl (hsome _ hdoes)
            rw [if_neg (by simp [hl]), List.append_nil]
            refine ⟨heard, ?_, hheard⟩
            simpa [Op.arrivals, Chan.sends] using hnext
        | false =>
            rw [hl, if_neg Bool.false_ne_true] at hdoes
            have hnext := hop.step rfl (hsome _ hdoes)
            rw [if_pos ⟨hij, rfl, hl⟩]
            refine ⟨heard ++ [(shown j).view], ?_, ?_⟩
            · simpa [Op.arrivals, Chan.sends] using hnext
            · rw [List.map_append, hheard, List.map_singleton, Frame.view_onBus, hsame j]

theorem step (h : Net.Calm s₀ log s) {a : NetOp ι} (ha : a.receives = true)
    (hstep : s.step a = some s') : Net.Calm s₀ (log ++ s.sends a) s' := by
  cases a with
  | node i op =>
      rw [Net.sends, List.append_nil]
      exact h.node ha hstep
  | bus i shown lost => exact h.bus hstep

end Net.Calm

/-! ## Runs -/

/-- What holds along a run of calm operation. -/
theorem Net.calm_run {s₀ s : Net t} {ops : List (NetOp ι)} (hready : ∀ j, Ready (s₀.node j))
    (hrun : Run.exec Net.calmStep s₀ ops = some s) :
    Net.Calm s₀ (Run.observe Net.calmStep Net.sends s₀ ops) s := by
  have hstart : Net.Calm s₀ [] s₀ := fun j => ⟨[], (hready j).operates, rfl⟩
  have hcalm : Net.Calm s₀ ([] ++ _) s :=
    Run.exec_observe (fun v c a c' hc hstep => by
      obtain ⟨ha, hstep'⟩ := Run.restrict_eq_some.mp hstep
      exact hc.step ha hstep') hstart hrun
  exact hcalm

/-- **What is written is what is read.**  Nodes that found nothing left over at their open run
    in any way, none of them stopped, reset, reconfigured, closed or off the bus, and none
    given a message of negative length; a node may lose frames for which its controller has
    no room.  Then the messages that a node has accepted are, in order, the frames it has
    sent, the one that is pending and those that are queued; and what a node has read, queued
    and received are, in the order of the bus, the frames of the other nodes that pass its
    filter and that it did not lose. -/
theorem net_delivers {s₀ s : Net t} {ops : List (NetOp ι)} (hready : ∀ j, Ready (s₀.node j))
    (hrun : Run.exec Net.calmStep s₀ ops = some s)
    (hlen : ∀ i, ∀ m ∈ (s.node i).hist.accepted, 0 ≤ m.length.toInt) :
    let log := Run.observe Net.calmStep Net.sends s₀ ops
    (∀ i, (s.node i).hist.accepted.map Canmsg.onBus =
      (sentBy i log).map Frame.onBus ++ (s.node i).chip.tx.toList.map Frame.onBus ++
        (s.node i).txq.contents.map Canmsg.onBus) ∧
    ∀ j, (nonErrors (s.node j).hist.returned ++ nonErrors (s.node j).rxq.contents ++
        (s.node j).chip.rxfifo.map Frame.view).map RxView.onBus =
      (log.filter fun e => e.sender ≠ j && (s₀.node j).chip.passes e.frame && !e.lost j).map
        fun e => e.frame.onBus := by
  have hcalm := Net.calm_run hready hrun
  exact ⟨fun i => hcalm.accepted_onBus (hlen i), hcalm.heard_onBus hlen⟩

end Net

/-- Two nodes; the second one reads the first of two messages while the other is pending. -/
theorem net_delivers_two :
    let s₀ : Net (fun _ : Fin 2 => Target.atcanminiPelican) := ⟨fun _ => Chan.opened⟩
    let first : Canmsg := { Canmsg.zero with id := 0x123, length := 2 }
    let ops : List (NetOp (Fin 2)) :=
      [.node 0 (.write true [.ofMsg first, .ofMsg Canmsg.zero]),
        .bus 0 (fun _ => encodeFrame first fun _ => 0) (fun _ => false), .node 0 (.irq ⟨0, 0⟩),
        .node 1 (.irq ⟨0, 0⟩), .node 1 (.read true 1)]
    ∃ s, Run.exec Net.calmStep s₀ ops = some s ∧
      let log := Run.observe Net.calmStep Net.sends s₀ ops
      (∀ i, (s.node i).hist.accepted.map Canmsg.onBus =
        (sentBy i log).map Frame.onBus ++ (s.node i).chip.tx.toList.map Frame.onBus ++
          (s.node i).txq.contents.map Canmsg.onBus) ∧
      ∀ j, (nonErrors (s.node j).hist.returned ++ nonErrors (s.node j).rxq.contents ++
          (s.node j).chip.rxfifo.map Frame.view).map RxView.onBus =
        (log.filter fun e => e.sender ≠ j && (s₀.node j).chip.passes e.frame && !e.lost j).map
          fun e => e.frame.onBus := by
  intro s₀ first ops
  obtain ⟨s, hs, hlen⟩ := Option.map_eq_some_iff.mp
    (show (Run.exec Net.calmStep s₀ ops).map (fun s => decide
      (∀ i, ∀ m ∈ (s.node i).hist.accepted, 0 ≤ m.length.toInt)) = some true by decide +kernel)
  exact ⟨s, hs, net_delivers (fun _ => ready_opened) hs (of_decide_eq_true hlen)⟩

end Can4linux
