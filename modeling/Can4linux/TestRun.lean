/-
  Can4linux.TestRun

  The communication test run over the driver.  `test10` writes to one node of a
  bus, `can_verify` reads from another.  If nobody else writes, the filter of the
  reader lets everything in and its controller loses no frame, the verifier finds
  nothing wrong, however the two programs, the interrupts, the timers and the bus
  are interleaved.
-/

import Can4linux.CommTest
import Can4linux.Network

namespace Can4linux

/-! ## A test message on the bus -/

variable {extd : Bool}

theorem message_length (n : Nat) : (message extd n).length.toNat = n % 9 := by
  rw [message, BitVec.toNat_ofNat]
  omega

theorem message_length_nonneg (n : Nat) : 0 ≤ (message extd n).length.toInt := by
  rw [BitVec.toInt_eq_toNat_cond, message_length]
  split <;> omega

/-- Every field of a test message fits the bus. -/
theorem message_onBus (n : Nat) : (message extd n).onBus =
    ⟨extd, false, (message extd n).id, n % 9, (List.range (n % 9)).map (message extd n).byte⟩ := by
  have hext : isSet (message extd n).flags msgExt = extd := by
    have hflags : ∀ b : Bool, isSet (if b then msgExt else 0) msgExt = b := by decide
    exact hflags extd
  have hrtr : isSet (message extd n).flags msgRtr = false := by
    have hflags : ∀ b : Bool, isSet (if b then msgExt else 0) msgRtr = false := by decide
    exact hflags extd
  have hcap : (message extd n).capLength = message extd n := by
    refine Canmsg.capLength_eq ?_
    rw [BitVec.toInt_eq_toNat_cond, message_length]
    split <;> omega
  have hid : BitVec.ofNat 64 ((message extd n).id.toNat % 2 ^ (if extd then 29 else 11)) =
      (message extd n).id := by
    have hlt := Nat.mod_lt n (period_pos extd)
    refine BitVec.eq_of_toNat_eq ?_
    rw [BitVec.toNat_ofNat, id_message]
    rcases period_eq extd with ⟨rfl, hper⟩ | ⟨rfl, hper⟩
    · rw [if_neg Bool.false_ne_true]
      omega
    · rw [if_pos rfl]
      omega
  rw [Canmsg.onBus, hext, hrtr, hcap, message_length, hid, if_neg Bool.false_ne_true]

/-- A message read that shows it is the test message. -/
theorem delivered_of_onBus {n : Nat} {m : Canmsg} (h : m.view.onBus = (message extd n).onBus) :
    Delivered (message extd n) m := by
  rw [message_onBus] at h
  have hid : m.id = (message extd n).id := congrArg BusFrame.id h
  have hlen : m.length.toNat = n % 9 := congrArg BusFrame.code h
  have hrtr : isSet m.flags msgRtr = false := congrArg BusFrame.rtr h
  have hdata : (if isSet m.flags msgRtr then [] else
      (List.range (m.length.toNat % 9)).map m.byte) =
        (List.range (n % 9)).map (message extd n).byte := congrArg BusFrame.data h
  rw [hrtr, if_neg Bool.false_ne_true, hlen, Nat.mod_mod] at hdata
  refine ⟨hid, BitVec.eq_of_toNat_eq (hlen.trans (message_length n).symm), fun i hi => ?_⟩
  rw [message_length] at hi
  have hbyte := congrArg (fun l : List U8 => l[(i : Nat)]?) hdata
  simp only [List.getElem?_map, List.getElem?_range hi, Option.map_some, Option.some.injEq,
    Canmsg.byte, dif_pos i.isLt, Fin.eta] at hbyte
  exact hbyte

/-- A mask of ones lets everything in. -/
theorem Sja1000.passes_all {t : Target} {c : Sja1000 t} (h : c.acceptMask = BitVec.allOnes 32)
    (f : Frame) : c.passes f = true := by
  rw [passes_iff_bits]
  intro i hi hmask
  rw [h, BitVec.getLsbD_allOnes] at hmask
  simp [hi] at hmask

/-! ## The test -/

/-- Messages that show the first ones of the stream are those delivered. -/
theorem delivered_stream {ms : List Canmsg} {n : Nat}
    (h : ms.map (fun m => m.view.onBus) <+: (stream extd n).map Canmsg.onBus) :
    List.Forall₂ Delivered (stream extd ms.length) ms := by
  have hle : ms.length ≤ n := by
    have hlen := h.length_le
    rwa [List.length_map, List.length_map, stream, List.length_map, List.length_range] at hlen
  have htake : (stream extd n).take ms.length = stream extd ms.length := by
    rw [stream, ← List.map_take, List.take_range, Nat.min_eq_left hle, stream]
  have heq : ms.map (fun m => m.view.onBus) = (stream extd ms.length).map Canmsg.onBus := by
    have hpre := List.prefix_iff_eq_take.mp h
    rwa [List.length_map, ← List.map_take, htake] at hpre
  rw [stream, List.map_map, ← List.forall₂_eq_eq_eq, List.forall₂_map_left_iff,
    List.forall₂_map_right_iff] at heq
  rw [stream, List.forall₂_map_left_iff]
  exact heq.flip.imp fun n m hm => delivered_of_onBus hm

/-- **The test passes over the driver.**  Run `test10` on node `i` of a bus and `can_verify` on
    node `j`, in calm operation.  If only `i` writes, the mask of `j` lets everything in, no
    frame is lost at `j` and no error message is read there, `verify_message` finds nothing
    wrong with what the reads of `j` have returned. -/
theorem test_passes {ι : Type} [Fintype ι] [DecidableEq ι] {t : ι → Target} {s₀ s : Net t}
    {ops : List (NetOp ι)} (hready : ∀ k, Ready (s₀.node k))
    (hrun : Run.exec Net.calmStep s₀ ops = some s)
    {i j : ι} (hij : i ≠ j) {soll : Int} {rets : List WriteRet} {g : TestSender}
    (hgen : Run.exec (TestSender.step extd soll) (TestSender.init extd) rets = some g)
    (hwritten : (s.node i).hist.accepted = g.sent)
    (hothers : ∀ k, k ≠ i → (s.node k).hist.accepted = [])
    (hmask : (s₀.node j).chip.acceptMask = BitVec.allOnes 32)
    (hroom : ∀ e ∈ Run.observe Net.calmStep Net.sends s₀ ops, e.lost j = false)
    (hnoerr : ∀ m ∈ (s.node j).hist.returned, m.id ≠ 0xFFFFFFFF)
    {reads : List (List Canmsg)} (hreads : reads.flatten = (s.node j).hist.returned) :
    (Verifier.verify extd reads).reports = [] := by
  obtain ⟨k, hgen'⟩ := TestSender.follows_exec hgen
  rw [hgen'.sent] at hwritten
  obtain ⟨log, hlog⟩ : ∃ log, log = Run.observe Net.calmStep Net.sends s₀ ops := ⟨_, rfl⟩
  have hcalm := Net.calm_run hready hrun
  rw [← hlog] at hcalm hroom
  have hlen : ∀ k, ∀ m ∈ (s.node k).hist.accepted, 0 ≤ m.length.toInt := by
    intro k m hm
    by_cases hk : k = i
    · rw [hk, hwritten] at hm
      obtain ⟨n, -, rfl⟩ := List.mem_map.mp hm
      exact message_length_nonneg n
    · rw [hothers k hk] at hm
      cases hm
  -- every frame on the bus is one of the writer's
  have hsender : ∀ e ∈ log, e.sender = i := by
    intro e he
    by_contra hne
    have hnone := hcalm.accepted_onBus (hlen e.sender)
    rw [hothers _ hne, List.map_nil, eq_comm, List.append_eq_nil_iff, List.append_eq_nil_iff,
      List.map_eq_nil_iff, sentBy, List.map_eq_nil_iff, List.filter_eq_nil_iff] at hnone
    exact hnone.1.1 e he (by simp)
  have hall : log.filter (fun e => e.sender ≠ j && (s₀.node j).chip.passes e.frame &&
      !e.lost j) = log := by
    refine List.filter_eq_self.mpr fun e he => ?_
    have hne : e.sender ≠ j := (hsender e he).symm ▸ hij
    simp [hne, Sja1000.passes_all hmask, hroom e he]
  have hsent : log.map (fun e => e.frame.onBus) <+: (stream extd (9 * k + g.start)).map
      Canmsg.onBus := by
    have hby : sentBy i log = log.map Sent.frame := by
      rw [sentBy, List.filter_eq_self.mpr fun e he => by simp [hsender e he]]
    have hacc := hcalm.accepted_onBus (hlen i)
    rw [hwritten, hby, List.map_map, List.append_assoc] at hacc
    exact ⟨_, hacc.symm⟩
  have hread : (s.node j).hist.returned.map (fun m => m.view.onBus) <+:
      (stream extd (9 * k + g.start)).map Canmsg.onBus := by
    have hheard := hcalm.heard_onBus hlen j
    have hplain : nonErrors (s.node j).hist.returned =
        (s.node j).hist.returned.map Canmsg.view := by
      rw [nonErrors, List.filter_eq_self.mpr fun m hm => by simpa using hnoerr m hm]
    rw [hall, hplain, List.map_append, List.map_append, List.map_map, List.append_assoc] at hheard
    have hpre : (s.node j).hist.returned.map (fun m => m.view.onBus) <+:
        log.map fun e => e.frame.onBus := ⟨_, hheard⟩
    exact hpre.trans hsent
  have hdel := delivered_stream hread
  rw [← hreads, stream, List.range_eq_range'] at hdel
  rw [Verifier.verify_eq]
  exact (Verifier.expects_init.foldl hdel).reports

/-- One sequence is written; two of its messages are on the bus, and both are read. -/
theorem test_passes_two :
    let tm := List.ofFn (TestSender.init false).tm
    let seen : Nat → Fin 2 → Frame := fun n _ => encodeFrame (message false n) fun _ => 0
    let s₀ : Net (fun _ : Fin 2 => Target.atcanminiPelican) := ⟨fun _ => Chan.opened⟩
    let ops : List (NetOp (Fin 2)) :=
      [.node 0 (.write true (tm.map .ofMsg)), .bus 0 (seen 0) (fun _ => false),
        .node 0 (.irq ⟨0, 0⟩), .node 1 (.irq ⟨0, 0⟩), .bus 0 (seen 1) (fun _ => false),
        .node 1 (.irq ⟨0, 1⟩), .node 1 (.read true 4)]
    ∃ s, Run.exec Net.calmStep s₀ ops = some s ∧
      (Verifier.verify false [(s.node 1).hist.returned]).reports = [] := by
  intro tm seen s₀ ops
  obtain ⟨g, hg, hsent⟩ := Option.map_eq_some_iff.mp (show (Run.exec (TestSender.step false 1)
    (TestSender.init false) [.taken 9]).map (fun g => decide (g.sent = tm)) = some true by
      decide +kernel)
  obtain ⟨s, hs, hall⟩ := Option.map_eq_some_iff.mp
    (show (Run.exec Net.calmStep s₀ ops).map (fun s => decide
      ((s.node 0).hist.accepted = tm ∧ (s.node 1).hist.accepted = [] ∧
        ∀ m ∈ (s.node 1).hist.returned, m.id ≠ 0xFFFFFFFF)) = some true by decide +kernel)
  obtain ⟨hwritten, hothers, hnoerr⟩ := of_decide_eq_true hall
  refine ⟨s, hs, test_passes (fun _ => ready_opened) hs (i := 0) (j := 1) (by decide) hg
    (hwritten.trans (of_decide_eq_true hsent).symm) ?_ (by decide +kernel) (by decide +kernel)
    hnoerr (List.append_nil _)⟩
  intro k hk
  obtain rfl : k = 1 := by omega
  exact hothers

end Can4linux
