/-
  Can4linux.Spsc

  One producer and one consumer on a `MsgQ`, interleaved step by step.  The
  producer runs `qproduce` (full test, fill through the callback, publish), the
  consumer runs `qconsume` (empty test, callback on the head slot, `consumed++`
  if the callback returned nonzero); any step of one may fall between any two
  steps of the other.

  A consumer callback gets the slot by reference and may rewrite it in place, as
  `sendcanmsg` does.  `key` is the part of a message that no callback rewrites;
  with `key := id` the callbacks are read-only.  `accepted` and `delivered` are
  history: the keys of the messages whose `qproduce` returned 1, and of those on
  which the consumer's callback returned nonzero.
-/

import Can4linux.Lib.Run
import Can4linux.MsgQ

namespace Can4linux

/-- Where the producer stands in `qproduce`. -/
inductive ProdPc (α : Type) where
  | out
  /-- the full test found room; the callback has not filled the slot yet -/
  | room
  /-- the callback stored `m`; `produced++` is still to come -/
  | filled (m : α)

/-- Where the consumer stands in `qconsume`. -/
inductive ConsPc where
  | out
  /-- the empty test found a message; the callback has not run yet -/
  | found
  /-- the callback returned `r`; `consumed++` is still to come if `r` -/
  | called (r : Bool)
deriving DecidableEq

/-- The queue, the two program counters and the history. -/
structure Spsc (α κ : Type) where
  q : MsgQ α
  prod : ProdPc α
  cons : ConsPc
  accepted : List κ
  delivered : List κ
  /-- what the last finished `qproduce` returned -/
  ret : Option Bool

/-- The atomic steps of the two operations. -/
inductive SpscAct (α : Type) where
  | testFull
  | fill (m : α)
  | publish
  | testEmpty
  /-- the callback leaves `m` in the slot and returns `r` -/
  | call (m : α) (r : Bool)
  | advance

namespace Spsc

variable {α κ : Type} [DecidableEq κ]

/-- One step of the producer or of the consumer. -/
def step (key : α → κ) (s : Spsc α κ) : SpscAct α → Option (Spsc α κ)
  | .testFull =>
      match s.prod with
      | .out => if s.q.full then some { s with ret := some false }
                else some { s with prod := .room, ret := none }
      | _ => none
  | .fill m =>
      match s.prod with
      | .room => some { s with q := s.q.fill m, prod := .filled m }
      | _ => none
  | .publish =>
      match s.prod with
      | .filled m => some { s with q := s.q.publish, prod := .out, ret := some true,
                                   accepted := s.accepted ++ [key m] }
      | _ => none
  | .testEmpty =>
      match s.cons with
      | .out => if s.q.empty then some { s with q := s.q.setIdle true }
                else some { s with cons := .found }
      | _ => none
  | .call m r =>
      match s.cons with
      | .found =>
          -- a callback may rewrite the slot, but not the part `key`
          if key m = key s.q.head then
            some { s with q := s.q.setHead m, cons := .called r,
                          delivered := if r then s.delivered ++ [key s.q.head] else s.delivered }
          else none
      | _ => none
  | .advance =>
      match s.cons with
      | .called r => some { s with q := if r then s.q.advance else s.q, cons := .out }
      | _ => none

/-- The messages that are still queued: the contents, less the head while its
    callback has returned nonzero and `consumed++` is still to come. -/
def queued (key : α → κ) (s : Spsc α κ) : List κ :=
  (match s.cons with
   | .called true => s.q.contents.tail
   | _ => s.q.contents).map key

/-- A queue at rest, nothing accepted or delivered yet. -/
def start (q : MsgQ α) : Spsc α κ := ⟨q, .out, .out, [], [], none⟩

/-! ## What one step does -/

variable {key : α → κ} {s s' : Spsc α κ}

theorem step_testFull (h : step key s .testFull = some s') :
    s.prod = .out ∧ ((s.q.full = true ∧ s' = { s with ret := some false }) ∨
      (s.q.full = false ∧ s' = { s with prod := .room, ret := none })) := by
  simp only [step] at h
  split at h
  · rename_i hp
    refine ⟨hp, ?_⟩
    split at h
    · rename_i hf
      exact .inl ⟨hf, (Option.some.inj h).symm⟩
    · rename_i hf
      exact .inr ⟨by simpa using hf, (Option.some.inj h).symm⟩
  · cases h

theorem step_fill {m : α} (h : step key s (.fill m) = some s') :
    s.prod = .room ∧ s' = { s with q := s.q.fill m, prod := .filled m } := by
  simp only [step] at h
  split at h
  · rename_i hp
    exact ⟨hp, (Option.some.inj h).symm⟩
  · cases h

theorem step_publish (h : step key s .publish = some s') :
    ∃ m, s.prod = .filled m ∧ s' = { s with q := s.q.publish, prod := .out, ret := some true,
                                            accepted := s.accepted ++ [key m] } := by
  simp only [step] at h
  split at h
  · rename_i m hp
    exact ⟨m, hp, (Option.some.inj h).symm⟩
  · cases h

theorem step_testEmpty (h : step key s .testEmpty = some s') :
    s.cons = .out ∧ ((s.q.empty = true ∧ s' = { s with q := s.q.setIdle true }) ∨
      (s.q.empty = false ∧ s' = { s with cons := .found })) := by
  simp only [step] at h
  split at h
  · rename_i hc
    refine ⟨hc, ?_⟩
    split at h
    · rename_i he
      exact .inl ⟨he, (Option.some.inj h).symm⟩
    · rename_i he
      exact .inr ⟨by simpa using he, (Option.some.inj h).symm⟩
  · cases h

theorem step_call {m : α} {r : Bool} (h : step key s (.call m r) = some s') :
    s.cons = .found ∧ key m = key s.q.head ∧
      s' = { s with q := s.q.setHead m, cons := .called r,
                    delivered := if r then s.delivered ++ [key s.q.head] else s.delivered } := by
  simp only [step] at h
  split at h
  · rename_i hc
    split at h
    · rename_i hk
      exact ⟨hc, hk, (Option.some.inj h).symm⟩
    · cases h
  · cases h

theorem step_advance (h : step key s .advance = some s') :
    ∃ r, s.cons = .called r ∧
      s' = { s with q := if r then s.q.advance else s.q, cons := .out } := by
  simp only [step] at h
  split at h
  · rename_i r hc
    exact ⟨r, hc, (Option.some.inj h).symm⟩
  · cases h

/-! ## The invariant -/

/-- What every interleaving preserves. -/
structure Inv (key : α → κ) (k : Nat) (s : Spsc α κ) : Prop where
  wf : s.q.WF k
  /-- between its full test and its publish the producer has a free slot -/
  room : s.prod = .room → s.q.full = false
  /-- the free slot still holds what the producer filled in when it publishes it -/
  filled : ∀ m, s.prod = .filled m → s.q.full = false ∧ s.q.freeSlot = m
  /-- between its empty test and its `consumed++` the consumer has a head message -/
  found : s.cons ≠ .out → s.q.contents ≠ []
  fifo : s.delivered ++ s.queued key = s.accepted

theorem Inv.testFull {k : Nat} (hi : Inv key k s) (h : step key s .testFull = some s') :
    Inv key k s' := by
  obtain ⟨-, ⟨-, rfl⟩ | ⟨hroom, rfl⟩⟩ := step_testFull h
  · exact ⟨hi.wf, hi.room, hi.filled, hi.found, hi.fifo⟩
  · exact ⟨hi.wf, fun _ => hroom, fun m hm => (by cases hm), hi.found, hi.fifo⟩

theorem Inv.fill {k : Nat} {m : α} (hi : Inv key k s) (h : step key s (.fill m) = some s') :
    Inv key k s' := by
  obtain ⟨hp, rfl⟩ := step_fill h
  have hroom := hi.room hp
  -- the free slot is none of the queued ones
  have hcont := hi.wf.contents_fill hroom m
  refine ⟨hi.wf.fill m, fun hm => (by cases hm), ?_, ?_, ?_⟩
  · intro m' hm
    cases hm
    exact ⟨hroom, MsgQ.freeSlot_fill _ _⟩
  · intro hc
    simpa [hcont] using hi.found hc
  · simpa [queued, hcont] using hi.fifo

theorem Inv.publish {k : Nat} (hi : Inv key k s) (h : step key s .publish = some s') :
    Inv key k s' := by
  obtain ⟨m, hp, rfl⟩ := step_publish h
  obtain ⟨hroom, hslot⟩ := hi.filled m hp
  have hcont : s.q.publish.contents = s.q.contents ++ [m] := by
    rw [hi.wf.contents_publish, hslot]
  refine ⟨hi.wf.publish hroom, fun hm => (by cases hm), fun m' hm => (by cases hm), ?_, ?_⟩
  · intro _
    simp [hcont]
  · have hfifo := hi.fifo
    have hfound := hi.found
    -- the new message goes behind the queued ones, also while the head is on its way out
    cases hc : s.cons with
    | called r =>
        have hne : s.q.contents ≠ [] := hfound (by simp [hc])
        cases r with
        | true =>
            simp only [queued, hc, hcont, List.tail_append_of_ne_nil hne,
              List.map_append] at hfifo ⊢
            rw [← List.append_assoc, hfifo]
            rfl
        | false =>
            simp only [queued, hc, hcont, List.map_append] at hfifo ⊢
            rw [← List.append_assoc, hfifo]
            rfl
    | out | found =>
        simp only [queued, hc, hcont, List.map_append] at hfifo ⊢
        rw [← List.append_assoc, hfifo]
        rfl

theorem Inv.testEmpty {k : Nat} (hi : Inv key k s) (h : step key s .testEmpty = some s') :
    Inv key k s' := by
  obtain ⟨hc, ⟨-, rfl⟩ | ⟨hne, rfl⟩⟩ := step_testEmpty h
  · exact ⟨hi.wf.setIdle true, hi.room, hi.filled, fun hc' => absurd hc hc', hi.fifo⟩
  · refine ⟨hi.wf, hi.room, hi.filled, ?_, ?_⟩
    · intro _ hnil
      simp [MsgQ.empty_iff.mpr hnil] at hne
    · simpa [queued, hc] using hi.fifo

theorem Inv.call {k : Nat} {m : α} {r : Bool} (hi : Inv key k s)
    (h : step key s (.call m r) = some s') : Inv key k s' := by
  obtain ⟨hc, hkey, rfl⟩ := step_call h
  have hne := hi.found (by simp [hc])
  have hcont := hi.wf.contents_setHead hne m
  refine ⟨hi.wf.setHead m, hi.room, ?_, ?_, ?_⟩
  · intro m' hm
    obtain ⟨hroom, hslot⟩ := hi.filled m' hm
    -- the head slot is not the one the producer has filled
    exact ⟨hroom, by rw [← hslot]; exact hi.wf.freeSlot_setHead hroom hne m⟩
  · intro _
    simp [hcont]
  · have hfifo := hi.fifo
    have hcons := MsgQ.contents_eq_cons hne
    simp only [queued, hc] at hfifo
    rw [hcons] at hfifo
    -- a consumed head counts as delivered from here on, a refused one stays queued
    cases r with
    | true =>
        simp only [queued, hcont, if_true, List.tail_cons, ← MsgQ.contents_advance hne]
        rw [← hfifo]
        simp
    | false =>
        simp only [queued, hcont, if_false, Bool.false_eq_true, List.map_cons, hkey,
          ← MsgQ.contents_advance hne]
        rw [← hfifo]
        simp

theorem Inv.advance {k : Nat} (hi : Inv key k s) (h : step key s .advance = some s') :
    Inv key k s' := by
  obtain ⟨r, hc, rfl⟩ := step_advance h
  have hne := hi.found (by simp [hc])
  have hfifo := hi.fifo
  cases r with
  | false =>
      -- refused: the counter stays where it is
      refine ⟨hi.wf, hi.room, hi.filled, fun hc' => absurd rfl hc', ?_⟩
      simpa [queued, hc] using hfifo
  | true =>
      have hfull := hi.wf.full_advance hne
      refine ⟨hi.wf.advance hne, fun _ => hfull, ?_, fun hc' => absurd rfl hc', ?_⟩
      · intro m hm
        exact ⟨hfull, (hi.filled m hm).2⟩
      · simpa [queued, hc, MsgQ.contents_advance hne] using hfifo

omit [DecidableEq κ] in
/-- What the last `qproduce` has returned does not matter. -/
theorem Inv.ret {k : Nat} (hi : Inv key k s) (ret : Option Bool) :
    Inv key k { s with ret := ret } :=
  ⟨hi.wf, hi.room, hi.filled, hi.found, hi.fifo⟩

omit [DecidableEq κ] in
/-- Nor does the idle flag. -/
theorem Inv.setIdle {k : Nat} (hi : Inv key k s) (v : Bool) :
    Inv key k { s with q := s.q.setIdle v } :=
  ⟨hi.wf.setIdle v, hi.room, hi.filled, hi.found, hi.fifo⟩

/-- Every step of the producer or the consumer keeps the invariant. -/
theorem step_inv {k : Nat} (hi : Inv key k s) {a : SpscAct α} (h : step key s a = some s') :
    Inv key k s' := by
  cases a with
  | testFull => exact hi.testFull h
  | fill m => exact hi.fill h
  | publish => exact hi.publish h
  | testEmpty => exact hi.testEmpty h
  | call m r => exact hi.call h
  | advance => exact hi.advance h

omit [DecidableEq κ] in
/-- A queue at rest with equal counters, whatever their value, satisfies it. -/
theorem Inv.start {k : Nat} {q : MsgQ α} (hk : k ≤ 30) (hmask : q.mask = Ring.maskOf 32 k)
    (heq : q.produced = q.consumed) : Inv key k (start q) := by
  have hlen : q.qlen.toNat = 0 := by simp [MsgQ.qlen, heq]
  have hnil : q.contents = [] := by
    rw [← List.length_eq_zero_iff, MsgQ.contents_length, hlen]
  have hwf : q.WF k := ⟨hk, hmask, hlen ▸ Nat.zero_le _⟩
  exact ⟨hwf, fun h => (by cases h), fun m h => (by cases h),
    fun h => absurd rfl h, by simp [Spsc.start, queued, hnil]⟩

/-! ## The queue is a FIFO -/

/-- What a single-producer/single-consumer FIFO of `2^k` slots guarantees in a state. -/
structure IsFifo (key : α → κ) (k : Nat) (s : Spsc α κ) : Prop where
  /-- the counters never drift apart by more than the size -/
  length : 0 ≤ s.q.qlen.toInt ∧ s.q.qlen.toInt ≤ 2 ^ k
  /-- consumed, then queued: exactly the accepted messages, in order, each once -/
  order : s.delivered ++ s.queued key = s.accepted
  /-- a message whose callback returned 0 stays at the head -/
  refused : ∀ m s', step key s (.call m false) = some s' →
    key s'.q.head = key s.q.head ∧ s'.queued key = s.queued key ∧
      ∀ s'', step key s' .advance = some s'' → s''.q = s'.q
  /-- the producer fills neither an unconsumed slot nor the one under the callback -/
  apart : ∀ m s', step key s (.fill m) = some s' →
    (∀ i, i < s.q.qlen.toNat →
      Ring.slot s.q.mask (s.q.consumed + BitVec.ofNat 32 i) ≠ Ring.slot s.q.mask s.q.produced) ∧
    (s.cons ≠ .out → Ring.slot s.q.mask s.q.consumed ≠ Ring.slot s.q.mask s.q.produced)
  /-- `qproduce` returns 0 only if as many messages are queued as there are slots -/
  fullOnly : ∀ s', step key s .testFull = some s' → s'.ret = some false →
    s.q.contents.length = 2 ^ k

omit [DecidableEq κ] in
theorem Inv.length {k : Nat} (hi : Inv key k s) :
    0 ≤ s.q.qlen.toInt ∧ s.q.qlen.toInt ≤ 2 ^ k := by
  have hpow := hi.wf.pow_le
  have hbound := hi.wf.bound
  rw [BitVec.toInt_eq_toNat_of_lt (by omega)]
  exact ⟨by omega, by exact_mod_cast hbound⟩

theorem Inv.refused {k : Nat} (hi : Inv key k s) {m : α}
    (h : step key s (.call m false) = some s') :
    key s'.q.head = key s.q.head ∧ s'.queued key = s.queued key ∧
      ∀ s'', step key s' .advance = some s'' → s''.q = s'.q := by
  obtain ⟨hc, hkey, rfl⟩ := step_call h
  have hne := hi.found (by simp [hc])
  have hcont := hi.wf.contents_setHead hne m
  refine ⟨?_, ?_, ?_⟩
  · simp [MsgQ.head, MsgQ.setHead] at hkey ⊢
    exact hkey
  · -- the head has been rewritten, its key has not
    rw [MsgQ.contents_eq_cons hne, List.tail_cons] at hcont
    simp only [queued, hc, hcont, List.map_cons, hkey]
    rw [MsgQ.contents_eq_cons hne, List.map_cons]
  · intro s'' h'
    obtain ⟨r, hr, rfl⟩ := step_advance h'
    cases hr
    rfl

theorem Inv.apart {k : Nat} (hi : Inv key k s) {m : α} (h : step key s (.fill m) = some s') :
    (∀ i, i < s.q.qlen.toNat →
      Ring.slot s.q.mask (s.q.consumed + BitVec.ofNat 32 i) ≠ Ring.slot s.q.mask s.q.produced) ∧
    (s.cons ≠ .out → Ring.slot s.q.mask s.q.consumed ≠ Ring.slot s.q.mask s.q.produced) := by
  obtain ⟨hp, -⟩ := step_fill h
  have hroom := hi.room hp
  refine ⟨fun i hlt => hi.wf.slot_ne hroom hlt, ?_⟩
  intro hc
  have hlen := MsgQ.qlen_advance_toNat (hi.found hc)
  simpa using hi.wf.slot_ne hroom (i := 0) (by omega)

theorem Inv.fullOnly {k : Nat} (hi : Inv key k s) (h : step key s .testFull = some s')
    (hret : s'.ret = some false) : s.q.contents.length = 2 ^ k := by
  obtain ⟨-, ⟨hfull, -⟩ | ⟨-, rfl⟩⟩ := step_testFull h
  · exact hi.wf.full_iff_length.mp hfull
  · cases hret

theorem Inv.isFifo {k : Nat} (hi : Inv key k s) : IsFifo key k s :=
  ⟨hi.length, hi.fifo, fun _ _ h => hi.refused h, fun _ _ h => hi.apart h,
    fun _ h hret => hi.fullOnly h hret⟩

/-- **`MsgQ` is a FIFO.**  From equal counters of any value, after any
    interleaving of the steps of one producer and one consumer. -/
theorem msgq_isFifo (key : α → κ) {k : Nat} (hk : k ≤ 30) {q : MsgQ α}
    (hmask : q.mask = Ring.maskOf 32 k) (heq : q.produced = q.consumed)
    {acts : List (SpscAct α)} (hrun : Run.exec (step key) (start q) acts = some s) :
    IsFifo key k s :=
  (Run.exec_invariant (fun _ _ _ hi h => step_inv hi h) (Inv.start hk hmask heq) hrun).isFifo

/-- Two slots and counters about to wrap; one refused message, one refused callback. -/
theorem msgq_isFifo_wrap : ∃ s, Run.exec (step (id : Nat → Nat))
    (start ⟨0xFFFFFFFF, 0xFFFFFFFF, 1, fun _ => 0, none, false, true⟩)
    [.testFull, .fill 7, .publish, .testFull, .fill 8, .publish, .testFull,
      .testEmpty, .call 7 false, .advance, .testEmpty, .call 7 true, .advance] = some s ∧
    IsFifo id 1 s := by
  obtain ⟨s, hs⟩ := Option.isSome_iff_exists.mp (show (Run.exec (step (id : Nat → Nat))
    (start ⟨0xFFFFFFFF, 0xFFFFFFFF, 1, fun _ => 0, none, false, true⟩)
    [.testFull, .fill 7, .publish, .testFull, .fill 8, .publish, .testFull,
      .testEmpty, .call 7 false, .advance, .testEmpty, .call 7 true, .advance]).isSome = true
    by decide)
  exact ⟨s, hs, msgq_isFifo id (by decide) rfl rfl hs⟩

end Spsc

end Can4linux
