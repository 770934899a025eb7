/-
  Can4linux.CommTest

  The communication test of `examples`: `test10` and `update_seq` of
  `can_send.c` send sequences of nine messages, and `verify_message` of
  `can_verify.c` checks each message that arrives.

  The generator counts in blocks of nine and tests for the wrap once a block,
  the verifier counts one by one.  Both are compared with one numbering of the
  whole stream (`message`): message `n` has the identifier `n % period`, the
  length `n % 9` and the sequence number `n / 9`.
-/

import Can4linux.Defs
import Can4linux.Lib.Bytes
import Can4linux.Lib.Run

namespace Can4linux

/-- `SEQN`, the number of messages of one sequence, in both programs. -/
abbrev seqn : Nat := 9

namespace Canmsg

/-- The `k` bytes at `&data[0]`, read as one number on a little-endian machine. -/
def load (m : Canmsg) (k : Nat) : Nat := Bytes.load m.byte k

/-- `*(unsigned long long *)&data[0]`. -/
def counter (m : Canmsg) : CLong := BitVec.ofNat 64 (m.load 8)

/-- `*(unsigned long long *)&data[0] = v`. -/
def setCounter (m : Canmsg) (v : CLong) : Canmsg :=
  { m with data := fun i => Bytes.ofNat v.toNat i }

theorem byte_setCounter (m : Canmsg) (v : CLong) {i : Nat} (hi : i < 8) :
    (m.setCounter v).byte i = Bytes.ofNat v.toNat i := by
  rw [byte, dif_pos hi]
  rfl

theorem counter_setCounter (m : Canmsg) (v : CLong) : (m.setCounter v).counter = v := by
  have hload : (m.setCounter v).load 8 = v.toNat % 256 ^ 8 := by
    rw [load, Bytes.load_congr fun i hi => byte_setCounter m v hi, Bytes.load_ofNat]
  rw [counter, hload]
  apply BitVec.eq_of_toNat_eq
  have hv := v.isLt
  rw [BitVec.toNat_ofNat]
  omega

end Canmsg

/-! ## The generator -/

/-- The first half of `update_seq`: the new identifiers. -/
def updateIds (extd : Bool) (m : Fin seqn → Canmsg) : Fin seqn → Canmsg :=
  if (extd && (536870906 - 9 : CLong).ult (m 0).id) || (!extd && (2042 - 9 : CLong).ult (m 0).id)
  then fun i => { m i with id := BitVec.ofNat 64 i }
  else fun i => { m i with id := (m i).id + 9 }

/-- `update_seq`: the new identifiers, then the counter in every message's data bytes. -/
def updateSeq (extd : Bool) (m : Fin seqn → Canmsg) : Fin seqn → Canmsg := fun i =>
  (updateIds extd m i).setCounter ((updateIds extd m i).counter + 1)

/-- What a `write` of `test10` returns: -1, or the number of messages taken. -/
inductive WriteRet where
  | error
  | taken (n : Nat)

/-- `test10`: the messages of the block, the variables `seq` and `start` of the loop that
    writes it, `test_count`, and what has been written so far.  `test_count` does not
    overflow, so that a run may have any number of sequences. -/
structure TestSender where
  tm : Fin seqn → Canmsg
  seq : Nat
  start : Nat
  testCount : Int
  running : Bool
  sent : List Canmsg

namespace TestSender

/-- `test10` before its first `write`. -/
def init (extd : Bool) : TestSender where
  tm i :=
    { Canmsg.zero with
      flags := if extd then msgExt else 0
      id := BitVec.ofNat 64 i
      length := BitVec.ofNat 16 i }
  seq := seqn
  start := 0
  testCount := 0
  running := true
  sent := []

/-- Behind the `while(seq)` loop: the count of sequences, and the next block. -/
def blockDone (extd : Bool) (soll : Int) (s : TestSender) : TestSender :=
  let s := { s with testCount := s.testCount + 1 }
  if s.testCount = soll then { s with running := false }
  else { s with tm := updateSeq extd s.tm, seq := seqn, start := 0 }

/-- One `write(can_fd, &tm[start], seq)` and the code up to the next one; `soll` is
    `test_count_soll`. -/
def step (extd : Bool) (soll : Int) (s : TestSender) : WriteRet → Option TestSender
  | .error => if s.running then some { s with running := false } else none
  | .taken ret =>
      if s.running ∧ ret ≤ s.seq then
        let s' := { s with
          sent := s.sent ++ ((List.ofFn s.tm).drop s.start).take ret
          seq := s.seq - ret
          start := s.start + ret }
        some (if s'.seq = 0 then s'.blockDone extd soll else s')
      else none

end TestSender

/-! ## The verifier -/

/-- What `verify_message` prints when it finds something wrong. -/
inductive Mismatch where
  | wrongId (got : CLong) (expected : CInt) (seq : CLong)
  | wrongLength (got : BitVec 16) (expected : CInt) (seq : CLong)
  | wrongData (length : BitVec 16) (expected : CLong)
deriving DecidableEq

/-- The static variables of `verify_message`, `errs`, and what has been printed. -/
structure Verifier where
  iseq : CInt
  seq : CLong
  id : CInt
  errs : CInt
  reports : List Mismatch

namespace Verifier

def init : Verifier := ⟨0, 0, 0, 0, []⟩

def report (v : Verifier) (r : Mismatch) : Verifier := { v with reports := v.reports ++ [r] }

/-- The `switch` over the length. -/
def dataOk (seq : CLong) (m : Canmsg) : Bool :=
  match m.length.toNat with
  | 1 => seq &&& 0xff == (m.byte 0).setWidth 64
  | 2 => seq &&& 0xffff == BitVec.ofNat 64 (m.load 2)
  | 4 => seq &&& 0xffffffff == BitVec.ofNat 64 (m.load 4)
  | 8 => seq == m.counter
  | _ => true

/-- The identifier against the expected one. -/
def checkId (m : Canmsg) (v : Verifier) : Verifier :=
  if v.id.setWidth 64 ≠ m.id then
    { v.report (.wrongId m.id v.id v.seq) with errs := v.errs + 1, id := m.id.setWidth 32 }
  else v

/-- The length and the data against the expected ones, and the next sequence. -/
def checkData (m : Canmsg) (v : Verifier) : Verifier :=
  if v.iseq ≠ m.length.signExtend 32 then v.report (.wrongLength m.length v.iseq v.seq)
  else
    let v := if dataOk v.seq m then v else v.report (.wrongData m.length v.seq)
    if v.iseq + 1 = 9 then { v with iseq := 0, seq := v.seq + 1 }
    else { v with iseq := v.iseq + 1 }

/-- The next expected identifier. -/
def nextId (extd : Bool) (v : Verifier) : Verifier :=
  if (extd && v.id == 536870906) || (!extd && v.id == 2042) then { v with id := 0 }
  else { v with id := v.id + 1 }

/-- `verify_message` -/
def verifyMessage (extd : Bool) (v : Verifier) (m : Canmsg) : Verifier :=
  nextId extd (checkData m (checkId m v))

/-- `verify`: every message of every `read`, from the start of the program. -/
def verify (extd : Bool) (reads : List (List Canmsg)) : Verifier :=
  reads.foldl (fun v rx => rx.foldl (verifyMessage extd) v) init

end Verifier

/-! ## One numbering for both -/

/-- The number of identifiers that the test uses. -/
def period (extd : Bool) : Nat := if extd then 536870907 else 2043

/-- Message `n` of the test. -/
def message (extd : Bool) (n : Nat) : Canmsg where
  flags := if extd then msgExt else 0
  cob := 0
  id := BitVec.ofNat 64 (n % period extd)
  timestamp := ⟨0, 0⟩
  length := BitVec.ofNat 16 (n % 9)
  data i := Bytes.ofNat (n / 9 % 2 ^ 64) i

/-- The first `n` messages of the test. -/
def stream (extd : Bool) (n : Nat) : List Canmsg := (List.range n).map (message extd)

/-- The nine messages of sequence `k`. -/
def block (extd : Bool) (k : Nat) (i : Fin seqn) : Canmsg := message extd (9 * k + i)

variable {extd : Bool}

theorem byte_message {n i : Nat} (hi : i < 8) :
    (message extd n).byte i = Bytes.ofNat (n / 9 % 2 ^ 64) i := by
  rw [Canmsg.byte, dif_pos hi]
  rfl

/-- The first `k` data bytes are the sequence number cut to `k` bytes. -/
theorem load_message {n k : Nat} (hk : k ≤ 8) :
    (message extd n).load k = n / 9 % 256 ^ k := by
  rw [Canmsg.load, Bytes.load_congr fun i hi => byte_message (by omega), Bytes.load_ofNat]
  have hdvd : 256 ^ k ∣ 2 ^ 64 := Nat.pow_dvd_pow 256 hk
  exact Nat.mod_mod_of_dvd _ hdvd

theorem counter_message (n : Nat) : (message extd n).counter = BitVec.ofNat 64 (n / 9) := by
  rw [Canmsg.counter, load_message (le_refl 8)]
  apply BitVec.eq_of_toNat_eq
  rw [BitVec.toNat_ofNat, BitVec.toNat_ofNat]
  omega

/-! ## The generator follows the numbering -/

theorem period_eq (extd : Bool) :
    extd = false ∧ period extd = 2043 ∨ extd = true ∧ period extd = 536870907 := by
  cases extd with
  | false => exact .inl ⟨rfl, rfl⟩
  | true => exact .inr ⟨rfl, rfl⟩

theorem period_le (extd : Bool) : period extd ≤ 536870907 := by
  have hper := period_eq extd
  omega

theorem period_pos (extd : Bool) : 0 < period extd := by
  have hper := period_eq extd
  omega

theorem id_message (extd : Bool) (n : Nat) : (message extd n).id.toNat = n % period extd := by
  have hle := period_le extd
  have hlt := Nat.mod_lt n (period_pos extd)
  exact (BitVec.toNat_ofNat ..).trans (Nat.mod_eq_of_lt (by omega))

/-- The test of `update_seq` finds the block that holds the last identifier. -/
theorem wrapped_iff (extd : Bool) (k : Nat) :
    ((extd && (536870906 - 9 : CLong).ult (block extd k 0).id) ||
      (!extd && (2042 - 9 : CLong).ult (block extd k 0).id)) = true ↔
      (9 * k + 9) % period extd = 0 := by
  have hid : (block extd k 0).id.toNat = 9 * k % period extd := id_message extd (9 * k)
  rcases period_eq extd with ⟨rfl, hper⟩ | ⟨rfl, hper⟩
  · have hult : (2042 - 9 : CLong).ult (block false k 0).id = true ↔
        2033 < (block false k 0).id.toNat := by
      simp [BitVec.ult]
    simp only [Bool.false_and, Bool.not_false, Bool.true_and, Bool.false_or]
    rw [hult, hid, hper]
    omega
  · have hult : (536870906 - 9 : CLong).ult (block true k 0).id = true ↔
        536870897 < (block true k 0).id.toNat := by
      simp [BitVec.ult]
    simp only [Bool.true_and, Bool.not_true, Bool.false_and, Bool.or_false]
    rw [hult, hid, hper]
    omega

/-- The identifiers of the next block, behind a wrap and elsewhere. -/
theorem id_next_block (extd : Bool) (k : Nat) {i : Nat} (hi : i < 9) :
    (message extd (9 * (k + 1) + i)).id =
      if (9 * k + 9) % period extd = 0 then BitVec.ofNat 64 i
      else (message extd (9 * k + i)).id + 9 := by
  have hold := id_message extd (9 * k + i)
  have hnew := id_message extd (9 * (k + 1) + i)
  apply BitVec.eq_of_toNat_eq
  rw [hnew]
  split
  · rename_i hwrap
    rw [BitVec.toNat_ofNat]
    rcases period_eq extd with ⟨-, hper⟩ | ⟨-, hper⟩ <;> rw [hper] at hwrap ⊢ <;> omega
  · rename_i hwrap
    rw [BitVec.toNat_add, hold]
    have hnine : (9 : CLong).toNat = 9 := rfl
    rw [hnine]
    rcases period_eq extd with ⟨-, hper⟩ | ⟨-, hper⟩ <;> rw [hper] at hwrap ⊢ <;> omega

theorem updateIds_block (k : Nat) (i : Fin seqn) :
    updateIds extd (block extd k) i = { block extd k i with id := (block extd (k + 1) i).id } := by
  have hid := id_next_block extd k i.isLt
  have htest := wrapped_iff extd k
  unfold updateIds
  by_cases hwrap : (9 * k + 9) % period extd = 0
  · rw [if_pos hwrap] at hid
    rw [if_pos (htest.mpr hwrap)]
    exact congrArg (fun id => { block extd k i with id := id }) hid.symm
  · rw [if_neg hwrap] at hid
    rw [if_neg (mt htest.mp hwrap)]
    exact congrArg (fun id => { block extd k i with id := id }) hid.symm

/-- `update_seq` turns one sequence into the next. -/
theorem updateSeq_block (k : Nat) : updateSeq extd (block extd k) = block extd (k + 1) := by
  funext i
  have hi : (i : Nat) < 9 := i.isLt
  have hold : (9 * k + i) / 9 = k := by omega
  have hnew : (9 * (k + 1) + i) / 9 = k + 1 := by omega
  have hlen : (9 * k + i) % 9 = (9 * (k + 1) + i) % 9 := by omega
  have hcount : (updateIds extd (block extd k) i).counter + 1 = BitVec.ofNat 64 (k + 1) := by
    have hkeeps : (updateIds extd (block extd k) i).counter = (block extd k i).counter := by
      rw [updateIds_block]
      rfl
    rw [hkeeps, block, counter_message, hold, BitVec.ofNat_add]
    rfl
  rw [updateSeq, hcount, updateIds_block, Canmsg.setCounter, block, block, message, message,
    BitVec.toNat_ofNat, hnew, hlen]

/-! ## What the generator has sent -/

/-- The generator has sent the first messages of the test: the blocks before, and what
    `start` says of the one it holds. -/
structure TestSender.Follows (extd : Bool) (k : Nat) (s : TestSender) : Prop where
  tm : s.tm = block extd k
  left : s.seq + s.start = 9
  sent : s.sent = stream extd (9 * k + s.start)

theorem stream_add (n m : Nat) :
    stream extd (n + m) = stream extd n ++ (List.range m).map fun i => message extd (n + i) := by
  rw [stream, stream, List.range_add, List.map_append, List.map_map]
  rfl

/-- A part of a block is the next part of the stream. -/
theorem stream_block {k start ret : Nat} (h : start + ret ≤ 9) :
    stream extd (9 * k + start) ++ ((List.ofFn (block extd k)).drop start).take ret =
      stream extd (9 * k + (start + ret)) := by
  rw [← Nat.add_assoc, stream_add (9 * k + start) ret]
  congr 1
  apply List.ext_getElem
  · rw [List.length_take, List.length_drop, List.length_ofFn, List.length_map, List.length_range]
    have hseqn : seqn = 9 := rfl
    omega
  · intro i hi hi'
    rw [List.getElem_take, List.getElem_drop, List.getElem_ofFn, List.getElem_map,
      List.getElem_range, block, Nat.add_assoc]

namespace TestSender

variable {soll : Int} {s s' : TestSender} {k : Nat}

theorem follows_init : Follows extd 0 (init extd) where
  tm := by
    funext i
    have hi : (i : Nat) < 9 := i.isLt
    have hper := period_eq extd
    have hid : (9 * 0 + (i : Nat)) % period extd = i := by
      rw [Nat.mul_zero, Nat.zero_add, Nat.mod_eq_of_lt (by omega)]
    have hlen : (9 * 0 + (i : Nat)) % 9 = i := by omega
    have hseq : (9 * 0 + (i : Nat)) / 9 = 0 := by omega
    rw [block, message, hid, hlen, hseq]
    simp only [init, Canmsg.zero]
    congr 1
    funext j
    simp [Bytes.ofNat]
  left := rfl
  sent := rfl

/-- What a `write` takes is the next part of the stream. -/
theorem Follows.advance {ret : Nat} (h : Follows extd k s) (hret : ret ≤ s.seq) :
    Follows extd k { s with
      sent := s.sent ++ ((List.ofFn s.tm).drop s.start).take ret
      seq := s.seq - ret
      start := s.start + ret } := by
  have hleft := h.left
  refine ⟨h.tm, by simp only; omega, ?_⟩
  simp only
  rw [h.sent, h.tm, stream_block (by omega)]

/-- Behind a block comes the next one. -/
theorem Follows.next (h : Follows extd k s) (hstart : s.start = 9) (count : Int) :
    Follows extd (k + 1) { s with
      testCount := count, tm := updateSeq extd s.tm, seq := seqn, start := 0 } := by
  refine ⟨?_, rfl, ?_⟩
  · simp only [h.tm, updateSeq_block]
  · simp only [h.sent, hstart]
    rfl

/-- Every `write` goes on with the stream where the one before it ended. -/
theorem Follows.step {ret : WriteRet} (h : Follows extd k s)
    (hstep : step extd soll s ret = some s') : ∃ k', Follows extd k' s' := by
  cases ret with
  | error =>
      rw [TestSender.step, Option.ite_none_right_eq_some, Option.some.injEq] at hstep
      obtain ⟨-, rfl⟩ := hstep
      exact ⟨k, h.tm, h.left, h.sent⟩
  | taken ret =>
      rw [TestSender.step, Option.ite_none_right_eq_some, Option.some.injEq] at hstep
      obtain ⟨⟨-, hret⟩, rfl⟩ := hstep
      have hadv := h.advance hret
      have hleft := hadv.left
      split
      · rename_i hdone
        rw [hdone, Nat.zero_add] at hleft
        unfold blockDone
        simp only
        split
        · exact ⟨k, hadv.tm, hadv.left, hadv.sent⟩
        · exact ⟨k + 1, hadv.next hleft _⟩
      · exact ⟨k, hadv⟩

theorem follows_exec {rets : List WriteRet}
    (hrun : Run.exec (step extd soll) (init extd) rets = some s) : ∃ k, Follows extd k s :=
  Run.exec_invariant (P := fun s => ∃ k, Follows extd k s)
    (fun _ _ _ ⟨_, h⟩ hstep => h.step hstep) ⟨0, follows_init⟩ hrun

/-- Sequence `k` is about to be written, and there is no limit. -/
structure Begins (extd : Bool) (k : Nat) (s : TestSender) : Prop where
  follows : Follows extd k s
  start : s.start = 0
  running : s.running = true
  count : 0 ≤ s.testCount

theorem Begins.sequence (h : Begins extd k s) :
    ∃ s', step extd 0 s (.taken 9) = some s' ∧ Begins extd (k + 1) s' := by
  have hseq : s.seq = 9 := by
    have hleft := h.follows.left
    rwa [h.start] at hleft
  have hret : 9 ≤ s.seq := by omega
  have hadv := h.follows.advance hret
  have hcount : ¬ s.testCount + 1 = 0 := by
    have hpos := h.count
    omega
  refine ⟨_, if_pos ⟨h.running, by omega⟩, ?_⟩
  simp only [hseq, Nat.sub_self, if_true, blockDone, if_neg hcount]
  have hnext := hadv.next (by simp only [h.start]) (s.testCount + 1)
  exact ⟨hnext, rfl, h.running, by simp only; have hpos := h.count; omega⟩

/-- Without a limit the generator sends any number of sequences. -/
theorem sends_sequences (n : Nat) :
    ∃ s, Run.exec (step extd 0) (init extd) (List.replicate n (.taken 9)) = some s ∧
      s.sent = stream extd (9 * n) := by
  have hall : ∀ k (s : TestSender), Begins extd k s →
      ∃ s', Run.exec (step extd 0) s (List.replicate n (.taken 9)) = some s' ∧
        Begins extd (k + n) s' := by
    induction n with
    | zero => exact fun k s hs => ⟨s, rfl, hs⟩
    | succ n ih =>
        intro k s hs
        obtain ⟨mid, hstep, hmid⟩ := hs.sequence
        obtain ⟨s', hrun, hs'⟩ := ih (k + 1) mid hmid
        rw [List.replicate_succ, Run.exec_of_step hstep]
        refine ⟨s', hrun, ?_⟩
        rwa [Nat.add_assoc, Nat.add_comm 1 n] at hs'
  obtain ⟨s, hrun, hs⟩ := hall 0 (init extd) ⟨follows_init, rfl, rfl, le_refl 0⟩
  refine ⟨s, hrun, ?_⟩
  rw [hs.follows.sent, hs.start, Nat.zero_add, Nat.add_zero]

end TestSender

/-! ## The verifier follows the numbering -/

/-- A message on the way: identifier, length and the data bytes that the length covers. -/
structure Delivered (m m' : Canmsg) : Prop where
  id : m'.id = m.id
  length : m'.length = m.length
  data : ∀ i : Fin 8, (i : Nat) < m.length.toNat → m'.data i = m.data i

/-- The verifier expects message `n` next, and has found nothing wrong. -/
structure Verifier.Expects (extd : Bool) (n : Nat) (v : Verifier) : Prop where
  iseq : v.iseq = BitVec.ofNat 32 (n % 9)
  seq : v.seq = BitVec.ofNat 64 (n / 9)
  id : v.id = BitVec.ofNat 32 (n % period extd)
  reports : v.reports = []

namespace Verifier

variable {v : Verifier} {n : Nat} {m : Canmsg}

theorem expects_init : Expects extd 0 init := by
  have hzero : 0 % period extd = 0 := Nat.zero_mod _
  exact ⟨rfl, rfl, by rw [hzero]; rfl, rfl⟩

theorem length_delivered (hm : Delivered (message extd n) m) : m.length.toNat = n % 9 := by
  rw [hm.length, message, BitVec.toNat_ofNat]
  omega

/-- A message that is delivered has the bytes that its length covers. -/
theorem load_delivered (hm : Delivered (message extd n) m) (k : Nat) (hk : k ≤ n % 9) :
    m.load k = n / 9 % 256 ^ k := by
  have hbytes : ∀ i < k, m.byte i = (message extd n).byte i := by
    intro i hi
    have hlen := length_delivered hm
    rw [hm.length] at hlen
    have hi8 : i < 8 := by omega
    rw [Canmsg.byte, Canmsg.byte, dif_pos hi8, dif_pos hi8]
    exact hm.data ⟨i, hi8⟩ (by rw [hlen]; exact lt_of_lt_of_le hi hk)
  rw [Canmsg.load, Bytes.load_congr hbytes]
  exact load_message (by omega)

/-- The sequence number under a mask of `k` bytes. -/
theorem seq_and_mask (q k : Nat) (hk : k ≤ 8) :
    BitVec.ofNat 64 q &&& BitVec.ofNat 64 (256 ^ k - 1) = BitVec.ofNat 64 (q % 256 ^ k) := by
  have hpow : (256 : Nat) ^ k = 2 ^ (8 * k) := by
    rw [Nat.pow_mul]
  have hdvd : (2 : Nat) ^ (8 * k) ∣ 2 ^ 64 := Nat.pow_dvd_pow 2 (by omega)
  have hle : (2 : Nat) ^ (8 * k) ≤ 2 ^ 64 := Nat.le_of_dvd (by decide) hdvd
  have hlt : q % 2 ^ (8 * k) < 2 ^ (8 * k) := Nat.mod_lt _ (Nat.two_pow_pos _)
  have hmask : (2 ^ (8 * k) - 1) % 2 ^ 64 = 2 ^ (8 * k) - 1 := Nat.mod_eq_of_lt (by omega)
  have hsame : q % 2 ^ (8 * k) % 2 ^ 64 = q % 2 ^ (8 * k) := Nat.mod_eq_of_lt (by omega)
  apply BitVec.eq_of_toNat_eq
  rw [BitVec.toNat_and, BitVec.toNat_ofNat, BitVec.toNat_ofNat, BitVec.toNat_ofNat, hpow, hmask,
    hsame, Nat.and_two_pow_sub_one_eq_mod, Nat.mod_mod_of_dvd q hdvd]

/-- Every case of the `switch` compares the sequence number with itself. -/
theorem dataOk_delivered (hm : Delivered (message extd n) m) :
    dataOk (BitVec.ofNat 64 (n / 9)) m = true := by
  have hload := load_delivered hm
  have hmask := seq_and_mask (n / 9)
  unfold dataOk
  rw [length_delivered hm]
  split
  · rename_i hlen
    have hbyte : (m.byte 0).toNat = n / 9 % 256 := by
      have hone := hload 1 (by omega)
      rwa [Canmsg.load, Bytes.load, Bytes.load, Nat.zero_add, Nat.pow_zero, Nat.one_mul] at hone
    have hone : (m.byte 0).setWidth 64 = BitVec.ofNat 64 (n / 9 % 256 ^ 1) := by
      rw [← BitVec.ofNat_toNat, hbyte, Nat.pow_one]
    rw [hone, beq_iff_eq]
    exact hmask 1 (by decide)
  · rename_i hlen
    rw [hload 2 (by omega), beq_iff_eq]
    exact hmask 2 (by decide)
  · rename_i hlen
    rw [hload 4 (by omega), beq_iff_eq]
    exact hmask 4 (by decide)
  · rename_i hlen
    rw [Canmsg.counter, hload 8 (by omega), beq_iff_eq]
    apply BitVec.eq_of_toNat_eq
    rw [BitVec.toNat_ofNat, BitVec.toNat_ofNat]
    omega
  · rfl

theorem Expects.checkId (hv : Expects extd n v) (hm : Delivered (message extd n) m) :
    Verifier.checkId m v = v := by
  have hid : v.id.setWidth 64 = m.id := by
    have hlt := Nat.mod_lt n (period_pos extd)
    have hle := period_le extd
    rw [hv.id, hm.id]
    apply BitVec.eq_of_toNat_eq
    rw [BitVec.toNat_setWidth, BitVec.toNat_ofNat, id_message]
    omega
  rw [Verifier.checkId, if_neg (not_not_intro hid)]

theorem Expects.checkData (hv : Expects extd n v) (hm : Delivered (message extd n) m) :
    Verifier.checkData m v =
      { v with
        iseq := BitVec.ofNat 32 ((n + 1) % 9)
        seq := BitVec.ofNat 64 ((n + 1) / 9) } := by
  have hlt : n % 9 < 9 := Nat.mod_lt n (by decide)
  have hlen : v.iseq = m.length.signExtend 32 := by
    have hsign : ∀ l < 9, BitVec.ofNat 32 l = (BitVec.ofNat 16 l).signExtend 32 := by decide
    rw [hv.iseq, hm.length]
    exact hsign (n % 9) hlt
  have hnine : v.iseq + 1 = 9 ↔ n % 9 = 8 := by
    have hcount : ∀ l < 9, BitVec.ofNat 32 l + 1 = 9 ↔ l = 8 := by decide
    rw [hv.iseq]
    exact hcount (n % 9) hlt
  have hok : dataOk v.seq m = true := by
    rw [hv.seq]
    exact dataOk_delivered hm
  rw [Verifier.checkData, if_neg (not_not_intro hlen), hok, if_pos rfl]
  by_cases hlast : n % 9 = 8
  · have hmod : (n + 1) % 9 = 0 := by omega
    have hdiv : (n + 1) / 9 = n / 9 + 1 := by omega
    rw [if_pos (hnine.mpr hlast), hmod, hdiv, hv.seq, BitVec.ofNat_add]
    rfl
  · have hmod : (n + 1) % 9 = n % 9 + 1 := by omega
    have hdiv : (n + 1) / 9 = n / 9 := by omega
    rw [if_neg (mt hnine.mp hlast), hmod, hdiv, hv.iseq, ← hv.seq, BitVec.ofNat_add]
    rfl

/-- The verifier starts over behind the same identifier as the numbering. -/
theorem nextId_eq (hid : v.id = BitVec.ofNat 32 (n % period extd)) :
    nextId extd v = { v with id := BitVec.ofNat 32 ((n + 1) % period extd) } := by
  have hlt := Nat.mod_lt n (period_pos extd)
  have hle := period_le extd
  have hnum : v.id.toNat = n % period extd := by
    rw [hid, BitVec.toNat_ofNat]
    omega
  have hlast : ((extd && v.id == 536870906) || (!extd && v.id == 2042)) = true ↔
      (n + 1) % period extd = 0 := by
    rcases period_eq extd with ⟨rfl, hper⟩ | ⟨rfl, hper⟩
    · have heq : v.id = 2042 ↔ v.id.toNat = 2042 := BitVec.toNat_inj.symm
      simp only [Bool.false_and, Bool.not_false, Bool.true_and, Bool.false_or, beq_iff_eq]
      rw [heq, hnum, hper]
      omega
    · have heq : v.id = 536870906 ↔ v.id.toNat = 536870906 := BitVec.toNat_inj.symm
      simp only [Bool.true_and, Bool.not_true, Bool.false_and, Bool.or_false, beq_iff_eq]
      rw [heq, hnum, hper]
      omega
  unfold nextId
  by_cases hwrap : (n + 1) % period extd = 0
  · rw [if_pos (hlast.mpr hwrap), hwrap]
    rfl
  · have hnext : (n + 1) % period extd = n % period extd + 1 := by
      rcases period_eq extd with ⟨-, hper⟩ | ⟨-, hper⟩ <;> rw [hper] at hwrap ⊢ <;> omega
    rw [if_neg (mt hlast.mp hwrap), hnext, hid, BitVec.ofNat_add]
    rfl

/-- One message: nothing is wrong, and the next message is expected. -/
theorem Expects.step (hv : Expects extd n v) (hm : Delivered (message extd n) m) :
    Expects extd (n + 1) (verifyMessage extd v m) := by
  have hid : ({ v with
      iseq := BitVec.ofNat 32 ((n + 1) % 9)
      seq := BitVec.ofNat 64 ((n + 1) / 9) } : Verifier).id = BitVec.ofNat 32 (n % period extd) :=
    hv.id
  rw [verifyMessage, hv.checkId hm, hv.checkData hm, nextId_eq hid]
  exact ⟨rfl, rfl, rfl, hv.reports⟩

/-- The messages `n`, ..., `n + k - 1` of the test, as they arrive. -/
theorem Expects.foldl {k : Nat} {rx : List Canmsg} (hv : Expects extd n v)
    (hrx : List.Forall₂ Delivered ((List.range' n k).map (message extd)) rx) :
    Expects extd (n + k) (rx.foldl (verifyMessage extd) v) := by
  induction k generalizing n v rx with
  | zero =>
      rw [List.range'_zero, List.map_nil, List.forall₂_nil_left_iff] at hrx
      rw [hrx]
      exact hv
  | succ k ih =>
      rw [List.range'_succ, List.map_cons, List.forall₂_cons_left_iff] at hrx
      obtain ⟨m, rx, hm, hrest, rfl⟩ := hrx
      have hall := ih (hv.step hm) hrest
      rwa [Nat.add_assoc, Nat.add_comm 1 k] at hall

/-- How the messages are spread over the reads makes no difference. -/
theorem verify_eq (reads : List (List Canmsg)) :
    verify extd reads = reads.flatten.foldl (verifyMessage extd) init := by
  rw [verify, List.foldl_flatten]

end Verifier

/-- **The generator and the verifier agree.**  Whatever the `write`s of `test10` return and
    however many sequences they add up to, `verify_message` finds nothing wrong with the
    messages sent if they are delivered in order, in reads of any size. -/
theorem verify_accepts {soll : Int} {rets : List WriteRet} {s : TestSender}
    {reads : List (List Canmsg)}
    (hrun : Run.exec (TestSender.step extd soll) (TestSender.init extd) rets = some s)
    (hrx : List.Forall₂ Delivered s.sent reads.flatten) :
    (Verifier.verify extd reads).reports = [] := by
  obtain ⟨k, hs⟩ := TestSender.follows_exec hrun
  rw [hs.sent, stream, List.range_eq_range'] at hrx
  rw [Verifier.verify_eq]
  exact (Verifier.expects_init.foldl hrx).reports

/-- Two sequences of the extended test, the first one in three `write`s, read in one piece. -/
theorem verify_accepts_two :
    ∃ s, Run.exec (TestSender.step true 2) (TestSender.init true)
        [.taken 4, .taken 0, .taken 5, .taken 9] = some s ∧
      (Verifier.verify true [s.sent]).reports = [] := by
  refine ⟨_, rfl, @verify_accepts true 2 [.taken 4, .taken 0, .taken 5, .taken 9] _ [_] rfl ?_⟩
  rw [List.flatten_singleton]
  exact List.forall₂_same.mpr fun _ _ => ⟨rfl, rfl, fun _ _ => rfl⟩

end Can4linux
