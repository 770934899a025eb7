/-
  Can4linux.Faults

  Copies between the driver and user space that fail.

  `copy_from_user` and `copy_to_user` report how many bytes they could not copy.
  The driver calls both through macros that look at the number and do nothing
  with it, so a call goes on as if the copy had been complete.  Here every copy
  is an argument of the call that makes it, with its outcome, and `can_write`,
  `can_read` and `can_ioctl` are written out with their copies.
-/

import Can4linux.Driver

namespace Can4linux

/-! ## The copies -/

/-- The outcome of one copy: the number of bytes that were not copied, and what the
    destination holds afterwards.  A copy from user space may leave a part of what the
    destination held before, a copy to user space a part of the message. -/
structure UserCopy (α : Type) where
  uncopied : Nat
  leaves : α → α

/-- `__lddk_copy_from_user` and `__lddk_copy_to_user`: `if(copy_from_user(a,b,c)){}`. -/
def lddkCopy {α : Type} (c : UserCopy α) (x : α) : α :=
  let r := (c.uncopied, c.leaves x)
  if r.1 ≠ 0 then r.2 else r.2

/-- The number of uncopied bytes decides nothing. -/
theorem lddkCopy_eq {α : Type} (c : UserCopy α) (x : α) : lddkCopy c x = c.leaves x :=
  ite_self _

variable {σ : Type} (t : Target)

/-! ### write -/

/-- `copyusermsg`. -/
def copyusermsg (c : UserCopy Canmsg) : UserMsg := fun dst => lddkCopy c dst

/-- The copies that the loop of `can_write` carries out: `qproduce` runs its callback
    unless the queue is full. -/
def writeCopies [Chip σ] : List (UserCopy Canmsg) → Chan σ → List (UserCopy Canmsg)
  | [], _ => []
  | c :: cs, s =>
      if s.txq.full then []
      else c :: writeCopies cs (writeOne t (copyusermsg c) s).2

/-- `can_write` of as many messages as there are copies. -/
def canWriteFrom [Chip σ] (accessOk : Bool) (cs : List (UserCopy Canmsg)) (s : Chan σ) :
    CInt × Chan σ :=
  canWrite t accessOk (cs.map copyusermsg) s

/-- The copies that `can_write` carries out. -/
def canWriteCopies [Chip σ] (accessOk : Bool) (cs : List (UserCopy Canmsg)) (s : Chan σ) :
    List (UserCopy Canmsg) :=
  if !accessOk then [] else writeCopies t cs s

/-! ### read -/

/-- `copymsgtouser`: what arrives in user space, and that the message is consumed. -/
def copymsgtouser (c : UserCopy Canmsg) (src : Canmsg) : Canmsg × Bool := (lddkCopy c src, true)

/-- One round of the loop in `can_read`: what arrives in user space, `none` when the queue
    is empty. -/
def readOneTo (c : UserCopy Canmsg) (s : Chan σ) : Option Canmsg × Chan σ :=
  let r := s.rxq.qconsume
    (fun slot (_ : Option (Canmsg × Canmsg)) =>
      let copied := copymsgtouser c slot
      (slot, copied.2, some (slot, copied.1))) none
  (r.2.1.map Prod.snd,
    { s with
      rxq := r.1
      hist := { s.hist with returned := s.hist.returned ++ (r.2.1.map Prod.fst).toList } })

/-- The loop of `can_read`. -/
def readLoopTo : List (UserCopy Canmsg) → Chan σ → List Canmsg × Chan σ
  | [], s => ([], s)
  | c :: cs, s =>
      let r := readOneTo c s
      match r.1 with
      | none => ([], r.2)
      | some m =>
          let rest := readLoopTo cs r.2
          (m :: rest.1, rest.2)

/-- `can_read` of as many messages as there are copies: the result, what arrives in user
    space and the channel. -/
def canReadTo (accessOk : Bool) (cs : List (UserCopy Canmsg)) (s : Chan σ) :
    CInt × List Canmsg × Chan σ :=
  if !accessOk then (einval, [], s)
  else
    let r := readLoopTo cs s
    (BitVec.ofNat 32 r.1.length, r.1, r.2)

/-- The copies that the loop of `can_read` carries out: `qconsume` runs its callback
    unless the queue is empty. -/
def readCopies : List (UserCopy Canmsg) → Chan σ → List (UserCopy Canmsg)
  | [], _ => []
  | c :: cs, s => if s.rxq.empty then [] else c :: readCopies cs (readOneTo c s).2

/-- The copies that `can_read` carries out. -/
def canReadCopies (accessOk : Bool) (cs : List (UserCopy Canmsg)) (s : Chan σ) :
    List (UserCopy Canmsg) :=
  if !accessOk then [] else readCopies cs s

/-! ### ioctl -/

/-- `Command_par_t`. -/
structure CommandPar where
  cmd : CInt
  error : CInt
  retval : CLong

/-- `Config_par_t`. -/
structure ConfigPar where
  target : CInt
  val1 : CLong
  val2 : CLong
  error : CInt
  retval : CLong

/-- `CanStatusPar_t`. -/
structure CanStatusPar where
  baud : CInt
  status : CInt
  errorWarningLimit : CInt
  rxErrors : CInt
  txErrors : CInt
  errorCode : CInt
  rxBufferSize : CInt
  rxBufferUsed : CInt
  txBufferSize : CInt
  txBufferUsed : CInt
  retval : CLong
  type : CInt

/-- The argument of a request: what the memory `kmalloc` returned for it happens to hold,
    and the outcomes of the copies into that memory and back. -/
structure IoctlArg (α : Type) where
  garbage : α
  copyIn : UserCopy α
  copyOut : UserCopy α

/-- What a call of `can_ioctl` meets: the answers of the two `access_ok`, and its argument
    as each of the structures it may point to. -/
structure IoctlEnv where
  readOk : Bool
  writeOk : Bool
  command : IoctlArg CommandPar
  config : IoctlArg ConfigPar
  status : IoctlArg CanStatusPar

/-- What `can_ioctl` has written to user space. -/
inductive IoctlOut where
  | nothing
  | command (p : CommandPar)
  | config (p : ConfigPar)
  | status (p : CanStatusPar)

/-- `-EIO`. -/
def eio : CInt := -5
/-- `COMMAND`. -/
def reqCommand : CInt := 0
/-- `CONFIG`. -/
def reqConfig : CInt := 1
/-- `STATUS`. -/
def reqStatus : CInt := 5
/-- `CAN_TYPE_SJA1000`. -/
def canTypeSja1000 : CInt := 1

/-- `can_GetStat`: the fields it sets, and the channel. -/
def canGetStat [Chip σ] (stat : CanStatusPar) (s : Chan σ) : CInt × CanStatusPar × Chan σ :=
  let st := canIn t .canstat s.chip
  let ewl := canIn t .errorwarninglimit st.2
  let rxe := canIn t .rxerror ewl.2
  let txe := canIn t .txerror rxe.2
  let ecc := canIn t .errorcode txe.2
  (0,
    { stat with
      type := canTypeSja1000
      baud := s.sys.baud
      status := st.1.setWidth 32
      errorWarningLimit := ewl.1.setWidth 32
      rxErrors := rxe.1.setWidth 32
      txErrors := txe.1.setWidth 32
      errorCode := ecc.1.setWidth 32
      rxBufferSize := s.rxq.qsize
      rxBufferUsed := s.rxq.qlen
      txBufferSize := s.txq.qsize
      txBufferUsed := s.txq.qlen },
    { s with chip := ecc.2 })

/-- `can_ioctl`: the result, what has been written to user space and the channel.
    `Can_errno` is set to zero at the head, and nothing below sets it again. -/
def canIoctl [Chip σ] (cmd : CInt) (env : IoctlEnv) (s : Chan σ) : CInt × IoctlOut × Chan σ :=
  if cmd = reqCommand then
    if !env.readOk then (eio, .nothing, s)
    else if !env.writeOk then (eio, .nothing, s)
    else
      let argp := lddkCopy env.command.copyIn env.command.garbage
      let r := canCommand t argp.cmd s
      let argp := { argp with retval := r.1.signExtend 64, error := 0 }
      (1, .command (lddkCopy env.command.copyOut argp), r.2)
  else if cmd = reqConfig then
    if !env.readOk then (eio, .nothing, s)
    else if !env.writeOk then (eio, .nothing, s)
    else
      let argp := lddkCopy env.config.copyIn env.config.garbage
      let r := canConfig t argp.target argp.val1 argp.val2 s
      let argp := { argp with retval := r.1.signExtend 64, error := 0 }
      (1, .config (lddkCopy env.config.copyOut argp), r.2)
  else if cmd = reqStatus then
    if !env.readOk then (eio, .nothing, s)
    else if !env.writeOk then (eio, .nothing, s)
    else
      let r := canGetStat t env.status.garbage s
      let argp := { r.2.1 with retval := r.1.signExtend 64 }
      (1, .status (lddkCopy env.status.copyOut argp), r.2.2)
  else (einval, .nothing, s)

/-- The bytes that the copy of the argument of a `COMMAND` or `CONFIG` request reports as
    uncopied, where `can_ioctl` carries it out. -/
def ioctlUncopied (cmd : CInt) (env : IoctlEnv) : Option Nat :=
  if env.readOk && env.writeOk then
    if cmd = reqCommand then some env.command.copyIn.uncopied
    else if cmd = reqConfig then some env.config.copyIn.uncopied
    else none
  else none

/-! ## What a failed copy should leave alone -/

/-- A result counts only the messages before number `k`, or is a negative error. -/
def CountsBefore (r : CInt) (k : Nat) : Prop := r.toInt ≤ k

/-- Only the messages before number `k` of the call have been enqueued. -/
def EnqueuesBefore (s s' : Chan σ) (k : Nat) : Prop :=
  s'.hist.accepted.length ≤ s.hist.accepted.length + k

/-- Message number `k` of the call and the ones behind it are still in the receive queue. -/
def RemovesBefore (s s' : Chan σ) (k : Nat) : Prop := s.rxq.contents.drop k <:+ s'.rxq.contents

/-- A request has changed nothing and reports a negative error. -/
structure Refused (r : CInt) (s s' : Chan σ) : Prop where
  sys : s'.sys = s.sys
  chip : s'.chip = s.chip
  negative : r.slt 0 = true

/-! ## What it does -/

variable {t}

section Write

variable [Chip σ]

/-- A round that carries out its copy succeeds and enqueues the message. -/
theorem writeOne_accepted (u : UserMsg) {s : Chan σ} (hroom : s.txq.full = false) :
    (writeOne t u s).1 = true ∧
      (writeOne t u s).2.hist.accepted.length = s.hist.accepted.length + 1 := by
  rcases writeOne_any t s u with ⟨hfull, -⟩ | ⟨-, heq⟩
  · rw [hroom] at hfull
    cases hfull
  · have hacc : (writeOne t u s).2.hist.accepted = s.hist.accepted ++ [u s.txq.freeSlot] := by
      rw [heq]
      exact kickIdle_accepted t _
    rw [heq] at hacc ⊢
    refine ⟨rfl, ?_⟩
    rw [hacc, List.length_append, List.length_singleton]

/-- Every copy that is carried out enqueues and counts a message, however it ended. -/
theorem writeLoop_counts (cs : List (UserCopy Canmsg)) (s : Chan σ) :
    (writeLoop t (cs.map copyusermsg) s).1 = (writeCopies t cs s).length ∧
      (writeLoop t (cs.map copyusermsg) s).2.hist.accepted.length =
        s.hist.accepted.length + (writeCopies t cs s).length := by
  induction cs generalizing s with
  | nil => exact ⟨rfl, rfl⟩
  | cons c cs ih =>
      simp only [List.map_cons, writeLoop, writeCopies]
      cases hfull : s.txq.full with
      | true =>
          rcases writeOne_any t s (copyusermsg c) with ⟨-, heq⟩ | ⟨hroom, -⟩
          · rw [heq]
            exact ⟨rfl, rfl⟩
          · rw [hfull] at hroom
            cases hroom
      | false =>
          obtain ⟨hone, hacc⟩ := writeOne_accepted (t := t) (copyusermsg c) hfull
          obtain ⟨hcount, hrest⟩ := ih (writeOne t (copyusermsg c) s).2
          simp only [hone, if_true, Bool.false_eq_true, if_false, List.length_cons]
          omega

/-- One call cannot write more than the queue and the controller hold. -/
theorem writeLoop_le {s : Chan σ} (h : s.txq.WF 7) (us : List UserMsg) :
    (writeLoop t us s).1 + s.txq.qlen.toNat ≤ 2 ^ 7 + if s.txq.idle then 1 else 0 := by
  have hbound := h.bound
  induction us generalizing s with
  | nil =>
      simp only [writeLoop]
      omega
  | cons u us ih =>
      simp only [writeLoop]
      cases hfull : s.txq.full with
      | true =>
          rcases writeOne_any t s u with ⟨-, heq⟩ | ⟨hroom, -⟩
          · rw [heq]
            simp only [Bool.false_eq_true, if_false]
            omega
          · rw [hfull] at hroom
            cases hroom
      | false =>
          obtain ⟨hone, hwf, hbusy, hge, hle, hgrow⟩ := writeOne_txq (t := t) h u hfull
          have hrest := ih hwf hwf.bound
          simp only [hone, hbusy, if_true, Bool.false_eq_true, if_false] at hrest ⊢
          cases hidle : s.txq.idle with
          | true =>
              simp only [if_true]
              omega
          | false =>
              have hone' := hgrow hidle
              simp only [Bool.false_eq_true, if_false]
              omega

end Write

section Read

/-- A round of `can_read` treats the queue the same way, however the copy ends. -/
theorem readOneTo_eq (c : UserCopy Canmsg) (s : Chan σ) :
    readOneTo c s = ((readOne s).1.map c.leaves, (readOne s).2) := by
  unfold readOneTo readOne copymsgtouser
  cases he : s.rxq.empty with
  | true => simp [MsgQ.qconsume, he]
  | false => simp [MsgQ.qconsume, he, lddkCopy_eq]

/-- Every copy that is carried out removes and counts a message, however it ended. -/
theorem readLoopTo_counts (cs : List (UserCopy Canmsg)) (s : Chan σ) :
    (readLoopTo cs s).1.length = (readCopies cs s).length ∧
      (readLoopTo cs s).2.rxq.qlen.toNat + (readCopies cs s).length = s.rxq.qlen.toNat := by
  induction cs generalizing s with
  | nil => exact ⟨rfl, rfl⟩
  | cons c cs ih =>
      simp only [readLoopTo, readCopies, readOneTo_eq]
      rcases readOne_cases s with ⟨he, hone⟩ | ⟨hne, hone⟩
      · rw [hone, he]
        exact ⟨rfl, rfl⟩
      · obtain ⟨hcount, hlen⟩ := ih (readOne s).2
        have hadvance := MsgQ.qlen_advance_toNat (MsgQ.contents_ne_nil hne)
        have hhead : (readOne s).1 = some s.rxq.head := by rw [hone]
        have hrxq : (readOne s).2.rxq = s.rxq.advance := by rw [hone]
        rw [hrxq] at hlen
        simp only [hhead, hne, Option.map_some, Bool.false_eq_true, if_false, List.length_cons]
        refine ⟨congrArg Nat.succ hcount, ?_⟩
        omega

end Read

/-- A number of messages that is small enough is a result as such. -/
theorem result_toInt {n : Nat} (h : n ≤ 2 ^ 11) : (BitVec.ofNat 32 n).toInt = n := by
  have hnat : (BitVec.ofNat 32 n).toNat = n := by
    rw [BitVec.toNat_ofNat]
    exact Nat.mod_eq_of_lt (by omega)
  rw [BitVec.toInt_eq_toNat_of_lt (by omega), hnat]

/-- **A write that fails to copy a message sends it.**  The message whose copy failed is
    enqueued, and the result counts it. -/
theorem write_fault [Chip σ] {s : Chan σ} (h : s.txq.WF 7) {accessOk : Bool}
    {cs : List (UserCopy Canmsg)} {k : Nat} (hk : k < (canWriteCopies t accessOk cs s).length) :
    ¬ EnqueuesBefore s (canWriteFrom t accessOk cs s).2 k ∧
      ¬ CountsBefore (canWriteFrom t accessOk cs s).1 k := by
  cases accessOk with
  | false => cases hk
  | true =>
      obtain ⟨hcount, hacc⟩ := writeLoop_counts (t := t) cs s
      have hle := writeLoop_le (t := t) h (cs.map copyusermsg)
      have hk' : k < (writeCopies t cs s).length := hk
      constructor
      · show ¬ (writeLoop t (cs.map copyusermsg) s).2.hist.accepted.length ≤ _
        omega
      · show ¬ (BitVec.ofNat 32 (writeLoop t (cs.map copyusermsg) s).1).toInt ≤ _
        have hsmall : (writeLoop t (cs.map copyusermsg) s).1 ≤ 2 ^ 11 := by
          split at hle <;> omega
        rw [result_toInt hsmall]
        omega

/-- **A read that fails to copy a message loses it.**  The message whose copy failed is
    removed from the queue, and the result counts it. -/
theorem read_fault {s : Chan σ} (h : s.rxq.WF 11) {accessOk : Bool}
    {cs : List (UserCopy Canmsg)} {k : Nat} (hk : k < (canReadCopies accessOk cs s).length) :
    ¬ RemovesBefore s (canReadTo accessOk cs s).2.2 k ∧
      ¬ CountsBefore (canReadTo accessOk cs s).1 k := by
  cases accessOk with
  | false => cases hk
  | true =>
      obtain ⟨hcount, hlen⟩ := readLoopTo_counts cs s
      have hbound := h.bound
      have hk' : k < (readCopies cs s).length := hk
      constructor
      · intro hsuffix
        have hle : (s.rxq.contents.drop k).length ≤ (readLoopTo cs s).2.rxq.contents.length :=
          hsuffix.length_le
        rw [List.length_drop, MsgQ.contents_length, MsgQ.contents_length] at hle
        omega
      · show ¬ (BitVec.ofNat 32 (readLoopTo cs s).1.length).toInt ≤ _
        rw [result_toInt (by omega)]
        omega

/-- **A request that fails to copy its argument reports success.** -/
theorem ioctl_fault [Chip σ] {cmd : CInt} {env : IoctlEnv} {n : Nat} (s : Chan σ)
    (hcopy : ioctlUncopied cmd env = some n) : (canIoctl t cmd env s).1 = 1 := by
  unfold ioctlUncopied at hcopy
  split at hcopy
  · rename_i hok
    rw [Bool.and_eq_true] at hok
    unfold canIoctl
    by_cases hcommand : cmd = reqCommand
    · simp only [if_pos hcommand, hok.1, hok.2, Bool.not_true, Bool.false_eq_true, if_false]
    · by_cases hconfig : cmd = reqConfig
      · simp only [if_neg hcommand, if_pos hconfig, hok.1, hok.2, Bool.not_true,
          Bool.false_eq_true, if_false]
      · rw [if_neg hcommand, if_neg hconfig] at hcopy
        cases hcopy
  · cases hcopy

/-! ## No failed copy is noticed -/

/-- **No failed copy is noticed.**  On every open device that a run can reach: a write
    enqueues and counts a message whose copy reports uncopied bytes, a read removes and
    counts one, and a request whose argument could not be copied in does not report an
    error, wherever in the call the copy stands and whatever it has left behind. -/
theorem faults_unnoticed [Chip σ] {s : Chan σ} (h : Reachable t s) (hopen : s.isopen = 1) :
    (∀ accessOk cs k c, (canWriteCopies t accessOk cs s)[k]? = some c → c.uncopied ≠ 0 →
      ¬ EnqueuesBefore s (canWriteFrom t accessOk cs s).2 k ∧
      ¬ CountsBefore (canWriteFrom t accessOk cs s).1 k) ∧
    (∀ accessOk cs k c, (canReadCopies accessOk cs s)[k]? = some c → c.uncopied ≠ 0 →
      ¬ RemovesBefore s (canReadTo accessOk cs s).2.2 k ∧
      ¬ CountsBefore (canReadTo accessOk cs s).1 k) ∧
    (∀ cmd env n, ioctlUncopied cmd env = some n → n ≠ 0 →
      ¬ Refused (canIoctl t cmd env s).1 s (canIoctl t cmd env s).2.2) := by
  have hsized := h.sized hopen
  refine ⟨?_, ?_, ?_⟩
  · intro accessOk cs k c hc _
    exact write_fault hsized.txWf (List.getElem?_eq_some_iff.mp hc).1
  · intro accessOk cs k c hc _
    exact read_fault hsized.rxWf (List.getElem?_eq_some_iff.mp hc).1
  · intro cmd env n hcopy _ hrefused
    have hneg := hrefused.negative
    rw [ioctl_fault s hcopy] at hneg
    exact absurd hneg (by decide)

/-- A copy from an address that is not mapped: nothing arrives. -/
def unmapped : UserCopy Canmsg := ⟨48, id⟩

/-- The second of two messages cannot be copied. -/
theorem faults_unnoticed_second :
    (canWriteCopies .atcanminiPelican true [⟨0, fun _ => Canmsg.zero⟩, unmapped] firstOpened)[1]? =
      some unmapped ∧
    ¬ EnqueuesBefore firstOpened (canWriteFrom .atcanminiPelican true
      [⟨0, fun _ => Canmsg.zero⟩, unmapped] firstOpened).2 1 ∧
    ¬ CountsBefore (canWriteFrom .atcanminiPelican true
      [⟨0, fun _ => Canmsg.zero⟩, unmapped] firstOpened).1 1 := by
  have hcopy : (canWriteCopies .atcanminiPelican true
      [⟨0, fun _ => Canmsg.zero⟩, unmapped] firstOpened)[1]? = some unmapped := rfl
  exact ⟨hcopy, (faults_unnoticed reachable_firstOpened (by decide)).1 _ _ _ _ hcopy (by decide)⟩

/-- One message that cannot be copied: `can_write` returns 1, and the message that was left
    in the memory of the queue has been enqueued. -/
theorem write_unmapped_accepted :
    Reachable .atcanminiPelican firstOpened ∧ firstOpened.isopen = 1 ∧
    (canWriteCopies .atcanminiPelican true [unmapped] firstOpened)[0]? = some unmapped ∧
    unmapped.uncopied ≠ 0 ∧
    (canWriteFrom .atcanminiPelican true [unmapped] firstOpened).1 = 1 ∧
    (canWriteFrom .atcanminiPelican true [unmapped] firstOpened).2.hist.accepted =
      [Canmsg.zero] ∧
    ¬ EnqueuesBefore firstOpened (canWriteFrom .atcanminiPelican true [unmapped] firstOpened).2 0 ∧
    ¬ CountsBefore (canWriteFrom .atcanminiPelican true [unmapped] firstOpened).1 0 := by
  refine ⟨reachable_firstOpened, by decide, rfl, by decide, by decide, by decide, ?_, ?_⟩
  · unfold EnqueuesBefore
    decide
  · unfold CountsBefore
    decide

end Can4linux
