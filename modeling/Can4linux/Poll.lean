/-
  Can4linux.Poll

  `can_select` and the wake-ups of the processes that sleep in it.

  The readiness test, the full test and the empty test are three formulas over
  the same wrapping counters; on well-formed queues all of them speak about the
  number of queued messages.  The transmit queue is drained in four places and
  only two of them wake the sleepers: that a write, which may run the consumer
  itself, cannot make the device writable rests on each of its rounds adding a
  message before it takes one.
-/

import Can4linux.Driver

namespace Can4linux

/-! ## The source -/

/-- `POLLIN`. -/
def pollIn : CInt := 0x0001
/-- `POLLOUT`. -/
def pollOut : CInt := 0x0004
/-- `POLLRDNORM`. -/
def pollRdNorm : CInt := 0x0040
/-- `POLLWRNORM`. -/
def pollWrNorm : CInt := 0x0100

section Select

variable {σ : Type}

/-- `can_select`: the mask it returns. -/
def canSelect (s : Chan σ) : CInt :=
  (if (0#32).slt s.rxq.qlen then pollIn ||| pollRdNorm else 0) |||
    (if s.txq.qlen.sle (s.txq.qsize.sdiv 2) then pollOut ||| pollWrNorm else 0)

/-- `can_select` reports the device readable. -/
def Chan.pollin (s : Chan σ) : Bool := isSet (canSelect s) pollIn

/-- `can_select` reports the device writable. -/
def Chan.pollout (s : Chan σ) : Bool := isSet (canSelect s) pollOut

/-- Each bit of the mask says what it was set for. -/
theorem selectMask (a b : Bool) :
    isSet ((if a then pollIn ||| pollRdNorm else 0) |||
      (if b then pollOut ||| pollWrNorm else 0)) pollIn = a ∧
    isSet ((if a then pollIn ||| pollRdNorm else 0) |||
      (if b then pollOut ||| pollWrNorm else 0)) pollOut = b := by
  revert a b
  decide

theorem pollin_eq (s : Chan σ) : s.pollin = (0#32).slt s.rxq.qlen :=
  (selectMask ((0#32).slt s.rxq.qlen) (s.txq.qlen.sle (s.txq.qsize.sdiv 2))).1

theorem pollout_eq (s : Chan σ) : s.pollout = s.txq.qlen.sle (s.txq.qsize.sdiv 2) :=
  (selectMask ((0#32).slt s.rxq.qlen) (s.txq.qlen.sle (s.txq.qsize.sdiv 2))).2

/-- What `can_select` says depends on the fill levels only. -/
theorem pollin_congr {s s' : Chan σ} (h : s'.rxq = s.rxq) : s'.pollin = s.pollin := by
  rw [pollin_eq, pollin_eq, h]

theorem pollout_congr {s s' : Chan σ} (h : s'.txq = s.txq) : s'.pollout = s.pollout := by
  rw [pollout_eq, pollout_eq, h]

/-- Readable: a message is queued. -/
theorem pollin_iff {s : Chan σ} (h : s.rxq.WF 11) :
    s.pollin = true ↔ s.rxq.qlen.toNat ≠ 0 := by
  have hbound := h.bound
  have hlen : s.rxq.qlen.toInt = s.rxq.qlen.toNat := BitVec.toInt_eq_toNat_of_lt (by omega)
  rw [pollin_eq, BitVec.slt_iff_toInt_lt, hlen]
  show (0 : Int) < _ ↔ _
  omega

/-- Writable: at most half of the slots are taken. -/
theorem pollout_iff {s : Chan σ} (h : s.txq.WF 7) :
    s.pollout = true ↔ s.txq.qlen.toNat ≤ 2 ^ 6 := by
  have hbound := h.bound
  have hlen : s.txq.qlen.toInt = s.txq.qlen.toNat := BitVec.toInt_eq_toNat_of_lt (by omega)
  have hhalf : (s.txq.qsize.sdiv 2).toInt = 2 ^ 6 := by
    rw [MsgQ.qsize, h.mask]
    decide
  rw [pollout_eq, BitVec.sle_iff_toInt_le, hlen, hhalf]
  omega

end Select

variable {σ : Type} [Chip σ] {t : Target}

/-! ## Poll tells the truth -/

omit [Chip σ] in
/-- `can_read` returns queued messages, and as many fewer are queued afterwards. -/
theorem readLoop_length (n : Nat) (s : Chan σ) :
    (readLoop n s).1.length + (readLoop n s).2.rxq.qlen.toNat = s.rxq.qlen.toNat ∧
      ∀ k, s.rxq.WF k → (readLoop n s).2.rxq.WF k := by
  obtain ⟨rxq, hs, happ, hwf⟩ := readLoop_spec n s
  have hsum := congrArg List.length happ
  have hrxq : (readLoop n s).2.rxq = rxq := congrArg (fun s : Chan σ => s.rxq) hs
  rw [List.length_append, MsgQ.contents_length, MsgQ.contents_length] at hsum
  rw [hrxq]
  exact ⟨hsum, hwf⟩

omit [Chip σ] in
/-- Asked for at least one message, `can_read` returns one if one is queued. -/
theorem readLoop_pos {n : Nat} (hn : 1 ≤ n) (s : Chan σ) :
    0 < (readLoop n s).1.length ↔ s.rxq.qlen.toNat ≠ 0 := by
  obtain ⟨n, rfl⟩ : ∃ m, n = m + 1 := ⟨n - 1, by omega⟩
  rcases readOne_cases s with ⟨he, hone⟩ | ⟨hne, hone⟩
  · have hlen : s.rxq.qlen = 0 := MsgQ.empty_iff_qlen.mp he
    simp [readLoop, hone, hlen]
  · have hlen : s.rxq.qlen ≠ 0 := by
      intro h0
      rw [MsgQ.empty_iff_qlen.mpr h0] at hne
      cases hne
    simp only [readLoop, hone, List.length_cons, Nat.zero_lt_succ, true_iff]
    intro hz
    exact hlen (BitVec.eq_of_toNat_eq hz)

omit [Chip σ] in
/-- The result of a `can_read` that finds its buffer accessible. -/
theorem canRead_pos {n : Nat} (hn : 1 ≤ n) {s : Chan σ} (h : Sized s) :
    (0#32).slt (canRead true n s).1 = true ↔ s.rxq.qlen.toNat ≠ 0 := by
  have hbound := h.rxWf.bound
  have hle := (readLoop_length n s).1
  have hnat : (BitVec.ofNat 32 (readLoop n s).1.length).toNat = (readLoop n s).1.length := by
    rw [BitVec.toNat_ofNat]
    exact Nat.mod_eq_of_lt (by omega)
  have hint : (BitVec.ofNat 32 (readLoop n s).1.length).toInt = (readLoop n s).1.length := by
    rw [BitVec.toInt_eq_toNat_of_lt (by omega), hnat]
  rw [← readLoop_pos hn s]
  show (0#32).slt (BitVec.ofNat 32 (readLoop n s).1.length) = true ↔ _
  rw [BitVec.slt_iff_toInt_lt, hint]
  show (0 : Int) < _ ↔ _
  omega

/-- With room for all messages every round of `can_write` finds room, whether or not the
    writer hands messages to the controller in between. -/
theorem writeLoop_accepts {s : Chan σ} (h : Sized s) {us : List UserMsg}
    (hroom : s.txq.qlen.toNat + us.length ≤ 2 ^ 7) : (writeLoop t us s).1 = us.length := by
  induction us generalizing s with
  | nil => rfl
  | cons u us ih =>
      rw [List.length_cons] at hroom
      have hfull : s.txq.full = false := by
        apply Bool.eq_false_of_not_eq_true
        intro hf
        have hlen := h.txWf.full_iff.mp hf
        omega
      obtain ⟨hone, -, -, -, hgrow, -⟩ := writeOne_txq (t := t) h.txWf u hfull
      have hrest := ih (h.writeOne (t := t) u) (by omega)
      simp only [writeLoop, hone, if_true, hrest, List.length_cons]

/-- **Poll tells the truth.**  In every state between the first open and the next close,
    `can_select` reports the device readable if and only if a read of any number of messages
    returns at least one, and if it reports the device writable then a write of up to half
    the queue size is accepted completely. -/
theorem poll_truth {s₀ s : Chan σ} {ops : List (DrvOp σ)} (h₀ : FirstOpen t s₀)
    (hrun : Run.exec (Chan.driveOpen t) s₀ ops = some s) :
    (∀ n, 1 ≤ n → (s.pollin = true ↔ (0#32).slt (canRead true n s).1 = true)) ∧
    (s.pollout = true → ∀ us : List UserMsg, us.length ≤ (s.txq.qsize.sdiv 2).toNat →
      (canWrite t true us s).1 = BitVec.ofNat 32 us.length) := by
  have h := h₀.sized hrun
  constructor
  · intro n hn
    rw [pollin_iff h.rxWf, canRead_pos hn h]
  · intro hout us hus
    have hlen := (pollout_iff h.txWf).mp hout
    have hhalf : (s.txq.qsize.sdiv 2).toNat = 2 ^ 6 := by
      rw [MsgQ.qsize, h.txWf.mask]
      decide
    have haccept : (writeLoop t us s).1 = us.length := writeLoop_accepts h (by omega)
    show BitVec.ofNat 32 (writeLoop t us s).1 = _
    rw [haccept]

/-- A message sent, one waiting behind it, a frame received. -/
theorem poll_truth_opened : ∃ s₀ s, FirstOpen .atcanminiPelican s₀ ∧
    Run.exec (Chan.driveOpen .atcanminiPelican) s₀
      [.write true [.ofMsg Canmsg.zero, .ofMsg Canmsg.zero], .device oneFrame, .irq ⟨0, 0⟩] =
        some s ∧
    (∀ n, 1 ≤ n → (s.pollin = true ↔ (0#32).slt (canRead true n s).1 = true)) ∧
    (s.pollout = true → ∀ us : List UserMsg, us.length ≤ (s.txq.qsize.sdiv 2).toNat →
      (canWrite .atcanminiPelican true us s).1 = BitVec.ofNat 32 us.length) := by
  obtain ⟨s, hs⟩ := Option.isSome_iff_exists.mp
    (show (Run.exec (Chan.driveOpen .atcanminiPelican) firstOpened
      [.write true [.ofMsg Canmsg.zero, .ofMsg Canmsg.zero], .device oneFrame,
        .irq ⟨0, 0⟩]).isSome = true by decide)
  exact ⟨firstOpened, s, firstOpen_firstOpened, hs, poll_truth firstOpen_firstOpened hs⟩

/-! ## Wake-ups -/

/-- A part of an operation that calls `wake_up_interruptible` at most once: the state in
    which it leaves the channel, if it has made the call.  After the call such a part only
    accesses registers. -/
def woken {σ : Type} (s s' : Chan σ) : List (Chan σ) := if s'.wq = s.wq then [] else [s']

/-- The wake-ups of an iteration of the interrupt loop, branch by branch. -/
def irqWakes (t : Target) (tstamp : Timeval) (s : Chan σ) : List (Chan σ) :=
  let rd := canIn t .canirq s.chip
  let s := { s with chip := rd.2 }
  if rd.1 = 0 then []
  else
    let inf : Msginf := ⟨presetFlags s.rxstatus, tstamp⟩
    let rx := rxIrq t rd.1 inf s
    let ew := errWarnIrq t rd.1 inf rx
    let tx := txIrq t ew.1 ew.2.2
    woken s rx ++ woken rx ew.2.2 ++ woken ew.2.2 tx ++ woken tx (overrunIrq t ew.1 ew.2.1 tx)

/-- The calls of `wake_up_interruptible` that an operation makes, each as the state in which
    the sleepers find the channel.  No file operation makes one. -/
def Chan.wakes (t : Target) (s : Chan σ) : DrvOp σ → List (Chan σ)
  | .irq tstamp => irqWakes t tstamp s
  | .timer => woken s.disarm (delayedmsgworker t s.disarm)
  | _ => []

/-- Every call that `wq` counts is listed. -/
def Counted {σ : Type} (s : Chan σ) (ws : List (Chan σ)) (s' : Chan σ) : Prop :=
  s'.wq = s.wq + ws.length

/-- If the receive queue has changed, the sleepers were woken afterwards. -/
def RxTold {σ : Type} (s : Chan σ) (ws : List (Chan σ)) (s' : Chan σ) : Prop :=
  s'.rxq = s.rxq ∨ ∃ w ∈ ws, w.rxq = s'.rxq

/-- If the transmit queue has changed and the device is writable now, the sleepers were
    woken afterwards. -/
def TxTold {σ : Type} (s : Chan σ) (ws : List (Chan σ)) (s' : Chan σ) : Prop :=
  s'.txq = s.txq ∨ s'.pollout = false ∨ ∃ w ∈ ws, w.txq = s'.txq

/-- What holds of the wake-ups `ws` of a piece of code that leads from `s` to `s'`. -/
structure Told {σ : Type} (s : Chan σ) (ws : List (Chan σ)) (s' : Chan σ) : Prop where
  counted : Counted s ws s'
  rx : RxTold s ws s'
  tx : TxTold s ws s'

namespace Told

variable {s s' s'' : Chan σ} {ws ws' : List (Chan σ)}

omit [Chip σ] in
/-- Code that touches neither queue and wakes nobody. -/
theorem of_eq (hwq : s'.wq = s.wq) (hrx : s'.rxq = s.rxq) (htx : s'.txq = s.txq) :
    Told s [] s' :=
  ⟨hwq, .inl hrx, .inl htx⟩

omit [Chip σ] in
/-- One piece of code after the other. -/
theorem append (h : Told s ws s') (h' : Told s' ws' s'') : Told s (ws ++ ws') s'' := by
  refine ⟨?_, ?_, ?_⟩
  · have h1 := h.counted
    have h2 := h'.counted
    unfold Counted at h1 h2 ⊢
    rw [List.length_append]
    omega
  · rcases h'.rx with hsame | ⟨w, hw, hwq⟩
    · rcases h.rx with hsame' | ⟨w, hw, hwq⟩
      · exact .inl (hsame.trans hsame')
      · exact .inr ⟨w, List.mem_append_left _ hw, hwq.trans hsame.symm⟩
    · exact .inr ⟨w, List.mem_append_right _ hw, hwq⟩
  · rcases h'.tx with hsame | hnot | ⟨w, hw, hwq⟩
    · rcases h.tx with hsame' | hnot | ⟨w, hw, hwq⟩
      · exact .inl (hsame.trans hsame')
      · exact .inr (.inl ((pollout_congr hsame).trans hnot))
      · exact .inr (.inr ⟨w, List.mem_append_left _ hw, hwq.trans hsame.symm⟩)
    · exact .inr (.inl hnot)
    · exact .inr (.inr ⟨w, List.mem_append_right _ hw, hwq⟩)

omit [Chip σ] in
/-- Code that made one call, at its end as far as the queues are concerned. -/
theorem woken_succ (hwq : s'.wq = s.wq + 1) : Told s (woken s s') s' := by
  have hws : woken s s' = [s'] := if_neg (by omega)
  rw [hws]
  exact ⟨hwq, .inr ⟨s', List.mem_singleton_self s', rfl⟩,
    .inr (.inr ⟨s', List.mem_singleton_self s', rfl⟩)⟩

omit [Chip σ] in
theorem woken_same (hwq : s'.wq = s.wq) (hrx : s'.rxq = s.rxq)
    (htx : s'.txq = s.txq ∨ s'.pollout = false) : Told s (woken s s') s' := by
  have hws : woken s s' = [] := if_pos hwq
  rw [hws]
  refine ⟨hwq, .inl hrx, ?_⟩
  rcases htx with hsame | hnot
  · exact .inl hsame
  · exact .inr (.inl hnot)

omit [Chip σ] in
/-- `rxproduce` wakes the sleepers exactly if it produces; what comes before and behind it
    accesses registers. -/
theorem rxproduce {r : Chan σ} {produce : Canmsg → σ → Canmsg × σ} (hwq : r.wq = s.wq)
    (hrx : r.rxq = s.rxq) (htx : r.txq = s.txq)
    (hs' : ∃ c, s' = { rxproduce produce r with chip := c }) : Told s (woken s s') s' := by
  obtain ⟨c, rfl⟩ := hs'
  cases hfull : r.rxq.full with
  | true =>
      rw [rxproduce_full hfull]
      exact woken_same hwq hrx (.inl htx)
  | false =>
      rw [rxproduce_room hfull]
      exact woken_succ (congrArg Nat.succ hwq)

theorem rxIrq (irqsrc : U8) (inf : Msginf) :
    Told s (woken s (rxIrq t irqsrc inf s)) (rxIrq t irqsrc inf s) := by
  rcases rxIrq_any t s irqsrc inf with ⟨-, heq⟩ | ⟨-, c, heq⟩
  · rw [heq]
    exact woken_same rfl rfl (.inl rfl)
  · exact rxproduce rfl rfl rfl ⟨c, heq⟩

theorem errWarnIrq (irqsrc : U8) (inf : Msginf) :
    Told s (woken s (errWarnIrq t irqsrc inf s).2.2) (errWarnIrq t irqsrc inf s).2.2 := by
  rcases errWarnIrq_any t s irqsrc inf with ⟨-, heq⟩ | ⟨-, src', inf', c, -, heq⟩
  · rw [heq]
    exact woken_same rfl rfl (.inl rfl)
  · rw [heq]
    exact rxproduce (r := { s with chip := c }) rfl rfl rfl ⟨_, rfl⟩

theorem overrunIrq (irqsrc : U8) (inf : Msginf) :
    Told s (woken s (overrunIrq t irqsrc inf s)) (overrunIrq t irqsrc inf s) := by
  rcases overrunIrq_any t s irqsrc inf with ⟨-, heq⟩ | ⟨-, inf', sys, c, c', -, heq⟩
  · rw [heq]
    exact woken_same rfl rfl (.inl rfl)
  · rw [heq]
    exact rxproduce (r := { s with sys := sys, chip := c }) rfl rfl rfl ⟨c', rfl⟩

omit [Chip σ] in
/-- Whatever happens to the transmit queue, `wakeWriters` behind it tells the sleepers if the
    device is writable. -/
theorem wakeWriters {r : Chan σ} (hwq : r.wq = s.wq) (hrx : r.rxq = s.rxq) :
    Told s (woken s r.wakeWriters) r.wakeWriters := by
  unfold Chan.wakeWriters
  split
  · exact woken_succ (congrArg Nat.succ hwq)
  · rename_i hnot
    refine woken_same hwq hrx (.inr ?_)
    rw [pollout_eq]
    exact Bool.eq_false_of_not_eq_true hnot

theorem txIrq (irqsrc : U8) :
    Told s (woken s (txIrq t irqsrc s)) (txIrq t irqsrc s) := by
  obtain ⟨hwq, hrx⟩ := txConsume_wq t { s with txinprogress := 0 }
  unfold Can4linux.txIrq
  split
  · exact wakeWriters hwq hrx
  · exact woken_same rfl rfl (.inl rfl)

theorem timer : Told s (woken s.disarm (delayedmsgworker t s.disarm))
    (delayedmsgworker t s.disarm) := by
  obtain ⟨k, hdis⟩ := disarm_frame s
  obtain ⟨hwq, hrx⟩ := txConsume_wq t s.disarm
  have hbefore : Told s [] s.disarm := of_eq (by rw [hdis]) (by rw [hdis]) (by rw [hdis])
  have hworker : Told s.disarm (woken s.disarm (delayedmsgworker t s.disarm))
      (delayedmsgworker t s.disarm) := wakeWriters hwq hrx
  exact hbefore.append hworker

theorem irq (tstamp : Timeval) :
    Told s (irqWakes t tstamp s) (irqIteration t tstamp s) := by
  have hread : Told s [] { s with chip := (canIn t .canirq s.chip).2 } := of_eq rfl rfl rfl
  unfold irqWakes irqIteration
  simp only
  split
  · exact hread
  · exact hread.append ((((rxIrq _ _).append (errWarnIrq _ _)).append (txIrq _)).append
      (overrunIrq _ _))

end Told

/-! ## Nobody sleeps through readiness -/

omit [Chip σ] in
/-- Reading makes no device readable. -/
theorem pollin_read {s : Chan σ} (h : Sized s) (accessOk : Bool) (count : Nat)
    (hin : s.pollin = false) : (canRead accessOk count s).2.2.pollin = false := by
  cases accessOk with
  | false => exact hin
  | true =>
      obtain ⟨hlen, hwf⟩ := readLoop_length count s
      have hnot := (pollin_iff h.rxWf).not.mp (Bool.eq_false_iff.mp hin)
      apply Bool.eq_false_of_not_eq_true
      intro hin'
      have hpos := (pollin_iff (hwf 11 h.rxWf)).mp hin'
      omega

/-- A device that is not writable stays so during a write: no round of it leaves fewer
    messages in the queue. -/
theorem pollout_writeOne {s : Chan σ} (h : Sized s) (u : UserMsg) (hout : s.pollout = false) :
    (writeOne t u s).2.pollout = false := by
  have hlen := (pollout_iff h.txWf).not.mp (Bool.eq_false_iff.mp hout)
  apply Bool.eq_false_of_not_eq_true
  rw [pollout_iff (h.writeOne u).txWf]
  cases hfull : s.txq.full with
  | true =>
      rcases writeOne_any t s u with ⟨-, heq⟩ | ⟨hroom, -⟩
      · rw [heq]
        exact hlen
      · rw [hfull] at hroom
        cases hroom
  | false =>
      obtain ⟨-, -, -, hgrow, -, -⟩ := writeOne_txq (t := t) h.txWf u hfull
      omega

theorem pollout_write {s : Chan σ} (h : Sized s) (accessOk : Bool) (us : List UserMsg)
    (hout : s.pollout = false) : (canWrite t accessOk us s).2.pollout = false := by
  have hboth : Sized (canWrite t accessOk us s).2 ∧
      (canWrite t accessOk us s).2.pollout = false := by
    apply canWrite_rule (P := fun s => Sized s ∧ s.pollout = false)
    · intro u s hs
      exact ⟨hs.1.writeOne u, pollout_writeOne hs.1 u hs.2⟩
    · exact ⟨h, hout⟩
  exact hboth.2

/-- A write leaves the receive side alone. -/
theorem canWrite_wq (accessOk : Bool) (us : List UserMsg) (s : Chan σ) :
    (canWrite t accessOk us s).2.wq = s.wq ∧ (canWrite t accessOk us s).2.rxq = s.rxq := by
  apply canWrite_rule (P := fun c => c.wq = s.wq ∧ c.rxq = s.rxq)
  · intro u c hc
    rcases writeOne_any t c u with ⟨-, heq⟩ | ⟨-, heq⟩
    · rw [heq]
      exact hc
    · rw [heq]
      unfold kickIdle
      split
      · obtain ⟨hwq, hrx⟩ := txConsume_wq t
          { c with
            txq := (c.txq.fill (u c.txq.freeSlot)).publish.setIdle false
            hist := { c.hist with accepted := c.hist.accepted ++ [u c.txq.freeSlot] } }
        exact ⟨hwq.trans hc.1, hrx.trans hc.2⟩
      · exact hc
  · exact ⟨rfl, rfl⟩

/-- The wake-ups `ws` of an operation from `s` to `s'` are those of its wait queues, and where it
    makes the device readable or writable, one of them comes after the change. -/
structure NoSleeper {σ : Type} (s : Chan σ) (ws : List (Chan σ)) (s' : Chan σ) : Prop where
  counted : Counted s ws s'
  pollin : s.pollin = false → s'.pollin = true →
    ∃ w ∈ ws, w.rxq = s'.rxq ∧ w.pollin = true
  pollout : s.pollout = false → s'.pollout = true →
    ∃ w ∈ ws, w.txq = s'.txq ∧ w.pollout = true

omit [Chip σ] in
theorem Told.noSleeper {s s' : Chan σ} {ws : List (Chan σ)} (h : Told s ws s') :
    NoSleeper s ws s' := by
  refine ⟨h.counted, ?_, ?_⟩
  · intro hbefore hafter
    rcases h.rx with hsame | ⟨w, hw, hwq⟩
    · rw [pollin_congr hsame, hbefore] at hafter
      cases hafter
    · exact ⟨w, hw, hwq, (pollin_congr hwq).trans hafter⟩
  · intro hbefore hafter
    rcases h.tx with hsame | hnot | ⟨w, hw, hwq⟩
    · rw [pollout_congr hsame, hbefore] at hafter
      cases hafter
    · rw [hnot] at hafter
      cases hafter
    · exact ⟨w, hw, hwq, (pollout_congr hwq).trans hafter⟩

omit [Chip σ] in
/-- An operation that wakes nobody turns nothing on. -/
theorem NoSleeper.of_silent {s s' : Chan σ} (hwq : s'.wq = s.wq)
    (hin : s.pollin = false → s'.pollin = false)
    (hout : s.pollout = false → s'.pollout = false) : NoSleeper s [] s' := by
  refine ⟨hwq, ?_, ?_⟩
  · intro hbefore hafter
    rw [hin hbefore] at hafter
    cases hafter
  · intro hbefore hafter
    rw [hout hbefore] at hafter
    cases hafter

/-- **Nobody sleeps through readiness.**  In every run between the first open and the next
    close: an operation that makes the device readable or writable calls
    `wake_up_interruptible` when the queue concerned is already as the operation leaves it. -/
theorem no_lost_wakeup {s₀ s s' : Chan σ} {ops : List (DrvOp σ)} {op : DrvOp σ}
    (h₀ : FirstOpen t s₀) (hrun : Run.exec (Chan.driveOpen t) s₀ ops = some s)
    (hstep : Chan.driveOpen t s op = some s') : NoSleeper s (s.wakes t op) s' := by
  have h := h₀.sized hrun
  obtain ⟨hop, hstep⟩ := Run.restrict_eq_some.mp hstep
  cases op with
  | «open» env => cases hop
  | close => cases hop
  | sysctl sys =>
      obtain rfl := Option.some.inj hstep
      exact .of_silent rfl id id
  | device c =>
      obtain rfl := Option.some.inj hstep
      exact .of_silent rfl id id
  | write accessOk us =>
      obtain ⟨-, rfl⟩ := Chan.ifOpen_eq_some.mp hstep
      obtain ⟨hwq, hrx⟩ := canWrite_wq (t := t) accessOk us s
      exact .of_silent hwq (fun hin => (pollin_congr hrx).trans hin)
        (pollout_write h accessOk us)
  | read accessOk count =>
      obtain ⟨-, rfl⟩ := Chan.ifOpen_eq_some.mp hstep
      have hframe : (canRead accessOk count s).2.2.wq = s.wq ∧
          (canRead accessOk count s).2.2.txq = s.txq := by
        cases accessOk with
        | false => exact ⟨rfl, rfl⟩
        | true =>
            obtain ⟨rxq, hs, -, -⟩ := readLoop_spec count s
            simp only [canRead, Bool.not_true, Bool.false_eq_true, if_false, hs, and_self]
      exact .of_silent hframe.1 (pollin_read h accessOk count)
        (fun hout => (pollout_congr hframe.2).trans hout)
  | command cmd =>
      obtain ⟨-, rfl⟩ := Chan.ifOpen_eq_some.mp hstep
      obtain ⟨held, sys, c, hframe⟩ := canCommand_frame t s cmd
      rw [hframe]
      exact .of_silent rfl id id
  | config target val1 val2 =>
      obtain ⟨-, rfl⟩ := Chan.ifOpen_eq_some.mp hstep
      obtain ⟨sys, c, hframe⟩ := canConfig_frame t s target val1 val2
      rw [hframe]
      exact .of_silent rfl id id
  | irq tstamp =>
      obtain ⟨-, rfl⟩ := Chan.ifOpen_eq_some.mp hstep
      exact (Told.irq tstamp).noSleeper
  | timer =>
      obtain ⟨-, rfl⟩ := Chan.drive_timer hstep
      exact Told.timer.noSleeper

/-- A frame is received: the iteration makes the device readable, and wakes the sleepers. -/
theorem no_lost_wakeup_received : ∃ s₀ s s', FirstOpen .atcanminiPelican s₀ ∧
    Run.exec (Chan.driveOpen .atcanminiPelican) s₀ [.device oneFrame] = some s ∧
    Chan.driveOpen .atcanminiPelican s (.irq ⟨0, 0⟩) = some s' ∧
    s.pollin = false ∧ s'.pollin = true ∧
    NoSleeper s (s.wakes .atcanminiPelican (.irq ⟨0, 0⟩)) s' := by
  have hrun : Run.exec (Chan.driveOpen .atcanminiPelican) firstOpened [.device oneFrame] =
      some { firstOpened with chip := oneFrame } := rfl
  obtain ⟨s', hs'⟩ := Option.isSome_iff_exists.mp
    (show (Chan.driveOpen .atcanminiPelican
      { firstOpened with chip := oneFrame }
      (.irq ⟨0, 0⟩)).isSome = true by decide)
  have hin : (Chan.driveOpen .atcanminiPelican
      { firstOpened with chip := oneFrame }
      (.irq ⟨0, 0⟩)).map Chan.pollin = some true := by decide
  rw [hs'] at hin
  exact ⟨firstOpened, _, s', firstOpen_firstOpened, hrun, hs', by decide, Option.some.inj hin,
    no_lost_wakeup firstOpen_firstOpened hrun hs'⟩

end Can4linux
