/-
  Can4linux.Clock

  A device in time.  The clock of the kernel does not go back, and a timer does
  not run out before the time it is set to has passed; nothing else is assumed
  about when things happen.  Then a message that asks for a delay is loaded no
  sooner than the delay, less its frame time, after it was accepted, and after
  the frame before it was sent.

  The consumer looks at such a message twice: the first time it starts the timer
  and clears the delay, the second time it loads the message.  `Paced` says what
  is known of the head of the queue in between.
-/

import Can4linux.Calm
import Can4linux.Delay

namespace Can4linux

variable {t : Target}

/-! ## Time -/

/-- When each message of the history was accepted, when it was loaded, and when each frame was
    sent, in nanoseconds. -/
structure Times where
  accepts : List Int
  loads : List Int
  sents : List Int

/-- Of `n` entries, those that have no time yet get the time `now`. -/
def stamped (now : Int) (n : Nat) (times : List Int) : List Int :=
  times ++ List.replicate (n - times.length) now

/-- Record what a device with history `hist` has done by the time `now`, at which it has sent
    `frames`. -/
def Times.record (v : Times) (now : Int) (hist : Hist) (frames : List Frame) : Times where
  accepts := stamped now hist.accepted.length v.accepts
  loads := stamped now hist.loaded.length v.loads
  sents := v.sents ++ frames.map fun _ => now

/-- What message `k` has to keep its distance from happened at time `τ`: it was accepted, or the
    frame before it was sent. -/
def Times.Precedes (v : Times) (k : Nat) (τ : Int) : Prop :=
  v.accepts[k]? = some τ ∨ ∃ j, k = j + 1 ∧ v.sents[j]? = some τ

/-- A device, the clock, the time before which the delay timer does not run out, and the
    record. -/
structure Clocked (t : Target) where
  chan : Chan (Sja1000 t)
  now : Int
  due : Int
  times : Times

def Op.isTimer : Op → Bool
  | .timer => true
  | _ => false

/-- The time before which the timer does not run out, found at time `now`: the one it had, if it
    has been running all the time, or else what it has just been started for. -/
def Chan.runsOut (c : Chan (Sja1000 t)) (now due : Int) (running : Bool) : Int :=
  if c.timerArmed && !running then now + c.timerNs.getD 0 else due

namespace Clocked

/-- The device at time `now`, with nothing recorded. -/
def start (s : Chan (Sja1000 t)) (now : Int) : Clocked t := ⟨s, now, now, ⟨[], [], []⟩⟩

/-- A step at a time that is not in the past; the timer is not early. -/
def step (s : Clocked t) (a : Int × Op) : Option (Clocked t) :=
  if s.now ≤ a.1 ∧ (a.2.isTimer = true → s.due ≤ a.1) then
    (s.chan.step a.2).map fun c =>
      { chan := c
        now := a.1
        due := c.runsOut a.1 s.due (s.chan.timerArmed && !a.2.isTimer)
        times := s.times.record a.1 c.hist (s.chan.sends a.2) }
  else none

/-- Calm operation, with the time. -/
def calmStep : Clocked t → Int × Op → Option (Clocked t) :=
  Run.restrict step fun _ a => a.2.receives = true

theorem step_eq_some {s s' : Clocked t} {a : Int × Op} (h : s.step a = some s') :
    s.now ≤ a.1 ∧ (a.2.isTimer = true → s.due ≤ a.1) ∧ s.chan.step a.2 = some s'.chan ∧
      s'.now = a.1 ∧
      s'.due = s'.chan.runsOut a.1 s.due (s.chan.timerArmed && !a.2.isTimer) ∧
      s'.times = s.times.record a.1 s'.chan.hist (s.chan.sends a.2) := by
  unfold step at h
  split at h
  · rename_i hguard
    obtain ⟨c, hc, rfl⟩ := Option.map_eq_some_iff.mp h
    exact ⟨hguard.1, hguard.2, hc, rfl, rfl, rfl⟩
  · cases h

end Clocked

section Stamped

variable {now : Int} {n : Nat} {times : List Int}

theorem stamped_length : (stamped now n times).length = max times.length n := by
  rw [stamped, List.length_append, List.length_replicate]
  omega

theorem stamped_of_length (h : times.length = n) : stamped now n times = times := by
  rw [stamped, h, Nat.sub_self]
  exact List.append_nil _

theorem stamped_succ (h : times.length = n) : stamped now (n + 1) times = times ++ [now] := by
  rw [stamped, h, Nat.add_sub_cancel_left]
  rfl

theorem stamped_stamped {n' : Nat} (h : times.length ≤ n) (h' : n ≤ n') :
    stamped now n' (stamped now n times) = stamped now n' times := by
  rw [stamped, stamped_length, stamped, stamped, List.append_assoc, ← List.replicate_add]
  congr 2
  omega

end Stamped

/-! ## The timer -/

/-- The timer is set to the remaining delay, or to more where the subtraction overflows. -/
theorem remaining_le_timer {baud : CInt} {m : Canmsg} (hbaud : 0 < baud.toInt)
    (hw : waits baud m.capLength = true) (hrem : m.remaining baud ≤ 2147483) :
    1000 * m.remaining baud ≤
      ((remainingDelay baud m.capLength * 1000).signExtend 64 : CLong).toInt := by
  have hleft := toInt_remainingDelay m hbaud
  have hpos : 0 < (remainingDelay baud m.capLength).toInt := by
    rw [waits, Bool.and_eq_true, BitVec.slt_iff_toInt_lt] at hw
    exact hw.2
  rw [toInt_nanoseconds]
  by_cases hlow : -2147483648 ≤ m.remaining baud
  · rw [bmod_of_int hlow (by omega)] at hleft
    rw [hleft, bmod_of_int (by omega) (by omega)]
  · have hge := Int.le_bmod (x := 1000 * (remainingDelay baud m.capLength).toInt) (m := 2 ^ 32)
      (by decide)
    omega

/-- A message that does not wait has no delay left, if it fits the timer. -/
theorem remaining_nonpos {s : Chan (Sja1000 t)} {m : Canmsg} (hslot : s.HasSlot)
    (hbaud : 0 < s.sys.baud.toInt) (hw : waits s.sys.baud m.capLength = false)
    (hne : m.timestamp.tvUsec ≠ 0) (hrem : m.remaining s.sys.baud ≤ 2147483) :
    m.remaining s.sys.baud ≤ 0 := by
  by_contra hpos
  obtain ⟨hwait, -⟩ :=
    (sendcanmsg_delays_iff t hslot hbaud (Int.not_le.mp hpos)).mpr ⟨hne, hrem⟩
  rw [sendcanmsg_loads s hw] at hwait
  cases hwait

/-! ## The head of the queue -/

/-- Message `m` keeps its distance, if the timer can be set to it. -/
def Canmsg.Spaced (baud : CInt) (m : Canmsg) (τ' τ : Int) : Prop :=
  m.timestamp.tvUsec ≠ 0 → m.remaining baud ≤ 2147483 → τ' + 1000 * m.remaining baud ≤ τ

/-- The messages in the queue, the first of which may have been looked at: then it stands there
    as it goes on the wire. -/
def lookedAt (seen : Bool) : List Canmsg → List Canmsg
  | [] => []
  | m :: ms => (if seen then m.onWire else m) :: ms

theorem lookedAt_false (ms : List Canmsg) : lookedAt false ms = ms := by
  cases ms <;> rfl

theorem lookedAt_append {seen : Bool} {ms : List Canmsg} (h : seen = true → ms ≠ [])
    (ms' : List Canmsg) : lookedAt seen (ms ++ ms') = lookedAt seen ms ++ ms' := by
  cases ms with
  | cons m ms => rfl
  | nil =>
      cases seen with
      | false => rw [lookedAt_false, lookedAt_false]
      | true => exact absurd rfl (h rfl)

theorem Times.Precedes.mem {v : Times} {k : Nat} {τ : Int} (h : v.Precedes k τ) :
    τ ∈ v.accepts ∨ τ ∈ v.sents := by
  rcases h with h | ⟨j, -, h⟩
  · exact .inl (List.mem_of_getElem? h)
  · exact .inr (List.mem_of_getElem? h)

/-- What a message keeps its distance from is settled when it has been accepted and the frame
    before it has been sent. -/
theorem Times.precedes_append {v : Times} {k : Nat} {τ : Int} (hacc : k < v.accepts.length)
    (hsent : k ≤ v.sents.length) (a l b : List Int) :
    Times.Precedes ⟨v.accepts ++ a, l, v.sents ++ b⟩ k τ ↔ v.Precedes k τ := by
  have hleft : (v.accepts ++ a)[k]? = v.accepts[k]? := List.getElem?_append_left hacc
  have hright : ∀ j, k = j + 1 → (v.sents ++ b)[j]? = v.sents[j]? := by
    intro j hj
    exact List.getElem?_append_left (by omega)
  unfold Times.Precedes
  rw [hleft]
  refine or_congr_right (exists_congr fun j => and_congr_right fun hj => ?_)
  rw [hright j hj]

/-- The messages loaded have kept their distance; the head of the queue, if it has been looked
    at, will have kept it when the timer has run out. -/
structure Paced (baud : CInt) (seen : Bool) (due now : Int) (v : Times)
    (s : Chan (Sja1000 t)) : Prop where
  rate : s.sys.baud = baud
  accepts : v.accepts.length = s.hist.accepted.length
  loads : v.loads.length = s.hist.loaded.length
  sents : v.sents.length + s.chip.tx.isSome.toNat = s.hist.loaded.length
  past : ∀ τ, τ ∈ v.accepts ∨ τ ∈ v.sents → τ ≤ now
  line : s.txq.contents = lookedAt seen (s.hist.accepted.drop s.hist.loaded.length)
  head : seen = true → s.chip.tx = none ∧ ∃ m,
    s.hist.accepted[s.hist.loaded.length]? = some m ∧
      ∀ τ, v.Precedes s.hist.loaded.length τ → m.Spaced baud τ due
  kept : ∀ k m τ τ', s.hist.accepted[k]? = some m → v.loads[k]? = some τ → v.Precedes k τ' →
    m.Spaced baud τ' τ

/-- The messages that have been loaded have been accepted. -/
theorem Flow.loaded_le {s : Chan (Sja1000 t)} (h : Flow [] [] s) :
    s.hist.loaded.length ≤ s.hist.accepted.length := by
  have hlen := congrArg List.length h.tx
  rw [List.length_append, List.nil_append, List.length_map, List.length_map] at hlen
  omega

namespace Paced

variable {baud : CInt} {seen : Bool} {due now : Int} {v : Times} {s s' : Chan (Sja1000 t)}

/-- Of the channel only this matters. -/
theorem of_eq (h : Paced baud seen due now v s) (hrate : s'.sys.baud = s.sys.baud)
    (hacc : s'.hist.accepted = s.hist.accepted) (hloaded : s'.hist.loaded = s.hist.loaded)
    (htx : s'.chip.tx = s.chip.tx) (hcont : s'.txq.contents = s.txq.contents) :
    Paced baud seen due now v s' := by
  refine ⟨hrate.trans h.rate, ?_, ?_, ?_, h.past, ?_, ?_, ?_⟩
  · rw [hacc]
    exact h.accepts
  · rw [hloaded]
    exact h.loads
  · rw [htx, hloaded]
    exact h.sents
  · rw [hcont, hacc, hloaded]
    exact h.line
  · rw [htx, hacc, hloaded]
    exact h.head
  · rw [hacc]
    exact h.kept

theorem of_txSide (h : Paced baud seen due now v s) (hside : s'.txSide = s.txSide) :
    Paced baud seen due now v s' := by
  have htxq : s'.txq = s.txq := congrArg TxSide.txq hside
  exact h.of_eq (congrArg TxSide.baud hside) (congrArg TxSide.accepted hside)
    (congrArg TxSide.loaded hside) (congrArg TxSide.tx hside) (congrArg MsgQ.contents htxq)

/-- Time passes. -/
theorem later {now' : Int} (h : Paced baud seen due now v s) (hle : now ≤ now') :
    Paced baud seen due now' v s :=
  { h with past := fun τ hτ => (h.past τ hτ).trans hle }

/-- What is recorded of a step that neither accepts nor loads nor sends. -/
theorem record_eq (h : Paced baud seen due now v s) {hist : Hist}
    (hacc : hist.accepted = s.hist.accepted) (hloaded : hist.loaded = s.hist.loaded) (τ : Int) :
    v.record τ hist [] = v := by
  rw [Times.record, hacc, hloaded, stamped_of_length h.accepts, stamped_of_length h.loads,
    List.map_nil, List.append_nil]

/-- Nothing is left of a message that has been loaded but its frame, which may be pending. -/
theorem le_sents (h : Paced baud seen due now v s) {k : Nat} {τ : Int}
    (hk : v.loads[k]? = some τ) : k < s.hist.loaded.length ∧ k ≤ v.sents.length := by
  obtain ⟨hlt, -⟩ := List.getElem?_eq_some_iff.mp hk
  have hpend := Bool.toNat_le s.chip.tx.isSome
  have hsents := h.sents
  rw [h.loads] at hlt
  omega

/-- A message joins the queue at the end. -/
theorem enqueue (h : Paced baud seen due now v s) (hflow : Flow [] [] s)
    (hroom : s.txq.full = false) (u : UserMsg) :
    Paced baud seen due now (v.record now (s.enqueue u).hist []) (s.enqueue u) := by
  obtain ⟨m, hm⟩ : ∃ m, m = u s.txq.freeSlot := ⟨_, rfl⟩
  have hacc : (s.enqueue u).hist.accepted = s.hist.accepted ++ [m] := by rw [hm]; rfl
  have hrec : v.record now (s.enqueue u).hist [] = ⟨v.accepts ++ [now], v.loads, v.sents ++ []⟩ := by
    rw [Times.record, hacc, List.length_append, List.length_singleton, stamped_succ h.accepts,
      show (s.enqueue u).hist.loaded = s.hist.loaded from rfl, stamped_of_length h.loads,
      List.map_nil]
  have hcont : (s.enqueue u).txq.contents = s.txq.contents ++ [m] := by
    rw [hm]
    exact hflow.txWf.contents_produce hroom (u s.txq.freeSlot)
  have hle := hflow.loaded_le
  rw [hrec]
  refine ⟨h.rate, ?_, h.loads, ?_, ?_, ?_, ?_, ?_⟩
  · rw [hacc, List.length_append, List.length_append, h.accepts]
    rfl
  · rw [List.append_nil]
    exact h.sents
  · intro τ hτ
    rw [List.append_nil, List.mem_append, List.mem_singleton] at hτ
    rcases hτ with (hτ | rfl) | hτ
    · exact h.past τ (.inl hτ)
    · exact le_rfl
    · exact h.past τ (.inr hτ)
  · show (s.enqueue u).txq.contents =
      lookedAt seen ((s.enqueue u).hist.accepted.drop s.hist.loaded.length)
    rw [hcont, hacc, List.drop_append_of_le_length hle, lookedAt_append, h.line]
    intro hseen hnil
    obtain ⟨-, m', hm', -⟩ := h.head hseen
    obtain ⟨hlt, -⟩ := List.getElem?_eq_some_iff.mp hm'
    rw [List.drop_eq_nil_iff] at hnil
    omega
  · intro hseen
    obtain ⟨htx, m', hm', hspaced⟩ := h.head hseen
    obtain ⟨hlt, -⟩ := List.getElem?_eq_some_iff.mp hm'
    have hsents := h.sents
    rw [htx] at hsents
    refine ⟨htx, m', ?_, fun τ hτ => hspaced τ ?_⟩
    · rw [hacc]
      exact (List.getElem?_append_left hlt).trans hm'
    · refine (Times.precedes_append ?_ ?_ [now] v.loads []).mp hτ
      · rw [h.accepts]
        exact hlt
      · exact hsents.symm.le
  · intro k m' τ τ' hm' hτ hτ'
    obtain ⟨hlt, hsents⟩ := h.le_sents hτ
    rw [hacc, List.getElem?_append_left (by omega)] at hm'
    refine h.kept k m' τ τ' hm' hτ ((Times.precedes_append ?_ hsents [now] v.loads []).mp hτ')
    rw [h.accepts]
    omega

/-! ### Running the consumer -/

/-- The first message in the queue is the first one that has not been loaded. -/
theorem first (h : Paced baud seen due now v s) (hne : s.txq.contents ≠ []) :
    ∃ m, s.hist.accepted[s.hist.loaded.length]? = some m ∧
      s.txq.head = (if seen then m.onWire else m) ∧
      s.hist.accepted.drop s.hist.loaded.length = m :: s.txq.contents.tail := by
  have hline := h.line
  have hget : (s.hist.accepted.drop s.hist.loaded.length)[0]? =
      s.hist.accepted[s.hist.loaded.length]? := List.getElem?_drop
  cases hdrop : s.hist.accepted.drop s.hist.loaded.length with
  | nil =>
      rw [hdrop] at hline
      exact absurd hline hne
  | cons m ms =>
      rw [hdrop] at hline hget
      have hcons := hline
      rw [MsgQ.contents_eq_cons hne] at hcons
      refine ⟨m, hget.symm, (List.cons.inj hcons).1, ?_⟩
      rw [hline]
      rfl

section Consume

variable {acc : Frame} (h : Paced baud seen due now v s) (hv : Vacant acc s)
  (hwf : s.txq.WF 7)

include h hv

/-- The queue is found empty. -/
theorem txConsume_empty (hempty : s.txq.empty = true) (d : Int) :
    Paced baud (txConsume t s).timerArmed d now (v.record now (txConsume t s).hist [])
      (txConsume t s) := by
  obtain ⟨-, harmed, htx, -⟩ := holders_eq_zero.mp hv.none
  have hnil : s.txq.contents = [] := MsgQ.empty_iff.mp hempty
  have hseen : s.hist.accepted.drop s.hist.loaded.length = [] := by
    have hline := h.line
    rw [hnil] at hline
    cases hdrop : s.hist.accepted.drop s.hist.loaded.length with
    | nil => rfl
    | cons m ms =>
        rw [hdrop] at hline
        cases hline
  rw [Can4linux.txConsume_empty s hempty]
  have harm : Chan.timerArmed { s with txq := s.txq.setIdle true } = false := harmed
  rw [harm, h.record_eq rfl rfl]
  refine ⟨h.rate, h.accepts, h.loads, h.sents, h.past, ?_, fun hf => absurd hf Bool.false_ne_true,
    h.kept⟩
  show s.txq.contents = lookedAt false (s.hist.accepted.drop s.hist.loaded.length)
  rw [hnil, hseen]
  rfl

include hwf

/-- The timer is started for the head. -/
theorem txConsume_waits (hbaud : 0 < baud.toInt) (hempty : s.txq.empty = false)
    (hw : s.headWaits = true) {d : Int}
    (hd : d = now + (txConsume t s).timerNs.getD 0) :
    Paced baud (txConsume t s).timerArmed d now (v.record now (txConsume t s).hist [])
      (txConsume t s) := by
  obtain ⟨-, -, htx, -⟩ := holders_eq_zero.mp hv.none
  have hne := MsgQ.contents_ne_nil hempty
  obtain ⟨m, hm, hhead, hdrop⟩ := h.first hne
  have hfresh : s.txq.head = m := by
    cases seen with
    | false => exact hhead
    | true =>
        -- a message that has been looked at has no delay any more
        have hno := waits_of_noDelay s.sys.baud (show s.txq.head.timestamp.tvUsec = 0 by
          rw [hhead]; rfl)
        rw [Chan.headWaits, hno] at hw
        cases hw
  have harm := timerArmed_schedule hv.slot (remainingDelay s.sys.baud s.txq.head.capLength)
  have hns := timerNs_schedule hv.slot (remainingDelay s.sys.baud s.txq.head.capLength)
  obtain ⟨dw, kapi, hframe⟩ :=
    kapiScheduleDelayed_frame s (remainingDelay s.sys.baud s.txq.head.capLength)
  rw [hframe] at harm hns
  rw [Can4linux.txConsume_waits s hempty hw, hframe] at hd ⊢
  have harm' : Chan.timerArmed (σ := Sja1000 t)
      { s with
        txq := s.txq.setHead s.txq.head.capLength.clearDelay
        delayedwork := dw, kapi := kapi } = true := harm
  have hns' : Chan.timerNs (σ := Sja1000 t)
      { s with
        txq := s.txq.setHead s.txq.head.capLength.clearDelay
        delayedwork := dw, kapi := kapi } = some _ := hns
  rw [hns', Option.getD_some] at hd
  rw [harm', h.record_eq rfl rfl]
  refine ⟨h.rate, h.accepts, h.loads, h.sents, h.past, ?_, fun _ => ⟨htx, m, hm, ?_⟩, h.kept⟩
  · show (s.txq.setHead s.txq.head.capLength.clearDelay).contents =
      lookedAt true (s.hist.accepted.drop s.hist.loaded.length)
    rw [hwf.contents_setHead hne, hdrop, hfresh]
    rfl
  · intro τ hτ htv hrem
    have hpast := h.past τ hτ.mem
    have hbaud' : 0 < s.sys.baud.toInt := by
      rw [h.rate]
      exact hbaud
    have hw' : waits s.sys.baud m.capLength = true := by
      rw [← hfresh]
      exact hw
    have hle := remaining_le_timer hbaud' hw' (by rw [h.rate]; exact hrem)
    rw [h.rate] at hle
    rw [hfresh, h.rate] at hd
    omega

/-- The head is loaded. -/
theorem txConsume_loads (hbaud : 0 < baud.toInt) (hdue : seen = true → due ≤ now)
    (hempty : s.txq.empty = false) (hw : s.headWaits = false) (d : Int) :
    Paced baud (txConsume t s).timerArmed d now (v.record now (txConsume t s).hist [])
      (txConsume t s) := by
  obtain ⟨-, harmed, htx, -⟩ := holders_eq_zero.mp hv.none
  have hne := MsgQ.contents_ne_nil hempty
  obtain ⟨m, hm, hhead, hdrop⟩ := h.first hne
  have hload : (s.chip.load s.txq.head.capLength).tx.isSome = true := by
    rw [Sja1000.load, hv.operating]
    rfl
  have hsents := h.sents
  rw [htx] at hsents
  -- at the time of the load the message has kept its distance
  have hspaced : ∀ τ, v.Precedes s.hist.loaded.length τ → m.Spaced baud τ now := by
    intro τ hτ htv hrem
    cases seen with
    | true =>
        obtain ⟨-, m', hm', hspaced⟩ := h.head rfl
        obtain rfl := Option.some.inj (hm.symm.trans hm')
        exact (hspaced τ hτ htv hrem).trans (hdue rfl)
    | false =>
        have hpast := h.past τ hτ.mem
        have hw' : waits s.sys.baud m.capLength = false := by
          rw [← show s.txq.head = m from hhead]
          exact hw
        have hnonpos := remaining_nonpos hv.slot (by rw [h.rate]; exact hbaud) hw' htv
          (by rw [h.rate]; exact hrem)
        rw [h.rate] at hnonpos
        omega
  rw [Can4linux.txConsume_loads s hempty hw]
  have harm : Chan.timerArmed { s with
      txq := (s.txq.setHead s.txq.head.capLength).advance
      txinprogress := 1
      hist := { s.hist with loaded := s.hist.loaded ++ [s.txq.head.onWire] }
      chip := s.chip.load s.txq.head.capLength } = false := harmed
  have hrec : v.record now { s.hist with loaded := s.hist.loaded ++ [s.txq.head.onWire] } [] =
      ⟨v.accepts, v.loads ++ [now], v.sents⟩ := by
    rw [Times.record, List.length_append, List.length_singleton, stamped_of_length h.accepts,
      stamped_succ h.loads, List.map_nil, List.append_nil]
  rw [harm, hrec]
  have hset : (s.txq.setHead s.txq.head.capLength).contents ≠ [] := by
    rw [hwf.contents_setHead hne]
    exact List.cons_ne_nil _ _
  refine ⟨h.rate, h.accepts, ?_, ?_, h.past, ?_, fun hf => absurd hf Bool.false_ne_true, ?_⟩
  · show (v.loads ++ [now]).length = (s.hist.loaded ++ [s.txq.head.onWire]).length
    rw [List.length_append, List.length_append, h.loads]
    rfl
  · show v.sents.length + (s.chip.load s.txq.head.capLength).tx.isSome.toNat =
      (s.hist.loaded ++ [s.txq.head.onWire]).length
    rw [hload, List.length_append, ← hsents]
    rfl
  · show (s.txq.setHead s.txq.head.capLength).advance.contents =
      lookedAt false (s.hist.accepted.drop (s.hist.loaded ++ [s.txq.head.onWire]).length)
    rw [MsgQ.contents_advance hset, hwf.contents_setHead hne, List.tail_cons,
      lookedAt_false, List.length_append, List.length_singleton, ← List.tail_drop, hdrop,
      List.tail_cons]
  · intro k m' τ τ' hm' hτ hτ'
    have hτ'' : v.Precedes k τ' := hτ'
    rw [show (Times.mk v.accepts (v.loads ++ [now]) v.sents).loads = v.loads ++ [now] from rfl,
      List.getElem?_append] at hτ
    split at hτ
    · exact h.kept k m' τ τ' hm' hτ hτ''
    · rename_i hge
      obtain ⟨hk, rfl⟩ := List.getElem?_eq_some_iff.mp hτ
      obtain rfl : k = s.hist.loaded.length := by
        have hone : k - v.loads.length < 1 := hk
        rw [h.loads] at hone hge
        omega
      obtain rfl := Option.some.inj (hm.symm.trans hm')
      rw [List.getElem_singleton]
      exact hspaced τ' hτ''

/-- The consumer is run at a time that is not too early for the head. -/
theorem txConsume (hbaud : 0 < baud.toInt) (hdue : seen = true → due ≤ now) {d : Int}
    (hd : (txConsume t s).timerArmed = true → d = now + (txConsume t s).timerNs.getD 0) :
    Paced baud (Can4linux.txConsume t s).timerArmed d now
      (v.record now (Can4linux.txConsume t s).hist []) (Can4linux.txConsume t s) := by
  cases hempty : s.txq.empty with
  | true => exact h.txConsume_empty hv hempty d
  | false =>
      cases hw : s.headWaits with
      | true =>
          refine h.txConsume_waits hv hwf hbaud hempty hw (hd ?_)
          have harm := timerArmed_schedule hv.slot
            (remainingDelay s.sys.baud s.txq.head.capLength)
          rw [Can4linux.txConsume_waits s hempty hw]
          exact harm
      | false => exact h.txConsume_loads hv hwf hbaud hdue hempty hw d

end Consume

end Paced

/-! ## The steps -/

/-- What a step at time `now` leaves behind, where the timer is known to be `running` or not. -/
def Leaves (baud : CInt) (running : Bool) (due now : Int) (v : Times)
    (c : Chan (Sja1000 t)) : Prop :=
  Paced baud c.timerArmed (c.runsOut now due running) now (v.record now c.hist []) c

section Leaves

variable {acc : Frame} {sent : List Frame} {baud : CInt} {running : Bool} {due now : Int}
  {v : Times} {s s' : Chan (Sja1000 t)}

theorem Leaves.of_txSide (h : Leaves baud running due now v s) (hside : s'.txSide = s.txSide) :
    Leaves baud running due now v s' := by
  have harmed := timerArmed_of_txSide hside
  have hns : s'.timerNs = s.timerNs := by
    have hdly : s'.delayedwork = s.delayedwork := congrArg TxSide.delayedwork hside
    have hkapi : s'.kapi = s.kapi := congrArg TxSide.kapi hside
    rw [Chan.timerNs, Chan.timerNs, hdly, hkapi]
  have hrec : v.record now s'.hist [] = v.record now s.hist [] := by
    have hacc : s'.hist.accepted = s.hist.accepted := congrArg TxSide.accepted hside
    have hloaded : s'.hist.loaded = s.hist.loaded := congrArg TxSide.loaded hside
    rw [Times.record, Times.record, hacc, hloaded]
  rw [Leaves, Chan.runsOut, harmed, hns, hrec]
  exact Paced.of_txSide h hside

/-- A step that does nothing to the queue, the frame and the timer. -/
theorem Paced.leaves (h : Paced baud s.timerArmed due now v s) (hrate : s'.sys.baud = s.sys.baud)
    (hacc : s'.hist.accepted = s.hist.accepted) (hloaded : s'.hist.loaded = s.hist.loaded)
    (htx : s'.chip.tx = s.chip.tx) (hcont : s'.txq.contents = s.txq.contents)
    (harmed : s'.timerArmed = s.timerArmed) : Leaves baud s.timerArmed due now v s' := by
  rw [Leaves, Chan.runsOut, harmed, Bool.and_not_self, if_neg Bool.false_ne_true,
    h.record_eq hacc hloaded]
  exact h.of_eq hrate hacc hloaded htx hcont

theorem Paced.leaves_of_txSide (h : Paced baud s.timerArmed due now v s)
    (hside : s'.txSide = s.txSide) : Leaves baud s.timerArmed due now v s' :=
  (h.leaves rfl rfl rfl rfl rfl rfl).of_txSide hside

/-- The consumer is run while the timer is not running. -/
theorem Paced.leaves_txConsume {seen : Bool} (h : Paced baud seen due now v s)
    (hv : Vacant acc s) (hwf : s.txq.WF 7) (hbaud : 0 < baud.toInt)
    (hdue : seen = true → due ≤ now) (due' : Int) :
    Leaves baud false due' now v (Can4linux.txConsume t s) := by
  refine h.txConsume hv hwf hbaud hdue fun harmed => ?_
  rw [Chan.runsOut, harmed]
  rfl

/-- The record goes on with the history. -/
theorem Leaves.le (h : Leaves baud running due now v s) :
    v.accepts.length ≤ s.hist.accepted.length ∧ v.loads.length ≤ s.hist.loaded.length := by
  have hacc : (stamped now s.hist.accepted.length v.accepts).length = s.hist.accepted.length :=
    h.accepts
  have hloads : (stamped now s.hist.loaded.length v.loads).length = s.hist.loaded.length :=
    h.loads
  rw [stamped_length] at hacc hloads
  omega

/-- Two steps at the same time. -/
theorem Leaves.trans {running' : Bool} {due' : Int} (h : Leaves baud running due now v s)
    (h' : Leaves baud running' due' now (v.record now s.hist []) s') :
    Leaves baud running' due' now v s' := by
  obtain ⟨hacc, hloads⟩ := h.le
  obtain ⟨hacc', hloads'⟩ := h'.le
  rw [show (v.record now s.hist []).accepts.length = _ from h.accepts] at hacc'
  rw [show (v.record now s.hist []).loads.length = _ from h.loads] at hloads'
  -- the second record takes up where the first one has ended
  have hrec : (v.record now s.hist []).record now s'.hist [] = v.record now s'.hist [] := by
    simp only [Times.record, stamped_stamped hacc hacc', stamped_stamped hloads hloads',
      List.map_nil, List.append_nil]
  rw [Leaves, ← hrec]
  exact h'

end Leaves

/-- A channel in the course of a `can_write` at time `now`. -/
structure Writes (acc : Frame) (sent : List Frame) (baud : CInt) (running : Bool) (due now : Int)
    (v : Times) (c : Chan (Sja1000 t)) : Prop where
  sending : Sending acc sent c
  flow : Flow [] [] c
  runs : running = true → c.timerArmed = true
  leaves : Leaves baud running due now v c

/-- A round of the loop enqueues the message, and may hand the first one in the queue over. -/
theorem Writes.writeOne {acc : Frame} {sent : List Frame} {baud : CInt} {running : Bool}
    {due now : Int} {v : Times} {c : Chan (Sja1000 t)}
    (h : Writes acc sent baud running due now v c) (hbaud : 0 < baud.toInt) (u : UserMsg) :
    Writes acc sent baud running due now v (writeOne t u c).2 := by
  have hsending := h.sending.writeOne u
  have hflow := h.flow.writeOne u
  cases hfull : c.txq.full with
  | true =>
      rw [writeOne_full hfull]
      exact h
  | false =>
      have hq := Paced.enqueue h.leaves h.flow hfull u
      have henq : Leaves baud running due now v (c.enqueue u) := h.leaves.trans hq
      rw [writeOne_room hfull] at hsending hflow ⊢
      cases hidle : c.txq.idle with
      | true =>
          -- the timer is not running, so the consumer may start it
          obtain ⟨harmed, -⟩ := h.sending.calm.of_idle hidle
          obtain rfl : running = false := by
            cases running with
            | false => rfl
            | true =>
                rw [h.runs rfl] at harmed
                cases harmed
          have hv := h.sending.calm.vacant_enqueue hidle u
          have htaken : Leaves baud false due now v
              { c.enqueue u with txq := (c.enqueue u).txq.setIdle false } :=
            Paced.of_eq henq rfl rfl rfl rfl rfl
          rw [kickIdle_enqueue hidle] at hsending hflow ⊢
          refine ⟨hsending, hflow, fun hf => absurd hf Bool.false_ne_true,
            htaken.trans (Paced.leaves_txConsume htaken hv
              ((h.flow.enqueue hfull u).txWf.setIdle false) hbaud ?_ due)⟩
          intro hrun
          exact absurd (harmed.symm.trans hrun) Bool.false_ne_true
      | false =>
          have hbusy : (c.enqueue u).txq.idle = false := hidle
          rw [kickIdle, hbusy, if_neg Bool.false_ne_true] at hsending hflow ⊢
          exact ⟨hsending, hflow, h.runs, henq⟩

/-- The timer runs out at a time that is not too early. -/
theorem Paced.timer {acc : Frame} {baud : CInt} {due now : Int} {v : Times}
    {s : Chan (Sja1000 t)} (h : Paced baud true due now v s) (hcalm : Calm acc s)
    (hwf : s.txq.WF 7) (hbaud : 0 < baud.toInt) (harmed : s.timerArmed = true)
    (hdue : due ≤ now) : Leaves baud false due now v (delayedmsgworker t s.disarm) := by
  have hv := hcalm.vacant_disarm harmed
  have hoff : Paced baud true due now v s.disarm ∧ s.disarm.txq.WF 7 := by
    obtain ⟨kapi, hdis⟩ := disarm_frame s
    rw [hdis]
    exact ⟨h.of_eq rfl rfl rfl rfl rfl, hwf⟩
  exact (hoff.1.leaves_txConsume hv hoff.2 hbaud (fun _ => hdue) due).of_txSide
    (wakeWriters_txSide _)

/-- The transmit interrupt comes while the timer is not running. -/
theorem Paced.irq {acc : Frame} {baud : CInt} {due now : Int} {v : Times}
    {s : Chan (Sja1000 t)} (h : Paced baud s.timerArmed due now v s) (hcalm : Calm acc s)
    (hwf : s.txq.WF 7) (hbaud : 0 < baud.toInt) (tstamp : Timeval) :
    Leaves baud s.timerArmed due now v (irqIteration t tstamp s) := by
  obtain ⟨mid, hmid, hside⟩ := hcalm.irqIteration_txSide tstamp
  have htxq : mid.txq = s.txq := congrArg TxSide.txq hmid
  have hmid' : Paced baud s.timerArmed due now v mid :=
    h.of_eq (congrArg TxSide.baud hmid) (congrArg TxSide.accepted hmid)
      (congrArg TxSide.loaded hmid) (congrArg TxSide.tx hmid) (congrArg MsgQ.contents htxq)
  refine Leaves.of_txSide ?_ hside
  cases hirq : isSet s.chip.irq canTransmitInt with
  | true =>
      obtain ⟨-, hoff, -⟩ := hcalm.of_interrupt hirq
      rw [hoff] at hmid' ⊢
      rw [if_pos rfl]
      have hclear : Paced baud false due now v { mid with txinprogress := 0 } :=
        hmid'.of_eq rfl rfl rfl rfl rfl
      refine hclear.leaves_txConsume (hcalm.vacant_irq hirq hmid) ?_ hbaud
        (fun hf => absurd hf Bool.false_ne_true) due
      show mid.txq.WF 7
      rw [htxq]
      exact hwf
  | false =>
      have hclear : mid.timerArmed = s.clearIrq.timerArmed := timerArmed_of_txSide hmid
      have hsame : mid.timerArmed = s.timerArmed := hclear
      rw [if_neg Bool.false_ne_true, ← hsame]
      exact Paced.leaves_of_txSide (hsame ▸ hmid') rfl

/-- The frame goes out, and the message behind it keeps its distance from now on. -/
theorem Paced.txDone {baud : CInt} {due now : Int} {v : Times} {s : Chan (Sja1000 t)} {f : Frame}
    (h : Paced baud s.timerArmed due now v s) (harmed : s.timerArmed = false)
    (htx : s.chip.tx = some f) (d : Int) {s' : Chan (Sja1000 t)}
    (hs' : s' = s.onChip fun c => { c with tx := none, irq := c.irq ||| canTransmitInt }) :
    Paced baud s'.timerArmed d now (v.record now s'.hist [f]) s' := by
  have hsents := h.sents
  rw [htx] at hsents
  have harmed' : s'.timerArmed = false := by
    rw [hs']
    exact harmed
  have hrec : v.record now s'.hist [f] = ⟨v.accepts ++ [], v.loads, v.sents ++ [now]⟩ := by
    have hhist : s'.hist = s.hist := by
      rw [hs']
      rfl
    rw [Times.record, hhist, stamped_of_length h.accepts, stamped_of_length h.loads,
      List.append_nil]
    rfl
  have hline := h.line
  rw [harmed] at hline
  rw [harmed', hrec, hs']
  refine ⟨h.rate, ?_, h.loads, ?_, ?_, hline, fun hf => absurd hf Bool.false_ne_true, ?_⟩
  · rw [List.append_nil]
    exact h.accepts
  · show (v.sents ++ [now]).length + 0 = s.hist.loaded.length
    rw [List.length_append, ← hsents]
    rfl
  · intro τ hτ
    rw [List.append_nil, List.mem_append, List.mem_singleton] at hτ
    rcases hτ with hτ | hτ | rfl
    · exact h.past τ (.inl hτ)
    · exact h.past τ (.inr hτ)
    · exact le_rfl
  · intro k m τ τ' hm hτ hτ'
    obtain ⟨-, hle⟩ := h.le_sents hτ
    obtain ⟨hlt, -⟩ := List.getElem?_eq_some_iff.mp hm
    rw [show (s.onChip _).hist.accepted = s.hist.accepted from rfl, ← h.accepts] at hlt
    exact h.kept k m τ τ' hm hτ ((Times.precedes_append hlt hle [] v.loads [now]).mp hτ')

namespace Clocked

/-- A device in calm operation that has sent the frames `sent` and keeps its messages apart. -/
structure Punctual (acc : Frame) (baud : CInt) (sent : List Frame) (s : Clocked t) : Prop where
  operates : ∃ heard, Operates acc sent heard s.chan
  paced : Paced baud s.chan.timerArmed s.due s.now s.times s.chan

/-- The frames that a step sends. -/
def sends (s : Clocked t) (a : Int × Op) : List Frame := s.chan.sends a.2

/-- Every step of calm operation keeps them apart. -/
theorem Punctual.step {acc : Frame} {baud : CInt} {sent : List Frame} {s s' : Clocked t}
    {a : Int × Op} (h : Punctual acc baud sent s) (hbaud : 0 < baud.toInt)
    (hop : a.2.receives = true) (hstep : s.step a = some s') :
    Punctual acc baud (sent ++ s.sends a) s' := by
  obtain ⟨heard, hoper⟩ := h.operates
  obtain ⟨hnow, htimer, hchan, hnow', hdue', htimes'⟩ := step_eq_some hstep
  obtain ⟨now, op⟩ := a
  have hcalm := hoper.sending.calm
  have hpaced : Paced baud s.chan.timerArmed s.due now s.times s.chan := h.paced.later hnow
  refine ⟨⟨_, hoper.step hop hchan⟩, ?_⟩
  rw [hnow', hdue', htimes']
  -- what is left of a step that neither sends nor is the timer
  have hrest : op.isTimer = false → s.chan.sends op = [] →
      Leaves baud s.chan.timerArmed s.due now s.times s'.chan →
      Paced baud s'.chan.timerArmed (s'.chan.runsOut now s.due (s.chan.timerArmed && !op.isTimer))
        now (s.times.record now s'.chan.hist (s.chan.sends op)) s'.chan := by
    intro hno hsends hleaves
    rw [hno, hsends, Bool.not_false, Bool.and_true]
    exact hleaves
  cases op with
  | «open» env => cases hop
  | close => cases hop
  | command cmd => cases hop
  | config target val1 val2 => cases hop
  | busOff => cases hop
  | write accessOk us =>
      obtain ⟨-, hs'⟩ := Chan.whenOpen_eq_some.mp hchan
      have hstart : Writes acc sent baud s.chan.timerArmed s.due now s.times s.chan :=
        ⟨hoper.sending, hoper.flow, id, hpaced.leaves_of_txSide rfl⟩
      have hend : Writes acc sent baud s.chan.timerArmed s.due now s.times s'.chan := by
        rw [← hs']
        exact canWrite_rule (fun u c hc => hc.writeOne hbaud u) hstart accessOk us
      exact hrest rfl rfl hend.leaves
  | read accessOk count =>
      obtain ⟨-, hs'⟩ := Chan.whenOpen_eq_some.mp hchan
      refine hrest rfl rfl ?_
      rw [← hs']
      exact hpaced.leaves_of_txSide (canRead_txSide s.chan accessOk count)
  | irq tstamp =>
      obtain ⟨-, hs'⟩ := Chan.whenOpen_eq_some.mp hchan
      refine hrest rfl rfl ?_
      rw [← hs']
      exact hpaced.irq hcalm hoper.flow.txWf hbaud tstamp
  | timer =>
      obtain ⟨harmed, hs'⟩ := Chan.step_timer hchan
      rw [harmed] at hpaced ⊢
      rw [hs']
      exact hpaced.timer hcalm hoper.flow.txWf hbaud harmed (htimer rfl)
  | arrive f =>
      obtain ⟨-, hs'⟩ := Chan.step_arrive hchan
      refine hrest rfl rfl ?_
      rw [hs']
      exact hpaced.leaves_of_txSide rfl
  | txDone =>
      obtain ⟨hpend, hs'⟩ := Chan.step_txDone hchan
      obtain ⟨f, htx⟩ := Option.isSome_iff_exists.mp hpend
      have hsends : s.chan.sends .txDone = [f] := by
        rw [Chan.sends, htx]
        rfl
      have hoff : s.chan.timerArmed = false := by
        cases harmed : s.chan.timerArmed with
        | false => rfl
        | true =>
            obtain ⟨-, hnone, -⟩ := hcalm.of_armed harmed
            rw [htx] at hnone
            cases hnone
      rw [hsends]
      exact hpaced.txDone hoff htx _ hs'
  | busEvent bits stat overrun =>
      obtain ⟨-, hs'⟩ := Chan.step_busEvent hchan
      refine hrest rfl rfl ?_
      rw [hs']
      exact hpaced.leaves rfl rfl rfl rfl rfl rfl

/-- A device that is ready has nothing to keep apart. -/
theorem punctual_start {s : Chan (Sja1000 t)} (h : Ready s) (now : Int) :
    Punctual s.chip.acc s.sys.baud [] (start s now) := by
  have hnil : s.txq.contents = [] := MsgQ.empty_iff.mp h.txEmpty
  have hoff : (start s now).chan.timerArmed = false := h.unarmed
  refine ⟨⟨_, h.operates⟩, ?_⟩
  rw [hoff]
  refine ⟨rfl, ?_, ?_, ?_, ?_, ?_, fun hf => absurd hf Bool.false_ne_true, ?_⟩
  · show 0 = s.hist.accepted.length
    rw [h.hist]
    rfl
  · show 0 = s.hist.loaded.length
    rw [h.hist]
    rfl
  · show 0 + s.chip.tx.isSome.toNat = s.hist.loaded.length
    rw [h.pending, h.hist]
    rfl
  · rintro τ (hτ | hτ) <;> cases hτ
  · show s.txq.contents = lookedAt false (s.hist.accepted.drop s.hist.loaded.length)
    rw [hnil, h.hist]
    rfl
  · intro k m τ τ' hm
    rw [show (start s now).chan.hist = s.hist from rfl, h.hist] at hm
    cases hm

end Clocked

/-- **No message is sent too soon after it was written, or after the one before it.**  Operate a
    device at any times after an open that found nothing left over, as long as it is neither
    stopped, reset, reconfigured nor closed and does not go off the bus.  The messages are
    loaded and sent in the order in which they were accepted, and a message with a delay that
    fits the timer is loaded no sooner than the delay, less its frame time, after it was
    accepted and after the frame before it was sent. -/
theorem delays_kept {s₀ : Chan (Sja1000 t)} {now : Int} {ops : List (Int × Op)} {s : Clocked t}
    (hready : Ready s₀) (hbaud : 0 < s₀.sys.baud.toInt)
    (hrun : Run.exec Clocked.calmStep (Clocked.start s₀ now) ops = some s) :
    s.chan.hist.loaded =
        (s.chan.hist.accepted.take s.times.loads.length).map Canmsg.onWire ∧
      List.Forall₂ Carries (s.chan.hist.accepted.take s.times.sents.length)
        (Run.observe Clocked.calmStep Clocked.sends (Clocked.start s₀ now) ops) ∧
      ∀ k m τ τ', s.chan.hist.accepted[k]? = some m → s.times.loads[k]? = some τ →
        s.times.Precedes k τ' → m.timestamp.tvUsec ≠ 0 →
        m.remaining s₀.sys.baud ≤ 2147483 → τ' + 1000 * m.remaining s₀.sys.baud ≤ τ := by
  obtain ⟨frames, hframes⟩ : ∃ frames, frames = Run.observe Clocked.calmStep Clocked.sends
    (Clocked.start s₀ now) ops := ⟨_, rfl⟩
  have hend : Clocked.Punctual s₀.chip.acc s₀.sys.baud ([] ++ frames) s := by
    rw [hframes]
    refine Run.exec_observe (fun v c a c' hc hstep => ?_) (Clocked.punctual_start hready now) hrun
    obtain ⟨hop, hstep'⟩ := Run.restrict_eq_some.mp hstep
    exact hc.step hbaud hop hstep'
  rw [← hframes]
  obtain ⟨⟨heard, hoper⟩, hpaced⟩ := hend
  rw [List.nil_append] at hoper
  have hloaded : s.chan.hist.loaded =
      (s.chan.hist.accepted.take s.times.loads.length).map Canmsg.onWire := by
    have htx := hoper.flow.tx
    rw [List.nil_append] at htx
    rw [hpaced.loads, List.map_take, ← htx, List.take_left]
  refine ⟨hloaded, ?_, hpaced.kept⟩
  -- what has been loaded has been sent, but for the frame that is pending
  have hall := hoper.sending.all
  have hlen := hall.length_eq
  have hsents := hpaced.sents
  have hpend : s.chan.chip.tx.toList.length = s.chan.chip.tx.isSome.toNat := by
    cases s.chan.chip.tx <;> rfl
  rw [List.length_append, hpend] at hlen
  have hframes' := List.forall₂_take frames.length hall
  rw [List.take_left, hloaded, ← List.map_take, List.take_take, List.forall₂_map_left_iff,
    Nat.min_eq_left (by rw [hpaced.loads]; omega)] at hframes'
  rw [show s.times.sents.length = frames.length by omega]
  exact hframes'.imp fun m f h => carries_onWire.mp h

/-- Two messages with a delay of a millisecond each at 125 kbit/s: the timer runs for 648 µs. -/
theorem delays_kept_two :
    let ops : List (Int × Op) := [
      (10, .write true [.ofMsg { millisecondMsg with length := 0 },
        .ofMsg { millisecondMsg with length := 0 }]),
      (648010, .timer), (1000000, .txDone), (1000020, .irq ⟨0, 0⟩), (1648020, .timer)]
    ∃ s, Run.exec Clocked.calmStep (Clocked.start Chan.opened 0) ops = some s ∧
      s.times.loads = [648010, 1648020] ∧
      s.chan.hist.loaded =
        (s.chan.hist.accepted.take s.times.loads.length).map Canmsg.onWire ∧
      List.Forall₂ Carries (s.chan.hist.accepted.take s.times.sents.length)
        (Run.observe Clocked.calmStep Clocked.sends (Clocked.start Chan.opened 0) ops) ∧
      ∀ k m τ τ', s.chan.hist.accepted[k]? = some m → s.times.loads[k]? = some τ →
        s.times.Precedes k τ' → m.timestamp.tvUsec ≠ 0 →
        m.remaining Chan.opened.sys.baud ≤ 2147483 →
        τ' + 1000 * m.remaining Chan.opened.sys.baud ≤ τ := by
  intro ops
  obtain ⟨s, hs, hloads⟩ := Option.map_eq_some_iff.mp
    (show (Run.exec Clocked.calmStep (Clocked.start Chan.opened 0) ops).map
      (fun s => s.times.loads) = some [648010, 1648020] by decide +kernel)
  exact ⟨s, hs, hloads, delays_kept ready_opened (by decide +kernel) hs⟩

end Can4linux
