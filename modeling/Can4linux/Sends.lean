/-
  Can4linux.Sends

  The calls of `sendcanmsg` that an operation makes, each with its message and the
  channel as the call finds it.  Whatever an operation does before the call, the
  channel has a timer slot or finds one, and its entry of `Baud` is the one that
  was last written, by user space or through `CONF_TIMING`.

  So when the delay of a message is computed the divisor is positive exactly if
  that value is, and the timer is set for the whole delay exactly if the delay
  fits, as nanoseconds, into an `int`.
-/

import Mathlib.Data.BitVec
import Can4linux.Delay
import Can4linux.Channels

namespace Can4linux

/-! ## The calls -/

section Calls

variable {σ : Type} [Chip σ] (t : Target)

/-- The call that running the consumer of the transmit queue makes. -/
def txSends {σ : Type} (s : Chan σ) : List (Canmsg × Chan σ) :=
  if s.txq.empty then [] else [(s.txq.head, s)]

/-- The consumer does what the call says. -/
theorem txConsume_sends (s : Chan σ) : txConsume t s =
    match txSends s with
    | [] => { s with txq := s.txq.setIdle true }
    | (m, c) :: _ =>
        let r := sendcanmsg t m c
        { r.2.2 with txq := if r.2.1 then (c.txq.setHead r.1).advance else c.txq.setHead r.1 } := by
  unfold txConsume MsgQ.qconsume txSends
  cases s.txq.empty <;> rfl

/-- The call of `if (txq->idle) ...` in `can_write`. -/
def kickSends {σ : Type} (s : Chan σ) : List (Canmsg × Chan σ) :=
  if s.txq.idle then txSends { s with txq := s.txq.setIdle false } else []

/-- The calls of the loop in `can_write`. -/
def writeSends : List UserMsg → Chan σ → List (Canmsg × Chan σ)
  | [], _ => []
  | u :: us, s =>
      let r := s.txq.qproduce (fun slot (_ : Unit) => (u slot, ())) ()
      if r.2.2 then
        kickSends { s with
          txq := r.1
          hist := { s.hist with accepted := s.hist.accepted ++ [u s.txq.freeSlot] } } ++
        writeSends us (writeOne t u s).2
      else []

/-- The call of an interrupt iteration. -/
def irqSends (tstamp : Timeval) (s : Chan σ) : List (Canmsg × Chan σ) :=
  let rd := canIn t .canirq s.chip
  let s := { s with chip := rd.2 }
  if rd.1 = 0 then []
  else
    let inf : Msginf := ⟨presetFlags s.rxstatus, tstamp⟩
    let r := errWarnIrq t rd.1 inf (rxIrq t rd.1 inf s)
    if isSet r.1 canTransmitInt then txSends { r.2.2 with txinprogress := 0 } else []

namespace Channels

/-- The calls of an operation. -/
def sends : ChanOp σ → Chan (Recorder σ) → List (Canmsg × Chan (Recorder σ))
  | .write accessOk us, s => if accessOk then writeSends t us s else []
  | .irq tstamp, s => irqSends t tstamp s
  | .timer, s => txSends s.disarm
  | .open _, _ | .close, _ | .read _ _, _ | .ioctl _ _, _ | .sysctl _, _ | .device _, _ => []

end Channels

end Calls

namespace Channels

variable {σ : Type} [Chip σ] {t : Target} {S : Channels σ} {i : Fin maxChannels}

/-! ## What a call finds -/

/-- A channel in the middle of an operation: it fits into the pool, and has the number and
    the bit rate that channel `i` has at the start. -/
structure Underway (S : Channels σ) (i : Fin maxChannels) (s : Chan (Recorder σ)) : Prop where
  fits : Fits S i s
  setting : s.setting = (S.chan i).setting

namespace Underway

variable {s : Chan (Recorder σ)} (h : Underway S i s)

include h

omit [Chip σ] in
/-- Only the slot, the pool, the number and the bit rate matter. -/
theorem of_get {s' : Chan (Recorder σ)} (hset : s'.setting = s.setting)
    (hget : Chan.timers.get s' = Chan.timers.get s) : Underway S i s' :=
  ⟨h.fits.of_get (congrArg Prod.fst hset) hget, hset.trans h.setting⟩

omit [Chip σ] in
/-- A message is put into the transmit queue. -/
theorem queued (txq : MsgQ Canmsg) (hist : Hist) :
    Underway S i { s with txq := txq, hist := hist } := h.of_get rfl rfl

omit [Chip σ] in
/-- The end of a transmission is noted. -/
theorem finished : Underway S i { s with txinprogress := 0 } := h.of_get rfl rfl

omit [Chip σ] in
theorem txSends {c : Canmsg × Chan (Recorder σ)} (hc : c ∈ txSends s) : Underway S i c.2 := by
  unfold Can4linux.txSends at hc
  split at hc
  · cases hc
  · rw [List.mem_singleton.mp hc]
    exact h

theorem writeOne (u : UserMsg) : Underway S i (writeOne t u s).2 :=
  ⟨h.fits.writeOne t u, (congrArg Standing.setting (writeOne_standing s u)).trans h.setting⟩

theorem writeSends {us : List UserMsg} {c : Canmsg × Chan (Recorder σ)}
    (hc : c ∈ writeSends t us s) : Underway S i c.2 := by
  -- the first round kicks the consumer or not, the rest starts from the channel it leaves
  induction us generalizing s with
  | nil => cases hc
  | cons u us ih =>
      simp only [Can4linux.writeSends] at hc
      split at hc
      · rcases List.mem_append.mp hc with hkick | hrest
        · unfold kickSends at hkick
          split at hkick
          · exact (h.queued _ _).txSends hkick
          · cases hkick
        · exact ih (h.writeOne u) hrest
      · cases hc

theorem irqSends {tstamp : Timeval} {c : Canmsg × Chan (Recorder σ)}
    (hc : c ∈ irqSends t tstamp s) : Underway S i c.2 := by
  have hread : Underway S i { s with chip := (canIn t .canirq s.chip).2 } := h.of_get rfl rfl
  simp only [Can4linux.irqSends] at hc
  split at hc
  · cases hc
  · split at hc
    · have hrx := hread.fits.rxIrq t (canIn t .canirq s.chip).1 ⟨presetFlags s.rxstatus, tstamp⟩
      have hew : Underway S i _ := ⟨hrx.errWarnIrq t (canIn t .canirq s.chip).1
        ⟨presetFlags s.rxstatus, tstamp⟩, (congrArg Standing.setting
          ((errWarnIrq_standing _ _ _).trans (rxIrq_standing _ _ _))).trans hread.setting⟩
      exact hew.finished.txSends hc
    · cases hc

end Underway

/-- Every call of an operation finds a channel that fits, with its bit rate. -/
theorem underway_of_sends (h : PoolOk S) {op : ChanOp σ} {c : Canmsg × Chan (Recorder σ)}
    (hc : c ∈ sends t op (S.chan i)) : Underway S i c.2 := by
  have hself : Underway S i (S.chan i) := ⟨.self h, rfl⟩
  cases op with
  | write accessOk us =>
      cases accessOk with
      | false => cases hc
      | true => exact hself.writeSends hc
  | irq tstamp => exact hself.irqSends hc
  | timer =>
      have hdis : Underway S i (S.chan i).disarm := by
        refine ⟨hself.fits.disarm, ?_⟩
        obtain ⟨k, hframe⟩ := disarm_frame (S.chan i)
        rw [hframe]
        rfl
      exact hdis.txSends hc
  | «open» _ | close | read _ _ | ioctl _ _ | sysctl _ | device _ => cases hc

/-! ## The divisor -/

/-- What a request of `can_ioctl` writes to `Baud`, if anything. -/
def ioctlBaud (cmd : CInt) (env : IoctlEnv) : Option CInt :=
  (ioctlConfig cmd env).bind fun a => if a.1 = confTiming then some (a.2.1.setWidth 32) else none

/-- What an operation writes to the channel's entry of `Baud`. -/
def baudWrite : ChanOp σ → Option CInt
  | .sysctl sys => some sys.baud
  | .ioctl cmd env => ioctlBaud cmd env
  | _ => none

/-- The value that was last written to the entry of channel `i`, `b` at first. -/
def lastBaud (i : Fin maxChannels) (b : CInt) (ls : List (Fin maxChannels × ChanOp σ)) : CInt :=
  ls.foldl (fun b l => if l.1 = i then (baudWrite l.2).getD b else b) b

section Baud

variable {s : Chan (Recorder σ)}

/-- Only `CONF_TIMING` writes to `Baud`. -/
theorem canConfig_baud (target : CInt) (val1 val2 : CLong) :
    (canConfig t target val1 val2 s).2.sys.baud =
      if target = confTiming then val1.setWidth 32 else s.sys.baud := by
  by_cases htiming : target = confTiming
  · subst htiming
    rfl
  · rw [if_neg htiming]
    unfold canConfig
    repeat' split
    all_goals rfl

theorem canIoctl_baud (cmd : CInt) (env : IoctlEnv) :
    (canIoctl t cmd env s).2.2.sys.baud = (ioctlBaud cmd env).getD s.sys.baud := by
  -- of the requests only `CONFIG` writes to the array
  rcases canIoctl_cases t s cmd env with ⟨c, -, hconf, heq⟩ | ⟨a, -, hconf, heq⟩ |
    ⟨-, hconf, heq | ⟨stat, heq⟩⟩
  · rw [heq, ioctlBaud, hconf]
    exact congrArg Prod.snd (canCommand_setting s c)
  · rw [heq, ioctlBaud, hconf, canConfig_baud, Option.bind_some]
    split
    · rfl
    · rfl
  · rw [heq, ioctlBaud, hconf]
    rfl
  · rw [heq, ioctlBaud, hconf]
    rfl

/-- What an operation leaves in the entry of its channel. -/
theorem baud_chanAfter (op : ChanOp σ) :
    (chanAfter t op s).sys.baud = (baudWrite op).getD s.sys.baud := by
  cases op with
  | «open» env => exact congrArg Prod.snd (canOpen_setting s env)
  | close => exact congrArg Prod.snd (canClose_setting s)
  | write accessOk us => exact congrArg (fun r => r.setting.2) (canWrite_standing s accessOk us)
  | read accessOk count => exact congrArg (fun r => r.setting.2) (canRead_standing s accessOk count)
  | ioctl cmd env => exact canIoctl_baud cmd env
  | sysctl sys => rfl
  | irq tstamp => exact congrArg (fun r => r.setting.2) (irqIteration_standing s tstamp)
  | timer => exact congrArg (fun r => r.setting.2) (timer_standing s)
  | device c => rfl

end Baud

section Run

variable {S₀ S S' : Channels σ} {ls : List (Fin maxChannels × ChanOp σ)}
  {sys : Fin maxChannels → Sysctl} {dev : Fin maxChannels → σ}

theorem step_baud (h : PoolOk S) {l : Fin maxChannels × ChanOp σ} (hstep : step t S l = some S') :
    (S'.chan i).sys.baud =
      if l.1 = i then (baudWrite l.2).getD (S.chan i).sys.baud else (S.chan i).sys.baud := by
  obtain ⟨j, op⟩ := l
  obtain ⟨-, hself, -, hother⟩ := step_spec t h hstep
  by_cases hij : i = j
  · subst hij
    rw [hself, if_pos rfl]
    exact baud_chanAfter op
  · obtain ⟨-, kapi, hchan⟩ := hother i hij
    rw [hchan, if_neg (fun h => hij h.symm)]

/-- Only user space and `CONF_TIMING` write to `Baud`. -/
theorem baud_eq_lastBaud (hrun : Run.exec (step t) (loaded t sys dev) ls = some S)
    (i : Fin maxChannels) : (S.chan i).sys.baud = lastBaud i (sys i).baud ls := by
  -- the labels so far are the trace; the value is read off it
  have hinv := Run.exec_trace (g := fun l => [l])
    (P := fun v S => PoolOk S ∧ (S.chan i).sys.baud = lastBaud i (sys i).baud v) ?_
    (v := []) ⟨poolOk_loaded t sys dev, rfl⟩ hrun
  · rw [List.nil_append, List.flatMap_singleton'] at hinv
    exact hinv.2
  · rintro v S l S' ⟨hok, hbaud⟩ hstep
    refine ⟨step_poolOk t hok hstep, ?_⟩
    rw [step_baud hok hstep, hbaud, lastBaud, lastBaud, List.foldl_append]
    rfl

omit [Chip σ] in
/-- Where every value written is positive, so is the last one. -/
theorem lastBaud_pos {b : CInt} (hb : 0 < b.toInt)
    (hls : ∀ l ∈ ls, l.1 = i → ∀ b', baudWrite l.2 = some b' → 0 < b'.toInt) :
    0 < (lastBaud i b ls).toInt := by
  induction ls generalizing b with
  | nil => exact hb
  | cons l ls ih =>
      refine ih ?_ fun l' hl' => hls l' (List.mem_cons_of_mem l hl')
      simp only
      -- a write to another channel, no write, or a positive one
      by_cases hi : l.1 = i
      · rw [if_pos hi]
        cases hw : baudWrite l.2 with
        | none => exact hb
        | some b' => exact hls l List.mem_cons_self hi b' hw
      · rw [if_neg hi]
        exact hb

/-- A run that writes positive values only keeps the entry positive. -/
theorem baud_positive (hrun : Run.exec (step t) (loaded t sys dev) ls = some S)
    (hsys : 0 < (sys i).baud.toInt)
    (hls : ∀ l ∈ ls, l.1 = i → ∀ b, baudWrite l.2 = some b → 0 < b.toInt) :
    0 < (S.chan i).sys.baud.toInt := by
  rw [baud_eq_lastBaud hrun i]
  exact lastBaud_pos hsys hls

/-- The division by `Baud[dev->minor]` is defined whenever the operation hands `sendcanmsg` a
    message with a delay. -/
def DivisorPositive (t : Target) (op : ChanOp σ) (s : Chan (Recorder σ)) : Prop :=
  ∀ c ∈ sends t op s, c.1.timestamp.tvUsec ≠ 0 → 0 < c.2.sys.baud.toInt

/-- **When the division is defined.**  At every operation of every run the divisor is positive
    if and only if, where there is a message with a delay at all, the value last written to
    `Baud[minor]` is positive. -/
theorem divisorPositive_iff (hrun : Run.exec (step t) (loaded t sys dev) ls = some S)
    (i : Fin maxChannels) (op : ChanOp σ) : DivisorPositive t op (S.chan i) ↔
      ((∃ c ∈ sends t op (S.chan i), c.1.timestamp.tvUsec ≠ 0) →
        0 < (lastBaud i (sys i).baud ls).toInt) := by
  -- each call of the operation still finds the value that the operation has found
  have hbaud : ∀ c ∈ sends t op (S.chan i), c.2.sys.baud = lastBaud i (sys i).baud ls := by
    intro c hc
    have hset := (underway_of_sends (reachable_poolOk t hrun) hc).setting
    exact (congrArg Prod.snd hset).trans (baud_eq_lastBaud hrun i)
  constructor
  · rintro h ⟨c, hc, hdelay⟩
    rw [← hbaud c hc]
    exact h c hc hdelay
  · intro h c hc hdelay
    rw [hbaud c hc]
    exact h ⟨c, hc, hdelay⟩

end Run

/-- A `CONFIG` request with `CONF_TIMING`. -/
def timingRequest (val1 : CLong) : IoctlEnv where
  readOk := true
  writeOk := true
  command := ⟨⟨0, 0, 0⟩, ⟨0, id⟩, ⟨0, id⟩⟩
  config := ⟨⟨0, 0, 0, 0, 0⟩, ⟨0, fun _ => ⟨confTiming, val1, 0, 0, 0⟩⟩, ⟨0, id⟩⟩
  status := ⟨⟨0, 0, 0, 0, 0, 0, 0, 0, 0, 0, 0, 0⟩, ⟨0, id⟩, ⟨0, id⟩⟩

/-- A message to be sent after `usec` microseconds. -/
def delayedBy (usec : CLong) : Canmsg := { Canmsg.zero with timestamp := ⟨0, usec⟩ }

/-- Channel 1 is opened and its bit rate set to 250 kbit/s. -/
theorem divisorPositive_iff_timing : ∃ S,
    Run.exec (step .atcanminiPelican) sample
      [(1, .open (.granted Canmsg.zero)), (1, .ioctl reqConfig (timingRequest 250))] = some S ∧
    (DivisorPositive .atcanminiPelican (.write true [.ofMsg (delayedBy 1000)]) (S.chan 1) ↔
      ((∃ c ∈ sends .atcanminiPelican (.write true [.ofMsg (delayedBy 1000)]) (S.chan 1),
          c.1.timestamp.tvUsec ≠ 0) →
        0 < (lastBaud (σ := Sja1000 .atcanminiPelican) 1 Chan.unopened.sys.baud
          [(1, .open (.granted Canmsg.zero)),
            (1, .ioctl reqConfig (timingRequest 250))]).toInt)) := by
  have hsome : (Run.exec (step .atcanminiPelican) sample
      [(1, .open (.granted Canmsg.zero)),
        (1, .ioctl reqConfig (timingRequest 250))]).isSome = true := by
    decide
  obtain ⟨S, hS⟩ := Option.isSome_iff_exists.mp hsome
  exact ⟨S, hS, divisorPositive_iff hS 1 _⟩

/-- `CONF_TIMING` with the value 0, then a message with a delay: the divisor is zero. -/
theorem divisor_zero : ∃ S,
    Run.exec (step .atcanminiPelican) sample
      [(1, .open (.granted Canmsg.zero)), (1, .ioctl reqConfig (timingRequest 0))] = some S ∧
    enabled (S.file 1) (.write true [.ofMsg (delayedBy 1000)]) (S.chan 1) = true ∧
    ¬ DivisorPositive .atcanminiPelican (.write true [.ofMsg (delayedBy 1000)]) (S.chan 1) := by
  have hmap : (Run.exec (step .atcanminiPelican) sample
      [(1, .open (.granted Canmsg.zero)), (1, .ioctl reqConfig (timingRequest 0))]).map
      (fun S => (S.file 1, (sends .atcanminiPelican (.write true [.ofMsg (delayedBy 1000)])
        (S.chan 1)).map fun c => (c.1.timestamp.tvUsec, c.2.sys.baud))) =
      some (true, [(1000, 0)]) := by
    decide
  obtain ⟨S, hS, heq⟩ := Option.map_eq_some_iff.mp hmap
  obtain ⟨hfile, hsends⟩ := Prod.mk.inj heq
  refine ⟨S, hS, hfile, ?_⟩
  obtain ⟨c, rest, hc, hhead, -⟩ := List.map_eq_cons_iff.mp hsends
  obtain ⟨hdelay, hbaud⟩ := Prod.mk.inj hhead
  intro hpos
  have hlt := hpos c (by rw [hc]; exact List.mem_cons_self) (by rw [hdelay]; decide)
  rw [hbaud] at hlt
  exact absurd hlt (by decide)

/-! ## The timer -/

section Timer

variable {ls : List (Fin maxChannels × ChanOp σ)} {sys : Fin maxChannels → Sysctl}
  {dev : Fin maxChannels → σ}

/-- The message is kept, and the timer set for all of the delay that remains, in nanoseconds. -/
def Waits (t : Target) (c : Canmsg × Chan (Recorder σ)) : Prop :=
  (sendcanmsg t c.1 c.2).2.1 = false ∧
    (sendcanmsg t c.1 c.2).2.2.timerNs = some (1000 * c.1.remaining c.2.sys.baud)

instance (t : Target) (c : Canmsg × Chan (Recorder σ)) : Decidable (Waits t c) :=
  inferInstanceAs (Decidable (_ ∧ _))

/-- **When the timer is set for the whole delay.**  Whenever an operation hands `sendcanmsg` a
    message whose remaining delay is positive, the message waits for all of it if and only if
    it has a delay and the nanoseconds fit into an `int`. -/
theorem sends_waits_iff (hrun : Run.exec (step t) (loaded t sys dev) ls = some S)
    (i : Fin maxChannels) (op : ChanOp σ) {c : Canmsg × Chan (Recorder σ)}
    (hc : c ∈ sends t op (S.chan i)) (hbaud : 0 < c.2.sys.baud.toInt)
    (hrem : 0 < c.1.remaining c.2.sys.baud) :
    Waits t c ↔ c.1.timestamp.tvUsec ≠ 0 ∧ c.1.remaining c.2.sys.baud ≤ 2147483 := by
  -- the pool is in order in the middle of the operation as well, so there is a slot
  have hfits := (underway_of_sends (reachable_poolOk t hrun) hc).fits
  have hslot := hfits.ok.hasSlot i
  rw [put_self] at hslot
  exact sendcanmsg_delays_iff t hslot hbaud hrem

end Timer

/-- A channel right after its open, as the first message written finds it. -/
theorem sends_waits_iff_first : ∃ S c,
    Run.exec (step .atcanminiPelican) sample [(2, .open (.granted Canmsg.zero))] = some S ∧
    c ∈ sends .atcanminiPelican (.write true [.ofMsg (delayedBy 1000)]) (S.chan 2) ∧
    0 < c.2.sys.baud.toInt ∧ 0 < c.1.remaining c.2.sys.baud ∧
    (Waits .atcanminiPelican c ↔
      c.1.timestamp.tvUsec ≠ 0 ∧ c.1.remaining c.2.sys.baud ≤ 2147483) := by
  have hmap : (Run.exec (step .atcanminiPelican) sample [(2, .open (.granted Canmsg.zero))]).map
      (fun S => (sends .atcanminiPelican (.write true [.ofMsg (delayedBy 1000)])
        (S.chan 2)).map fun c => (c.2.sys.baud, c.1.remaining c.2.sys.baud)) =
      some [(125, 648)] := by
    decide
  obtain ⟨S, hS, hsends⟩ := Option.map_eq_some_iff.mp hmap
  obtain ⟨c, rest, hc, hhead, -⟩ := List.map_eq_cons_iff.mp hsends
  obtain ⟨hbaud, hrem⟩ := Prod.mk.inj hhead
  have hmem : c ∈ sends .atcanminiPelican (.write true [.ofMsg (delayedBy 1000)]) (S.chan 2) := by
    rw [hc]
    exact List.mem_cons_self
  have hpos : 0 < c.2.sys.baud.toInt := by
    rw [hbaud]
    decide
  have hleft : 0 < c.1.remaining c.2.sys.baud := by
    rw [hrem]
    decide
  exact ⟨S, c, hS, hmem, hpos, hleft, sends_waits_iff hS 2 _ hmem hpos hleft⟩

/-- A message with a delay of 2^32 microseconds is sent at once, and for one of three seconds
    the timer is set to a time in the past. -/
theorem delay_truncated :
    (Run.exec (step .atcanminiPelican) sample [(2, .open (.granted Canmsg.zero))]).map
      (fun S => (sends .atcanminiPelican (.write true [.ofMsg (delayedBy (2 ^ 32))])
        (S.chan 2)).map fun c => (c.2.sys.baud, decide (0 < c.1.remaining c.2.sys.baud),
          (sendcanmsg .atcanminiPelican c.1 c.2).2.1, decide (Waits .atcanminiPelican c))) =
      some [(125, true, true, false)] ∧
    (Run.exec (step .atcanminiPelican) sample [(2, .open (.granted Canmsg.zero))]).map
      (fun S => (sends .atcanminiPelican (.write true [.ofMsg (delayedBy 3000000)])
        (S.chan 2)).map fun c => (c.2.sys.baud, decide (0 < c.1.remaining c.2.sys.baud),
          (sendcanmsg .atcanminiPelican c.1 c.2).2.2.timerNs,
          decide (Waits .atcanminiPelican c))) =
      some [(125, true, some (-1295319296), false)] := by
  decide

end Channels

end Can4linux
