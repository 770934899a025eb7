/-
  Can4linux.Independence

  The channels do not influence each other.  What a channel's user and its
  controller see of a run of the whole driver is what they see of the run of that
  channel's operations alone; only the number of the pool slot may differ.
-/

import Can4linux.Lib.Project
import Can4linux.Channels

namespace Can4linux

variable {σ : Type} [Chip σ] (t : Target)

/-! ## One operation of two channels that differ in the slot -/

namespace Alike

variable {s u : Chan (Recorder σ)} (h : Alike s u) (op : ChanOp σ)

include h

theorem chanAfter : Alike (Channels.chanAfter t op s) (Channels.chanAfter t op u) := by
  -- a function of the driver neither reads nor moves the slot; only the timer is looked at
  cases op with
  | «open» env => exact h.map fun p s => congrArg Prod.snd (canOpen_set t env p s)
  | close => exact h.map fun p s => congrArg Prod.snd (canClose_set t p s)
  | write accessOk us => exact (h.canWrite t accessOk us).2
  | read accessOk count =>
      exact h.map fun p s => congrArg (fun r => r.2.2) (canRead_set accessOk count p s)
  | ioctl cmd env => exact h.map fun p s => congrArg (fun r => r.2.2) (canIoctl_set t cmd env p s)
  | sysctl sys => exact h.map (f := fun s => { s with sys := sys }) fun _ _ => rfl
  | irq tstamp => exact h.irqIteration t tstamp
  | timer => exact h.disarm.delayedmsgworker t
  | device c =>
      exact h.map (f := fun s => { s with chip := { s.chip with dev := c } }) fun _ _ => rfl

theorem answer : Channels.answer t op u = Channels.answer t op s := by
  cases op with
  | write accessOk us => exact congrArg Answer.result (h.canWrite t accessOk us).1
  | «open» env =>
      refine h.ignores (f := Channels.answer t (.open env)) fun p s => ?_
      simp only [Channels.answer, canOpen_set]
  | close =>
      refine h.ignores (f := Channels.answer t .close) fun p s => ?_
      simp only [Channels.answer, canClose_set]
  | read accessOk count =>
      refine h.ignores (f := Channels.answer t (.read accessOk count)) fun p s => ?_
      simp only [Channels.answer, canRead_set]
  | ioctl cmd env =>
      refine h.ignores (f := Channels.answer t (.ioctl cmd env)) fun p s => ?_
      simp only [Channels.answer, canIoctl_set]
  | sysctl _ | irq _ | timer | device _ => rfl

theorem fileAfter (file : Bool) :
    Channels.fileAfter t file op u = Channels.fileAfter t file op s := by
  cases op with
  | «open» env =>
      refine h.ignores (f := Channels.fileAfter t file (.open env)) fun p s => ?_
      simp only [Channels.fileAfter, canOpen_set]
  | close | write _ _ | read _ _ | ioctl _ _ | sysctl _ | irq _ | timer | device _ => rfl

omit [Chip σ] in
theorem enabled (file : Bool) : Channels.enabled file op u = Channels.enabled file op s := by
  cases op with
  | irq tstamp =>
      exact h.ignores (f := Channels.enabled file (.irq tstamp)) fun _ _ => rfl
  | timer => exact h.timerArmed
  | «open» _ | close | write _ _ | read _ _ | ioctl _ _ | sysctl _ | device _ => rfl

end Alike

namespace Channels

variable {S S' : Channels σ} {i j : Fin maxChannels}

omit [Chip σ] in
/-- What another channel does to the pool, channel `j` does not see. -/
theorem Fits.alike {s u : Chan (Recorder σ)} (h : Fits S i s) (hj : j ≠ i)
    (hu : Alike (S.chan j) u) : Alike ((S.put i s).chan j) u := by
  refine ⟨?_, ?_, h.ok.hasSlot j, hu.right⟩
  · obtain ⟨p, hp⟩ := hu.frame
    refine ⟨p, ?_⟩
    rw [put_other S hj, hp]
    rfl
  · rw [h.others j hj]
    exact hu.timer

/-- Channel `j` shows the same in both states. -/
def Same (j : Fin maxChannels) (S T : Channels σ) : Prop :=
  Alike (S.chan j) (T.chan j) ∧ T.file j = S.file j

/-- The other channels change nothing that channel `j` sees, and its own operations go the
    same way. -/
theorem unwinding (j : Fin maxChannels) :
    Run.Unwinding (step (σ := σ) t) (out t j) PoolOk (fun l => l.1 = j) (Same j) where
  inv _ _ _ h hstep := step_poolOk t h hstep
  other := by
    rintro S T ⟨i, op⟩ S' h ⟨halike, hfile⟩ hij hstep
    have hij : i ≠ j := by simpa using hij
    -- a step of another channel leaves the timer of channel `j` as it is, whatever its slot
    rw [step_eq t h] at hstep
    split at hstep
    · obtain rfl := Option.some.inj hstep
      refine ⟨⟨(fits_chanAfter t h).alike hij.symm halike, ?_⟩, if_neg hij⟩
      rw [hfile]
      exact (Function.update_of_ne hij.symm ..).symm
    · cases hstep
  own := by
    rintro S T ⟨i, op⟩ S' hS hT ⟨halike, hfile⟩ hij hstep
    obtain rfl : i = j := by simpa using hij
    have hen := halike.enabled op (S.file i)
    have hafter := halike.fileAfter t op (S.file i)
    -- a step of channel `j` is enabled in both runs, and the channels stay alike
    rw [step_eq t hS] at hstep
    split at hstep
    · rename_i htrue
      obtain rfl := Option.some.inj hstep
      refine ⟨{ T.put i (chanAfter t op (T.chan i)) with
        file := Function.update T.file i (fileAfter t (S.file i) op (T.chan i)) },
        ?_, ⟨?_, ?_⟩, ?_⟩
      · rw [step_eq t hT, hfile, hen, if_pos htrue]
      · show Alike ((S.put i _).chan i) ((T.put i _).chan i)
        rw [put_self, put_self]
        exact halike.chanAfter t op
      · show Function.update T.file i _ i = Function.update S.file i _ i
        rw [Function.update_self, Function.update_self, hafter]
      · rw [out, out, if_pos rfl, if_pos rfl, halike.answer]
    · cases hstep

/-- The channel shows the same: everything but the slot of the pool that it has, the record
    of the accesses to its controller included. -/
structure Looks (s u : Chan (Recorder σ)) : Prop where
  dev : { u.toDev with delayedwork := none } = { s.toDev with delayedwork := none }
  sys : u.sys = s.sys
  held : u.held = s.held
  hist : u.hist = s.hist
  timer : u.timer = s.timer
  chip : u.chip = s.chip

omit [Chip σ] in
theorem looks_of_alike {s u : Chan (Recorder σ)} (h : Alike s u) : Looks s u := by
  have htimer := h.timer
  obtain ⟨p, rfl⟩ := h.frame
  exact ⟨rfl, rfl, rfl, rfl, htimer, rfl⟩

/-- What keeps channel `j` apart from the others in the pool: it finds a slot, nobody shares
    it, every armed slot belongs to the device it names, and the expiry of the channel's
    timer works for the channel. -/
structure Apart (S : Channels σ) (j : Fin maxChannels) : Prop where
  room : (S.chan j).HasSlot
  alone : ∀ i k, (S.chan i).delayedwork = some k → (S.chan j).delayedwork = some k → i = j
  armed : ∀ k, (S.kapi.dly k).expires.isSome = true →
    ∃ i, (S.chan i).delayedwork = some k ∧ candev (S.kapi.dly k).data = some i
  expiry : ∀ S', step t S (j, .timer) = some S' →
    S' = S.put j (delayedmsgworker t (S.chan j).disarm)

theorem PoolOk.apart (h : PoolOk S) (j : Fin maxChannels) : Apart t S j where
  room := h.hasSlot j
  alone i k hi hj := h.slots.inj i j k hi hj
  armed _ harmed := h.armed_owner harmed
  expiry S' hstep := by
    have hfile : Function.update S.file j (S.file j) = S.file := Function.update_eq_self j S.file
    rw [step_eq t h] at hstep
    split at hstep
    · simp only [fileAfter, hfile] at hstep
      exact (Option.some.inj hstep).symm
    · cases hstep

/-- **The channels do not influence each other.**  A run of the driver shows channel `j`
    what the run of its own operations shows it: its calls hand back the same, and in the end
    the channel looks the same; in the pool it is kept apart from the others. -/
theorem channels_independent {sys : Fin maxChannels → Sysctl} {dev : Fin maxChannels → σ}
    {ls : List (Fin maxChannels × ChanOp σ)}
    (hrun : Run.exec (step t) (loaded t sys dev) ls = some S) (j : Fin maxChannels) :
    (∃ T, Run.exec (step t) (loaded t sys dev) (ls.filter fun l => l.1 = j) = some T ∧
      Run.observe (step t) (out t j) (loaded t sys dev) ls =
        Run.observe (step t) (out t j) (loaded t sys dev) (ls.filter fun l => l.1 = j) ∧
      Looks (S.chan j) (T.chan j)) ∧ Apart t S j := by
  have hload : PoolOk (loaded t sys dev) := poolOk_loaded t sys dev
  have hsame : Same j (loaded t sys dev) (loaded t sys dev) := ⟨.refl (hload.hasSlot j), rfl⟩
  -- the two runs start from the same state and stay alike step by step
  obtain ⟨T, hrun', ⟨halike, -⟩, hobs⟩ := (unwinding t j).exec_filter hload hload hsame hrun
  exact ⟨⟨T, hrun', hobs, looks_of_alike halike⟩, (reachable_poolOk t hrun).apart t j⟩

/-- Two channels are opened and arm their timers, which run out in the other order. -/
def twoDelayed : List (Fin maxChannels × ChanOp (Sja1000 .atcanminiPelican)) :=
  let m : Canmsg := { Canmsg.zero with timestamp := ⟨0, 100000⟩ }
  [(1, .open (.granted Canmsg.zero)), (0, .open (.granted Canmsg.zero)),
    (1, .write true [.ofMsg m]), (0, .write true [.ofMsg m]), (0, .timer), (1, .timer), (1, .close)]

theorem channels_independent_two : ∃ S,
    Run.exec (step .atcanminiPelican) sample twoDelayed = some S ∧
    (∃ T, Run.exec (step .atcanminiPelican) sample (twoDelayed.filter fun l => l.1 = 0) = some T ∧
      Run.observe (step .atcanminiPelican) (out .atcanminiPelican 0) sample twoDelayed =
        Run.observe (step .atcanminiPelican) (out .atcanminiPelican 0) sample
          (twoDelayed.filter fun l => l.1 = 0) ∧
      Looks (S.chan 0) (T.chan 0)) ∧ Apart .atcanminiPelican S 0 := by
  have hsome : (Run.exec (step .atcanminiPelican) sample twoDelayed).isSome = true := by
    decide
  obtain ⟨S, hS⟩ := Option.isSome_iff_exists.mp hsome
  exact ⟨S, hS, channels_independent .atcanminiPelican hS 0⟩

end Channels

end Can4linux
