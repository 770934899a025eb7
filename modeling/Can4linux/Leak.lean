/-
  Can4linux.Leak

  What `read()` reveals of the memory that `kmalloc` returned for the receive
  queue.  Two runs with the same calls, device and time, but different contents
  of that memory, go through the driver in lockstep (`Twin`): nothing but the
  slots themselves ever depends on them.  What a slot hands on is a relation
  between its contents in the two runs that both producers keep.

  Neither `readcanmsg` nor `errmsg` ever stores `cob`, so a slot shows what the
  memory held as long as the buffer lives, and so does every message.
-/

import Can4linux.Driver

namespace Can4linux

variable {σ : Type} [Chip σ] {t : Target}

/-! ## Runs that differ in the memory of the receive queue -/

/-- The answers of the kernel are the same but for what the memory of the receive queue
    holds, which is related slot by slot. -/
def OpenEnv.Same (ρ : Canmsg → Canmsg → Prop) (env env' : OpenEnv) : Prop :=
  env'.regionFree = env.regionFree ∧ env'.irqFree = env.irqFree ∧ env'.txBlock = env.txBlock ∧
    Option.Rel (fun b b' => b'.1 = b.1 ∧ ∀ i, ρ (b.2 i) (b'.2 i)) env.rxBlock env'.rxBlock

/-- The steps are the same but for what the memory of the receive queue holds. -/
def SameCall (ρ : Canmsg → Canmsg → Prop) : DrvOp σ → DrvOp σ → Prop
  | .open env, op => ∃ env', op = .open env' ∧ env.Same ρ env'
  | op, op' => op' = op

/-- The messages that a step copies to user space. -/
def Chan.copied {σ : Type} (s : Chan σ) : DrvOp σ → List Canmsg
  | .read accessOk count => if s.isopen = 1 then (canRead accessOk count s).2.1 else []
  | _ => []

/-- The messages that a run copies to user space, in order. -/
def copiedBy (t : Target) : Chan σ → List (DrvOp σ) → List Canmsg :=
  Run.observe (Chan.drive t) Chan.copied

/-! ## The slots -/

/-- Other contents of the receive slots, and another history, which no function reads. -/
def Chan.swapRx {σ : Type} (s : Chan σ) (d : CInt → Canmsg) (h : Hist) : Chan σ :=
  { s with rxq := { s.rxq with data := d }, hist := h }

/-- The channels are the same but for the contents of the receive slots, which are related,
    and the history. -/
def Twin {σ : Type} (ρ : Canmsg → Canmsg → Prop) (s s' : Chan σ) : Prop :=
  ∃ d h, (∀ i, ρ (s.rxq.data i) (d i)) ∧ s' = s.swapRx d h

/-- Both producers keep the relation between two slots. -/
structure Kept (σ : Type) [Chip σ] (t : Target) (ρ : Canmsg → Canmsg → Prop) : Prop where
  read : ∀ (inf : Msginf) (m m' : Canmsg) (c : σ), ρ m m' →
    ρ (readcanmsg t inf m c).1 (readcanmsg t inf m' c).1
  err : ∀ (inf : Msginf) (m m' : Canmsg), ρ m m' → ρ (errmsg inf m) (errmsg inf m')

/-- What is known of two slots is nothing. -/
theorem kept_true : Kept σ t fun _ _ => True :=
  ⟨fun _ _ _ _ _ => trivial, fun _ _ _ _ => trivial⟩

/-- The slots differ by one in `cob`, which no producer stores. -/
theorem kept_cob : Kept σ t fun m m' => m'.cob = m.cob + 1 :=
  ⟨fun _ _ _ _ h => h, fun _ _ _ h => h⟩

/-- The registers that a loop reads do not depend on where it stores them. -/
theorem readData_snd (reg : Nat → Reg) (n : Nat) (d d' : Fin 8 → U8) (c : σ) :
    (readData t reg n d c).2 = (readData t reg n d' c).2 := by
  induction n with
  | zero => rfl
  | succ n ih =>
      simp only [readData]
      rw [ih]

/-- The accesses of `readcanmsg` do not depend on the slot. -/
theorem readcanmsg_snd (inf : Msginf) (m m' : Canmsg) (c : σ) :
    (readcanmsg t inf m c).2 = (readcanmsg t inf m' c).2 := by
  simp only [readcanmsg]
  rw [readData_snd _ _ m.data m'.data]

/-! ## Functions that do not look at the receive slots -/

/-- The function leaves the receive queue alone, and does the same whatever its slots hold. -/
def Blind {σ : Type} (f : Chan σ → Chan σ) : Prop :=
  ∀ s, (f s).rxq = s.rxq ∧ ∀ d h, ∃ h', f (s.swapRx d h) = (f s).swapRx d h'

namespace Blind

omit [Chip σ] in
theorem of_eq {f g : Chan σ → Chan σ} (h : Blind g) (heq : ∀ s, f s = g s) : Blind f := by
  rwa [funext heq]

omit [Chip σ] in
theorem comp {f g : Chan σ → Chan σ} (hg : Blind g) (hf : Blind f) : Blind (g ∘ f) := by
  intro s
  refine ⟨(hg (f s)).1.trans (hf s).1, ?_⟩
  intro d h
  obtain ⟨h', heq⟩ := (hf s).2 d h
  obtain ⟨h'', heq'⟩ := (hg (f s)).2 d h'
  exact ⟨h'', (congrArg g heq).trans heq'⟩

omit [Chip σ] in
theorem onChip (f : σ → σ) : Blind (Chan.onChip f) := fun _ => ⟨rfl, fun _ h => ⟨h, rfl⟩⟩

omit [Chip σ] in
theorem disarm : Blind (Chan.disarm (σ := σ)) := by
  intro s
  unfold Chan.disarm
  refine ⟨?_, fun d h => ⟨h, ?_⟩⟩
  · split <;> rfl
  · simp only [Chan.swapRx]
    split <;> rfl

omit [Chip σ] in
theorem id : Blind (σ := σ) fun s => s := fun _ => ⟨rfl, fun _ h => ⟨h, rfl⟩⟩

omit [Chip σ] in
/-- A choice that does not look at the receive slots either. -/
theorem ite {f g : Chan σ → Chan σ} (c : Chan σ → Bool) (hc : ∀ s d h, c (s.swapRx d h) = c s)
    (hf : Blind f) (hg : Blind g) : Blind fun s => if c s then f s else g s := by
  intro s
  simp only [hc]
  cases c s with
  | true => exact hf s
  | false => exact hg s

omit [Chip σ] in
theorem wakeWriters : Blind (Chan.wakeWriters (σ := σ)) := by
  have hwake : Blind (Chan.wakeUp (σ := σ)) := fun _ => ⟨rfl, fun _ h => ⟨h, rfl⟩⟩
  exact ite (fun s => s.txq.qlen.sle (s.txq.qsize.sdiv 2)) (fun _ _ _ => rfl) hwake id

omit [Chip σ] in
theorem kapiScheduleDelayed (usec : CInt) : Blind (Chan.kapiScheduleDelayed (σ := σ) usec) := by
  intro s
  unfold Chan.kapiScheduleDelayed
  cases hdly : s.delayedwork with
  | none =>
      by_cases hout : s.kapi.idly = maxChannels
      · exact ⟨by simp [hout], fun d h => ⟨h, by simp [Chan.swapRx, hdly, hout]⟩⟩
      · exact ⟨by simp [hout], fun d h => ⟨h, by simp [Chan.swapRx, hdly, hout]⟩⟩
  | some i => exact ⟨rfl, fun d h => ⟨h, by simp [Chan.swapRx, Chan.setTimer, hdly]⟩⟩

theorem txConsume : Blind (txConsume (σ := σ) t) := by
  intro s
  refine ⟨(txConsume_wq t s).2, ?_⟩
  intro d h
  cases hempty : s.txq.empty with
  | true => exact ⟨h, by simp [Can4linux.txConsume, MsgQ.qconsume, Chan.swapRx, hempty]⟩
  | false =>
      by_cases hw : waits s.sys.baud s.txq.head.capLength = true
      · obtain ⟨h', heq⟩ := (kapiScheduleDelayed
          (remainingDelay s.sys.baud s.txq.head.capLength) s).2 d h
        refine ⟨h', ?_⟩
        have heq' := congrArg (fun c : Chan σ =>
          { c with txq := s.txq.setHead s.txq.head.capLength.clearDelay }) heq
        simpa [Can4linux.txConsume, MsgQ.qconsume, sendcanmsg, Chan.swapRx, hempty, hw] using heq'
      · refine ⟨{ h with loaded := h.loaded ++ [s.txq.head.onWire] }, ?_⟩
        simp [Can4linux.txConsume, MsgQ.qconsume, sendcanmsg, Chan.swapRx, hempty, hw]

theorem delayedmsgworker : Blind (delayedmsgworker (σ := σ) t) := wakeWriters.comp txConsume

theorem txIrq (irqsrc : U8) : Blind (txIrq (σ := σ) t irqsrc) := by
  have hclear : Blind fun s : Chan σ => { s with txinprogress := 0 } :=
    fun _ => ⟨rfl, fun _ h => ⟨h, rfl⟩⟩
  unfold Can4linux.txIrq
  split
  · exact wakeWriters.comp (txConsume.comp hclear)
  · exact fun _ => ⟨rfl, fun _ h => ⟨h, rfl⟩⟩

/-- A round of `can_write` that finds room. -/
theorem kickIdle : Blind (kickIdle (σ := σ) t) := by
  intro s
  have hclear : Blind fun s : Chan σ => { s with txq := s.txq.setIdle false } :=
    fun _ => ⟨rfl, fun _ h => ⟨h, rfl⟩⟩
  have hkick := txConsume (t := t).comp hclear s
  unfold Can4linux.kickIdle
  cases hidle : s.txq.idle with
  | true => simpa [Chan.swapRx, hidle] using hkick
  | false => exact ⟨rfl, fun d h => ⟨h, by simp [Chan.swapRx, hidle]⟩⟩

theorem canStopChip : Blind (canStopChip (σ := σ) t) := onChip _

theorem canStartChip : Blind (canStartChip (σ := σ) t) := fun _ => ⟨rfl, fun _ h => ⟨h, rfl⟩⟩

theorem canChipReset : Blind fun s : Chan σ => (canChipReset t s).2 := by
  intro s
  cases hres : entersReset t s.chip with
  | true =>
      refine ⟨by simp [Can4linux.canChipReset, hres], fun d h => ⟨h, ?_⟩⟩
      simp only [Can4linux.canChipReset, Chan.swapRx, hres, Bool.not_true, Bool.false_eq_true,
        if_false]
      rfl
  | false =>
      refine ⟨by simp [Can4linux.canChipReset, Chan.decusers, hres], fun d h => ⟨h, ?_⟩⟩
      simp [Can4linux.canChipReset, Chan.swapRx, Chan.decusers, hres]

theorem canCommand (cmd : CInt) : Blind fun s : Chan σ => (canCommand t cmd s).2 := by
  unfold Can4linux.canCommand
  split
  · exact canStartChip
  · split
    · exact canStopChip
    · split
      · exact canChipReset
      · exact fun _ => ⟨rfl, fun _ h => ⟨h, rfl⟩⟩

theorem canConfig (target : CInt) (val1 val2 : CLong) :
    Blind fun s : Chan σ => (canConfig t target val1 val2 s).2 := by
  unfold Can4linux.canConfig
  intro s
  refine ⟨?_, fun d h => ⟨h, ?_⟩⟩
  · repeat' split
    all_goals rfl
  · repeat' split
    all_goals rfl

omit [Chip σ] in
theorem releaseRegion : Blind (releaseRegion (σ := σ) t) := by
  intro s
  unfold Can4linux.releaseRegion
  cases hr : t.releaseRegion s.sys.base s.canRange with
  | none => exact ⟨rfl, fun d h => ⟨h, by simp [Chan.swapRx, hr]⟩⟩
  | some r => exact ⟨rfl, fun d h => ⟨h, by simp [Chan.swapRx, hr]⟩⟩

omit [Chip σ] in
/-- The blocks are freed by their numbers. -/
theorem canFifoCleanup : Blind (canFifoCleanup (σ := σ)) := by
  intro s
  unfold Can4linux.canFifoCleanup Chan.qfree
  cases htx : s.txq.buf with
  | none =>
      cases hrx : s.rxq.buf with
      | none => exact ⟨by simp [hrx], fun d h => ⟨h, by simp [Chan.swapRx, htx, hrx]⟩⟩
      | some b => exact ⟨by simp [hrx], fun d h => ⟨h, by simp [Chan.swapRx, htx, hrx]⟩⟩
  | some b =>
      cases hrx : s.rxq.buf with
      | none => exact ⟨by simp [hrx], fun d h => ⟨h, by simp [Chan.swapRx, htx, hrx]⟩⟩
      | some b => exact ⟨by simp [hrx], fun d h => ⟨h, by simp [Chan.swapRx, htx, hrx]⟩⟩

theorem canClose : Blind fun s : Chan σ => (canClose t s).2 := by
  have hirq : Blind (canFreeIrq (σ := σ)) := fun _ => ⟨rfl, fun _ h => ⟨h, rfl⟩⟩
  have hflag : Blind fun s : Chan σ => Chan.decusers { s with isopen := s.isopen - 1 } :=
    fun _ => ⟨rfl, fun _ h => ⟨h, rfl⟩⟩
  have hend := ite (fun s => (0#32).slt s.isopen) (fun _ _ _ => rfl) hflag id
  have hall := hend.comp (hirq.comp (canFifoCleanup.comp (releaseRegion (t := t).comp
    (canStopChip (t := t)))))
  refine hall.of_eq fun s => ?_
  simp only [Can4linux.canClose, Function.comp_apply]
  split
  · rfl
  · rfl

end Blind

/-! ## Lockstep -/

namespace Twin

variable {ρ : Canmsg → Canmsg → Prop} {s s' : Chan σ}

omit [Chip σ] in
theorem map (h : Twin ρ s s') {f : Chan σ → Chan σ} (hf : Blind f) : Twin ρ (f s) (f s') := by
  obtain ⟨d, hist, hd, rfl⟩ := h
  obtain ⟨hrx, hswap⟩ := hf s
  obtain ⟨hist', heq⟩ := hswap d hist
  exact ⟨d, hist', by rw [hrx]; exact hd, heq⟩

omit [Chip σ] in
/-- A producer that accesses the device the same way whatever the slot holds. -/
theorem rxproduce (h : Twin ρ s s') {produce : Canmsg → σ → Canmsg × σ}
    (hchip : ∀ m m' c, (produce m c).2 = (produce m' c).2)
    (hslot : ∀ m m' c, ρ m m' → ρ (produce m c).1 (produce m' c).1) :
    Twin ρ (rxproduce produce s) (rxproduce produce s') := by
  obtain ⟨d, hist, hd, rfl⟩ := h
  have hfull' : (s.swapRx d hist).rxq.full = s.rxq.full := rfl
  cases hfull : s.rxq.full with
  | true =>
      rw [rxproduce_full hfull, rxproduce_full (hfull'.trans hfull)]
      exact ⟨d, hist, hd, rfl⟩
  | false =>
      have hdev := hchip (d (Ring.slot s.rxq.mask s.rxq.produced)) s.rxq.freeSlot s.chip
      have hnew := hslot _ _ s.chip (hd (Ring.slot s.rxq.mask s.rxq.produced))
      rw [rxproduce_room hfull, rxproduce_room (hfull'.trans hfull)]
      refine ⟨Function.update d (Ring.slot s.rxq.mask s.rxq.produced)
          (produce (d (Ring.slot s.rxq.mask s.rxq.produced)) s.chip).1,
        { hist with received := hist.received ++
          [(produce (d (Ring.slot s.rxq.mask s.rxq.produced)) s.chip).1] }, ?_, ?_⟩
      · intro i
        by_cases hi : i = Ring.slot s.rxq.mask s.rxq.produced
        · subst hi
          simpa [Chan.wakeUp, MsgQ.publish, MsgQ.fill, MsgQ.freeSlot] using hnew
        · simpa [Chan.wakeUp, MsgQ.publish, MsgQ.fill, hi] using hd i
      · simp only [Chan.wakeUp, Chan.swapRx, MsgQ.publish, MsgQ.fill, MsgQ.freeSlot] at hdev ⊢
        rw [hdev]

/-! ### Interrupts -/

theorem rxIrq (h : Twin ρ s s') (hρ : Kept σ t ρ) (irqsrc : U8) (inf : Msginf) :
    Twin ρ (rxIrq t irqsrc inf s) (rxIrq t irqsrc inf s') := by
  unfold Can4linux.rxIrq
  split
  · have hrx := h.rxproduce (fun m m' c => readcanmsg_snd (t := t) inf m m' c)
      (fun m m' c hm => hρ.read inf m m' c hm)
    apply hrx.map (Blind.onChip fun c =>
      let rd := canIn t .canstat c
      if isSet rd.1 canDataOverrun then canOut t .cancmd canClearOverrunStatus rd.2 else rd.2)
  · exact h

theorem err (h : Twin ρ s s') (hρ : Kept σ t ρ) (inf : Msginf) :
    Twin ρ (rxproduceErr inf s) (rxproduceErr inf s') :=
  h.rxproduce (fun _ _ _ => rfl) (fun m m' _ hm => hρ.err inf m m' hm)

/-- The error-warning branch takes the same decisions. -/
theorem errWarnIrq (h : Twin ρ s s') (hρ : Kept σ t ρ) (irqsrc : U8) (inf : Msginf) :
    (errWarnIrq t irqsrc inf s').1 = (errWarnIrq t irqsrc inf s).1 ∧
      (errWarnIrq t irqsrc inf s').2.1 = (errWarnIrq t irqsrc inf s).2.1 ∧
      Twin ρ (errWarnIrq t irqsrc inf s).2.2 (errWarnIrq t irqsrc inf s').2.2 := by
  have hchip : s'.chip = s.chip := by
    obtain ⟨d, hist, -, rfl⟩ := h
    rfl
  have hprog : s'.txinprogress = s.txinprogress := by
    obtain ⟨d, hist, -, rfl⟩ := h
    rfl
  have hset : ∀ c, Twin ρ { s with chip := c } { s' with chip := c } :=
    fun c => h.map (f := fun s => { s with chip := c }) (fun _ => ⟨rfl, fun _ h => ⟨h, rfl⟩⟩)
  unfold Can4linux.errWarnIrq
  simp only [hchip, hprog]
  split
  · split
    · exact ⟨rfl, rfl, (hset _).err hρ _⟩
    · exact ⟨rfl, rfl, (hset _).err hρ _⟩
  · exact ⟨rfl, rfl, h⟩

theorem overrunIrq (h : Twin ρ s s') (hρ : Kept σ t ρ) (irqsrc : U8) (inf : Msginf) :
    Twin ρ (overrunIrq t irqsrc inf s) (overrunIrq t irqsrc inf s') := by
  have hchip : s'.chip = s.chip := by
    obtain ⟨d, hist, -, rfl⟩ := h
    rfl
  have hset : ∀ c, Twin ρ
      { s with sys := { s.sys with overrun := s.sys.overrun + 1 }, chip := c }
      { s' with sys := { s'.sys with overrun := s'.sys.overrun + 1 }, chip := c } :=
    fun c => h.map (f := fun s : Chan σ =>
      { s with sys := { s.sys with overrun := s.sys.overrun + 1 }, chip := c })
      (fun _ => ⟨rfl, fun _ h => ⟨h, rfl⟩⟩)
  unfold Can4linux.overrunIrq
  simp only [hchip]
  split
  · exact ((hset _).err hρ _).map (Blind.onChip _)
  · exact h

theorem irq (h : Twin ρ s s') (hρ : Kept σ t ρ) (tstamp : Timeval) :
    Twin ρ (irqIteration t tstamp s) (irqIteration t tstamp s') := by
  have hchip : s'.chip = s.chip := by
    obtain ⟨d, hist, -, rfl⟩ := h
    rfl
  have hstatus : s'.rxstatus = s.rxstatus := by
    obtain ⟨d, hist, -, rfl⟩ := h
    rfl
  have hread : Twin ρ { s with chip := (canIn t .canirq s.chip).2 }
      { s' with chip := (canIn t .canirq s.chip).2 } :=
    h.map (f := fun s => { s with chip := _ }) (fun _ => ⟨rfl, fun _ h => ⟨h, rfl⟩⟩)
  unfold irqIteration irqBody
  simp only [hchip, hstatus]
  split
  · exact hread
  · have hrx := hread.rxIrq hρ (canIn t .canirq s.chip).1 ⟨presetFlags s.rxstatus, tstamp⟩
    obtain ⟨hsrc, hinf, hew⟩ :=
      hrx.errWarnIrq hρ (canIn t .canirq s.chip).1 ⟨presetFlags s.rxstatus, tstamp⟩
    rw [hsrc, hinf]
    exact (hew.map (Blind.txIrq _)).overrunIrq hρ _ _

/-! ### File operations -/

omit [Chip σ] in
/-- A round of `can_read` copies related slots. -/
theorem readOne (h : Twin ρ s s') :
    Option.Rel ρ (readOne s).1 (readOne s').1 ∧ Twin ρ (readOne s).2 (readOne s').2 := by
  obtain ⟨d, hist, hd, rfl⟩ := h
  have hempty' : (s.swapRx d hist).rxq.empty = s.rxq.empty := rfl
  rcases readOne_cases s with ⟨hempty, heq⟩ | ⟨hne, heq⟩
  · rcases readOne_cases (s.swapRx d hist) with ⟨-, heq'⟩ | ⟨hne', -⟩
    · rw [heq, heq']
      exact ⟨.none, d, hist, hd, rfl⟩
    · rw [hempty', hempty] at hne'
      cases hne'
  · rcases readOne_cases (s.swapRx d hist) with ⟨hempty, -⟩ | ⟨-, heq'⟩
    · rw [hempty', hne] at hempty
      cases hempty
    · rw [heq, heq']
      exact ⟨.some (hd _), d, _, hd, rfl⟩

omit [Chip σ] in
theorem readLoop (h : Twin ρ s s') (n : Nat) :
    List.Forall₂ ρ (readLoop n s).1 (readLoop n s').1 ∧
      Twin ρ (readLoop n s).2 (readLoop n s').2 := by
  induction n generalizing s s' with
  | zero => exact ⟨.nil, h⟩
  | succ n ih =>
      obtain ⟨hmsg, hone⟩ := h.readOne
      simp only [Can4linux.readLoop]
      generalize (Can4linux.readOne s).1 = r at hmsg
      generalize (Can4linux.readOne s').1 = r' at hmsg
      cases hmsg with
      | none => exact ⟨.nil, hone⟩
      | some hm =>
          obtain ⟨hrest, hend⟩ := ih hone
          exact ⟨.cons hm hrest, hend⟩

omit [Chip σ] in
theorem read (h : Twin ρ s s') (accessOk : Bool) (count : Nat) :
    List.Forall₂ ρ (canRead accessOk count s).2.1 (canRead accessOk count s').2.1 ∧
      Twin ρ (canRead accessOk count s).2.2 (canRead accessOk count s').2.2 := by
  cases accessOk with
  | false => exact ⟨.nil, h⟩
  | true => exact h.readLoop count

theorem writeOne (h : Twin ρ s s') (u : UserMsg) :
    (writeOne t u s').1 = (writeOne t u s).1 ∧
      Twin ρ (writeOne t u s).2 (writeOne t u s').2 := by
  have htxq : s'.txq = s.txq := by
    obtain ⟨d, hist, -, rfl⟩ := h
    rfl
  have henqueue : Blind fun s : Chan σ => { s with
      txq := (s.txq.fill (u s.txq.freeSlot)).publish
      hist := { s.hist with accepted := s.hist.accepted ++ [u s.txq.freeSlot] } } :=
    fun _ => ⟨rfl, fun _ h => ⟨_, rfl⟩⟩
  rcases writeOne_any t s u with ⟨hfull, heq⟩ | ⟨hroom, heq⟩
  · rcases writeOne_any t s' u with ⟨-, heq'⟩ | ⟨hroom', -⟩
    · rw [heq, heq']
      exact ⟨rfl, h⟩
    · rw [htxq, hfull] at hroom'
      cases hroom'
  · rcases writeOne_any t s' u with ⟨hfull', -⟩ | ⟨-, heq'⟩
    · rw [htxq, hroom] at hfull'
      cases hfull'
    · rw [heq, heq']
      exact ⟨rfl, (h.map henqueue).map Blind.kickIdle⟩

theorem write (h : Twin ρ s s') (accessOk : Bool) (us : List UserMsg) :
    Twin ρ (canWrite t accessOk us s).2 (canWrite t accessOk us s').2 := by
  cases accessOk with
  | false => exact h
  | true =>
      show Twin ρ (writeLoop t us s).2 (writeLoop t us s').2
      induction us generalizing s s' with
      | nil => exact h
      | cons u us ih =>
          obtain ⟨hsame, hone⟩ := h.writeOne (t := t) u
          simp only [writeLoop, hsame]
          split
          · exact ih hone
          · exact hone

/-- `CAN_VendorInit` with the same answers does the same. -/
theorem canVendorInit {env env' : OpenEnv} (hregion : env'.regionFree = env.regionFree)
    (hirq : env'.irqFree = env.irqFree) (s : Chan σ) (d : CInt → Canmsg) (hist : Hist) :
    canVendorInit t env' (s.swapRx d hist) =
      ((canVendorInit t env s).1, (canVendorInit t env s).2.swapRx d hist) := by
  unfold Can4linux.canVendorInit requestRegion canRequestIrq
  simp only [hregion, hirq, Chan.swapRx]
  cases t.requestRegion s.sys.base t.canRange with
  | none =>
      simp only
      cases hpos : (0#32).slt s.sys.irq with
      | false => simp [hpos, Chan.onChip]
      | true => cases env.irqFree <;> simp [hpos, Chan.onChip]
  | some r =>
      cases env.regionFree with
      | false => rfl
      | true =>
          simp only [if_true]
          cases hpos : (0#32).slt s.sys.irq with
          | false => simp [hpos, Chan.onChip]
          | true => cases env.irqFree <;> simp [hpos, Chan.onChip]

omit [Chip σ] in
/-- Both queues are created: the slots hold what the memory held. -/
theorem canFifoInit {env env' : OpenEnv} (henv : env.Same ρ env') (d : CInt → Canmsg)
    (hist : Hist) (hfifo : (canFifoInit env s).1 = true) :
    (canFifoInit env' (s.swapRx d hist)).1 = true ∧
      Twin ρ (canFifoInit env s).2 (Can4linux.canFifoInit env' (s.swapRx d hist)).2 := by
  obtain ⟨-, -, htx', hrx'⟩ := henv
  rw [canFifoInit_fst, Bool.and_eq_true] at hfifo
  obtain ⟨rxb, hrx⟩ := Option.isSome_iff_exists.mp hfifo.1
  obtain ⟨txb, htx⟩ := Option.isSome_iff_exists.mp hfifo.2
  rw [hrx] at hrx'
  rw [htx] at htx'
  generalize hb : env'.rxBlock = rxb' at hrx'
  cases hrx' with
  | @some _ rxb' hsame =>
      obtain ⟨hnum, hmem⟩ := hsame
      refine ⟨by rw [canFifoInit_fst, hb, htx']; rfl, rxb'.2, hist, ?_, ?_⟩
      · intro i
        simpa [Can4linux.canFifoInit, hrx, htx, qcreate_snd, Chan.holdBuf, MsgQ.qcreate]
          using hmem i
      · simp [Can4linux.canFifoInit, hrx, htx, hb, htx', Chan.holdBuf, MsgQ.qcreate, Chan.swapRx,
          hnum]

/-- After both opens the slots hold what the memory held. -/
theorem canOpen {env env' : OpenEnv} (h : Twin (fun _ _ => True) s s')
    (henv : env.Same ρ env') (h0 : (canOpen t env s).1 = 0) :
    (canOpen t env' s').1 = 0 ∧
      Twin ρ (canOpen t env s).2 (Can4linux.canOpen t env' s').2 := by
  obtain ⟨d, hist, -, rfl⟩ := h
  obtain ⟨hminor, hopen, hbase, hvendor, hfifo, hreset, heq⟩ := canOpen_path t s h0
  have hvendor' := canVendorInit (t := t) henv.1 henv.2.1
    { s.incusers with isopen := 1 } d hist
  obtain ⟨hfifo', htwin⟩ := canFifoInit henv d hist hfifo
  have hreset' : (canChipReset t (Can4linux.canFifoInit env'
      (({ (Can4linux.canVendorInit t env { s.incusers with isopen := 1 }).2 with
        wq := 0 } : Chan σ).swapRx d hist)).2).1 = true := by
    obtain ⟨d', hist', -, hsame⟩ := htwin
    rw [hsame, canChipReset_fst]
    rw [canChipReset_fst] at hreset
    exact hreset
  have h0' : (Can4linux.canOpen t env' (s.swapRx d hist)).1 = 0 := by
    have hpath := @canOpen_of_path σ _ t (s.swapRx d hist) env' hminor hopen hbase
    rw [show { (s.swapRx d hist).incusers with isopen := 1 } =
      ({ s.incusers with isopen := 1 } : Chan σ).swapRx d hist from rfl, hvendor'] at hpath
    exact hpath hvendor hfifo' hreset'
  obtain ⟨-, -, -, -, -, -, heq'⟩ := canOpen_path t (s.swapRx d hist) h0'
  rw [show { (s.swapRx d hist).incusers with isopen := 1 } =
    ({ s.incusers with isopen := 1 } : Chan σ).swapRx d hist from rfl, hvendor'] at heq'
  refine ⟨h0', ?_⟩
  rw [heq, heq']
  exact (htwin.map Blind.canChipReset).map Blind.canStartChip

omit [Chip σ] in
theorem weaken (h : Twin ρ s s') : Twin (fun _ _ => True) s s' := by
  obtain ⟨d, hist, -, hs'⟩ := h
  exact ⟨d, hist, fun _ => trivial, hs'⟩

omit [Chip σ] in
theorem symm (h : Twin ρ s s') : Twin (fun m m' => ρ m' m) s' s := by
  obtain ⟨d, hist, hd, rfl⟩ := h
  exact ⟨s.rxq.data, s.hist, hd, rfl⟩

omit [Chip σ] in
theorem ifOpen {r r' : Chan σ} (h : Twin ρ s s') (hr : Twin ρ r r') :
    Option.Rel (Twin ρ) (s.ifOpen r) (s'.ifOpen r') := by
  have hopen : s'.isopen = s.isopen := by
    obtain ⟨d, hist, -, rfl⟩ := h
    rfl
  unfold Chan.ifOpen
  rw [hopen]
  split
  · exact .some hr
  · exact .none

/-- Either both opens are successful or none is. -/
theorem «open» {env env' : OpenEnv} (h : Twin (fun _ _ => True) s s')
    (henv : env.Same ρ env') :
    Option.Rel (Twin ρ) (s.drive t (.open env)) (s'.drive t (.open env')) := by
  have hback : env'.Same (fun m m' => ρ m' m) env := by
    obtain ⟨hregion, hirq, htx, hrx⟩ := henv
    refine ⟨hregion.symm, hirq.symm, htx.symm, ?_⟩
    generalize env.rxBlock = rxb at hrx
    generalize env'.rxBlock = rxb' at hrx
    cases hrx with
    | none => exact .none
    | some hsame => exact .some ⟨hsame.1.symm, hsame.2⟩
  simp only [Chan.drive]
  by_cases h0 : (Can4linux.canOpen t env s).1 = 0
  · obtain ⟨h0', htwin⟩ := h.canOpen henv h0
    rw [if_pos h0, if_pos h0']
    exact .some htwin
  · have h0' : ¬ (Can4linux.canOpen t env' s').1 = 0 :=
      fun h0' => h0 (h.symm.canOpen hback h0').1
    rw [if_neg h0, if_neg h0']
    exact .none

/-- The same step of both runs leads from twins to twins. -/
theorem step (h : Twin ρ s s') (hρ : Kept σ t ρ) {op op' : DrvOp σ}
    (hop : SameCall ρ op op') : Option.Rel (Twin ρ) (s.drive t op) (s'.drive t op') := by
  cases op with
  | «open» env =>
      obtain ⟨env', rfl, henv⟩ := hop
      exact h.weaken.open henv
  | close =>
      obtain rfl := hop
      exact h.ifOpen (h.map Blind.canClose)
  | write accessOk us =>
      obtain rfl := hop
      exact h.ifOpen (h.write accessOk us)
  | read accessOk count =>
      obtain rfl := hop
      exact h.ifOpen (h.read accessOk count).2
  | command cmd =>
      obtain rfl := hop
      exact h.ifOpen (h.map (Blind.canCommand cmd))
  | config target val1 val2 =>
      obtain rfl := hop
      exact h.ifOpen (h.map (Blind.canConfig target val1 val2))
  | sysctl sys =>
      obtain rfl := hop
      exact .some (h.map (f := fun s => { s with sys := sys })
        (fun _ => ⟨rfl, fun _ h => ⟨h, rfl⟩⟩))
  | irq tstamp =>
      obtain rfl := hop
      exact h.ifOpen (h.irq hρ tstamp)
  | timer =>
      obtain rfl := hop
      have harmed : s'.timerArmed = s.timerArmed := by
        obtain ⟨d, hist, -, rfl⟩ := h
        rfl
      simp only [Chan.drive, harmed]
      split
      · exact .some ((h.map Blind.disarm).map Blind.delayedmsgworker)
      · exact .none
  | device c =>
      obtain rfl := hop
      exact .some (h.map (f := fun s => { s with chip := c })
        (fun _ => ⟨rfl, fun _ h => ⟨h, rfl⟩⟩))

omit [Chip σ] in
/-- What the same step copies in both runs is related message by message. -/
theorem copied (h : Twin ρ s s') {op op' : DrvOp σ} (hop : SameCall ρ op op') :
    List.Forall₂ ρ (s.copied op) (s'.copied op') := by
  have hopen : s'.isopen = s.isopen := by
    obtain ⟨d, hist, -, rfl⟩ := h
    rfl
  cases op with
  | «open» env =>
      obtain ⟨env', rfl, -⟩ := hop
      exact .nil
  | read accessOk count =>
      obtain rfl := hop
      simp only [Chan.copied, hopen]
      split
      · exact (h.read accessOk count).1
      · exact .nil
  | close | write _ _ | command _ | config _ _ _ | sysctl _ | irq _ | timer | device _ =>
      obtain rfl := hop
      exact .nil

end Twin

/-- Two runs that start with an open and differ in the memory of the receive queue copy
    related messages, one by one. -/
theorem copiedBy_related {ρ : Canmsg → Canmsg → Prop} (hρ : Kept σ t ρ) (s : Chan σ)
    {env : OpenEnv} {ops ops' : List (DrvOp σ)}
    (hops : List.Forall₂ (SameCall ρ) (.open env :: ops) ops') :
    List.Forall₂ ρ (copiedBy t s (.open env :: ops)) (copiedBy t s ops') := by
  cases hops with
  | cons hop hrest =>
      obtain ⟨env', rfl, henv⟩ := hop
      have hself : Twin (fun _ _ => True) s s :=
        ⟨s.rxq.data, s.hist, fun _ => trivial, rfl⟩
      have hopen := hself.open (t := t) henv
      simp only [copiedBy, Run.observe]
      generalize s.drive t (.open env) = next at hopen
      generalize s.drive t (.open env') = next' at hopen
      cases hopen with
      | none => exact .nil
      | some htwin =>
          exact Run.observe_forall₂ (fun _ _ _ _ h hop => h.step hρ hop)
            (fun _ _ _ _ h hop => h.copied hop) htwin hrest

/-! ## What the reads reveal -/

/-- A `can_read` that returns no message: its buffer is not accessible, it is asked for none,
    or none is queued. -/
def Chan.findsNothing {σ : Type} (s : Chan σ) : DrvOp σ → Bool
  | .read accessOk count => s.isopen != 1 || !accessOk || count == 0 || s.rxq.empty
  | _ => true

omit [Chip σ] in
theorem copied_eq_nil_iff (s : Chan σ) (op : DrvOp σ) :
    s.copied op = [] ↔ s.findsNothing op = true := by
  cases op with
  | read accessOk count =>
      simp only [Chan.copied, Chan.findsNothing]
      by_cases hopen : s.isopen = 1
      · cases accessOk with
        | false => simp [hopen, canRead]
        | true =>
            cases count with
            | zero => simp [hopen, canRead, readLoop]
            | succ n =>
                rcases readOne_cases s with ⟨hempty, heq⟩ | ⟨hne, heq⟩
                · simp [hopen, canRead, readLoop, heq, hempty]
                · simp [hopen, canRead, readLoop, heq, hne]
      · have hne : (s.isopen != 1) = true := bne_iff_ne.mpr hopen
        rw [if_neg hopen, hne]
        simp
  | «open» _ | close | write _ _ | command _ | config _ _ _ | sysctl _ | irq _ | timer
  | device _ => exact iff_of_true rfl rfl

/-- No `can_read` of the run returns a message. -/
def ReadsNothing (t : Target) : Chan σ → List (DrvOp σ) → Prop :=
  Run.Along (Chan.drive t) fun s op => s.findsNothing op = true

theorem copiedBy_eq_nil_iff (s : Chan σ) (ops : List (DrvOp σ)) :
    copiedBy t s ops = [] ↔ ReadsNothing t s ops := by
  rw [copiedBy, Run.observe_eq_nil_iff, ReadsNothing]
  simp only [copied_eq_nil_iff]

/-- The same memory with every `cob` one higher. -/
def DrvOp.bumpCob : DrvOp σ → DrvOp σ
  | .open env => .open { env with
      rxBlock := env.rxBlock.map fun b => (b.1, fun i => { b.2 i with cob := (b.2 i).cob + 1 }) }
  | op => op

omit [Chip σ] in
theorem sameCall_bumpCob (op : DrvOp σ) :
    SameCall (fun m m' => m'.cob = m.cob + 1) op op.bumpCob := by
  cases op with
  | «open» env =>
      refine ⟨_, rfl, rfl, rfl, rfl, ?_⟩
      cases env.rxBlock with
      | none => exact .none
      | some b => exact .some ⟨rfl, fun _ => rfl⟩
  | _ => rfl

omit [Chip σ] in
theorem SameCall.weaken {ρ : Canmsg → Canmsg → Prop} {op op' : DrvOp σ}
    (h : SameCall ρ op op') : SameCall (fun _ _ => True) op op' := by
  cases op with
  | «open» env =>
      obtain ⟨env', rfl, hregion, hirq, htx, hrx⟩ := h
      refine ⟨env', rfl, hregion, hirq, htx, ?_⟩
      generalize env.rxBlock = rxb at hrx
      generalize env'.rxBlock = rxb' at hrx
      cases hrx with
      | none => exact .none
      | some hsame => exact .some ⟨hsame.1, fun _ => trivial⟩
  | _ => exact h

/-- **What `read()` reveals.**  The messages that a run copies to user space are the same
    whatever the memory of the receive queue held if and only if there are none: every
    message has the `cob` that the memory held. -/
theorem reads_same_iff (s : Chan σ) (env : OpenEnv) (ops : List (DrvOp σ)) :
    (∀ ops', List.Forall₂ (SameCall fun _ _ => True) (.open env :: ops) ops' →
      copiedBy t s ops' = copiedBy t s (.open env :: ops)) ↔
    ReadsNothing t s (.open env :: ops) := by
  rw [← copiedBy_eq_nil_iff]
  constructor
  · intro hsame
    have hbump : List.Forall₂ (SameCall fun m m' => m'.cob = m.cob + 1) (.open env :: ops)
        ((.open env :: ops).map DrvOp.bumpCob) :=
      List.forall₂_map_right_iff.mpr (List.forall₂_same.mpr fun op _ => sameCall_bumpCob op)
    have hcob := copiedBy_related (t := t) kept_cob s hbump
    rw [hsame _ (hbump.imp fun _ _ h => h.weaken)] at hcob
    -- the first message would have two different values of `cob`
    cases hcopied : copiedBy t s (.open env :: ops) with
    | nil => rfl
    | cons m ms =>
        rw [hcopied] at hcob
        cases hcob with
        | cons hm _ => bv_omega
  · intro hnone ops' hops
    have hlen := (copiedBy_related (t := t) kept_true s hops).length_eq
    rw [hnone, List.length_nil] at hlen
    rw [hnone]
    exact List.eq_nil_of_length_eq_zero hlen.symm

/-- An open, a frame received, and a read of it. -/
def readOneFrame (mem : Canmsg) : List (DrvOp (Sja1000 .atcanminiPelican)) :=
  [.open { OpenEnv.granted Canmsg.zero with rxBlock := some (1, fun _ => mem) },
    .device oneFrame, .irq ⟨0, 0⟩, .read true 1]

/-- The memory shows in the message: in `cob`, and in the data bytes behind its length. -/
theorem read_shows_memory :
    List.Forall₂ (SameCall fun _ _ => True) (readOneFrame Canmsg.zero)
      (readOneFrame { Canmsg.zero with cob := 0x1234, data := fun _ => 0xAA }) ∧
    (copiedBy .atcanminiPelican Chan.unopened (readOneFrame Canmsg.zero)).map
      (fun m => (m.cob, m.data 7)) = [(0, 0)] ∧
    (copiedBy .atcanminiPelican Chan.unopened
      (readOneFrame { Canmsg.zero with cob := 0x1234, data := fun _ => 0xAA })).map
      (fun m => (m.cob, m.data 7)) = [(0x1234, 0xAA)] := by
  refine ⟨?_, by decide, by decide⟩
  exact .cons ⟨_, rfl, rfl, rfl, rfl, .some ⟨rfl, fun _ => trivial⟩⟩
    (.cons rfl (.cons rfl (.cons rfl .nil)))

end Can4linux
