/-
  Can4linux.Indexed

  The access macros of the `CAN_INDEXED_PORT_IO` build next to those of the
  `CAN_PORT_IO` build (`io.h`).  In the former every register access is a store
  into the index port and an access to the data port, which goes to the register
  that was indexed last, by whomever.

  One context makes its accesses, and the other, which is not interrupted itself,
  runs between any two of the first one's port accesses.  The builds agree
  exactly if whatever runs between an index and its data access leaves the index
  as it was.
-/

import Can4linux.RoundTrip
import Can4linux.Recorder

namespace Can4linux

/-! ## The access macros -/

/-- A register access of the driver: `CANout`, `CANin`, `CANset` and `CANreset`, with the offset
    of the register. -/
inductive RegOp where
  | out (adr v : U8)
  | input (adr : U8)
  | set (adr m : U8)
  | reset (adr m : U8)

/-- A port access.  A data access says which register its macro means; `val` is the variable
    of the macro. -/
inductive PortOp where
  /-- `outb(adr, Base)` -/
  | index (adr : U8)
  /-- `val = inb(..)` -/
  | read (adr : U8)
  /-- `outb(.., ..)` of a value that may depend on `val` -/
  | write (adr : U8) (f : U8 → U8)

/-- The register that the access is about. -/
def PortOp.adr : PortOp → U8
  | index adr | read adr | write adr _ => adr

/-- The access goes to the data port. -/
def PortOp.isData : PortOp → Bool
  | index _ => false
  | read _ | write _ _ => true

namespace RegOp

/-- The register that the operation names. -/
def adr : RegOp → U8
  | out adr _ | input adr | set adr _ | reset adr _ => adr

/-- The macros of the `CAN_PORT_IO` build. -/
def direct : RegOp → List PortOp
  | out adr v => [.write adr fun _ => v]
  | input adr => [.read adr]
  | set adr m => [.read adr, .write adr (· ||| m)]
  | reset adr m => [.read adr, .write adr (· &&& ~~~m)]

/-- The macros of the `CAN_INDEXED_PORT_IO` build; a read is `Indexed_Inb`. -/
def indexed : RegOp → List PortOp
  | out adr v => [.index adr, .write adr fun _ => v]
  | input adr => [.index adr, .read adr]
  | set adr m => [.index adr, .read adr, .index adr, .write adr (· ||| m)]
  | reset adr m => [.index adr, .read adr, .index adr, .write adr (· &&& ~~~m)]

/-- A data access behind its index. -/
def pair (a : PortOp) : List PortOp := [.index a.adr, a]

/-- Each data access of the direct build has its index. -/
theorem indexed_eq (o : RegOp) : o.indexed = o.direct.flatMap pair := by
  cases o <;> rfl

theorem isData_direct {o : RegOp} {a : PortOp} (ha : a ∈ o.direct) :
    a.isData = true ∧ a.adr = o.adr := by
  cases o <;> simp [direct] at ha <;> rcases ha with rfl | rfl <;> exact ⟨rfl, rfl⟩

end RegOp

/-! ## The ports -/

/-- The register indexed last, the controller with its record, and `val` of the first
    context. -/
structure Ports (σ : Type) where
  latch : U8
  chip : Recorder σ
  val : U8

/-- A step of the interleaving: a port access of the first context, or an operation of the
    second one. -/
inductive PortStep where
  | own (a : PortOp)
  | other (o : RegOp)

namespace PortStep

/-- The step accesses a register. -/
def isData : PortStep → Bool
  | own a => a.isData
  | other _ => true

end PortStep

namespace Ports

variable {σ : Type} [Chip σ]

/-- A port access in the indexed build: the register is the one indexed last. -/
def accessIndexed (s : Ports σ) : PortOp → Ports σ
  | .index adr => { s with latch := adr }
  | .read _ =>
      let rd := Chip.inb s.latch.toNat s.chip
      { s with val := rd.1, chip := rd.2 }
  | .write _ f => { s with chip := Chip.outb s.latch.toNat (f s.val) s.chip }

/-- A port access in the direct build, which has no index. -/
def accessDirect (s : Ports σ) : PortOp → Ports σ
  | .index _ => s
  | .read adr =>
      let rd := Chip.inb adr.toNat s.chip
      { s with val := rd.1, chip := rd.2 }
  | .write adr f => { s with chip := Chip.outb adr.toNat (f s.val) s.chip }

/-- A step in the indexed build; the second context has a `val` of its own. -/
def stepIndexed (s : Ports σ) : PortStep → Ports σ
  | .own a => s.accessIndexed a
  | .other o => { o.indexed.foldl accessIndexed s with val := s.val }

/-- A step in the direct build. -/
def stepDirect (s : Ports σ) : PortStep → Ports σ
  | .own a => s.accessDirect a
  | .other o => { o.direct.foldl accessDirect s with val := s.val }

end Ports

/-! ## Interleavings -/

/-- The second context's operations `gap k` run before port access number `k` of the first. -/
def weave : List PortOp → (Nat → List RegOp) → List PortStep
  | [], gap => (gap 0).map .other
  | a :: as, gap => (gap 0).map .other ++ .own a :: weave as fun k => gap (k + 1)

/-- The steps of the indexed build: the first context performs the operations `p`. -/
def indexedSteps (p : List RegOp) (gap : Nat → List RegOp) : List PortStep :=
  weave (p.flatMap RegOp.indexed) gap

/-- The same register accesses in the same order, without the index. -/
def directSteps (p : List RegOp) (gap : Nat → List RegOp) : List PortStep :=
  (indexedSteps p gap).filter PortStep.isData

/-- Whatever the second context does between an index and its data access, it ends with the
    register indexed. -/
def Undisturbed (as : List PortOp) (gap : Nat → List RegOp) : Prop :=
  ∀ k adr, as[k]? = some (.index adr) → ∀ o, (gap (k + 1)).getLast? = some o → o.adr = adr

/-! ### The direct order is one of the direct build -/

/-- The port accesses of the first context, in order. -/
def ownAccesses (ls : List PortStep) : List PortOp :=
  ls.filterMap fun
    | .own a => some a
    | .other _ => none

/-- The operations of the second context, in order. -/
def otherOps (ls : List PortStep) : List RegOp :=
  ls.filterMap fun
    | .own _ => none
    | .other o => some o

theorem ownAccesses_weave (as : List PortOp) (gap : Nat → List RegOp) :
    ownAccesses (weave as gap) = as := by
  have hother : ∀ os : List RegOp, ownAccesses (os.map .other) = [] := by
    intro os
    simp [ownAccesses, List.filterMap_map]
  have happend : ∀ ls ms, ownAccesses (ls ++ ms) = ownAccesses ls ++ ownAccesses ms :=
    fun _ _ => List.filterMap_append
  induction as generalizing gap with
  | nil => exact hother _
  | cons a as ih =>
      rw [weave, happend, hother, List.nil_append]
      exact congrArg (a :: ·) (ih _)

/-- The first context makes the port accesses of the direct build, and the second its own
    operations. -/
theorem directSteps_own (p : List RegOp) (gap : Nat → List RegOp) :
    ownAccesses (directSteps p gap) = p.flatMap RegOp.direct ∧
      otherOps (directSteps p gap) = otherOps (indexedSteps p gap) := by
  have hown : ∀ ls : List PortStep,
      ownAccesses (ls.filter PortStep.isData) = (ownAccesses ls).filter PortOp.isData := by
    intro ls
    rw [ownAccesses, ownAccesses, List.filterMap_filter, List.filter_filterMap]
    congr 1
    funext x
    cases x with
    | own a => cases a <;> rfl
    | other o => rfl
  -- the steps that are left out are none of the second context's
  have hother : ∀ ls : List PortStep, otherOps (ls.filter PortStep.isData) = otherOps ls := by
    intro ls
    rw [otherOps, otherOps, List.filterMap_filter]
    congr 1
    funext x
    cases x with
    | own a => cases a <;> rfl
    | other o => rfl
  refine ⟨?_, hother _⟩
  rw [directSteps, hown, indexedSteps, ownAccesses_weave, List.filter_flatMap]
  congr 1
  funext o
  cases o <;> rfl

/-! ## Which register an access goes to -/

/-- The offset of an access. -/
def Event.off : Event → Nat
  | .inb off _ | .outb off _ => off

namespace PortStep

/-- The index after a step of the indexed build that finds the index `l`. -/
def latch (l : U8) : PortStep → U8
  | own (.index adr) => adr
  | own _ => l
  | other o => o.adr

/-- The registers that the step names, in the order of its accesses. -/
def named : PortStep → List U8
  | own (.index _) => []
  | own a => [a.adr]
  | other o => o.direct.map PortOp.adr

/-- The registers that the step of the indexed build goes to. -/
def reached (l : U8) : PortStep → List U8
  | own (.index _) => []
  | own _ => [l]
  | other o => o.direct.map PortOp.adr

theorem length_reached (l : U8) (x : PortStep) : (x.reached l).length = x.named.length := by
  cases x with
  | own a => cases a <;> rfl
  | other o => rfl

end PortStep

/-- The registers that the steps of the indexed build go to. -/
def reachedBy : U8 → List PortStep → List U8
  | _, [] => []
  | l, x :: ls => x.reached l ++ reachedBy (x.latch l) ls

/-- Each step goes to the registers that it names. -/
def OnTarget : U8 → List PortStep → Prop
  | _, [] => True
  | l, x :: ls => x.reached l = x.named ∧ OnTarget (x.latch l) ls

theorem reachedBy_eq_iff (l : U8) (ls : List PortStep) :
    reachedBy l ls = ls.flatMap PortStep.named ↔ OnTarget l ls := by
  -- the lists differ at the first step that is off its target
  induction ls generalizing l with
  | nil => exact iff_of_true rfl trivial
  | cons x ls ih =>
      rw [reachedBy, List.flatMap_cons, OnTarget, ← ih]
      constructor
      · intro h
        exact List.append_inj h (PortStep.length_reached l x)
      · rintro ⟨hx, hrest⟩
        rw [hx, hrest]

namespace Ports

variable {σ : Type} [Chip σ]

/-- The offsets on record. -/
def offs (s : Ports σ) : List Nat := s.chip.log.map Event.off

@[simp] theorem latch_accessIndexed_index (s : Ports σ) (adr : U8) :
    (s.accessIndexed (.index adr)).latch = adr := rfl

@[simp] theorem latch_accessIndexed_read (s : Ports σ) (adr : U8) :
    (s.accessIndexed (.read adr)).latch = s.latch := rfl

@[simp] theorem latch_accessIndexed_write (s : Ports σ) (adr : U8) (f : U8 → U8) :
    (s.accessIndexed (.write adr f)).latch = s.latch := rfl

@[simp] theorem offs_accessIndexed_index (s : Ports σ) (adr : U8) :
    (s.accessIndexed (.index adr)).offs = s.offs := rfl

@[simp] theorem offs_accessIndexed_read (s : Ports σ) (adr : U8) :
    (s.accessIndexed (.read adr)).offs = s.offs ++ [s.latch.toNat] := List.map_append

@[simp] theorem offs_accessIndexed_write (s : Ports σ) (adr : U8) (f : U8 → U8) :
    (s.accessIndexed (.write adr f)).offs = s.offs ++ [s.latch.toNat] := List.map_append

@[simp] theorem offs_accessDirect_index (s : Ports σ) (adr : U8) :
    (s.accessDirect (.index adr)).offs = s.offs := rfl

@[simp] theorem offs_accessDirect_read (s : Ports σ) (adr : U8) :
    (s.accessDirect (.read adr)).offs = s.offs ++ [adr.toNat] := List.map_append

@[simp] theorem offs_accessDirect_write (s : Ports σ) (adr : U8) (f : U8 → U8) :
    (s.accessDirect (.write adr f)).offs = s.offs ++ [adr.toNat] := List.map_append

theorem latch_stepIndexed (s : Ports σ) (x : PortStep) :
    (s.stepIndexed x).latch = x.latch s.latch := by
  cases x with
  | own a => cases a <;> rfl
  | other o => cases o <;> rfl

theorem offs_stepIndexed (s : Ports σ) (x : PortStep) :
    (s.stepIndexed x).offs = s.offs ++ (x.reached s.latch).map BitVec.toNat := by
  cases x with
  | own a => cases a <;> simp [stepIndexed, PortStep.reached]
  | other o =>
      have hval : (s.stepIndexed (.other o)).offs = (o.indexed.foldl accessIndexed s).offs := rfl
      rw [hval]
      cases o <;> simp [RegOp.indexed, RegOp.direct, PortStep.reached, PortOp.adr]

theorem offs_stepDirect (s : Ports σ) (x : PortStep) :
    (s.stepDirect x).offs = s.offs ++ x.named.map BitVec.toNat := by
  cases x with
  | own a => cases a <;> simp [stepDirect, PortStep.named, PortOp.adr]
  | other o =>
      have hval : (s.stepDirect (.other o)).offs = (o.direct.foldl accessDirect s).offs := rfl
      rw [hval]
      cases o <;> simp [RegOp.direct, PortStep.named, PortOp.adr]

theorem offs_foldl_stepIndexed (s : Ports σ) (ls : List PortStep) :
    (ls.foldl stepIndexed s).offs = s.offs ++ (reachedBy s.latch ls).map BitVec.toNat := by
  induction ls generalizing s with
  | nil => exact (List.append_nil _).symm
  | cons x ls ih =>
      rw [List.foldl_cons, ih, offs_stepIndexed, latch_stepIndexed, List.append_assoc,
        ← List.map_append]
      rfl

theorem offs_foldl_stepDirect (s : Ports σ) (ls : List PortStep) :
    (ls.foldl stepDirect s).offs = s.offs ++ (ls.flatMap PortStep.named).map BitVec.toNat := by
  induction ls generalizing s with
  | nil => exact (List.append_nil _).symm
  | cons x ls ih =>
      rw [List.foldl_cons, ih, offs_stepDirect, List.append_assoc, ← List.map_append,
        List.flatMap_cons]

/-- The direct build has no steps for the index accesses. -/
theorem foldl_filter_isData (s : Ports σ) (ls : List PortStep) :
    (ls.filter PortStep.isData).foldl stepDirect s = ls.foldl stepDirect s := by
  induction ls generalizing s with
  | nil => rfl
  | cons x ls ih =>
      cases x with
      | own a => cases a <;> exact ih _
      | other o => exact ih _

/-! ## Agreement -/

/-- The two builds agree on the controller and on the variable of the macro. -/
structure Agrees (s d : Ports σ) : Prop where
  chip : s.chip = d.chip
  val : s.val = d.val

/-- An operation of the second context is not interrupted: it goes where it says. -/
theorem Agrees.other {s d : Ports σ} (h : Agrees s d) (o : RegOp) :
    Agrees (s.stepIndexed (.other o)) (d.stepDirect (.other o)) := by
  obtain ⟨l, c, v⟩ := s
  obtain ⟨l', c', v'⟩ := d
  obtain ⟨rfl, rfl⟩ : c = c' ∧ v = v' := ⟨h.chip, h.val⟩
  cases o <;> exact ⟨rfl, rfl⟩

/-- A step on its target does in the indexed build what it does in the direct one. -/
theorem Agrees.step {s d : Ports σ} (h : Agrees s d) {x : PortStep}
    (hx : x.reached s.latch = x.named) : Agrees (s.stepIndexed x) (d.stepDirect x) := by
  cases x with
  | other o => exact h.other o
  | own a =>
      -- an index access is nothing to the direct build; a data access goes to the index
      obtain ⟨l, c, v⟩ := s
      obtain ⟨l', c', v'⟩ := d
      obtain ⟨rfl, rfl⟩ : c = c' ∧ v = v' := ⟨h.chip, h.val⟩
      cases a with
      | index adr => exact ⟨rfl, rfl⟩
      | read adr =>
          obtain rfl : l = adr := List.head_eq_of_cons_eq hx
          exact ⟨rfl, rfl⟩
      | write adr f =>
          obtain rfl : l = adr := List.head_eq_of_cons_eq hx
          exact ⟨rfl, rfl⟩

theorem Agrees.run {s d : Ports σ} (h : Agrees s d) {ls : List PortStep}
    (hls : OnTarget s.latch ls) : Agrees (ls.foldl stepIndexed s) (ls.foldl stepDirect d) := by
  induction ls generalizing s d with
  | nil => exact h
  | cons x ls ih =>
      refine ih (h.step hls.1) ?_
      rw [latch_stepIndexed]
      exact hls.2

/-- The controllers of the two builds are the same, record included, exactly if every access
    of the indexed build is on its target. -/
theorem chip_eq_iff (s : Ports σ) (ls : List PortStep) :
    (ls.foldl stepIndexed s).chip = (ls.foldl stepDirect s).chip ↔ OnTarget s.latch ls := by
  constructor
  · intro h
    have hoffs : (ls.foldl stepIndexed s).offs = (ls.foldl stepDirect s).offs :=
      congrArg (fun c => c.log.map Event.off) h
    rw [offs_foldl_stepIndexed, offs_foldl_stepDirect, List.append_cancel_left_eq] at hoffs
    have hinj : Function.Injective (BitVec.toNat : U8 → Nat) := fun _ _ => BitVec.eq_of_toNat_eq
    exact (reachedBy_eq_iff _ _).mp (List.map_injective_iff.mpr hinj hoffs)
  · intro h
    exact (Agrees.run ⟨rfl, rfl⟩ h).chip

end Ports

/-! ### The index at a data access -/

/-- The index after operations of the second context. -/
def latchAfter (l : U8) (os : List RegOp) : U8 := (os.getLast?.map RegOp.adr).getD l

theorem onTarget_others (l : U8) (os : List RegOp) (ls : List PortStep) :
    OnTarget l (os.map .other ++ ls) ↔ OnTarget (latchAfter l os) ls := by
  induction os generalizing l with
  | nil => rfl
  | cons o os ih =>
      have hlast : latchAfter l (o :: os) = latchAfter o.adr os := by
        rw [latchAfter, latchAfter, List.getLast?_cons]
        cases os.getLast? <;> rfl
      rw [hlast, ← ih]
      exact and_iff_right rfl

theorem latchAfter_eq_iff (l : U8) (os : List RegOp) :
    latchAfter l os = l ↔ ∀ o, os.getLast? = some o → o.adr = l := by
  rw [latchAfter]
  cases os.getLast? <;> simp

/-- The first context's accesses are on target exactly if nothing moves the index between an
    index access and its data access. -/
theorem onTarget_weave (l : U8) {ds : List PortOp} (hds : ∀ a ∈ ds, a.isData = true)
    (gap : Nat → List RegOp) :
    OnTarget l (weave (ds.flatMap RegOp.pair) gap) ↔
      Undisturbed (ds.flatMap RegOp.pair) gap := by
  -- two port accesses of the first context at a time: the index and its data
  induction ds generalizing l gap with
  | nil =>
      refine iff_of_true ?_ fun k adr h => nomatch h
      have := onTarget_others l (gap 0) []
      rw [List.append_nil] at this
      exact this.mpr trivial
  | cons a ds ih =>
      have hdata : ∀ adr, a ≠ .index adr := by
        rintro adr rfl
        exact Bool.false_ne_true (hds _ List.mem_cons_self)
      have hreached : ∀ l', (PortStep.own a).reached l' = (PortStep.own a).named ↔ l' = a.adr := by
        intro l'
        cases a with
        | index adr => exact absurd rfl (hdata adr)
        | read adr => exact ⟨List.head_eq_of_cons_eq, congrArg fun l => [l]⟩
        | write adr f => exact ⟨List.head_eq_of_cons_eq, congrArg fun l => [l]⟩
      -- the operations in front set an index that is replaced at once
      have hweave : OnTarget l (weave ((a :: ds).flatMap RegOp.pair) gap) ↔
          latchAfter a.adr (gap 1) = a.adr ∧
            Undisturbed (ds.flatMap RegOp.pair) fun k => gap (k + 2) := by
        have hrest := ih ((PortStep.own a).latch (latchAfter a.adr (gap 1)))
          (fun b hb => hds b (List.mem_cons_of_mem _ hb)) fun k => gap (k + 2)
        rw [← hrest, ← hreached]
        rw [List.flatMap_cons, RegOp.pair, List.cons_append, weave, onTarget_others]
        refine (and_iff_right rfl).trans ?_
        rw [List.cons_append, weave]
        exact onTarget_others _ _ _
      rw [hweave, latchAfter_eq_iff]
      constructor
      · rintro ⟨hfirst, hrest⟩ k adr hk
        -- the first access is an index, the second one a data access
        cases k with
        | zero =>
            obtain rfl : a.adr = adr := by simpa [RegOp.pair] using hk
            exact hfirst
        | succ k =>
            cases k with
            | zero => exact absurd (by simpa [RegOp.pair] using hk) (hdata adr)
            | succ k => exact hrest k adr hk
      · intro h
        exact ⟨h 0 a.adr rfl, fun k adr hk => h (k + 2) adr hk⟩

/-- For every two sequences of operations and every interleaving of their port accesses, the
    indexed build does to the controller what the direct one does for the same order of
    register accesses, with the same values read and written, exactly if no operation of the
    second context leaves another register indexed between an index and its data access. -/
theorem indexed_agrees_iff {σ : Type} [Chip σ] (p : List RegOp) (gap : Nat → List RegOp)
    (s : Ports σ) :
    ((indexedSteps p gap).foldl Ports.stepIndexed s).chip =
        ((directSteps p gap).foldl Ports.stepDirect s).chip ↔
      Undisturbed (p.flatMap RegOp.indexed) gap := by
  -- the macros of the indexed build are pairs throughout
  have hpairs : p.flatMap RegOp.indexed = (p.flatMap RegOp.direct).flatMap RegOp.pair := by
    rw [List.flatMap_assoc]
    exact congrArg (p.flatMap ·) (funext RegOp.indexed_eq)
  have hdata : ∀ a ∈ p.flatMap RegOp.direct, a.isData = true := by
    intro a ha
    obtain ⟨o, -, hmem⟩ := List.mem_flatMap.mp ha
    exact (RegOp.isData_direct hmem).1
  rw [directSteps, Ports.foldl_filter_isData, Ports.chip_eq_iff, indexedSteps, hpairs]
  exact onTarget_weave _ hdata gap

/-- A store into register 1, interrupted by a read of register 3 after its index access, is a
    store into register 3. -/
theorem index_lost :
    ¬ ∀ (p : List RegOp) (gap : Nat → List RegOp) (s : Ports RegImage),
      ((indexedSteps p gap).foldl Ports.stepIndexed s).chip =
        ((directSteps p gap).foldl Ports.stepDirect s).chip := by
  intro h
  have hoffs := congrArg (fun c : Recorder RegImage => c.log.map Event.off)
    (h [.out 1 1] (fun k => if k = 1 then [.input 3] else []) ⟨0, ⟨⟨fun _ => 0⟩, []⟩, 0⟩)
  exact absurd hoffs (by decide)

end Can4linux
