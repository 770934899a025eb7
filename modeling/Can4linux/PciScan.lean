/-
  Can4linux.PciScan

  The search for CPC-PCI boards (`pcimod_scan` of `util.c`), which fills the
  tables `Base`, `IRQ`, `IOModel` and `Can_pitapci_control` when the driver is
  loaded.

  A table is a function from all integers: the entries `0 .. MAX_CHANNELS - 1`
  are the table, the others are the memory around it.  Every access is put into
  a log with its index, so that a reader can see where the scan leaves the tables.
-/

import Mathlib.Logic.Function.Basic
import Can4linux.Defs

namespace Can4linux

/-- `-ENODEV` -/
def enodev : CInt := -19

/-! ## The boards -/

/-- A `struct pci_dev` that `pci_find_device` finds: the result of `pci_enable_device`, the
    interrupt number, both base addresses, and what `ioremap` (of an address and a size) and
    `readb` return for it. -/
structure PciDev where
  enable : CInt
  irq : CInt
  bar0 : CLong
  bar1 : CLong
  ioremap : CLong → CLong → CLong
  readb : CLong → U8

namespace PciDev

/-- `controller_available` -/
def controllerAvailable (d : PciDev) (address offset : CLong) : Bool :=
  let ptr := d.ioremap address (32 * offset)
  if 0x21 = d.readb ptr then
    0x0c = d.readb (ptr + 2 * offset) && 0xe0 = d.readb (ptr + 3 * offset)
  else
    0x00 = d.readb (ptr + 1 * offset) && 0x34 = d.readb (ptr + 2 * offset) &&& 0x37
      && 0x00 = d.readb (ptr + 3 * offset) &&& 0xfb

/-- `signature`: four bytes of the board, put together as an `int`. -/
def signature (d : PciDev) : CLong :=
  let sigptr := d.ioremap d.bar1 256
  let byte (i : CLong) : CInt := (d.readb (sigptr + i)).setWidth 32
  (byte 0 <<< 24 + byte 4 <<< 16 + byte 8 <<< 8 + byte 12).signExtend 64

/-- The board can be enabled. -/
def enabled (d : PciDev) : Bool := d.enable == 0

/-- The board has the signature of the CPC-PCI. -/
def signed (d : PciDev) : Bool := d.signature == 0x55aa01cb

/-- There is a controller at this offset of the second base address. -/
def has (d : PciDev) (off : CLong) : Bool := d.controllerAvailable (d.bar1 + off) 4

/-- The pointer to the PITA control registers. -/
def pita (d : PciDev) : CLong := d.ioremap d.bar0 256

end PciDev

/-! ## The scan -/

/-- The tables that the scan fills. -/
inductive ScanTable where
  | base
  | irq
  | ioModel
  | pitapci
deriving DecidableEq

/-- What the scan does: an access to an entry of a table, or a store into a board. -/
inductive ScanEvent where
  | entry (table : ScanTable) (index : Int)
  | writel (v : CInt) (ptr : CLong)
  | writeb (v : U8) (ptr : CLong)
deriving DecidableEq

/-- The tables, `candev`, and the log. -/
structure Scan where
  base : Int → CInt
  irq : Int → CInt
  ioModel : Int → U8
  pitapci : Int → CInt
  candev : Int
  log : List ScanEvent

namespace Scan

def note (e : ScanEvent) (s : Scan) : Scan := { s with log := s.log ++ [e] }

/-- `Can_pitapci_control[i] = v` -/
def setPitapci (i : Int) (v : CInt) (s : Scan) : Scan :=
  { s with pitapci := Function.update s.pitapci i v }.note (.entry .pitapci i)

/-- `Base[candev] = ..; IOModel[candev] = 'm'; IRQ[candev] = ..; candev++` for the controller at
    an offset of the second base address. -/
def addChannel (d : PciDev) (off : CLong) (s : Scan) : Scan :=
  { s with
    base := Function.update s.base s.candev ((d.ioremap (d.bar1 + off) (32 * 4)).setWidth 32)
    ioModel := Function.update s.ioModel s.candev 0x6d
    irq := Function.update s.irq s.candev d.irq
    candev := s.candev + 1
    log := s.log ++ [.entry .base s.candev, .entry .ioModel s.candev, .entry .irq s.candev] }

/-- `reset_CPC_PCI` -/
def resetCpcPci (d : PciDev) (address : CLong) (s : Scan) : Scan :=
  s.note (.writeb 0x01 (d.ioremap address 32))

/-- The controller at 0x400; the flag says that the scan is given up. -/
def probe1 (d : PciDev) (s : Scan) : Scan × Bool :=
  if d.has 0x400 then
    if s.candev > maxChannels then (s, true) else (s.addChannel d 0x400, false)
  else (s, false)

/-- The controller at 0x600, which takes its control register from the channel before it. -/
def probe2 (d : PciDev) (s : Scan) : Scan × Bool :=
  if d.has 0x600 then
    if s.candev > maxChannels then (s, true)
    else
      let v := s.pitapci (s.candev - 1)
      let s := (s.note (.entry .pitapci (s.candev - 1))).setPitapci s.candev v
      (s.addChannel d 0x600, false)
  else (s, false)

/-- Memory access is enabled, and the pointer to the control registers is kept. -/
def enableMemory (d : PciDev) (s : Scan) : Scan :=
  (s.note (.writel 0x04000000 (d.pita + 0x1c))).setPitapci s.candev (d.pita.setWidth 32)

/-- Both controllers are reset, and the interrupt of the board is enabled. -/
def enableInt (d : PciDev) (s : Scan) : Scan :=
  let s := (s.resetCpcPci d (d.bar1 + 0x400)).resetCpcPci d (d.bar1 + 0x600)
  (s.note (.entry .pitapci s.candev)).note
    (.writel 0x00020000 ((s.pitapci s.candev).setWidth 64 + 0x0))

/-- The body of the loop for one board; a value is the one that `pcimod_scan` then returns. -/
def scanDev (d : PciDev) (s : Scan) : Scan × Option CInt :=
  if d.enable ≠ 0 then (s, none)
  else if 0x55aa01cb ≠ d.signature then (enableMemory d s, some enodev)
  else
    match probe1 d (enableInt d (enableMemory d s)) with
    | (s, true) => (s, some 0)
    | (s, false) =>
        match probe2 d s with
        | (s, true) => (s, some 0)
        | (s, false) => (s, none)

/-- The loop over the boards. -/
def scanLoop : List PciDev → Scan → Scan × CInt
  | [], s => (s, 0)
  | d :: ds, s =>
      match scanDev d s with
      | (s, none) => scanLoop ds s
      | (s, some r) => (s, r)

end Scan

/-- `pcimod_scan`, with the tables as it finds them; `present` is the result of
    `pci_present`. -/
def pcimodScan (present : Bool) (devs : List PciDev) (s : Scan) : Scan × CInt :=
  let s := { s with candev := 0, log := [] }
  if present then Scan.scanLoop devs s else (s, enodev)

/-! ## What is on the boards -/

/-- A controller: its board, and its offset from the second base address. -/
structure Controller where
  dev : PciDev
  off : CLong

namespace PciDev

/-- The controllers of a board that is one of ours. -/
def controllers (d : PciDev) : List Controller :=
  if d.signed then
    (if d.has 0x400 then [⟨d, 0x400⟩] else []) ++ (if d.has 0x600 then [⟨d, 0x600⟩] else [])
  else []

/-- Of the two controllers only the second one is there. -/
def secondOnly (d : PciDev) : Bool := d.signed && !d.has 0x400 && d.has 0x600

end PciDev

/-- The controllers of a list of boards, in scan order. -/
def channels (devs : List PciDev) : List Controller := devs.flatMap PciDev.controllers

/-- The boards that the scan gets to: those that can be enabled, up to the first one that has
    not the right signature. -/
def reached : List PciDev → List PciDev
  | [] => []
  | d :: ds => if d.enabled then if d.signed then d :: reached ds else [d] else reached ds

namespace Scan

variable {d : PciDev} {s : Scan}

/-- Every access so far was to an entry of a table. -/
def Inside (s : Scan) : Prop :=
  ∀ table (i : Int), ScanEvent.entry table i ∈ s.log → 0 ≤ i ∧ i < maxChannels

theorem inside_of_log {s s' : Scan} {es : List ScanEvent} (h : s'.log = s.log ++ es) :
    s'.Inside ↔
      s.Inside ∧ ∀ table (i : Int), ScanEvent.entry table i ∈ es → 0 ≤ i ∧ i < maxChannels := by
  unfold Inside
  rw [h]
  constructor
  · intro hall
    exact ⟨fun t i hi => hall t i (List.mem_append_left _ hi),
      fun t i hi => hall t i (List.mem_append_right _ hi)⟩
  · rintro ⟨hold, hnew⟩ t i hi
    exact (List.mem_append.mp hi).elim (hold t i) (hnew t i)

@[simp] theorem inside_entry (table : ScanTable) (i : Int) :
    (s.note (.entry table i)).Inside ↔ s.Inside ∧ 0 ≤ i ∧ i < maxChannels := by
  rw [inside_of_log rfl]
  simp

@[simp] theorem inside_writel (v : CInt) (ptr : CLong) :
    (s.note (.writel v ptr)).Inside ↔ s.Inside := by
  rw [inside_of_log rfl]
  simp

@[simp] theorem inside_resetCpcPci (address : CLong) :
    (s.resetCpcPci d address).Inside ↔ s.Inside := by
  rw [resetCpcPci, inside_of_log rfl]
  simp

@[simp] theorem inside_setPitapci (i : Int) (v : CInt) :
    (s.setPitapci i v).Inside ↔ s.Inside ∧ 0 ≤ i ∧ i < maxChannels :=
  inside_entry (s := { s with pitapci := Function.update s.pitapci i v }) .pitapci i

@[simp] theorem inside_addChannel (off : CLong) :
    (s.addChannel d off).Inside ↔ s.Inside ∧ 0 ≤ s.candev ∧ s.candev < maxChannels := by
  rw [inside_of_log (s := s) rfl]
  refine and_congr_right fun _ => ⟨fun hall => hall .base s.candev (by simp), ?_⟩
  intro hin table i hi
  have hidx : i = s.candev := by
    simp only [List.mem_cons, ScanEvent.entry.injEq, List.not_mem_nil, or_false] at hi
    rcases hi with ⟨-, hi⟩ | ⟨-, hi⟩ | ⟨-, hi⟩ <;> exact hi
  rw [hidx]
  exact hin

@[simp] theorem candev_note (e : ScanEvent) : (s.note e).candev = s.candev := rfl
@[simp] theorem candev_setPitapci (i : Int) (v : CInt) : (s.setPitapci i v).candev = s.candev := rfl
@[simp] theorem candev_resetCpcPci (address : CLong) :
    (s.resetCpcPci d address).candev = s.candev := rfl
@[simp] theorem candev_addChannel (off : CLong) :
    (s.addChannel d off).candev = s.candev + 1 := rfl

@[simp] theorem base_note (e : ScanEvent) : (s.note e).base = s.base := rfl
@[simp] theorem irq_note (e : ScanEvent) : (s.note e).irq = s.irq := rfl
@[simp] theorem pitapci_note (e : ScanEvent) : (s.note e).pitapci = s.pitapci := rfl

@[simp] theorem base_setPitapci (i : Int) (v : CInt) : (s.setPitapci i v).base = s.base := rfl
@[simp] theorem irq_setPitapci (i : Int) (v : CInt) : (s.setPitapci i v).irq = s.irq := rfl
@[simp] theorem pitapci_setPitapci (i : Int) (v : CInt) :
    (s.setPitapci i v).pitapci = Function.update s.pitapci i v := rfl

@[simp] theorem base_addChannel (off : CLong) : (s.addChannel d off).base =
    Function.update s.base s.candev ((d.ioremap (d.bar1 + off) (32 * 4)).setWidth 32) := rfl
@[simp] theorem irq_addChannel (off : CLong) :
    (s.addChannel d off).irq = Function.update s.irq s.candev d.irq := rfl
@[simp] theorem pitapci_addChannel (off : CLong) :
    (s.addChannel d off).pitapci = s.pitapci := rfl

/-- The entry for the channel, if the controller at 0x400 is there. -/
def first (d : PciDev) (s : Scan) : Scan := if d.has 0x400 then s.addChannel d 0x400 else s

/-- The entry for the channel, if the controller at 0x600 is there. -/
def second (d : PciDev) (s : Scan) : Scan :=
  if d.has 0x600 then
    ((s.note (.entry .pitapci (s.candev - 1))).setPitapci s.candev
      (s.pitapci (s.candev - 1))).addChannel d 0x600
  else s

theorem probe1_eq (h : s.candev ≤ maxChannels) : probe1 d s = (first d s, false) := by
  unfold probe1 first
  rw [if_neg (Int.not_lt.mpr h)]
  split <;> rfl

theorem probe2_eq (h : s.candev ≤ maxChannels) : probe2 d s = (second d s, false) := by
  unfold probe2 second
  rw [if_neg (Int.not_lt.mpr h)]
  split <;> rfl

/-- The board before its controllers are looked for. -/
def ready (d : PciDev) (s : Scan) : Scan := enableInt d (enableMemory d s)

@[simp] theorem candev_ready : (ready d s).candev = s.candev := rfl
@[simp] theorem base_ready : (ready d s).base = s.base := rfl
@[simp] theorem irq_ready : (ready d s).irq = s.irq := rfl
@[simp] theorem pitapci_ready :
    (ready d s).pitapci = Function.update s.pitapci s.candev (d.pita.setWidth 32) := rfl

/-- A board of ours that is found while there is room: its controllers get channels, and the
    scan goes on. -/
theorem scanDev_ours (hen : d.enabled = true) (hsig : d.signed = true)
    (h : s.candev < maxChannels) : scanDev d s = (second d (first d (ready d s)), none) := by
  have hready : (ready d s).candev ≤ maxChannels := by
    rw [candev_ready]
    omega
  have hfirst : (first d (ready d s)).candev ≤ maxChannels := by
    unfold first
    split
    · rw [candev_addChannel, candev_ready]
      omega
    · exact hready
  rw [PciDev.enabled, beq_iff_eq] at hen
  rw [PciDev.signed, beq_iff_eq] at hsig
  rw [scanDev, if_neg (not_not_intro hen), if_neg (not_not_intro hsig.symm), ← ready,
    probe1_eq hready]
  simp only
  rw [probe2_eq hfirst]

/-- What a board of ours adds to the number of channels. -/
theorem candev_ours (hsig : d.signed = true) :
    (second d (first d (ready d s))).candev = s.candev + d.controllers.length := by
  unfold second first PciDev.controllers
  rw [hsig]
  cases d.has 0x400 <;> cases d.has 0x600 <;> simp [Int.add_assoc]

theorem inside_ready : (ready d s).Inside ↔ s.Inside ∧ 0 ≤ s.candev ∧ s.candev < maxChannels := by
  simp [ready, enableInt, enableMemory]

/-- The entries of a board of ours are entries of the tables if its controllers fit, and the
    second one has a channel before it. -/
theorem inside_ours (hsig : d.signed = true) (h0 : 0 ≤ s.candev) :
    (second d (first d (ready d s))).Inside ↔
      s.Inside ∧ s.candev < maxChannels ∧ s.candev + d.controllers.length ≤ maxChannels ∧
        (d.secondOnly = true → s.candev ≠ 0) := by
  unfold second first PciDev.controllers PciDev.secondOnly
  rw [hsig]
  by_cases hin : s.Inside
  · cases d.has 0x400 <;> cases d.has 0x600 <;> simp [inside_ready, hin] <;> omega
  · cases d.has 0x400 <;> cases d.has 0x600 <;> simp [inside_ready, hin]

/-! ### Frame -/

/-- An entry of a table, as a word. -/
def cell (s : Scan) : ScanTable → Int → CInt
  | .base, i => s.base i
  | .irq, i => s.irq i
  | .ioModel, i => (s.ioModel i).setWidth 32
  | .pitapci, i => s.pitapci i

/-- `s'` is further on in the scan than `s`: what is not in its log is as it was. -/
structure Extends (s s' : Scan) : Prop where
  log : s.log ⊆ s'.log
  kept : ∀ table (i : Int), .entry table i ∉ s'.log → s'.cell table i = s.cell table i

variable {s' s'' : Scan}

theorem Extends.refl (s : Scan) : Extends s s := ⟨List.Subset.refl _, fun _ _ _ => rfl⟩

theorem Extends.trans (h : Extends s s') (h' : Extends s' s'') : Extends s s'' := by
  refine ⟨List.Subset.trans h.log h'.log, fun table i hout => ?_⟩
  rw [h'.kept table i hout, h.kept table i fun hin => hout (h'.log hin)]

theorem Extends.inside (h : Extends s s') (hin : s'.Inside) : s.Inside :=
  fun table i hi => hin table i (h.log hi)

theorem extends_note (e : ScanEvent) : Extends s (s.note e) :=
  ⟨List.subset_append_left _ _, fun table _ _ => by cases table <;> rfl⟩

theorem extends_setPitapci (i : Int) (v : CInt) : Extends s (s.setPitapci i v) where
  log := List.subset_append_left _ _
  kept table j hout := by
    cases table with
    | pitapci =>
        have hne : j ≠ i := by
          rintro rfl
          exact hout (List.mem_append_right _ (List.mem_singleton_self _))
        exact Function.update_of_ne hne v s.pitapci
    | base | irq | ioModel => rfl

theorem extends_addChannel (off : CLong) : Extends s (s.addChannel d off) where
  log := List.subset_append_left _ _
  kept table j hout := by
    have hlog : ∀ table, table ≠ .pitapci → .entry table s.candev ∈ (s.addChannel d off).log := by
      intro table htable
      refine List.mem_append_right _ ?_
      cases table with
      | pitapci => exact absurd rfl htable
      | base | irq | ioModel => simp
    have hne : table ≠ .pitapci → j ≠ s.candev := by
      rintro htable rfl
      exact hout (hlog table htable)
    cases table with
    | pitapci => rfl
    | base => exact Function.update_of_ne (hne (by decide)) _ s.base
    | irq => exact Function.update_of_ne (hne (by decide)) _ s.irq
    | ioModel =>
        exact congrArg (BitVec.setWidth 32) (Function.update_of_ne (hne (by decide)) _ s.ioModel)

theorem extends_probe1 : Extends s (probe1 d s).1 := by
  unfold probe1
  split
  · split
    · exact .refl s
    · exact extends_addChannel _
  · exact .refl s

theorem extends_probe2 : Extends s (probe2 d s).1 := by
  unfold probe2
  split
  · split
    · exact .refl s
    · exact ((extends_note _).trans (extends_setPitapci _ _)).trans (extends_addChannel _)
  · exact .refl s

theorem extends_enableMemory : Extends s (enableMemory d s) :=
  (extends_note _).trans (extends_setPitapci _ _)

theorem extends_enableInt : Extends s (enableInt d s) :=
  (((extends_note _).trans (extends_note _)).trans (extends_note _)).trans (extends_note _)

/-- Once a board is enabled, the pointer to its control registers is kept. -/
theorem scanDev_enabled (hen : d.enabled = true) : Extends (enableMemory d s) (scanDev d s).1 := by
  rw [PciDev.enabled, beq_iff_eq] at hen
  rw [scanDev, if_neg (not_not_intro hen)]
  split
  · exact .refl _
  · have hprobe1 := extends_enableInt.trans
      (extends_probe1 (d := d) (s := enableInt d (enableMemory d s)))
    split
    · rename_i h1
      rw [h1] at hprobe1
      exact hprobe1
    · rename_i mid h1
      rw [h1] at hprobe1
      have hprobe2 := hprobe1.trans (extends_probe2 (d := d) (s := mid))
      split
      · rename_i h2
        rw [h2] at hprobe2
        exact hprobe2
      · rename_i h2
        rw [h2] at hprobe2
        exact hprobe2

theorem scanDev_disabled (hen : d.enabled = false) : scanDev d s = (s, none) := by
  rw [PciDev.enabled, beq_eq_false_iff_ne] at hen
  exact if_pos hen

theorem extends_scanDev : Extends s (scanDev d s).1 := by
  cases hen : d.enabled with
  | false =>
      rw [scanDev_disabled hen]
      exact .refl s
  | true => exact extends_enableMemory.trans (scanDev_enabled hen)

theorem extends_scanLoop_cons {ds : List PciDev} (hrest : ∀ s, Extends s (scanLoop ds s).1) :
    Extends (scanDev d s).1 (scanLoop (d :: ds) s).1 := by
  rw [scanLoop]
  split
  · rename_i h
    rw [h]
    exact hrest _
  · rename_i h
    rw [h]
    exact .refl _

theorem extends_scanLoop (ds : List PciDev) (s : Scan) : Extends s (scanLoop ds s).1 := by
  induction ds generalizing s with
  | nil => exact .refl s
  | cons d ds ih => exact extends_scanDev.trans (extends_scanLoop_cons ih)

theorem inside_enableMemory :
    (enableMemory d s).Inside ↔ s.Inside ∧ 0 ≤ s.candev ∧ s.candev < maxChannels := by
  simp [enableMemory]

/-- A board that can be enabled uses an entry at once. -/
theorem room_of_inside {ds : List PciDev} (hen : d.enabled = true)
    (h : (scanLoop (d :: ds) s).1.Inside) : s.candev < maxChannels := by
  have hdev := (extends_scanLoop_cons (extends_scanLoop ds)).inside h
  exact (inside_enableMemory.mp ((scanDev_enabled hen).inside hdev)).2.2

end Scan

/-! ## The scan stays inside exactly if the boards fit -/

/-- What holds of every place in a list, taken place by place. -/
theorem forall_place_cons {α : Type} {P : List α → α → Prop} (a : α) (l : List α) :
    (∀ p x q, a :: l = p ++ x :: q → P p x) ↔ P [] a ∧ ∀ p x q, l = p ++ x :: q → P (a :: p) x := by
  constructor
  · intro h
    exact ⟨h [] a l rfl, fun p x q hl => h (a :: p) x q (by rw [hl]; rfl)⟩
  · rintro ⟨hhead, htail⟩ p x q hl
    cases p with
    | nil =>
        obtain ⟨rfl, -⟩ := List.cons.inj hl
        exact hhead
    | cons b p =>
        obtain ⟨rfl, hrest⟩ := List.cons.inj hl
        exact htail p x q hrest

theorem forall_place_nil {α : Type} {P : List α → α → Prop} :
    ∀ p x q, [] = p ++ x :: q → P p x := by
  intro p x q h
  cases p <;> cases h

theorem channels_append (pre ds : List PciDev) :
    channels (pre ++ ds) = channels pre ++ channels ds := List.flatMap_append

theorem channels_singleton (d : PciDev) : channels [d] = d.controllers := by
  simp [channels]

/-- The board `d`, behind the boards `pre`, fits into the tables. -/
def Fits (pre : List PciDev) (d : PciDev) : Prop :=
  (channels pre).length < maxChannels ∧ (channels (pre ++ [d])).length ≤ maxChannels ∧
    (d.secondOnly = true → channels pre ≠ [])

theorem controllers_unsigned {d : PciDev} (h : d.signed = false) :
    d.controllers = [] ∧ d.secondOnly = false := by
  rw [PciDev.controllers, PciDev.secondOnly, h]
  exact ⟨rfl, rfl⟩

/-- A board fits or not by the number of channels before it. -/
theorem fits_iff {pre : List PciDev} {d : PciDev} {k : Int} (hk : k = (channels pre).length) :
    Fits pre d ↔ k < maxChannels ∧ k + d.controllers.length ≤ maxChannels ∧
      (d.secondOnly = true → k ≠ 0) := by
  have hzero : channels pre ≠ [] ↔ k ≠ 0 := by
    rw [hk, ne_eq, ← List.length_eq_zero_iff]
    omega
  rw [Fits, channels_append, channels_singleton, List.length_append, hzero, hk]
  exact and_congr (by omega) (and_congr (by omega) Iff.rfl)

namespace Scan

variable {d : PciDev} {s : Scan}

/-- With a wrong signature the scan is over. -/
theorem scanDev_unsigned (hen : d.enabled = true) (hsig : d.signed = false) :
    scanDev d s = (enableMemory d s, some enodev) := by
  rw [PciDev.enabled, beq_iff_eq] at hen
  rw [PciDev.signed, beq_eq_false_iff_ne] at hsig
  rw [scanDev, if_neg (not_not_intro hen), if_pos hsig.symm]

/-- `candev` goes on counting the channels of the boards behind each other. -/
theorem count_ours {pre : List PciDev} (hsig : d.signed = true)
    (hcount : s.candev = (channels pre).length) :
    (second d (first d (ready d s))).candev = (channels (pre ++ [d])).length := by
  rw [candev_ours hsig, hcount, channels_append, channels_singleton, List.length_append]
  rfl

/-- The scan of the boards `ds`, behind the boards `pre`. -/
theorem inside_scanLoop_iff {pre ds : List PciDev}
    (hcount : s.candev = (channels pre).length) :
    (scanLoop ds s).1.Inside ↔
      s.Inside ∧ ∀ p d q, reached ds = p ++ d :: q → Fits (pre ++ p) d := by
  induction ds generalizing pre s with
  | nil =>
      exact ⟨fun h => ⟨h, forall_place_nil⟩, fun h => h.1⟩
  | cons d ds ih =>
      rw [reached]
      cases hen : d.enabled with
      | false =>
          rw [scanLoop, scanDev_disabled hen]
          exact ih hcount
      | true =>
          rw [if_pos rfl]
          cases hsig : d.signed with
          | false =>
              obtain ⟨hnone, hsecond⟩ := controllers_unsigned hsig
              rw [scanLoop, scanDev_unsigned hen hsig]
              simp only [Bool.false_eq_true, if_false]
              rw [inside_enableMemory, forall_place_cons, List.append_nil, fits_iff hcount, hnone,
                hsecond]
              simp only [List.length_nil, Bool.false_eq_true, false_implies, and_true]
              refine and_congr_right fun _ =>
                ⟨fun h => ⟨by omega, forall_place_nil⟩, fun h => by omega⟩
          | true =>
              rw [if_pos rfl, forall_place_cons]
              by_cases hlt : s.candev < maxChannels
              · rw [scanLoop, scanDev_ours hen hsig hlt]
                simp only
                rw [ih (count_ours hsig hcount), inside_ours hsig (by omega), List.append_nil,
                  fits_iff hcount, and_assoc]
                simp only [List.append_assoc, List.singleton_append]
              · refine iff_of_false ?_ ?_
                · intro hin
                  exact hlt (room_of_inside hen hin)
                · rintro ⟨-, hfits, -⟩
                  rw [List.append_nil, fits_iff hcount] at hfits
                  exact hlt hfits.1

end Scan

/-- Every board that the scan gets to fits into the tables. -/
def FitsTables (devs : List PciDev) : Prop :=
  ∀ pre d post, reached devs = pre ++ d :: post → Fits pre d

theorem inside_pcimodScan_iff (devs : List PciDev) (s : Scan) :
    (pcimodScan true devs s).1.Inside ↔ FitsTables devs := by
  have hempty : ({ s with candev := 0, log := [] } : Scan).Inside := by
    intro table i hi
    cases hi
  have hiff := @Scan.inside_scanLoop_iff { s with candev := 0, log := [] } [] devs rfl
  rw [pcimodScan, if_pos rfl, hiff, FitsTables]
  exact and_iff_right hempty

/-- **The scan stays inside its channel tables.**  It uses the entries `0 .. MAX_CHANNELS - 1`
    of the four tables and no others, and leaves the terminator of `IOModel` alone, exactly if
    every board that it gets to fits. -/
theorem pcimodScan_inside_iff (present : Bool) (devs : List PciDev) (s : Scan) :
    (pcimodScan present devs s).1.Inside ∧
        (pcimodScan present devs s).1.ioModel maxChannels = s.ioModel maxChannels ↔
    (present = true → FitsTables devs) := by
  cases present with
  | false =>
      refine iff_of_true ⟨fun table i hi => ?_, rfl⟩ (fun h => nomatch h)
      cases hi
  | true =>
      rw [← inside_pcimodScan_iff devs s]
      refine ⟨fun h _ => h.1, fun h => ⟨h rfl, ?_⟩⟩
      have hframe := Scan.extends_scanLoop devs { s with candev := 0, log := [] }
      have hout : .entry .ioModel maxChannels ∉ (pcimodScan true devs s).1.log := by
        intro hin
        exact absurd (h rfl _ _ hin).2 (lt_irrefl _)
      have hcell := congrArg (BitVec.setWidth 8) (hframe.kept .ioModel maxChannels hout)
      simp only [Scan.cell, BitVec.setWidth_setWidth_of_le _ (by decide : 8 ≤ 32),
        BitVec.setWidth_eq] at hcell
      exact hcell

/-- A board with the signature of the CPC-PCI and with the given controllers, mapped where it
    is. -/
def cpcPci (first second : Bool) (irq : CInt) (bar0 bar1 : CLong) : PciDev where
  enable := 0
  irq := irq
  bar0 := bar0
  bar1 := bar1
  ioremap address _ := address
  readb ptr :=
    if ptr = bar1 then 0x55 else if ptr = bar1 + 4 then 0xaa
    else if ptr = bar1 + 8 then 0x01 else if ptr = bar1 + 12 then 0xcb
    else if first ∧ ptr = bar1 + 0x400 ∨ second ∧ ptr = bar1 + 0x600 then 0x21
    else if first ∧ ptr = bar1 + 0x408 ∨ second ∧ ptr = bar1 + 0x608 then 0x0c
    else if first ∧ ptr = bar1 + 0x40c ∨ second ∧ ptr = bar1 + 0x60c then 0xe0
    else 0xff

/-- The tables when the driver is loaded. -/
def Scan.zero : Scan := ⟨fun _ => 0, fun _ => 0, fun _ => 0, fun _ => 0, 0, []⟩

/-- Three boards with both controllers: the fifth controller is entered behind the tables, over
    the terminator.  One board with the second controller alone: the entry before the table of
    the control registers is read. -/
theorem scan_leaves_tables :
    let three := [cpcPci true true 5 0x1000 0x2000, cpcPci true true 7 0x3000 0x4000,
      cpcPci true true 9 0x5000 0x6000]
    let one := [cpcPci false true 5 0x1000 0x2000]
    (pcimodScan true three Scan.zero).1.ioModel maxChannels = 0x6d ∧
      ¬ (pcimodScan true three Scan.zero).1.Inside ∧
      ¬ (pcimodScan true one Scan.zero).1.Inside := by
  refine ⟨by decide, fun h => ?_, fun h => ?_⟩
  · exact absurd (h .ioModel 4 (by decide)).2 (by decide)
  · exact absurd (h .pitapci (-1) (by decide)).1 (by decide)

/-! ## Every channel and its own board -/

namespace Scan

variable {d : PciDev} {s : Scan} {c : Controller}

/-- Entry `i` is as the scan has left it for the controller `c`. -/
structure Entered (s : Scan) (i : Int) (c : Controller) : Prop where
  base : s.base i = (c.dev.ioremap (c.dev.bar1 + c.off) (32 * 4)).setWidth 32
  irq : s.irq i = c.dev.irq
  pitapci : s.pitapci i = if c.dev.secondOnly then s.pitapci (i - 1) else c.dev.pita.setWidth 32

/-- A board leaves the channels before it alone. -/
theorem ours_below {i : Int} (hi : i < s.candev) :
    (second d (first d (ready d s))).base i = s.base i ∧
      (second d (first d (ready d s))).irq i = s.irq i ∧
      (second d (first d (ready d s))).pitapci i = s.pitapci i := by
  have hne : i ≠ s.candev := by omega
  have hne' : i ≠ s.candev + 1 := by omega
  unfold second first
  split <;> split <;> simp [hne, hne']

/-- The controllers of a board of ours: the first one, the second one alone, and the second
    one behind the first. -/
theorem controllers_cases (hsig : d.signed = true) {j : Nat} (hc : d.controllers[j]? = some c) :
    d.has 0x400 = true ∧ j = 0 ∧ c = ⟨d, 0x400⟩ ∨
      d.has 0x400 = false ∧ d.has 0x600 = true ∧ j = 0 ∧ c = ⟨d, 0x600⟩ ∨
      d.has 0x400 = true ∧ d.has 0x600 = true ∧ j = 1 ∧ c = ⟨d, 0x600⟩ := by
  rw [PciDev.controllers, hsig, if_pos rfl] at hc
  cases h1 : d.has 0x400 <;> cases h2 : d.has 0x600 <;> rw [h1, h2] at hc <;>
    rcases j with _ | _ | j <;> simp_all

/-- A board's own channels. -/
theorem ours_entered (hsig : d.signed = true) {j : Nat} (hc : d.controllers[j]? = some c) :
    (second d (first d (ready d s))).Entered (s.candev + j) c := by
  have hsecond : d.secondOnly = (!d.has 0x400 && d.has 0x600) := by
    rw [PciDev.secondOnly, hsig, Bool.true_and]
  unfold second first
  rcases controllers_cases hsig hc with ⟨h1, rfl, rfl⟩ | ⟨h1, h2, rfl, rfl⟩ | ⟨h1, h2, rfl, rfl⟩
  · rw [h1, Bool.not_true, Bool.false_and] at hsecond
    rw [if_pos h1]
    split <;> constructor <;> simp [hsecond]
  · rw [h1, h2, Bool.not_false, Bool.true_and] at hsecond
    rw [if_pos h2, if_neg (by rw [h1]; exact Bool.false_ne_true)]
    constructor <;> simp [hsecond]
  · rw [h1, Bool.not_true, Bool.false_and] at hsecond
    rw [if_pos h2, if_pos h1]
    constructor <;> simp [hsecond]

/-- The boards `ds`, behind the boards `pre` whose channels are entered. -/
theorem entered_scanLoop {pre ds : List PciDev}
    (hours : ∀ d ∈ ds, d.enabled = true ∧ d.signed = true)
    (hcount : s.candev = (channels pre).length)
    (hdone : ∀ (i : Nat) c, (channels pre)[i]? = some c → s.Entered i c)
    (hin : (scanLoop ds s).1.Inside) :
    (scanLoop ds s).1.candev = (channels (pre ++ ds)).length ∧
      ∀ (i : Nat) c, (channels (pre ++ ds))[i]? = some c → (scanLoop ds s).1.Entered i c := by
  induction ds generalizing pre s with
  | nil =>
      rw [List.append_nil]
      exact ⟨hcount, hdone⟩
  | cons d ds ih =>
      obtain ⟨hen, hsig⟩ := hours d List.mem_cons_self
      have hroom := room_of_inside hen hin
      have hdone' : ∀ (i : Nat) c, (channels (pre ++ [d]))[i]? = some c →
          (second d (first d (ready d s))).Entered i c := by
        intro i c hc
        rw [channels_append, channels_singleton] at hc
        by_cases hi : i < (channels pre).length
        · -- a channel of an earlier board, whose entries are left alone
          rw [List.getElem?_append_left hi] at hc
          have hold := hdone i c hc
          obtain ⟨hbase, hirq, hpita⟩ := ours_below (d := d) (s := s) (i := i) (by omega)
          have hprev := (ours_below (d := d) (s := s) (i := (i : Int) - 1) (by omega)).2.2
          refine ⟨hbase.trans hold.base, hirq.trans hold.irq, ?_⟩
          rw [hpita, hprev]
          exact hold.pitapci
        · rw [List.getElem?_append_right (by omega)] at hc
          have hnew := ours_entered (s := s) hsig hc
          have hidx : s.candev + ((i - (channels pre).length : Nat) : Int) = i := by omega
          rwa [hidx] at hnew
      rw [scanLoop, scanDev_ours hen hsig hroom] at hin ⊢
      have hrest := ih (fun d' hd' => hours d' (List.mem_cons_of_mem d hd'))
        (count_ours hsig hcount) hdone' hin
      rwa [List.append_assoc] at hrest

/-- Channel `i` is the controller `c`: it is mapped from the controller's own address, and has
    the interrupt and the control registers of the controller's own board. -/
structure Owns (s : Scan) (i : Int) (c : Controller) : Prop where
  base : (s.base i).setWidth 64 = c.dev.ioremap (c.dev.bar1 + c.off) (32 * 4)
  irq : s.irq i = c.dev.irq
  pitapci : (s.pitapci i).setWidth 64 = c.dev.pita

end Scan

/-- The scan gives every controller its own board: there is a free channel whenever a board is
    found; a board with its second controller alone has the control registers of the channel
    before; and the pointers fit into the 32 bits of the tables. -/
structure OwnBoards (devs : List PciDev) : Prop where
  room : ∀ pre d post, devs = pre ++ d :: post → (channels pre).length < maxChannels
  shared : ∀ pre d post, devs = pre ++ d :: post → d.secondOnly = true →
    ∃ c, (channels pre).getLast? = some c ∧ c.dev.pita = d.pita
  pointers : ∀ c ∈ channels devs,
    (c.dev.ioremap (c.dev.bar1 + c.off) (32 * 4)).toNat < 2 ^ 32 ∧ c.dev.pita.toNat < 2 ^ 32

theorem reached_ours {devs : List PciDev}
    (hours : ∀ d ∈ devs, d.enabled = true ∧ d.signed = true) : reached devs = devs := by
  induction devs with
  | nil => rfl
  | cons d ds ih =>
      obtain ⟨hen, hsig⟩ := hours d List.mem_cons_self
      rw [reached, if_pos hen, if_pos hsig, ih fun d' hd' => hours d' (List.mem_cons_of_mem d hd')]

/-- A channel is a controller of one of the boards. -/
theorem channels_place {devs : List PciDev} {i : Nat} {c : Controller}
    (hc : (channels devs)[i]? = some c) :
    ∃ pre d post j, devs = pre ++ d :: post ∧ i = (channels pre).length + j ∧
      d.controllers[j]? = some c := by
  induction devs generalizing i with
  | nil => cases hc
  | cons d ds ih =>
      rw [← List.singleton_append, channels_append, channels_singleton] at hc
      by_cases hi : i < d.controllers.length
      · rw [List.getElem?_append_left hi] at hc
        exact ⟨[], d, ds, i, rfl, (Nat.zero_add i).symm, hc⟩
      · rw [List.getElem?_append_right (by omega)] at hc
        obtain ⟨pre, d', post, j, hds, hj, hc'⟩ := ih hc
        refine ⟨d :: pre, d', post, j, by rw [hds]; rfl, ?_, hc'⟩
        rw [← List.singleton_append, channels_append, channels_singleton, List.length_append]
        omega

theorem controllers_secondOnly {d : PciDev} (h : d.secondOnly = true) :
    d.controllers = [⟨d, 0x600⟩] := by
  rw [PciDev.secondOnly, Bool.and_eq_true, Bool.and_eq_true, Bool.not_eq_true'] at h
  obtain ⟨⟨hsig, h1⟩, h2⟩ := h
  rw [PciDev.controllers, hsig, h1, h2]
  rfl

theorem dev_of_controllers {d : PciDev} {j : Nat} {c : Controller}
    (hc : d.controllers[j]? = some c) : c.dev = d := by
  have hmem := List.mem_of_getElem? hc
  unfold PciDev.controllers at hmem
  split at hmem
  · rw [List.mem_append] at hmem
    rcases hmem with hmem | hmem <;> split at hmem <;> simp_all
  · cases hmem

/-- The first channel of a board comes behind the channels of the boards before it. -/
theorem channels_behind (pre post : List PciDev) (d : PciDev) :
    channels (pre ++ d :: post) = channels pre ++ (d.controllers ++ channels post) := by
  rw [channels_append, ← List.singleton_append, channels_append, channels_singleton]

/-- Boards that get their own channels fit into the tables. -/
theorem OwnBoards.fitsTables {devs : List PciDev} (h : OwnBoards devs)
    (hours : ∀ d ∈ devs, d.enabled = true ∧ d.signed = true)
    (htotal : (channels devs).length ≤ maxChannels) : FitsTables devs := by
  intro pre d post hdevs
  rw [reached_ours hours] at hdevs
  refine ⟨h.room pre d post hdevs, ?_, fun hsecond => ?_⟩
  · rw [hdevs, channels_behind, List.length_append, List.length_append] at htotal
    rw [channels_append, channels_singleton, List.length_append]
    omega
  · obtain ⟨c, hlast, -⟩ := h.shared pre d post hdevs hsecond
    intro hnone
    rw [hnone] at hlast
    cases hlast

/-- A word of the tables holds the pointer that it was made from if it fits. -/
theorem setWidth_setWidth_of_fits {ptr : CLong} (h : ptr.toNat < 2 ^ 32) :
    (ptr.setWidth 32).setWidth 64 = ptr := by
  apply BitVec.eq_of_toNat_eq
  rw [BitVec.toNat_setWidth, BitVec.toNat_setWidth]
  omega

theorem fits_of_setWidth {x : CInt} {ptr : CLong} (h : x.setWidth 64 = ptr) :
    ptr.toNat < 2 ^ 32 := by
  have hx := x.isLt
  rw [← h, BitVec.toNat_setWidth]
  omega

section Assigned

variable {devs : List PciDev} {s : Scan}

/-- The channels have their own boards if each entry is as the scan makes it. -/
theorem OwnBoards.owns (h : OwnBoards devs)
    (hentered : ∀ (i : Nat) c, (channels devs)[i]? = some c → s.Entered i c) {i : Nat}
    {c : Controller} (hc : (channels devs)[i]? = some c) : s.Owns i c := by
  -- on the number of the channel, since a channel may have its pointer from the one before
  induction i using Nat.strong_induction_on generalizing c with
  | _ i ih =>
      have hc' := hentered i c hc
      obtain ⟨hbase, hpita⟩ := h.pointers c (List.mem_of_getElem? hc)
      refine ⟨?_, hc'.irq, ?_⟩
      · rw [hc'.base, setWidth_setWidth_of_fits hbase]
      · rw [hc'.pitapci]
        split
        · rename_i hsecond
          obtain ⟨pre, d, post, j, hdevs, hi, hj⟩ := channels_place hc
          have hdev := dev_of_controllers hj
          rw [hdev] at hsecond ⊢
          obtain ⟨c', hlast, hsame⟩ := h.shared pre d post hdevs hsecond
          have hpos : 0 < (channels pre).length := by
            refine List.length_pos_of_ne_nil fun hnone => ?_
            rw [hnone] at hlast
            cases hlast
          have hzero : j = 0 := by
            have hlt := (List.getElem?_eq_some_iff.mp hj).1
            rw [controllers_secondOnly hsecond] at hlt
            exact Nat.lt_one_iff.mp hlt
          have hprev : (channels devs)[i - 1]? = some c' := by
            rw [hdevs, channels_behind, List.getElem?_append_left (by omega)]
            rw [List.getLast?_eq_getElem?] at hlast
            rwa [hi, hzero]
          have hidx : (i : Int) - 1 = (i - 1 : Nat) := by omega
          rw [hidx, (ih (i - 1) (by omega) hprev).pitapci, hsame]
        · exact setWidth_setWidth_of_fits hpita

/-- The other way round. -/
theorem OwnBoards.of_owns (hfits : FitsTables devs)
    (hours : ∀ d ∈ devs, d.enabled = true ∧ d.signed = true)
    (hentered : ∀ (i : Nat) c, (channels devs)[i]? = some c → s.Entered i c)
    (howns : ∀ (i : Nat) c, (channels devs)[i]? = some c → s.Owns i c) : OwnBoards devs := by
  refine ⟨fun pre d post hdevs => ?_, fun pre d post hdevs hsecond => ?_, fun c hc => ?_⟩
  · rw [← reached_ours hours] at hdevs
    exact (hfits pre d post hdevs).1
  · have hne : channels pre ≠ [] := by
      refine (hfits pre d post ?_).2.2 hsecond
      rw [reached_ours hours]
      exact hdevs
    have hpos : 0 < (channels pre).length := List.length_pos_of_ne_nil hne
    have hlast := List.getLast?_eq_some_getLast hne
    have hprev :
        (channels devs)[(channels pre).length - 1]? = some ((channels pre).getLast hne) := by
      rw [hdevs, channels_behind, List.getElem?_append_left (by omega)]
      rw [← List.getLast?_eq_getElem?, hlast]
    have hown : (channels devs)[(channels pre).length]? = some ⟨d, 0x600⟩ := by
      rw [hdevs, channels_behind, List.getElem?_append_right (le_refl _),
        controllers_secondOnly hsecond, Nat.sub_self]
      rfl
    have hword := (hentered _ _ hown).pitapci
    rw [if_pos hsecond] at hword
    have hidx : ((channels pre).length : Int) - 1 = ((channels pre).length - 1 : Nat) := by omega
    rw [hidx] at hword
    refine ⟨_, hlast, ?_⟩
    rw [← (howns _ _ hprev).pitapci, ← hword]
    exact (howns _ _ hown).pitapci
  · obtain ⟨i, hi⟩ := List.getElem?_of_mem hc
    exact ⟨fits_of_setWidth (howns i c hi).base, fits_of_setWidth (howns i c hi).pitapci⟩

end Assigned

/-- **Every channel has its own board.**  For boards of ours with at most `MAX_CHANNELS`
    controllers, channel `i` is the `i`-th controller in scan order, with the address, the
    interrupt and the control registers of its own board, and the scan does not leave its
    tables, exactly if `OwnBoards` holds. -/
theorem pcimodScan_assigns_iff (devs : List PciDev) (s : Scan)
    (hours : ∀ d ∈ devs, d.enabled = true ∧ d.signed = true)
    (htotal : (channels devs).length ≤ maxChannels) :
    (pcimodScan true devs s).1.Inside ∧
        (pcimodScan true devs s).1.candev = (channels devs).length ∧
        (∀ (i : Nat) c, (channels devs)[i]? = some c → (pcimodScan true devs s).1.Owns i c) ↔
      OwnBoards devs := by
  have hrun : (pcimodScan true devs s).1.Inside →
      (pcimodScan true devs s).1.candev = (channels devs).length ∧
        ∀ (i : Nat) c, (channels devs)[i]? = some c → (pcimodScan true devs s).1.Entered i c := by
    intro hin
    have hnone : ∀ (i : Nat) c, (channels [])[i]? = some c →
        ({ s with candev := 0, log := [] } : Scan).Entered i c := fun i c hc => nomatch hc
    exact @Scan.entered_scanLoop { s with candev := 0, log := [] } [] devs hours rfl hnone hin
  constructor
  · rintro ⟨hin, -, howns⟩
    exact .of_owns ((inside_pcimodScan_iff devs s).mp hin) hours (hrun hin).2 howns
  · intro h
    have hin := (inside_pcimodScan_iff devs s).mpr (h.fitsTables hours htotal)
    exact ⟨hin, (hrun hin).1, fun i c hc => h.owns (hrun hin).2 hc⟩

/-- A board with both controllers, and one with its first controller alone. -/
theorem pcimodScan_assigns_two :
    (pcimodScan true [cpcPci true true 5 0x1000 0x2000, cpcPci true false 7 0x3000 0x4000]
      Scan.zero).1.Owns 2 ⟨cpcPci true false 7 0x3000 0x4000, 0x400⟩ := by
  have hown : OwnBoards [cpcPci true true 5 0x1000 0x2000, cpcPci true false 7 0x3000 0x4000] := by
    refine ⟨?_, ?_, by decide⟩
    · rw [forall_place_cons, forall_place_cons]
      exact ⟨by decide, by decide, forall_place_nil⟩
    · rw [forall_place_cons, forall_place_cons]
      exact ⟨by decide, by decide, forall_place_nil⟩
  have hours : ∀ d ∈ [cpcPci true true 5 0x1000 0x2000, cpcPci true false 7 0x3000 0x4000],
      d.enabled = true ∧ d.signed = true := by
    decide
  exact ((pcimodScan_assigns_iff _ Scan.zero hours (by decide)).mpr hown).2.2 2 _ rfl

/-- The second board has its second controller alone, and gets the control registers of the
    first board. -/
theorem control_of_other_board :
    let devs := [cpcPci true false 5 0x1000 0x2000, cpcPci false true 7 0x3000 0x4000]
    (∀ d ∈ devs, d.enabled = true ∧ d.signed = true) ∧ (channels devs).length ≤ maxChannels ∧
      (pcimodScan true devs Scan.zero).1.pitapci 1 = 0x1000 ∧
      (channels devs)[1]? = some ⟨cpcPci false true 7 0x3000 0x4000, 0x600⟩ ∧
      ¬ (pcimodScan true devs Scan.zero).1.Owns 1 ⟨cpcPci false true 7 0x3000 0x4000, 0x600⟩ := by
  refine ⟨by decide, by decide, by decide, rfl, fun h => ?_⟩
  exact absurd h.pitapci (by decide)

end Can4linux
