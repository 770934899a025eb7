/-
  Can4linux.SysctlEntries

  The entries that `sysctl.awk` makes, against what they are for: the macro of an item
  is to be a number that `core_init` finds the entry of the item with, and an entry is
  to say what its own line says.

  The counter behind the macros runs on from table to table, and starts at nothing;
  the variable `child` is the only one that an entry is printed from and that an item
  does not set anew.
-/

import Can4linux.SysctlAwk

namespace Can4linux.Sysctl

open Awk

variable {env : Env} {l h X : String} {ls pre body rest tail : List String} {v w : Vars}

/-- The initializer that is printed for an item behind the lines `pre`. -/
def initializer (env : Env) (pre : List String) (X : String) : List String :=
  (rules env X (run (rules env) pre Vars.init).1).2.out

/-- The elements of the array that the header `h` opens: the initializers of the items up
    to the next header. -/
def elements (env : Env) (pre : List String) (h : String) (tail : List String) :
    List (List String) :=
  initializers env (tail.takeWhile fun l => !isHeader l)
    (run (rules env) (pre ++ [h]) Vars.init).1

/-- Behind an open table, what follows up to the end starts with the end of the table. -/
theorem run_closes (env : Env) (ls : List String) (hv : v.isopen = true)
    (hd : ∀ l ∈ ls.head?, isHeader l) :
    ∃ after, (run (rules env) ls v).2.out ++ closing = closing ++ after := by
  cases ls with
  | nil => exact ⟨[], rfl⟩
  | cons l ls =>
      have hl : isHeader l := hd l rfl
      refine ⟨"" :: headerLine l :: ((run (rules env) ls (rules env l v).1).2.out ++ closing), ?_⟩
      rw [run_cons, Printed.andThen_out, rules_header hl, header_out, hv, if_pos rfl]
      simp only [List.append_assoc, List.cons_append, List.nil_append]

/-- The elements are what stands between the header and the end of the array. -/
theorem elements_out (hh : isHeader h) :
    ∃ before after, (sysctl env (pre ++ h :: tail)).out =
      before ++ headerLine h :: (elements env pre h tail).flatten ++ closing ++ after := by
  let v := (run (rules env) pre Vars.init).1
  let mine := tail.takeWhile fun l => !isHeader l
  have hb : ∀ l ∈ mine, isHeader l = false := fun l hl => by
    simpa using List.mem_takeWhile_imp hl
  have hmine := table_out env (t := (h, mine)) (v := v) hh hb
  have hopen := table_isopen env (t := (h, mine)) (v := v) hh hb
  obtain ⟨after, hafter⟩ :=
    run_closes env (tail.dropWhile fun l => !isHeader l) hopen fun l hl => by
      have hfirst := List.head?_dropWhile_not (fun l => !isHeader l) tail
      rw [Option.mem_def.mp hl] at hfirst
      simpa using hfirst
  have hcut : pre ++ h :: tail =
      pre ++ ((h :: mine) ++ tail.dropWhile fun l => !isHeader l) := by
    rw [List.cons_append, List.takeWhile_append_dropWhile]
  have helems : tableText env (h, mine) v =
      headerLine h :: (elements env pre h tail).flatten ++ closing := by
    rw [elements, run_append]
    rfl
  refine ⟨(run (rules env) pre Vars.init).2.out ++ if v.isopen then closing ++ [""] else [],
    after, ?_⟩
  show [] ++ ((run (rules env) (pre ++ h :: tail) Vars.init).2.out ++ closing) = _
  rw [hcut, run_append, Printed.andThen_out, run_append, Printed.andThen_out, List.nil_append,
    List.append_assoc, List.append_assoc, hafter, ← List.append_assoc _ closing, hmine, helems]
  simp only [List.append_assoc]

/-- The element at the place of an item is the initializer that is printed for it. -/
theorem getElem_elements (hb : ∀ l ∈ body, isHeader l = false) (hX : isItem X) :
    (elements env pre h (body ++ X :: rest))[body.countP isItem]? =
      some (initializer env (pre ++ h :: body) X) := by
  have hbody : (body ++ X :: rest).takeWhile (fun l => !isHeader l) =
      body ++ X :: rest.takeWhile fun l => !isHeader l := by
    rw [List.takeWhile_append_of_pos fun l hl => by simp [hb l hl],
      List.takeWhile_cons_of_pos (by simp [isItem_not_header hX])]
  have hrun : (run (rules env) (pre ++ h :: body) Vars.init).1 =
      (run (rules env) body (run (rules env) (pre ++ [h]) Vars.init).1).1 := by
    rw [← List.singleton_append, ← List.append_assoc, run_append]
  rw [elements, hbody, getElem_initializers hX, initializer, hrun]

/-! ## The macros -/

/-- The macro of `X`, an item of the table that `h` opens, is a number, and the element of
    the array at that number less one is the initializer of `X`, at its own place. -/
def NamesEntry (env : Env) (pre : List String) (h : String) (body : List String) (X : String)
    (rest : List String) : Prop :=
  let before := (run (rules env) (pre ++ h :: body) Vars.init).1
  ∃ k, (rules env X before).2.file.getLast? =
      some ("#define SYSCTL_" ++ (rules env X before).1.defName.text ++ "\t" ++ toString k) ∧
    1 ≤ k ∧ k - 1 = body.countP isItem ∧
    (elements env pre h (body ++ X :: rest))[k - 1]? = some (initializer env (pre ++ h :: body) X)

/-- The macro of every marked item of a global table names its entry. -/
def MacrosNameEntries (env : Env) (ls : List String) : Prop :=
  ∀ pre h body X rest, ls = pre ++ h :: (body ++ X :: rest) → isHeader h → isGlobal h →
    (∀ l ∈ body, isHeader l = false) → isItem X → isMarked X → NamesEntry env pre h body X rest

/-- In front of a global table with a marked item, there is one item in the list. -/
def OneItemBefore (ls : List String) : Prop :=
  ∀ pre h body X rest, ls = pre ++ h :: (body ++ X :: rest) → isHeader h → isGlobal h →
    (∀ l ∈ body, isHeader l = false) → isItem X → isMarked X → pre.countP isItem = 1

/-- A marked item prints its macro last, with the counter in front of it. -/
theorem marked_file (hX : isItem X) (hm : isMarked X) :
    (rules env X v).2.file.getLast? =
      some ("#define SYSCTL_" ++ (rules env X v).1.defName.text ++ "\t" ++ countText v.n) := by
  have hn : (typed env (assign X v)).1.n = v.n := typed_keeps.2
  rw [rules_item hX, itemRule_vars]
  show ((typed env (assign X v)).2 ++ (defineMacro X (typed env (assign X v)).1).2).getLast? = _
  rw [defineMacro, if_pos hm, hn, List.getLast?_concat]

/-- The counter is a number exactly if something has been counted. -/
theorem countText_counted {m k : Nat} : countText (counted m) = toString k ↔ m = k ∧ k ≠ 0 := by
  cases m with
  | zero =>
      have hempty : "" ≠ toString k := by
        rw [Nat.toString_eq_repr]
        exact Nat.repr_ne_empty.symm
      exact ⟨fun h => absurd h hempty, fun h => absurd h.1.symm h.2⟩
  | succ m =>
      show toString (m + 1) = toString k ↔ m + 1 = k ∧ k ≠ 0
      rw [toString_inj]
      omega

theorem names_entry_iff (hh : isHeader h) (hb : ∀ l ∈ body, isHeader l = false) (hX : isItem X)
    (hm : isMarked X) :
    NamesEntry env pre h body X rest ↔ pre.countP isItem = 1 := by
  have hcount : (pre ++ h :: body).countP isItem = pre.countP isItem + body.countP isItem := by
    have hh' : isItem h = false := isHeader_not_item hh
    rw [List.countP_append, List.countP_cons_of_neg (by simp [hh'])]
  have hn : (run (rules env) (pre ++ h :: body) Vars.init).1.n =
      counted (pre.countP isItem + body.countP isItem) := by
    rw [run_n (k := 0) rfl, Nat.zero_add, hcount]
  simp only [NamesEntry, marked_file hX hm, hn, Option.some.injEq, String.append_right_inj,
    countText_counted]
  -- `k` is the number of all items in front of `X`, its place the number of those in the table.
  constructor
  · rintro ⟨k, ⟨hk, -⟩, hpos, hplace, -⟩
    omega
  · intro hone
    refine ⟨1 + body.countP isItem, ⟨by rw [hone], by omega⟩, by omega, by omega, ?_⟩
    rw [Nat.add_sub_cancel_left, getElem_elements hb hX]

/-- The macros name their entries in exactly the lists in which one item, and no more, stands
    in front of a global table with a marked item: the counter is printed before it is
    incremented, and runs on from table to table. -/
theorem macros_name_entries_iff (env : Env) (ls : List String) :
    MacrosNameEntries env ls ↔ OneItemBefore ls := by
  constructor
  · intro h pre hd body X rest hls hh hg hb hX hm
    exact (names_entry_iff hh hb hX hm).mp (h pre hd body X rest hls hh hg hb hX hm)
  · intro h pre hd body X rest hls hh hg hb hX hm
    exact (names_entry_iff hh hb hX hm).mpr (h pre hd body X rest hls hh hg hb hX hm)

/-- `sysctl.list` -/
def sysctlList : List String :=
  [ "can_sysctl_table\tglobal",
    "\t(30)string\t0444\tversion",
    "\t(30)string\t0444\tChipset",
    "\t(#chan+1)string\t0444\tIOModel",
    "",
    "\t[#chan]int\t0644\tIRQ\t\t#",
    "\t[#chan]int\t0644\tBase\t\t#",
    "\t[#chan]int\t0644\tBaud",
    "\t[#chan]uint\t0644\tAccCode",
    "\t[#chan]uint\t0644\tAccMask",
    "\t[#chan]int\t0644\tTimeout",
    "\t[#chan]int\t0644\tOutc",
    "\t[#chan]int\t0444\tTxErr",
    "\t[#chan]int\t0444\tRxErr",
    "\t[#chan]int\t0444\tOverrun",
    "",
    "\t[1]uint\t0644\tdbgMask\t&",
    "",
    "\thgrev\t0444\tvcs-rev",
    "",
    "//\t[#chan]int\t0444\tcnt1\tCnt1",
    "//\t[#chan]int\t0444\tcnt2\tCnt2",
    "",
    "sys",
    "\tchild\t0555\tCan\tcan_sysctl_table" ]

/-- No `getline` reads a line. -/
def noHg : Env := ⟨fun _ => none, .num 0⟩

/-- In the list of the repository `SYSCTL_BASE` is the number of the interrupts, so the base
    addresses stay writable. -/
theorem base_names_irq :
    "#define SYSCTL_BASE\t4" ∈ (sysctl noHg sysctlList).file ∧
      "         .procname = \"IRQ\"," ∈
        (elements noHg [] "can_sysctl_table\tglobal" sysctlList.tail).getD (4 - 1) [] ∧
      ¬MacrosNameEntries noHg sysctlList := by
  refine ⟨by decide +kernel, by decide +kernel, fun h => ?_⟩
  have hb : ∀ l ∈ (sysctlList.drop 1).take 5, isHeader l = false := by decide +kernel
  have hX : isItem "\t[#chan]int\t0644\tBase\t\t#" := by decide +kernel
  have hm : isMarked "\t[#chan]int\t0644\tBase\t\t#" := by decide +kernel
  have hbase := h [] "can_sysctl_table\tglobal" ((sysctlList.drop 1).take 5)
    "\t[#chan]int\t0644\tBase\t\t#" (sysctlList.drop 7) rfl (by decide +kernel)
    (by decide +kernel) hb hX hm
  exact absurd ((names_entry_iff (by decide +kernel) hb hX hm).mp hbase) (by decide)

/-! ## The initializers -/

/-- The variables that an initializer is printed from agree, but for `child`. -/
structure SameAttrs (v w : Vars) : Prop where
  ctlName : v.ctlName = w.ctlName
  name : v.name = w.name
  data : v.data = w.data
  sz : v.sz = w.sz
  mode : v.mode = w.mode
  handler : v.handler = w.handler
  strategy : v.strategy = w.strategy

/-- The line of an item that names a table below its own. -/
def isChild (l : String) : Bool := (fieldOf l 2).text = "child"

/-- The types of items that take everything from the line: strings, arrays and children. -/
def isPlain (l : String) : Bool :=
  isString (fieldOf l 2) || isArray "uint" (fieldOf l 2) || isArray "int" (fieldOf l 2) ||
    isChild l

/-- The table that the last child among the lines names, if there is one. -/
def leftChild (ls : List String) : Val :=
  (ls.filter fun l => isItem l && isChild l).getLast?.elim .unset dataOf

theorem isChild_text (hc : isChild l) : (fieldOf l 2).text = "child" := by
  simpa [isChild] using hc

/-- The branch for children is taken for these only. -/
theorem typed_child :
    (typed env (assign l v)).1.child = if isChild l then dataOf l else v.child := by
  have htype : (assign l v).type = fieldOf l 2 := rfl
  unfold typed
  rw [htype]
  cases hc : isChild l with
  | true =>
      have htext := isChild_text hc
      have hstring : isString (fieldOf l 2) = false := by
        rw [isString, htext]
        decide
      have harray : ∀ elem, isArray elem (fieldOf l 2) = false := fun elem => by
        rw [isArray, htext]
        rfl
      simp only [hstring, harray, htext, if_true, if_false, Bool.false_eq_true]
      rfl
  | false =>
      have htext : (fieldOf l 2).text ≠ "child" := fun h => by
        rw [isChild, h] at hc
        exact absurd hc (by decide)
      rw [if_neg htext, if_neg Bool.false_ne_true]
      split_ifs <;> rfl

/-- All but `child` is set anew for each item. -/
theorem typed_same (hl : isPlain l) :
    SameAttrs (typed env (assign l v)).1 (typed env (assign l w)).1 := by
  have hv : (assign l v).type = fieldOf l 2 := rfl
  have hw : (assign l w).type = fieldOf l 2 := rfl
  unfold typed
  rw [hv, hw]
  split_ifs with hstring huint hint hhg hchild
  -- The revision is the only type that reads a variable, and it is not plain.
  · exact ⟨rfl, rfl, rfl, rfl, rfl, rfl, rfl⟩
  · exact ⟨rfl, rfl, rfl, rfl, rfl, rfl, rfl⟩
  · exact ⟨rfl, rfl, rfl, rfl, rfl, rfl, rfl⟩
  · simp [isPlain, isChild, hstring, huint, hint, hhg] at hl
  · exact ⟨rfl, rfl, rfl, rfl, rfl, rfl, rfl⟩
  · exact ⟨rfl, rfl, rfl, rfl, rfl, rfl, rfl⟩

/-- Initializers from the same attributes differ exactly if their children do. -/
theorem entry_eq_iff (h : SameAttrs v w) :
    entry v = entry w ↔ item "child" v.child = item "child" w.child := by
  unfold entry
  rw [h.ctlName, h.name, h.data, h.sz, h.mode, h.handler, h.strategy]
  simp only [List.append_assoc, List.append_cancel_left_eq, List.append_cancel_right_eq]

/-- The child of an item is passed on, and nothing else touches `child`. -/
theorem rules_child :
    (rules env l v).1.child = if isItem l && isChild l then dataOf l else v.child := by
  cases hi : isItem l with
  | true =>
      rw [rules_item hi, itemRule_vars, defineMacro_child, typed_child, Bool.true_and]
  | false =>
      rw [Bool.false_and, if_neg Bool.false_ne_true]
      cases hh : isHeader l with
      | true => rw [rules_header hh, header_child]
      | false => rw [rules_other hh hi]

/-- After a run `child` is what the last child left there. -/
theorem run_child :
    (run (rules env) ls v).1.child =
      (ls.filter fun l => isItem l && isChild l).getLast?.elim v.child dataOf := by
  induction ls generalizing v with
  | nil => rfl
  | cons l ls ih =>
      have hstep : (run (rules env) (l :: ls) v).1 = (run (rules env) ls (rules env l v).1).1 := by
        rw [run_cons]
      rw [hstep, ih, rules_child, List.filter_cons]
      cases isItem l && isChild l with
      | false => rfl
      | true =>
          rw [if_pos rfl, if_pos rfl, List.getLast?_cons]
          cases (ls.filter fun l => isItem l && isChild l).getLast? <;> rfl

theorem item_eq_nil_iff (key : String) (val : Val) : item key val = [] ↔ val.truthy = false := by
  unfold item
  cases val.truthy with
  | false => exact ⟨fun _ => rfl, fun _ => rfl⟩
  | true =>
      rw [if_pos rfl]
      simp

/-- An initializer is the one that its line makes alone exactly if the line names a child
    itself, or no child is left from the lines in front of it. -/
theorem initializer_alone_iff (hX : isItem X) (hplain : isPlain X) (hh : isHeader h) :
    initializer env pre X = initializer env [h] X ↔
      isChild X ∨ (leftChild pre).truthy = false := by
  have hleft : (run (rules env) pre Vars.init).1.child = leftChild pre := run_child
  have halone : (run (rules env) [h] Vars.init).1.child = .unset := by
    rw [run_cons, run_nil, rules_header hh]
    rfl
  unfold initializer
  rw [rules_item hX, rules_item hX, itemRule_out, itemRule_out,
    entry_eq_iff (typed_same hplain), typed_child, typed_child, hleft, halone]
  cases isChild X with
  | true => exact ⟨fun _ => .inl rfl, fun _ => rfl⟩
  | false =>
      -- Alone, the line finds nothing in `child`, so no member is printed for it.
      have hnone : item "child" .unset = [] := rfl
      rw [if_neg Bool.false_ne_true, if_neg Bool.false_ne_true, hnone, item_eq_nil_iff]
      exact ⟨.inr, fun h => h.resolve_left Bool.false_ne_true⟩

/-- Every initializer of a plain type is the one that is printed for a list of a header and
    its line. -/
def OwnInitializers (env : Env) (ls : List String) : Prop :=
  ∀ pre X rest, ls = pre ++ X :: rest → isItem X → isPlain X →
    ∀ h, isHeader h → initializer env pre X = initializer env [h] X

/-- The initializers are printed in the order of their lines, behind the header of their
    table, and each table is closed by one empty entry. -/
def InOrder (env : Env) (ls : List String) : Prop :=
  (sysctl env ls).out =
    (initializers env (tablesOf ls).1 Vars.init).flatten ++
      if (tablesOf ls).2 = [] then closing
      else [""].intercalate
        (tableTexts env (tablesOf ls).2 (run (rules env) (tablesOf ls).1 Vars.init).1)

/-- Behind an item that names a child there is no item of another plain type, until one
    names the empty child. -/
def NoChildLeft (ls : List String) : Prop :=
  ∀ pre X rest, ls = pre ++ X :: rest → isItem X → isPlain X →
    isChild X ∨ (leftChild pre).truthy = false

/-- The initializers depend on their own lines in exactly the lists in which no child is left
    for an item of another type; the order and the ends of the tables are right in all. -/
theorem own_initializers_iff (env : Env) (ls : List String) :
    OwnInitializers env ls ∧ InOrder env ls ↔ NoChildLeft ls := by
  have hheader : isHeader "table" := by decide +kernel
  constructor
  · rintro ⟨hown, -⟩ pre X rest hls hX hplain
    exact (initializer_alone_iff hX hplain hheader).mp
      (hown pre X rest hls hX hplain "table" hheader)
  · intro hnone
    refine ⟨fun pre X rest hls hX hplain h hh => ?_, sysctl_out⟩
    exact (initializer_alone_iff hX hplain hh).mpr (hnone pre X rest hls hX hplain)

/-- A table behind the one that names a child gets the child as well. -/
theorem child_left :
    "         .child = can_sysctl_table," ∈
        initializer noHg ["sys", "\tchild\t0555\tCan\tcan_sysctl_table", "dev"]
          "\t[1]int\t0644\tdebug\t&" ∧
      "         .child = can_sysctl_table," ∉
        initializer noHg ["dev"] "\t[1]int\t0644\tdebug\t&" ∧
      ¬OwnInitializers noHg ["sys", "\tchild\t0555\tCan\tcan_sysctl_table", "dev",
        "\t[1]int\t0644\tdebug\t&"] := by
  refine ⟨by decide +kernel, by decide +kernel, fun h => ?_⟩
  have hsame := h ["sys", "\tchild\t0555\tCan\tcan_sysctl_table", "dev"]
    "\t[1]int\t0644\tdebug\t&" [] rfl (by decide +kernel) (by decide +kernel) "dev"
    (by decide +kernel)
  exact absurd hsame (by decide +kernel)

end Can4linux.Sysctl
