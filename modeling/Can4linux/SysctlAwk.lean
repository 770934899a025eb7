/-
  Can4linux.SysctlAwk

  `sysctl.awk`, which makes the tables of the sysctl entries and the macros that
  name them from `sysctl.list`: its variables, all of them global, the rules, and
  what is printed for a whole list.

  A line with a first field opens a table, one with a second field only is an item
  of it, and a line that starts with two slashes is a comment.
-/

import Mathlib.Data.List.TakeWhile
import Can4linux.Lib.Awk

namespace Can4linux.Sysctl

open Awk

/-! ## The program -/

/-- What the program takes from outside: the line that a `getline` reads, one for each
    call in turn, if it reads one, and the value of `int` where no argument follows it. -/
structure Env where
  hg : Nat → Option String
  int : Val

/-- The variables.  A counter or a flag that is not set yet is `none` or `false`. -/
structure Vars where
  isopen : Bool
  declared : Bool
  tab : Val
  type : Val
  mode : Val
  name : Val
  data : Val
  strategy : Val
  handler : Val
  ctlName : Val
  sz : Val
  child : Val
  xname : Val
  defName : Val
  id : Val
  vcsrev : Val
  n : Option Nat
  calls : Nat

/-- No variable is set. -/
def Vars.init : Vars :=
  ⟨false, false, .unset, .unset, .unset, .unset, .unset, .unset, .unset, .unset, .unset,
    .unset, .unset, .unset, .unset, .unset, none, 0⟩

/-- The lines that close a table: the empty entry, and the end of the array. -/
def closing : List String := ["\t\x7b\x7d,", "\x7d;"]

/-- The second field makes a table global. -/
def isGlobal (l : String) : Bool := (fieldOf l 2).text = "global"

/-- The line that opens the table of a header. -/
def headerLine (l : String) : String :=
  (if isGlobal l then "" else "static ") ++
    ("ctl_table " ++ (fieldOf l 1).text ++ "[] = \x7b")

/-- The rule for a header. -/
def header (l : String) (v : Vars) : Vars × Printed :=
  ({ v with
      tab := fieldOf l 1
      declared := v.declared || isGlobal l
      isopen := true },
    { out := (if v.isopen then closing ++ [""] else []) ++ [headerLine l]
      file :=
        if isGlobal l then
          (if v.declared then [] else ["struct ctl_table;"]) ++
            ["extern struct ctl_table " ++ (fieldOf l 1).text ++ "[];"]
        else [] })

/-- `item`: one member of an initializer. -/
def item (key : String) (val : Val) : List String :=
  if val.truthy then
    (if key = "strategy" ∨ key = "ctl_name" then ["#if LINUX_VERSION_CODE < 0x20633"] else []) ++
      ["         ." ++ key ++ " = " ++ val.text ++ ","] ++
      (if key = "strategy" ∨ key = "ctl_name" then ["#endif"] else [])
  else []

/-- The data of an item: the fifth field, or the name. -/
def dataOf (l : String) : Val :=
  if (fieldOf l 5).text = "&" then .str ("&" ++ (fieldOf l 4).text)
  else if (fieldOf l 5).truthy then fieldOf l 5
  else fieldOf l 4

/-- The assignments at the start of the rule for an item. -/
def assign (l : String) (v : Vars) : Vars :=
  { v with
    type := fieldOf l 2
    mode := fieldOf l 3
    name := fieldOf l 4
    data := dataOf l
    strategy := .str ""
    handler := .str ""
    ctlName := .str "CTL_UNNUMBERED"
    sz := .num 0 }

/-- `#chan` in a size stands for the number of channels. -/
def subChan (sz : Val) : Val := sz.sub (replaceFirst "#chan".toList "MAX_CHANNELS".toList)

/-- `type ~ "(.*)string"` -/
def isString (type : Val) : Bool := occurs "string".toList type.text.toList

/-- `type ~ "\\[.*\\]uint"`, and the same with `int` -/
def isArray (elem : String) (type : Val) : Bool :=
  occurs (']' :: elem.toList) ((type.text.toList.dropWhile (· ≠ '[')).drop 1)

/-- The branch for a string.  `string` is a variable that nothing sets. -/
def stringType (v : Vars) : Vars × List String :=
  ({ v with
      sz := subChan ((v.type.sub (replaceFirst ['('] [])).sub (cutFrom ')'))
      type := .unset
      strategy := .str "&sysctl_string"
      handler := .str "&proc_dostring" },
    -- The type is not read again behind its branch.
    ["extern char " ++ v.data.text ++ "[];"])

/-- The branches for the two kinds of arrays, which differ in the type of an element.
    The size is a text here, and is compared as one. -/
def arrayType (env : Env) (ctype : String) (v : Vars) : Vars × List String :=
  let sz := subChan ((v.type.sub (replaceFirst ['['] [])).sub (cutFrom ']'))
  let single := v.data.text.toList.head? = some '&' ∧ sz.text = "1"
  let xname := if single then v.data.sub (dropLeading '&') else v.data
  ({ v with
      type := env.int
      handler := .str "&proc_dointvec"
      xname := xname
      sz := .str (sz.text ++ " * sizeof(" ++ ctype ++ ")") },
    [if single then "extern " ++ ctype ++ " " ++ xname.text ++ ";"
      else "extern " ++ ctype ++ " " ++ v.data.text ++ "[];"])

/-- `getline` into a variable, which keeps its value where no line is read. -/
def getline (env : Env) (calls : Nat) (old : Val) : Val :=
  match env.hg calls with
  | some s => .field s
  | none => old

/-- The branch for the revision. -/
def hgrevType (env : Env) (v : Vars) : Vars :=
  let vcsrev := getline env (v.calls + 1) v.vcsrev
  { v with
    id := getline env v.calls v.id
    vcsrev := vcsrev
    calls := v.calls + 2
    data := vcsrev
    sz := .num (vcsrev.text.length - 1)
    name := .str "vcs-rev"
    strategy := .str "&sysctl_string"
    handler := .str "&proc_dostring" }

/-- The branch for a table below this one. -/
def childType (v : Vars) : Vars :=
  -- This is the one place where `child` is set; no rule resets it.
  { v with child := v.data, data := .str "" }

/-- What the type of an item makes of the variables, and what it declares. -/
def typed (env : Env) (v : Vars) : Vars × List String :=
  if isString v.type then stringType v
  else if isArray "uint" v.type then arrayType env "unsigned int" v
  else if isArray "int" v.type then arrayType env "int" v
  else if v.type.text = "hgrev" then (hgrevType env v, [])
  else if v.type.text = "child" then (childType v, [])
  else (v, [])

/-- The initializer that is printed for an item. -/
def entry (v : Vars) : List String :=
  ["        \x7b"] ++ item "ctl_name" v.ctlName ++
    item "procname" (.str ("\"" ++ v.name.text ++ "\"")) ++ item "data" v.data ++
    item "maxlen" v.sz ++ item "mode" v.mode ++ item "child" v.child ++
    item "proc_handler" v.handler ++ item "strategy" v.strategy ++ ["\t\x7d,"]

/-- The counter as a text. -/
def countText (n : Option Nat) : String :=
  match n with
  | none => ""
  | some k => toString k

/-- The item is marked in its sixth field. -/
def isMarked (l : String) : Bool := (fieldOf l 6).text.toList.head? = some '#'

/-- The name of the macro: what follows the mark, or the name in capitals.  Where there is
    no mark, the field stays in the variable. -/
def macroName (l : String) (v : Vars) : Val :=
  let rest := (fieldOf l 6).sub (dropLeading '#')
  if !isMarked l then fieldOf l 6
  else if rest.truthy then rest
  else v.name.toupper

/-- The end of the rule for an item: the macro, and the counter. -/
def defineMacro (l : String) (v : Vars) : Vars × List String :=
  ({ v with
      defName := macroName l v
      n := some (v.n.getD 0 + 1) },
    -- The counter is printed before it is incremented, and is empty at first.
    if isMarked l then ["#define SYSCTL_" ++ (macroName l v).text ++ "\t" ++ countText v.n]
    else [])

/-- The rule for an item. -/
def itemRule (env : Env) (l : String) (v : Vars) : Vars × Printed :=
  let t := typed env (assign l v)
  let m := defineMacro l t.1
  (m.1, ⟨entry t.1, t.2 ++ m.2⟩)

/-- A line that the first rule skips. -/
def isComment (l : String) : Bool := "//".toList.isPrefixOf l.toList

/-- A line that opens a table. -/
def isHeader (l : String) : Bool := !isComment l && (fieldOf l 1).truthy

/-- A line that is an item. -/
def isItem (l : String) : Bool :=
  !isComment l && !(fieldOf l 1).truthy && (fieldOf l 2).truthy

/-- The rules, in their order. -/
def rules (env : Env) (l : String) (v : Vars) : Vars × Printed :=
  if isComment l then (v, Printed.none)
  else if (fieldOf l 1).truthy then header l v
  else if (fieldOf l 2).truthy then itemRule env l v
  else (v, Printed.none)

/-- What the program prints for a list. -/
def sysctl (env : Env) (ls : List String) : Printed :=
  (Printed.mk [] ["#include <linux/sysctl.h>"]).andThen
    ((run (rules env) ls Vars.init).2.andThen ⟨closing, []⟩)

variable {env : Env} {l h X : String} {ls pre body rest : List String} {v v' : Vars}

/-! ## What a line does -/

theorem rules_header (hl : isHeader l) : rules env l v = header l v := by
  simp only [isHeader, Bool.and_eq_true, Bool.not_eq_true'] at hl
  simp [rules, hl]

theorem rules_item (hl : isItem l) : rules env l v = itemRule env l v := by
  simp only [isItem, Bool.and_eq_true, Bool.not_eq_true'] at hl
  simp [rules, hl]

/-- A line that is neither a header nor an item does nothing. -/
theorem rules_other (hh : isHeader l = false) (hi : isItem l = false) :
    rules env l v = (v, Printed.none) := by
  unfold rules
  cases hc : isComment l with
  | true => rfl
  | false =>
      have h1 : (fieldOf l 1).truthy = false := by simpa [isHeader, hc] using hh
      have h2 : (fieldOf l 2).truthy = false := by simpa [isItem, hc, h1] using hi
      rw [h1, h2]
      rfl

theorem isItem_not_header (hl : isItem l) : isHeader l = false := by
  simp only [isItem, Bool.and_eq_true, Bool.not_eq_true'] at hl
  simp [isHeader, hl]

theorem isHeader_not_item (hl : isHeader l) : isItem l = false := by
  simp only [isHeader, Bool.and_eq_true, Bool.not_eq_true'] at hl
  simp [isItem, hl]

/-- What a header prints: the end of an open table, and the start of its own. -/
theorem header_out :
    (header l v).2.out = (if v.isopen then closing ++ [""] else []) ++ [headerLine l] := rfl

theorem header_isopen : (header l v).1.isopen = true := rfl

theorem header_child : (header l v).1.child = v.child := rfl

theorem header_n : (header l v).1.n = v.n := rfl

/-- The type of an item opens no table and counts nothing. -/
theorem typed_keeps :
    (typed env v).1.isopen = v.isopen ∧ (typed env v).1.n = v.n := by
  unfold typed
  split_ifs <;> exact ⟨rfl, rfl⟩

theorem defineMacro_isopen : (defineMacro l v).1.isopen = v.isopen := by
  rw [defineMacro]

theorem defineMacro_child : (defineMacro l v).1.child = v.child := by
  rw [defineMacro]

theorem defineMacro_n : (defineMacro l v).1.n = some (v.n.getD 0 + 1) := by
  rw [defineMacro]

theorem assign_n : (assign l v).n = v.n := rfl

theorem itemRule_vars :
    (itemRule env l v).1 = (defineMacro l (typed env (assign l v)).1).1 := by
  rw [itemRule]

/-- What an item prints is its initializer. -/
theorem itemRule_out : (itemRule env l v).2.out = entry (typed env (assign l v)).1 := by
  rw [itemRule]

theorem itemRule_isopen : (itemRule env l v).1.isopen = v.isopen := by
  rw [itemRule_vars, defineMacro_isopen, typed_keeps.1]
  rfl

/-- An item is counted. -/
theorem itemRule_n : (itemRule env l v).1.n = some (v.n.getD 0 + 1) := by
  rw [itemRule_vars, defineMacro_n, typed_keeps.2, assign_n]

/-- A line opens a table exactly if it is a header. -/
theorem rules_isopen : (rules env l v).1.isopen = (v.isopen || isHeader l) := by
  cases hh : isHeader l with
  | true => rw [rules_header hh, header_isopen, Bool.or_true]
  | false =>
      rw [Bool.or_false]
      cases hi : isItem l with
      | true => rw [rules_item hi, itemRule_isopen]
      | false => rw [rules_other hh hi]

/-! ## Counting -/

/-- What the counter holds after `k` items. -/
def counted (k : Nat) : Option Nat := if k = 0 then none else some k

theorem counted_succ (k : Nat) : some ((counted k).getD 0 + 1) = counted (k + 1) := by
  rw [counted, counted, if_neg (Nat.succ_ne_zero k)]
  split_ifs with h
  · subst h
    rfl
  · rfl

/-- A line is counted exactly if it is an item. -/
theorem rules_n {k : Nat} (hn : v.n = counted k) :
    (rules env l v).1.n = counted (k + if isItem l then 1 else 0) := by
  cases hi : isItem l with
  | true =>
      rw [rules_item hi, itemRule_n, hn, counted_succ]
      rfl
  | false =>
      cases hh : isHeader l with
      | true =>
          rw [rules_header hh, header_n, hn]
          rfl
      | false =>
          rw [rules_other hh hi, hn]
          rfl

/-- After a run the counter holds the number of the items, whatever tables they are in. -/
theorem run_n {k : Nat} (hn : v.n = counted k) :
    (run (rules env) ls v).1.n = counted (k + ls.countP isItem) := by
  induction ls generalizing v k with
  | nil => rw [run_nil, List.countP_nil, Nat.add_zero, hn]
  | cons l ls ih =>
      have hstep : (run (rules env) (l :: ls) v).1 =
          (run (rules env) ls (rules env l v).1).1 := by rw [run_cons]
      rw [hstep, ih (rules_n hn), List.countP_cons, Nat.add_assoc, Nat.add_comm (ls.countP isItem)]

/-! ## The text of a list -/

/-- The initializers that are printed for the items of `ls`, in their order, if the
    variables are `v` before the first line. -/
def initializers (env : Env) : List String → Vars → List (List String)
  | [], _ => []
  | l :: ls, v =>
      (if isItem l then [(rules env l v).2.out] else []) ++
        initializers env ls (rules env l v).1

/-- The lines in front of the first header, and the tables: a header and the lines up to
    the next one. -/
def tablesOf : List String → List String × List (String × List String)
  | [] => ([], [])
  | l :: ls =>
      if isHeader l then ([], (l, (tablesOf ls).1) :: (tablesOf ls).2)
      else (l :: (tablesOf ls).1, (tablesOf ls).2)

/-- The lines of some tables. -/
def linesOf (ts : List (String × List String)) : List String :=
  ts.flatMap fun t => t.1 :: t.2

/-- The text of a table: its header, its initializers, and the empty entry at the end. -/
def tableText (env : Env) (t : String × List String) (v : Vars) : List String :=
  headerLine t.1 :: (initializers env t.2 (rules env t.1 v).1).flatten ++ closing

/-- The texts of some tables, one after the other. -/
def tableTexts (env : Env) : List (String × List String) → Vars → List (List String)
  | [], _ => []
  | t :: ts, v => tableText env t v :: tableTexts env ts (run (rules env) (t.1 :: t.2) v).1

@[simp] theorem initializers_nil : initializers env [] v = [] := rfl

theorem initializers_append :
    initializers env (ls ++ rest) v =
      initializers env ls v ++ initializers env rest (run (rules env) ls v).1 := by
  induction ls generalizing v with
  | nil => rfl
  | cons l ls ih =>
      rw [List.cons_append, initializers, initializers, ih, List.append_assoc]
      rfl

/-- There is one initializer for each item. -/
theorem length_initializers : (initializers env ls v).length = ls.countP isItem := by
  induction ls generalizing v with
  | nil => rfl
  | cons l ls ih =>
      rw [initializers, List.length_append, ih, List.countP_cons, Nat.add_comm]
      split <;> rfl

/-- The initializer at the place of an item is the one that is printed for it. -/
theorem getElem_initializers (hX : isItem X) :
    (initializers env (body ++ X :: rest) v)[body.countP isItem]? =
      some (rules env X (run (rules env) body v).1).2.out := by
  have hlen : (initializers env body v).length = body.countP isItem := length_initializers
  rw [initializers_append, List.getElem?_append_right (le_of_eq hlen), hlen, Nat.sub_self,
    initializers, if_pos hX]
  rfl

/-- Lines without a header print their initializers, and nothing else. -/
theorem run_out (hb : ∀ l ∈ ls, isHeader l = false) :
    (run (rules env) ls v).2.out = (initializers env ls v).flatten := by
  induction ls generalizing v with
  | nil => rfl
  | cons l ls ih =>
      have hrest := ih (v := (rules env l v).1) fun m hm => hb m (List.mem_cons_of_mem l hm)
      rw [run_cons, initializers, List.flatten_append, ← hrest, Printed.andThen_out]
      cases hi : isItem l with
      | true => rw [if_pos rfl, List.flatten_singleton]
      | false =>
          rw [rules_other (hb l List.mem_cons_self) hi]
          rfl

/-- Lines without a header open no table. -/
theorem run_isopen (hb : ∀ l ∈ ls, isHeader l = false) :
    (run (rules env) ls v).1.isopen = v.isopen :=
  run_keeps (P := fun w : Vars => w.isopen = v.isopen)
    (fun l w hl hw => by rw [rules_isopen, hb l hl, Bool.or_false, hw]) rfl

/-- No line in front of the first header is one, and no line of a table but the first. -/
theorem tablesOf_bodies (ls : List String) :
    (∀ l ∈ (tablesOf ls).1, isHeader l = false) ∧
      ∀ t ∈ (tablesOf ls).2, isHeader t.1 ∧ ∀ l ∈ t.2, isHeader l = false := by
  induction ls with
  | nil => exact ⟨by simp [tablesOf], by simp [tablesOf]⟩
  | cons l ls ih =>
      rw [tablesOf]
      cases hl : isHeader l with
      | true =>
          refine ⟨by simp, fun t ht => ?_⟩
          rcases List.mem_cons.mp ht with rfl | ht'
          · exact ⟨hl, ih.1⟩
          · exact ih.2 t ht'
      | false =>
          refine ⟨fun m hm => ?_, ih.2⟩
          rcases List.mem_cons.mp hm with rfl | hm'
          · exact hl
          · exact ih.1 m hm'

/-- The tables are cut out of the list, and no line is lost. -/
theorem tablesOf_lines : (tablesOf ls).1 ++ linesOf (tablesOf ls).2 = ls := by
  induction ls with
  | nil => rfl
  | cons l ls ih =>
      rw [tablesOf]
      split
      · show l :: ((tablesOf ls).1 ++ linesOf (tablesOf ls).2) = l :: ls
        rw [ih]
      · show l :: ((tablesOf ls).1 ++ linesOf (tablesOf ls).2) = l :: ls
        rw [ih]

section Tables

variable {t : String × List String} {ts : List (String × List String)}

/-- The rules print a table up to its end, and end the table that was open. -/
theorem table_out (env : Env) (ht : isHeader t.1) (hb : ∀ l ∈ t.2, isHeader l = false) :
    (run (rules env) (t.1 :: t.2) v).2.out ++ closing =
      (if v.isopen then closing ++ [""] else []) ++ tableText env t v := by
  rw [run_cons, Printed.andThen_out, run_out hb, tableText, rules_header ht, header_out]
  simp only [List.append_assoc, List.cons_append, List.nil_append]

theorem table_isopen (env : Env) (ht : isHeader t.1) (hb : ∀ l ∈ t.2, isHeader l = false) :
    (run (rules env) (t.1 :: t.2) v).1.isopen = true := by
  have hopen : (rules env t.1 v).1.isopen = true := by
    rw [rules_header ht, header_isopen]
  exact (run_isopen hb).trans hopen

/-- Behind an open table, the tables follow with an empty line in front of each. -/
theorem tables_out (env : Env) (hv : v.isopen = true)
    (hts : ∀ t ∈ ts, isHeader t.1 ∧ ∀ l ∈ t.2, isHeader l = false) :
    (run (rules env) (linesOf ts) v).2.out ++ closing =
      closing ++ (tableTexts env ts v).flatMap ("" :: ·) := by
  induction ts generalizing v with
  | nil => rfl
  | cons t ts ih =>
      obtain ⟨ht, hb⟩ := hts t List.mem_cons_self
      have hrest := ih (table_isopen env (v := v) ht hb)
        fun u hu => hts u (List.mem_cons_of_mem t hu)
      have hhere := table_out env (v := v) ht hb
      rw [hv, if_pos rfl] at hhere
      have hlines : linesOf (t :: ts) = (t.1 :: t.2) ++ linesOf ts := rfl
      rw [hlines, run_append, Printed.andThen_out, List.append_assoc, hrest, ← List.append_assoc,
        hhere, tableTexts, List.flatMap_cons]
      simp only [List.append_assoc, List.cons_append, List.nil_append]

theorem intercalate_cons (x : List String) (xs : List (List String)) :
    [""].intercalate (x :: xs) = x ++ xs.flatMap ("" :: ·) := by
  induction xs generalizing x with
  | nil => simp
  | cons y ys ih => rw [List.intercalate_cons_cons, ih, List.flatMap_cons]; simp

end Tables

/-- What the program prints: the items in front of the first header, and then the tables
    with an empty line between them, each closed by one empty entry.  The last lines come
    even if there is no table. -/
theorem sysctl_out :
    (sysctl env ls).out =
      (initializers env (tablesOf ls).1 Vars.init).flatten ++
        if (tablesOf ls).2 = [] then closing
        else [""].intercalate
          (tableTexts env (tablesOf ls).2 (run (rules env) (tablesOf ls).1 Vars.init).1) := by
  obtain ⟨hpre, hts⟩ := tablesOf_bodies ls
  have hlines : run (rules env) ls Vars.init =
      run (rules env) ((tablesOf ls).1 ++ linesOf (tablesOf ls).2) Vars.init := by
    rw [tablesOf_lines]
  have hclosed : (run (rules env) (tablesOf ls).1 Vars.init).1.isopen = false := run_isopen hpre
  show [] ++ ((run (rules env) ls Vars.init).2.out ++ closing) = _
  rw [hlines, run_append, Printed.andThen_out, run_out hpre, List.nil_append, List.append_assoc]
  congr 1
  cases hcut : (tablesOf ls).2 with
  | nil => rfl
  | cons t ts =>
      rw [hcut] at hts
      obtain ⟨ht, hb⟩ := hts t List.mem_cons_self
      have hfirst := table_out env (v := (run (rules env) (tablesOf ls).1 Vars.init).1) ht hb
      have hrest := tables_out env
        (table_isopen env (v := (run (rules env) (tablesOf ls).1 Vars.init).1) ht hb)
        fun u hu => hts u (List.mem_cons_of_mem t hu)
      rw [hclosed] at hfirst
      have hall : linesOf (t :: ts) = (t.1 :: t.2) ++ linesOf ts := rfl
      rw [if_neg (List.cons_ne_nil t ts), tableTexts, intercalate_cons, hall, run_append,
        Printed.andThen_out, List.append_assoc, hrest, ← List.append_assoc, hfirst]
      rfl

end Can4linux.Sysctl
