/-
  Can4linux.Lib.Awk

  What a program in awk computes with: values that are texts and numbers, records
  cut into fields, substitutions, and the run of a list of rules over the records.
-/

import Mathlib.Algebra.Group.Nat.Defs

namespace Awk

/-! ## Values -/

/-- A value.  A field of a record is a text that counts as a number where it looks like
    one; a text that the program has put together is only a text. -/
inductive Val
  | unset
  | num (n : Int)
  | str (s : String)
  | field (s : String)
  deriving DecidableEq

/-- A text without the sign in front of it. -/
def unsigned : List Char → List Char
  | '+' :: cs => cs
  | '-' :: cs => cs
  | cs => cs

/-- The digits of a decimal number, read as one number. -/
def number (ds : List Char) : Nat := Nat.ofDigitChars 10 ds 0

/-- A number is known by its text. -/
theorem toString_inj {m n : Nat} : toString m = toString n ↔ m = n := by
  refine ⟨fun h => ?_, fun h => h ▸ rfl⟩
  have hdigits : Nat.toDigits 10 m = Nat.toDigits 10 n := by
    rw [← Nat.toList_repr, ← Nat.toList_repr, ← Nat.toString_eq_repr, ← Nat.toString_eq_repr, h]
  have hm : number (Nat.toDigits 10 m) = m := Nat.ofDigitChars_toDigits (by decide) (by decide)
  have hn : number (Nat.toDigits 10 n) = n := Nat.ofDigitChars_toDigits (by decide) (by decide)
  rw [← hm, ← hn, hdigits]

/-- The exponent behind the digits of a number: nothing, or `e` and digits. -/
def exponent : List Char → Option Int
  | [] => some 0
  | e :: cs =>
      if (e = 'e' ∨ e = 'E') ∧ unsigned cs ≠ [] ∧ (unsigned cs).all Char.isDigit then
        some (if cs.head? = some '-' then -number (unsigned cs) else number (unsigned cs))
      else none

/-- The digits in front of the point of a number, those behind it, and the rest. -/
def mantissa (cs : List Char) : List Char × List Char × List Char :=
  match cs.dropWhile Char.isDigit with
  | '.' :: r => (cs.takeWhile Char.isDigit, r.takeWhile Char.isDigit, r.dropWhile Char.isDigit)
  | r => (cs.takeWhile Char.isDigit, [], r)

/-- The text is a number, and the number is zero as a double: all its digits are, or it is
    at most half the smallest positive one. -/
def looksZero (s : String) : Bool :=
  let cs := (s.toList.dropWhile Char.isWhitespace).reverse.dropWhile Char.isWhitespace
  let m := mantissa (unsigned cs.reverse)
  let ds := m.1 ++ m.2.1
  match exponent m.2.2 with
  | none => false
  | some e =>
      !ds.isEmpty &&
        (ds.all (· == '0') ||
          decide (e < m.2.1.length ∧
            number ds * 2 ^ 1075 ≤ 10 ^ (m.2.1.length - e).toNat))

namespace Val

/-- The value as a text. -/
def text : Val → String
  | unset => ""
  | num n => toString n
  | str s => s
  | field s => s

/-- The value as a condition. -/
def truthy : Val → Bool
  | unset => false
  | num n => n != 0
  | str s => s != ""
  | field s => s != "" && !looksZero s

end Val

/-! ## Substitutions -/

/-- `p` stands somewhere in the text. -/
def occurs (p : List Char) : List Char → Bool
  | [] => p.isPrefixOf []
  | c :: cs => p.isPrefixOf (c :: cs) || occurs p cs

/-- The first `p` replaced by `r`. -/
def replaceFirst (p r : List Char) : List Char → Option (List Char)
  | [] => if p = [] then some r else none
  | c :: cs =>
      if p.isPrefixOf (c :: cs) then some (r ++ (c :: cs).drop p.length)
      else (replaceFirst p r cs).map (c :: ·)

/-- The text up to the first `c`; what stands from there is removed. -/
def cutFrom (c : Char) (cs : List Char) : Option (List Char) :=
  if c ∈ cs then some (cs.takeWhile (· ≠ c)) else none

/-- A leading `c` removed. -/
def dropLeading (c : Char) : List Char → Option (List Char)
  | [] => none
  | d :: cs => if d = c then some cs else none

/-- `sub`: a value in which nothing is replaced keeps its kind. -/
def Val.sub (f : List Char → Option (List Char)) (v : Val) : Val :=
  match f v.text.toList with
  | some cs => .str (String.ofList cs)
  | none => v

/-- `toupper` -/
def Val.toupper (v : Val) : Val := .str (String.ofList (v.text.toList.map Char.toUpper))

/-! ## Records -/

/-- The field `$i` of a record that is separated at tabs. -/
def fieldOf (record : String) (i : Nat) : Val :=
  .field (String.ofList ((record.toList.splitOn '\t').getD (i - 1) []))

/-- What is printed: on the standard output, and into a file. -/
@[ext] structure Printed where
  out : List String
  file : List String
  deriving DecidableEq

namespace Printed

/-- Nothing is printed. -/
def none : Printed := ⟨[], []⟩

/-- One thing is printed after the other. -/
def andThen (p q : Printed) : Printed := ⟨p.out ++ q.out, p.file ++ q.file⟩

variable {p q r : Printed}

@[simp] theorem none_out : none.out = [] := rfl
@[simp] theorem none_file : none.file = [] := rfl
@[simp] theorem andThen_out : (p.andThen q).out = p.out ++ q.out := rfl
@[simp] theorem andThen_file : (p.andThen q).file = p.file ++ q.file := rfl

theorem andThen_assoc : (p.andThen q).andThen r = p.andThen (q.andThen r) := by
  ext1 <;> simp

theorem none_andThen : none.andThen p = p := by ext1 <;> simp

end Printed

section Run

variable {σ : Type*} (rule : String → σ → σ × Printed)

/-- The rules applied to one record after the other. -/
def run : List String → σ → σ × Printed
  | [], s => (s, Printed.none)
  | l :: ls, s =>
      ((run ls (rule l s).1).1, (rule l s).2.andThen (run ls (rule l s).1).2)

variable {rule} {ls ls' : List String} {l : String} {s : σ}

@[simp] theorem run_nil : run rule [] s = (s, Printed.none) := rfl

theorem run_cons :
    run rule (l :: ls) s =
      ((run rule ls (rule l s).1).1, (rule l s).2.andThen (run rule ls (rule l s).1).2) := rfl

/-- A run over two lists is a run over the first, and one over the second from where it ends. -/
theorem run_append :
    run rule (ls ++ ls') s =
      ((run rule ls' (run rule ls s).1).1,
        (run rule ls s).2.andThen (run rule ls' (run rule ls s).1).2) := by
  induction ls generalizing s with
  | nil => simp only [List.nil_append, run_nil, Printed.none_andThen]
  | cons l ls ih => simp only [List.cons_append, run_cons, ih, Printed.andThen_assoc]

/-- What every rule keeps, a run keeps. -/
theorem run_keeps {P : σ → Prop} (hrule : ∀ l s, l ∈ ls → P s → P (rule l s).1) (hs : P s) :
    P (run rule ls s).1 := by
  induction ls generalizing s with
  | nil => exact hs
  | cons l ls ih =>
      have hnext : P (rule l s).1 := hrule l s List.mem_cons_self hs
      exact ih (fun l' s' hl' => hrule l' s' (List.mem_cons_of_mem l hl')) hnext

end Run

end Awk
