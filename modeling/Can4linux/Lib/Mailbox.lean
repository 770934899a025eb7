/-
  Can4linux.Lib.Mailbox

  A two-way mailbox between a process and a medium.  The process posts letters
  into an outbox of bounded size; they leave it from the front, each as a signal
  that carries it, or lost.  What is heard from the medium waits in an inbox and
  is read in that order; whatever else the reader is shown (reports of the
  device) stands for nothing heard.

  `Step` is the mailbox as a labelled transition relation.  The lemmas say how
  several letters are posted, lost or read at a time, and what a trace accounts
  for: each letter is still in the outbox or has left it once, in order, and the
  outbox is never above its limit.
-/

import Mathlib.Data.List.Infix
import Can4linux.Lib.Trace

/-- The letters that have not left yet, and what has been heard and not been read yet. -/
structure Mailbox (μ ν : Type*) where
  outbox : List μ
  inbox : List ν

namespace Mailbox

variable {μ φ ν ρ : Type*}

/-- What kind of mailbox it is. -/
structure Terms (μ φ ν ρ : Type*) where
  /-- so many letters wait at most -/
  limit : Nat
  /-- while fewer wait, none is refused -/
  room : Nat
  /-- the signal carries the letter -/
  carries : μ → φ → Prop
  /-- what the reader is shown stands for, if for anything heard -/
  reads : ρ → Option ν

/-- What happens at a mailbox. -/
inductive Event (μ φ ν ρ : Type*) where
  | accept (m : μ)
  | refuse
  | send (f : φ)
  | lose
  | hear (v : ν)
  | deliver (r : ρ)

/-- The events that the terms allow, and what they do. -/
inductive Step (T : Terms μ φ ν ρ) : Mailbox μ ν → Event μ φ ν ρ → Mailbox μ ν → Prop
  | accept {out inb m} : out.length < T.limit → Step T ⟨out, inb⟩ (.accept m) ⟨out ++ [m], inb⟩
  | refuse {out inb} : T.room ≤ out.length → Step T ⟨out, inb⟩ .refuse ⟨out, inb⟩
  | send {m out inb f} : T.carries m f → Step T ⟨m :: out, inb⟩ (.send f) ⟨out, inb⟩
  | lose {m out inb} : Step T ⟨m :: out, inb⟩ .lose ⟨out, inb⟩
  | hear {out inb v} : Step T ⟨out, inb⟩ (.hear v) ⟨out, inb ++ [v]⟩
  | deliver {out v inb r} : T.reads r = some v → Step T ⟨out, v :: inb⟩ (.deliver r) ⟨out, inb⟩
  | report {out inb r} : T.reads r = none → Step T ⟨out, inb⟩ (.deliver r) ⟨out, inb⟩

/-! ## Several at a time -/

section Several

variable {T : Terms μ φ ν ρ} {out : List μ} {inb : List ν}

/-- The first `n` letters are lost. -/
theorem trace_lose {n : Nat} (hn : n ≤ out.length) :
    Run.Trace (Step T) ⟨out, inb⟩ (List.replicate n .lose) ⟨out.drop n, inb⟩ := by
  induction n generalizing out with
  | zero => exact .nil
  | succ n ih =>
      cases out with
      | nil => exact absurd hn (Nat.not_succ_le_zero n)
      | cons m out => exact .cons .lose (ih (Nat.le_of_succ_le_succ hn))

/-- What is shown to a reader is taken from the front of the inbox. -/
theorem trace_deliver {rs : List ρ} {rest : List ν} (hrs : rs.filterMap T.reads ++ rest = inb) :
    Run.Trace (Step T) ⟨out, inb⟩ (rs.map .deliver) ⟨out, rest⟩ := by
  induction rs generalizing inb with
  | nil =>
      obtain rfl : rest = inb := hrs
      exact .nil
  | cons r rs ih =>
      cases hr : T.reads r with
      | none =>
          rw [List.filterMap_cons_none hr] at hrs
          exact .cons (.report hr) (ih hrs)
      | some v =>
          rw [List.filterMap_cons_some hr] at hrs
          subst hrs
          exact .cons (.deliver hr) (ih rfl)

end Several

/-! ## What a trace accounts for -/

namespace Event

/-- The letter that is posted. -/
def letters : Event μ φ ν ρ → List μ
  | .accept m => [m]
  | _ => []

/-- The letter that leaves, by the signal that carries it; `none` if it is lost. -/
def leaves : Event μ φ ν ρ → List (Option φ)
  | .send f => [some f]
  | .lose => [none]
  | _ => []

/-- What the reader is shown. -/
def shows : Event μ φ ν ρ → List ρ
  | .deliver r => [r]
  | _ => []

@[simp] theorem letters_lose (n : Nat) :
    (List.replicate n (.lose : Event μ φ ν ρ)).flatMap letters = [] := by
  rw [List.flatMap_eq_nil_iff]
  intro e he
  rw [List.eq_of_mem_replicate he]
  rfl

@[simp] theorem shows_lose (n : Nat) :
    (List.replicate n (.lose : Event μ φ ν ρ)).flatMap shows = [] := by
  rw [List.flatMap_eq_nil_iff]
  intro e he
  rw [List.eq_of_mem_replicate he]
  rfl

@[simp] theorem letters_deliver (rs : List ρ) :
    (rs.map (.deliver : ρ → Event μ φ ν ρ)).flatMap letters = [] := by
  induction rs with
  | nil => rfl
  | cons r rs ih => exact ih

@[simp] theorem leaves_deliver (rs : List ρ) :
    (rs.map (.deliver : ρ → Event μ φ ν ρ)).flatMap leaves = [] := by
  induction rs with
  | nil => rfl
  | cons r rs ih => exact ih

@[simp] theorem shows_deliver (rs : List ρ) :
    (rs.map (.deliver : ρ → Event μ φ ν ρ)).flatMap shows = rs := by
  induction rs with
  | nil => rfl
  | cons r rs ih => exact congrArg (r :: ·) ih

end Event

/-- What leaves carries the letter, or the letter is lost. -/
def Terms.Leaves (T : Terms μ φ ν ρ) (m : μ) (f : Option φ) : Prop := ∀ g ∈ f, T.carries m g

section Accounts

variable {T : Terms μ φ ν ρ} {b c : Mailbox μ ν} {es : List (Event μ φ ν ρ)}

/-- The outbox never goes above its limit. -/
theorem outbox_le (htrace : Run.Trace (Step T) b es c) (hb : b.outbox.length ≤ T.limit) :
    c.outbox.length ≤ T.limit := by
  refine htrace.invariant (P := fun b => b.outbox.length ≤ T.limit) ?_ hb
  intro a e b ha hstep
  cases hstep with
  | accept hlt =>
      rw [List.length_append]
      exact hlt
  | send | lose => exact Nat.le_of_succ_le ha
  | refuse | hear | deliver | report => exact ha

/-- The letters that were there and those posted have left, in order, or are still there. -/
theorem outbox_accounts (htrace : Run.Trace (Step T) b es c) :
    ∃ gone, b.outbox ++ es.flatMap Event.letters = gone ++ c.outbox ∧
      List.Forall₂ T.Leaves gone (es.flatMap Event.leaves) := by
  induction htrace with
  | nil => exact ⟨[], List.append_nil _, .nil⟩
  | cons hstep _ ih =>
      obtain ⟨gone, hgone, hleft⟩ := ih
      cases hstep with
      | accept =>
          refine ⟨gone, ?_, hleft⟩
          rw [← hgone, List.flatMap_cons, Event.letters, List.append_assoc]
      | @send m out inb f hm =>
          refine ⟨m :: gone, congrArg (m :: ·) hgone, .cons ?_ hleft⟩
          rintro g ⟨⟩
          exact hm
      | @lose m out inb =>
          refine ⟨m :: gone, congrArg (m :: ·) hgone, .cons ?_ hleft⟩
          rintro g ⟨⟩
      | refuse | hear | deliver | report => exact ⟨gone, hgone, hleft⟩

/-- So as many have left as are not there any more. -/
theorem outbox_length (htrace : Run.Trace (Step T) b es c) :
    b.outbox.length + (es.flatMap Event.letters).length =
      (es.flatMap Event.leaves).length + c.outbox.length := by
  obtain ⟨gone, hgone, hleft⟩ := outbox_accounts htrace
  have hlen := congrArg List.length hgone
  rw [List.length_append, List.length_append, hleft.length_eq] at hlen
  exact hlen

/-- A letter is refused only while the outbox holds as many as it must have room for. -/
theorem refuse_accounts {xs ys : List (Event μ φ ν ρ)}
    (htrace : Run.Trace (Step T) b (xs ++ .refuse :: ys) c) :
    (xs.flatMap Event.leaves).length + T.room ≤
      b.outbox.length + (xs.flatMap Event.letters).length := by
  obtain ⟨a, hbefore, hafter⟩ := htrace.split
  have hlen := outbox_length hbefore
  cases hafter with
  | cons hstep _ =>
      cases hstep with
      | refuse hroom =>
          rw [hlen]
          exact Nat.add_le_add_left hroom _

end Accounts

end Mailbox
