import Mathlib.Data.List.Basic

/-!
# A box for one letter

A letter put in replaces the one that is there; taking the letter leaves the box
empty.  `Mailbox es b` says that the events `es` are a history of such a box and
leave `b` in it.

A program that keeps one pending record under a mutex refines this box: its state
shows what is in the box, and each of its steps adds the events it stands for.

## Main results

* `take_after_put` — what is taken was put in by the event directly before.
* `takes_sublist` — the letters taken are some of those put in, in order, and a
  letter that waits is put in later than all of them.
-/

namespace RoomSpeaker.Foundation

variable {α : Type*}

/-- What happens to the box. -/
inductive Mail (α : Type*) where
  | put (a : α)
  | take (a : α)

namespace Mail

/-- The letter an event puts in. -/
def letterIn : Mail α → Option α
  | .put a => some a
  | .take _ => none

/-- The letter an event takes. -/
def letterOut : Mail α → Option α
  | .put _ => none
  | .take a => some a

end Mail

/-- The letters put in, in order. -/
def puts (es : List (Mail α)) : List α := es.filterMap Mail.letterIn

/-- The letters taken, in order. -/
def takes (es : List (Mail α)) : List α := es.filterMap Mail.letterOut

@[simp] theorem puts_append (es fs : List (Mail α)) :
    puts (es ++ fs) = puts es ++ puts fs := List.filterMap_append

@[simp] theorem takes_append (es fs : List (Mail α)) :
    takes (es ++ fs) = takes es ++ takes fs := List.filterMap_append

@[simp] theorem puts_put (a : α) : puts [Mail.put a] = [a] := rfl

@[simp] theorem puts_take (a : α) : puts [Mail.take a] = [] := rfl

@[simp] theorem takes_put (a : α) : takes [Mail.put a] = [] := rfl

@[simp] theorem takes_take (a : α) : takes [Mail.take a] = [a] := rfl

/-- The histories of the box, with what each leaves in it. -/
inductive Mailbox : List (Mail α) → Option α → Prop
  | empty : Mailbox [] none
  | put {es : List (Mail α)} {b : Option α} (h : Mailbox es b) (a : α) :
      Mailbox (es ++ [.put a]) (some a)
  | take {es : List (Mail α)} {a : α} (h : Mailbox es (some a)) :
      Mailbox (es ++ [.take a]) none

namespace Mailbox

/-- A letter in the box was put in last. -/
theorem last {es : List (Mail α)} {a : α} (h : Mailbox es (some a)) :
    ∃ fs, es = fs ++ [.put a] := by
  cases h with
  | put h a => exact ⟨_, rfl⟩

/-- A letter that is taken was put in directly before. -/
theorem take_after_put {es : List (Mail α)} {b : Option α} (h : Mailbox es b) :
    ∀ {before after : List (Mail α)} {a : α}, es = before ++ .take a :: after →
      ∃ fs, before = fs ++ [.put a] := by
  induction h with
  | empty =>
      intro before after a heq
      simp at heq
  | put h a ih =>
      intro before after x heq
      rcases List.eq_nil_or_concat after with rfl | ⟨after, e, rfl⟩
      · have hlast := (List.append_inj' heq rfl).2
        simp at hlast
      · rw [List.concat_eq_append, ← List.cons_append, ← List.append_assoc] at heq
        exact ih (List.append_inj' heq rfl).1
  | @take es y h ih =>
      intro before after x heq
      rcases List.eq_nil_or_concat after with rfl | ⟨after, e, rfl⟩
      · obtain ⟨rfl, hlast⟩ := List.append_inj' heq rfl
        obtain rfl : y = x := by simpa using hlast
        exact h.last
      · rw [List.concat_eq_append, ← List.cons_append, ← List.append_assoc] at heq
        exact ih (List.append_inj' heq rfl).1

/-- The letters taken, and after them the one that waits, are some of those put
in, in order. -/
theorem takes_sublist {es : List (Mail α)} {b : Option α} (h : Mailbox es b) :
    (takes es ++ b.toList).Sublist (puts es) := by
  induction h with
  | empty => exact List.Sublist.refl _
  | put h a ih =>
      rw [takes_append, puts_append, takes_put, puts_put, List.append_nil]
      exact ((List.sublist_append_left _ _).trans ih).append_right [a]
  | take h ih =>
      rw [takes_append, puts_append, takes_take, puts_take, Option.toList_none,
        List.append_nil, List.append_nil]
      exact ih

end Mailbox

end RoomSpeaker.Foundation
