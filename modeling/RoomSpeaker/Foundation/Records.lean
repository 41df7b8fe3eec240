import Mathlib.Data.List.Basic

/-!
# Streams of fixed-size records

A byte stream that carries records of one size has no marks between them; a
reader knows a record by its position.  `Heads` says that every record whose
head is already in the stream has a head with some property.

## Main results

* `heads_drop` — reading one record leaves the property.
* `heads_cons`, `heads_beginning` — so do putting a record in front, and cutting the
  stream off anywhere.
* `heads_append` — appending a record, or the beginning of one, to a stream of
  whole records keeps it.
-/

namespace RoomSpeaker.Foundation

variable {α : Type*}

/-- Every record of the stream that has its head of `head` elements satisfies
`P` there. -/
def Heads (size head : Nat) (P : List α → Prop) (bs : List α) : Prop :=
  ∀ n, head ≤ (bs.drop (n * size)).length → P ((bs.drop (n * size)).take head)

theorem heads_nil {size head : Nat} (P : List α → Prop) (hpos : 0 < head) :
    Heads size head P [] := by
  intro n hn
  simp only [List.drop_nil, List.length_nil] at hn
  omega

/-- The head of the first record. -/
theorem Heads.first {size head : Nat} {P : List α → Prop} {bs : List α}
    (h : Heads size head P bs) (hlen : head ≤ bs.length) : P (bs.take head) := by
  have hzero := h 0
  rw [Nat.zero_mul, List.drop_zero] at hzero
  exact hzero hlen

/-- What is left after the first record. -/
theorem heads_drop {size head : Nat} {P : List α → Prop} {bs : List α}
    (h : Heads size head P bs) : Heads size head P (bs.drop size) := by
  intro n
  have hnext := h (n + 1)
  rwa [show (n + 1) * size = size + n * size by rw [Nat.add_mul]; omega,
    ← List.drop_drop] at hnext

/-- A record in front of others. -/
theorem heads_cons {size head : Nat} {P : List α → Prop} {r bs : List α}
    (hle : head ≤ size) (hr : r.length = size) (hhead : P (r.take head))
    (h : Heads size head P bs) : Heads size head P (r ++ bs) := by
  intro n hn
  cases n with
  | zero =>
      rw [Nat.zero_mul, List.drop_zero,
        List.take_append_of_le_length (by omega)]
      exact hhead
  | succ n =>
      have hnext : (r ++ bs).drop ((n + 1) * size) = bs.drop (n * size) := by
        rw [Nat.add_mul, Nat.one_mul, Nat.add_comm, ← List.drop_drop, ← hr,
          List.drop_left]
      rw [hnext] at hn ⊢
      exact h n hn

/-- The beginning of a stream. -/
theorem heads_beginning {size head : Nat} {P : List α → Prop} {bs bs' : List α}
    (h : Heads size head P bs') (hle : bs <+: bs') : Heads size head P bs := by
  intro n hn
  obtain ⟨rest, hrest⟩ := hle
  have hmore : (bs'.drop (n * size)).take head = (bs.drop (n * size)).take head := by
    rw [← hrest, List.drop_append, List.take_append_of_le_length hn]
  have hlen : head ≤ (bs'.drop (n * size)).length := by
    rw [← hrest, List.drop_append, List.length_append]
    omega
  rw [← hmore]
  exact h n hlen

/-- A record, or the beginning of one, behind whole records. -/
theorem heads_append {size head : Nat} {P : List α → Prop} {bs r : List α}
    (hpos : 0 < head) (hle : head ≤ size) (h : Heads size head P bs)
    (hwhole : bs.length % size = 0) (hr : r.length ≤ size)
    (hhead : head ≤ r.length → P (r.take head)) :
    Heads size head P (bs ++ r) := by
  intro n hn
  have hbs : bs.length / size * size = bs.length := by
    have hdiv := Nat.div_add_mod bs.length size
    rw [Nat.mul_comm] at hdiv
    omega
  rw [List.drop_append] at hn ⊢
  rcases Nat.lt_trichotomy n (bs.length / size) with hlt | heq | hgt
  · -- the record lies in the old part
    have hfit : (n + 1) * size ≤ bs.length := by
      rw [← hbs]
      exact Nat.mul_le_mul_right size hlt
    rw [Nat.add_mul, Nat.one_mul] at hfit
    have hin : head ≤ (bs.drop (n * size)).length := by
      rw [List.length_drop]
      omega
    rw [List.take_append_of_le_length hin]
    exact h n hin
  · -- the record is the new one
    rw [heq, hbs, List.drop_length, Nat.sub_self, List.drop_zero,
      List.nil_append] at hn ⊢
    exact hhead hn
  · -- nothing follows the new one
    have hfit : (bs.length / size + 1) * size ≤ n * size :=
      Nat.mul_le_mul_right size hgt
    rw [Nat.add_mul, Nat.one_mul, hbs] at hfit
    rw [List.length_append, List.length_drop, List.length_drop] at hn
    omega

/-- Whole records behind whole records. -/
theorem mod_append {size : Nat} {bs r : List α}
    (hwhole : bs.length % size = 0) (hr : r.length = size) :
    (bs ++ r).length % size = 0 := by
  rw [List.length_append, hr, Nat.add_mod_right]
  exact hwhole

/-- Whole records are left after the first one. -/
theorem mod_drop {size : Nat} {bs : List α} (hwhole : bs.length % size = 0) :
    (bs.drop size).length % size = 0 := by
  rw [List.length_drop]
  rcases Nat.lt_or_ge bs.length size with hlt | hge
  · rw [Nat.sub_eq_zero_of_le (Nat.le_of_lt hlt), Nat.zero_mod]
  · rw [← Nat.mod_eq_sub_mod hge]
    exact hwhole

end RoomSpeaker.Foundation
