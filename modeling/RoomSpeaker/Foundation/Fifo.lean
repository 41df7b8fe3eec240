import Mathlib.Data.List.Perm.Basic
import Mathlib.Data.List.Range

/-!
# A numbered FIFO

The abstract queue of a producer and a consumer, with its history.  Items are
numbered in the order they are accepted.  An item leaves the queue at its old
end, either served to the consumer or lost to a discard; the value records
both.

The fields `account`, `order` and `oldEnd` make the FIFO laws part of the type:
every number is in exactly one place, and what is served or lost is older than
everything still queued.
-/

namespace RoomSpeaker.Foundation

/-- A FIFO with its history: how many items were accepted, which are queued,
which were served and which were discarded. -/
structure Fifo where
  next : Nat
  queue : List Nat
  served : List Nat
  lost : List Nat
  account : (served ++ lost ++ queue).Perm (List.range next)
  order : (served ++ queue).Pairwise (· < ·)
  oldEnd : (lost ++ queue).Pairwise (· < ·)

namespace Fifo

/-- The FIFO that has accepted nothing. -/
def empty : Fifo where
  next := 0
  queue := []
  served := []
  lost := []
  account := List.Perm.refl _
  order := List.Pairwise.nil
  oldEnd := List.Pairwise.nil

/-- Whatever is recorded anywhere was accepted. -/
theorem lt_next (f : Fifo) {n : Nat} (h : n ∈ f.served ++ f.lost ++ f.queue) :
    n < f.next :=
  List.mem_range.mp (f.account.mem_iff.mp h)

theorem queue_lt_next (f : Fifo) {n : Nat} (h : n ∈ f.queue) : n < f.next :=
  f.lt_next (List.mem_append_right _ h)

theorem served_lt_next (f : Fifo) {n : Nat} (h : n ∈ f.served) :
    n < f.next :=
  f.lt_next (List.mem_append_left _ (List.mem_append_left _ h))

private theorem pairwise_snoc {xs : List Nat} {n : Nat}
    (hxs : xs.Pairwise (· < ·)) (hn : ∀ x ∈ xs, x < n) :
    (xs ++ [n]).Pairwise (· < ·) := by
  rw [List.pairwise_append]
  refine ⟨hxs, List.pairwise_singleton _ _, ?_⟩
  intro x hx y hy
  rw [List.mem_singleton] at hy
  exact hy ▸ hn x hx

/-- Accepts the next item at the new end. -/
def accept (f : Fifo) : Fifo where
  next := f.next + 1
  queue := f.queue ++ [f.next]
  served := f.served
  lost := f.lost
  account := by
    rw [List.range_succ, ← List.append_assoc]
    exact f.account.append_right [f.next]
  order := by
    rw [← List.append_assoc]
    refine pairwise_snoc f.order ?_
    intro x hx
    rcases List.mem_append.mp hx with hs | hq
    · exact f.served_lt_next hs
    · exact f.queue_lt_next hq
  oldEnd := by
    rw [← List.append_assoc]
    refine pairwise_snoc f.oldEnd ?_
    intro x hx
    rcases List.mem_append.mp hx with hl | hq
    · exact f.lt_next (List.mem_append_left _ (List.mem_append_right _ hl))
    · exact f.queue_lt_next hq

/-- Serves the oldest item to the consumer. -/
def serve (f : Fifo) : Fifo where
  next := f.next
  queue := f.queue.drop 1
  served := f.served ++ f.queue.take 1
  lost := f.lost
  account := by
    refine List.Perm.trans ?_ f.account
    rw [List.append_assoc, List.append_assoc, List.append_assoc]
    refine List.Perm.append_left f.served ?_
    calc
      (f.queue.take 1 ++ (f.lost ++ f.queue.drop 1)).Perm
          ((f.lost ++ f.queue.drop 1) ++ f.queue.take 1) :=
        List.perm_append_comm
      _ = f.lost ++ (f.queue.drop 1 ++ f.queue.take 1) :=
        List.append_assoc _ _ _
      List.Perm _ (f.lost ++ (f.queue.take 1 ++ f.queue.drop 1)) :=
        List.Perm.append_left f.lost List.perm_append_comm
      _ = f.lost ++ f.queue := by rw [List.take_append_drop]
  order := by
    rw [List.append_assoc, List.take_append_drop]
    exact f.order
  oldEnd := by
    refine f.oldEnd.sublist ?_
    exact List.Sublist.append (List.Sublist.refl _) (List.drop_sublist 1 _)

/-- Discards the `k` oldest items. -/
def discard (f : Fifo) (k : Nat) : Fifo where
  next := f.next
  queue := f.queue.drop k
  served := f.served
  lost := f.lost ++ f.queue.take k
  account := by
    rw [List.append_assoc, List.append_assoc, List.take_append_drop,
      ← List.append_assoc]
    exact f.account
  order := by
    refine f.order.sublist ?_
    exact List.Sublist.append (List.Sublist.refl _) (List.drop_sublist k _)
  oldEnd := by
    rw [List.append_assoc, List.take_append_drop]
    exact f.oldEnd

/-- When nothing was discarded, the items are served and queued in the order of
their acceptance, without a gap. -/
theorem served_append_queue (f : Fifo) (h : f.lost = []) :
    f.served ++ f.queue = List.range f.next := by
  have haccount := f.account
  rw [h, List.append_nil] at haccount
  exact haccount.eq_of_pairwise (fun a b _ _ hab hba => absurd hab (by omega))
    f.order List.pairwise_lt_range

end Fifo

end RoomSpeaker.Foundation
