import Mathlib.Data.List.Nodup
import Mathlib.Data.List.Perm.Basic
import Mathlib.Order.Basic
import Mathlib.Order.Defs.LinearOrder
import Mathlib.Order.Lattice

/-!
# Ordered maps as sorted entry lists

A map whose iteration order is the order of its keys.  The entries are kept
strictly sorted, and the proof is part of the value, so a map can neither hold a
key twice nor be traversed out of order.

`insert` replaces the value of a key that is present.  `insert_perm` describes it
without the position: the new entry together with the entries of the other keys.
-/

namespace RoomSpeaker.Foundation

/-- A finite map with its entries in strictly increasing key order. -/
structure KeyMap (κ α : Type) [LinearOrder κ] where
  entries : List (κ × α)
  sorted : (entries.map Prod.fst).Pairwise (· < ·)

namespace KeyMap

variable {κ α : Type} [LinearOrder κ]

def empty : KeyMap κ α := ⟨[], List.Pairwise.nil⟩

def keys (m : KeyMap κ α) : List κ := m.entries.map Prod.fst

def size (m : KeyMap κ α) : Nat := m.entries.length

/-- The same keys with other values. -/
def withEntries (m : KeyMap κ α) (es : List (κ × α))
    (h : es.map Prod.fst = m.keys) : KeyMap κ α :=
  ⟨es, h ▸ m.sorted⟩

/-- Keeps the entries that pass the test. -/
def filter (m : KeyMap κ α) (p : κ × α → Bool) : KeyMap κ α :=
  ⟨m.entries.filter p, m.sorted.sublist (List.filter_sublist.map Prod.fst)⟩

/-- Removes a key. -/
def erase (m : KeyMap κ α) (k : κ) : KeyMap κ α :=
  m.filter fun e => decide (e.1 ≠ k)

/-- Sorted insertion; an entry with the same key is replaced. -/
def insertEntry (k : κ) (v : α) : List (κ × α) → List (κ × α)
  | [] => [(k, v)]
  | e :: es =>
      if k < e.1 then (k, v) :: e :: es
      else if k = e.1 then (k, v) :: es
      else e :: insertEntry k v es

private theorem filter_eq_self_of_lt {k : κ} {es : List (κ × α)}
    (h : ∀ e ∈ es, k < e.1) :
    es.filter (fun e => decide (e.1 ≠ k)) = es := by
  rw [List.filter_eq_self]
  intro e he
  exact decide_eq_true (ne_of_gt (h e he))

private theorem lt_of_sorted_cons {e : κ × α} {es : List (κ × α)}
    (h : ((e :: es).map Prod.fst).Pairwise (· < ·)) :
    (∀ x ∈ es, e.1 < x.1) ∧ (es.map Prod.fst).Pairwise (· < ·) := by
  rw [List.map_cons, List.pairwise_cons] at h
  exact ⟨fun x hx => h.1 x.1 (List.mem_map_of_mem hx), h.2⟩

private theorem insertEntry_perm (k : κ) (v : α) (es : List (κ × α))
    (h : (es.map Prod.fst).Pairwise (· < ·)) :
    (insertEntry k v es).Perm
      ((k, v) :: es.filter fun e => decide (e.1 ≠ k)) := by
  induction es with
  | nil => exact List.Perm.refl _
  | cons e es ih =>
      obtain ⟨hhead, htail⟩ := lt_of_sorted_cons h
      by_cases hlt : k < e.1
      · have hall : ∀ x ∈ e :: es, k < x.1 := by
          intro x hx
          rcases List.mem_cons.mp hx with rfl | hx
          · exact hlt
          · exact lt_trans hlt (hhead x hx)
        rw [insertEntry, if_pos hlt, filter_eq_self_of_lt hall]
      · by_cases heq : k = e.1
        · have hall : ∀ x ∈ es, k < x.1 := by
            intro x hx
            rw [heq]
            exact hhead x hx
          rw [insertEntry, if_neg hlt, if_pos heq, List.filter_cons,
            if_neg (by simp [heq]), filter_eq_self_of_lt hall]
        · rw [insertEntry, if_neg hlt, if_neg heq, List.filter_cons,
            if_pos (by simpa using Ne.symm heq)]
          exact ((ih htail).cons e).trans (List.Perm.swap _ _ _)

private theorem insertEntry_sorted (k : κ) (v : α) (es : List (κ × α))
    (h : (es.map Prod.fst).Pairwise (· < ·)) :
    ((insertEntry k v es).map Prod.fst).Pairwise (· < ·) := by
  induction es with
  | nil => exact List.pairwise_singleton _ _
  | cons e es ih =>
      obtain ⟨hhead, htail⟩ := lt_of_sorted_cons h
      by_cases hlt : k < e.1
      · rw [insertEntry, if_pos hlt, List.map_cons, List.pairwise_cons]
        refine ⟨?_, h⟩
        intro x hx
        rw [List.map_cons, List.mem_cons, List.mem_map] at hx
        rcases hx with rfl | ⟨y, hy, rfl⟩
        · exact hlt
        · exact lt_trans hlt (hhead y hy)
      · by_cases heq : k = e.1
        · rw [insertEntry, if_neg hlt, if_pos heq]
          rw [List.map_cons] at h ⊢
          rw [show (k, v).1 = e.1 from heq]
          exact h
        · rw [insertEntry, if_neg hlt, if_neg heq, List.map_cons,
            List.pairwise_cons]
          refine ⟨?_, ih htail⟩
          intro x hx
          obtain ⟨y, hy, rfl⟩ := List.mem_map.mp hx
          have hy' := (insertEntry_perm k v es htail).mem_iff.mp hy
          rcases List.mem_cons.mp hy' with rfl | hy'
          · exact lt_of_le_of_ne (not_lt.mp hlt) (Ne.symm heq)
          · exact hhead y (List.mem_of_mem_filter hy')

/-- Sets the value of a key. -/
def insert (m : KeyMap κ α) (k : κ) (v : α) : KeyMap κ α :=
  ⟨insertEntry k v m.entries, insertEntry_sorted k v m.entries m.sorted⟩

/-- Insertion adds one entry to those of the other keys. -/
theorem insert_perm (m : KeyMap κ α) (k : κ) (v : α) :
    (m.insert k v).entries.Perm ((k, v) :: (m.erase k).entries) :=
  insertEntry_perm k v m.entries m.sorted

theorem mem_insert (m : KeyMap κ α) (k : κ) (v : α) (e : κ × α) :
    e ∈ (m.insert k v).entries ↔
      e = (k, v) ∨ (e ∈ m.entries ∧ e.1 ≠ k) := by
  rw [(m.insert_perm k v).mem_iff, List.mem_cons]
  simp [erase, filter]

theorem keys_nodup (m : KeyMap κ α) : m.keys.Nodup :=
  m.sorted.imp fun h => ne_of_lt h

theorem entries_nodup (m : KeyMap κ α) : m.entries.Nodup :=
  List.Nodup.of_map Prod.fst m.keys_nodup

/-- A map is its entries. -/
theorem ext_entries {m m' : KeyMap κ α} (h : m.entries = m'.entries) : m = m' := by
  cases m
  cases m'
  cases h
  rfl

/-- A key has one value. -/
theorem eq_of_mem (m : KeyMap κ α) {k : κ} {v w : α}
    (hv : (k, v) ∈ m.entries) (hw : (k, w) ∈ m.entries) : v = w := by
  have hinj := List.inj_on_of_nodup_map m.keys_nodup hv hw rfl
  exact (Prod.mk.inj hinj).2

theorem mem_keys (m : KeyMap κ α) (k : κ) :
    k ∈ m.keys ↔ ∃ v, (k, v) ∈ m.entries := by
  simp [keys]

/-- Erasing an absent key changes nothing. -/
theorem erase_of_notMem (m : KeyMap κ α) {k : κ} (h : k ∉ m.keys) :
    (m.erase k).entries = m.entries := by
  simp only [erase, filter]
  rw [List.filter_eq_self]
  intro e he
  refine decide_eq_true ?_
  rintro rfl
  exact h (List.mem_map_of_mem he)

/-- Erasing a present key removes one entry. -/
theorem perm_erase (m : KeyMap κ α) {k : κ} {v : α}
    (h : (k, v) ∈ m.entries) :
    m.entries.Perm ((k, v) :: (m.erase k).entries) := by
  refine (List.perm_ext_iff_of_nodup m.entries_nodup ?_).mpr ?_
  · rw [List.nodup_cons]
    exact ⟨by simp [erase, filter], (m.erase k).entries_nodup⟩
  · rintro ⟨k', w⟩
    by_cases hk : k' = k
    · subst hk
      constructor
      · intro hw
        rw [m.eq_of_mem hw h]
        exact List.mem_cons_self
      · intro hw
        rcases List.mem_cons.mp hw with heq | hmem
        · rw [heq]
          exact h
        · simp [erase, filter] at hmem
    · simp [erase, filter, hk]

/-- Looking for a present key finds its one entry. -/
theorem filter_key (m : KeyMap κ α) {k : κ} {v : α}
    (h : (k, v) ∈ m.entries) :
    m.entries.filter (fun e => decide (e.1 = k)) = [(k, v)] := by
  have hperm := (m.perm_erase h).filter fun e => decide (e.1 = k)
  have hnone : (m.erase k).entries.filter (fun e => decide (e.1 = k)) = [] := by
    rw [List.filter_eq_nil_iff]
    intro e he
    simpa [erase, filter] using (List.mem_filter.mp he).2
  rw [List.filter_cons_of_pos (by simp), hnone] at hperm
  exact List.perm_singleton.mp hperm

end KeyMap

end RoomSpeaker.Foundation
