import Mathlib.Data.List.Basic
import Mathlib.Data.List.Lex
import Mathlib.Data.List.TakeWhile
import RoomSpeaker.Foundation.LittleEndian

/-!
# C strings

A string in memory goes from where it is read to the first NUL.  `Text` is what
such a string can hold, so that storing a text with its terminator and reading it
back is the identity (`cstr_append_nul`).

An index into memory stands for a pointer.
-/

namespace RoomSpeaker.Foundation

/-- The byte of an ASCII character. -/
def ch (c : Char) : Byte := BitVec.ofNat 8 c.toNat

/-- The characters of a C string. -/
structure Text where
  chars : List Byte
  nonul : (0 : Byte) ∉ chars
  deriving DecidableEq, Repr

namespace Text

theorem ext_chars {s t : Text} (h : s.chars = t.chars) : s = t := by
  cases s
  cases t
  cases h
  rfl

def length (t : Text) : Nat := t.chars.length

/-- Concatenation, as `%s%s` prints it. -/
def append (s t : Text) : Text :=
  ⟨s.chars ++ t.chars, fun h => (List.mem_append.mp h).elim s.nonul t.nonul⟩

/-- The bytes as numbers. -/
def codes (t : Text) : List Nat := t.chars.map BitVec.toNat

theorem codes_injective : Function.Injective codes := by
  intro s t h
  have hinj : Function.Injective (BitVec.toNat : Byte → Nat) := fun _ _ =>
    BitVec.eq_of_toNat_eq
  exact ext_chars (List.map_injective_iff.mpr hinj h)

/-- Texts in the order of their bytes. -/
instance : LinearOrder Text := LinearOrder.lift' codes codes_injective

end Text

/-- A byte that does not occur differs from every byte that does. -/
theorem bne_of_notMem {s : List Byte} {c : Byte} (h : c ∉ s) :
    ∀ b ∈ s, (b != c) = true := by
  intro b hb
  exact bne_iff_ne.mpr fun heq => h (heq ▸ hb)

/-! ## Reading memory -/

/-- The string at the front of the memory.  Memory without a NUL is read to its
end. -/
def cstr (m : List Byte) : Text :=
  ⟨m.takeWhile (· != 0), fun h => by simpa using List.mem_takeWhile_imp h⟩

/-- A stored text is read back up to its terminator, whatever lies behind. -/
theorem cstr_append_nul (t : Text) (rest : List Byte) :
    cstr (t.chars ++ 0 :: rest) = t := by
  have hall := bne_of_notMem t.nonul
  apply Text.ext_chars
  simp only [cstr, List.takeWhile_append_of_pos hall, List.takeWhile_cons]
  simp

/-- Reading from inside a stored text gives the rest of it. -/
theorem cstr_drop_append_nul (t : Text) (rest : List Byte) {k : Nat}
    (h : k ≤ t.length) :
    (cstr ((t.chars ++ 0 :: rest).drop k)).chars = t.chars.drop k := by
  have htail : (0 : Byte) ∉ t.chars.drop k := fun hm =>
    t.nonul (List.mem_of_mem_drop hm)
  rw [List.drop_append_of_le_length h]
  exact congrArg Text.chars (cstr_append_nul ⟨t.chars.drop k, htail⟩ rest)

/-- `strchr`: the index of the first `c` before the terminator. -/
def strchr (m : List Byte) (c : Byte) : Option Nat := (cstr m).chars.idxOf? c

private theorem idxOf?_append_cons (a b : List Byte) (c : Byte) (ha : c ∉ a) :
    (a ++ c :: b).idxOf? c = some a.length := by
  induction a with
  | nil => simp [List.idxOf?_cons]
  | cons x a ih =>
      obtain ⟨hx, ha⟩ := not_or.mp fun h => ha (List.mem_cons.mpr h)
      have hne : (x == c) = false := beq_eq_false_iff_ne.mpr (Ne.symm hx)
      rw [List.cons_append, List.idxOf?_cons, hne, ih ha]
      rfl

private theorem split_of_idxOf? {l : List Byte} {c : Byte} {k : Nat}
    (h : l.idxOf? c = some k) :
    ∃ a b, l = a ++ c :: b ∧ c ∉ a ∧ a.length = k := by
  induction l generalizing k with
  | nil => cases h
  | cons x l ih =>
      rw [List.idxOf?_cons] at h
      by_cases hx : x = c
      · rw [if_pos (beq_iff_eq.mpr hx), Option.some.injEq] at h
        exact ⟨[], l, by rw [hx]; rfl, List.not_mem_nil, h⟩
      · rw [if_neg (mt beq_iff_eq.mp hx), Option.map_eq_some_iff] at h
        obtain ⟨j, hj, rfl⟩ := h
        obtain ⟨a, b, rfl, ha, rfl⟩ := ih hj
        refine ⟨x :: a, b, rfl, ?_, rfl⟩
        exact fun hm => (List.mem_cons.mp hm).elim (fun h => hx h.symm) ha

/-- The character is found where the part before it ends. -/
theorem strchr_eq_some_iff (m : List Byte) (c : Byte) (k : Nat) :
    strchr m c = some k ↔
      ∃ a b, (cstr m).chars = a ++ c :: b ∧ c ∉ a ∧ a.length = k := by
  constructor
  · exact split_of_idxOf?
  · rintro ⟨a, b, hm, ha, rfl⟩
    rw [strchr, hm, idxOf?_append_cons a b c ha]

end RoomSpeaker.Foundation
