import Mathlib.Algebra.Group.Int.Defs
import Mathlib.Algebra.Group.Nat.Defs
import Mathlib.Data.Nat.Notation
import RoomSpeaker.Foundation.CString

/-!
# Numbers as digit strings

`decimal` prints a number, `scanDigits` reads one off the front of a text as far
as its digits go.  A printed number is read back whole if no digit follows it
(`scanDigits_decimal`).
-/

namespace RoomSpeaker.Foundation

/-! ## Digits -/

/-- The value of a digit; 16 for a byte that is none. -/
def digitVal (b : Byte) : Nat :=
  if 48 ≤ b.toNat ∧ b.toNat ≤ 57 then b.toNat - 48
  else if 97 ≤ b.toNat ∧ b.toNat ≤ 102 then b.toNat - 87
  else if 65 ≤ b.toNat ∧ b.toNat ≤ 70 then b.toNat - 55
  else 16

def isDigitIn (base : Nat) (b : Byte) : Bool := decide (digitVal b < base)

/-- `isdigit`. -/
def isDigit (b : Byte) : Bool := isDigitIn 10 b

/-- The value of a digit string, most significant digit first. -/
def digitsVal (base : Nat) (bs : List Byte) : Nat :=
  bs.foldl (fun v b => base * v + digitVal b) 0

/-- Reads digits as far as they go: their value and the rest of the text. -/
def scanDigits (base : Nat) (s : List Byte) : Option (Nat × List Byte) :=
  if s.takeWhile (isDigitIn base) = [] then none
  else some (digitsVal base (s.takeWhile (isDigitIn base)),
    s.dropWhile (isDigitIn base))

/-- No digit comes first. -/
def Ends (s : List Byte) : Prop := ∀ b ∈ s.head?, isDigit b = false

theorem ends_nil : Ends [] := by
  intro b hb
  cases hb

theorem ends_cons {c : Byte} (s : List Byte) (h : isDigit c = false) :
    Ends (c :: s) := by
  intro b hb
  rwa [← Option.mem_some_iff.mp hb]

/-- Digits in front of a text that has none are read, and only they. -/
theorem scanDigits_append {ds rest : List Byte} (hne : ds ≠ [])
    (hds : ∀ b ∈ ds, isDigit b = true) (hrest : Ends rest) :
    scanDigits 10 (ds ++ rest) = some (digitsVal 10 ds, rest) := by
  have htake : rest.takeWhile (isDigitIn 10) = [] ∧
      rest.dropWhile (isDigitIn 10) = rest := by
    cases rest with
    | nil => exact ⟨rfl, rfl⟩
    | cons c s =>
        have hc : isDigitIn 10 c = false := hrest c rfl
        simp [hc]
  have hds' : ∀ b ∈ ds, isDigitIn 10 b = true := hds
  rw [scanDigits, List.takeWhile_append_of_pos hds',
    List.dropWhile_append_of_pos hds', htake.1, htake.2, List.append_nil,
    if_neg hne]

/-! ## Printing -/

/-- A number in decimal. -/
def decimal (n : Nat) : List Byte := (Nat.toDigits 10 n).map ch

theorem decimal_ne_nil (n : Nat) : decimal n ≠ [] := by
  simp [decimal]

theorem length_decimal_le_iff {n k : Nat} (hk : 0 < k) :
    (decimal n).length ≤ k ↔ n < 10 ^ k := by
  rw [decimal, List.length_map]
  exact Nat.length_toDigits_le_iff (by decide) hk

private theorem toNat_ch {c : Char} (h : c.isDigit) :
    (ch c).toNat = c.toNat ∧ 48 ≤ c.toNat ∧ c.toNat ≤ 57 := by
  have hrange : 48 ≤ c.toNat ∧ c.toNat ≤ 57 := by
    simpa [Char.isDigit, UInt32.le_iff_toNat_le] using h
  refine ⟨?_, hrange⟩
  rw [ch, BitVec.toNat_ofNat]
  omega

theorem digitVal_ch {c : Char} (h : c.isDigit) :
    digitVal (ch c) = c.toNat - 48 ∧ digitVal (ch c) < 10 := by
  obtain ⟨hch, hlow, hhigh⟩ := toNat_ch h
  rw [digitVal, hch, if_pos ⟨hlow, hhigh⟩]
  omega

theorem isDigit_of_mem_decimal {n : Nat} : ∀ b ∈ decimal n, isDigit b = true := by
  intro b hb
  obtain ⟨c, hc, rfl⟩ := List.mem_map.mp hb
  have hdigit := Nat.isDigit_of_mem_toDigits (by decide) (by decide) hc
  exact decide_eq_true (digitVal_ch hdigit).2

@[simp] theorem digitsVal_decimal (n : Nat) : digitsVal 10 (decimal n) = n := by
  have hfold : ∀ (cs : List Char) (v : Nat), (∀ c ∈ cs, c.isDigit) →
      (cs.map ch).foldl (fun v b => 10 * v + digitVal b) v =
        Nat.ofDigitChars 10 cs v := by
    intro cs
    induction cs with
    | nil => intros; rfl
    | cons c cs ih =>
        intro v h
        rw [List.map_cons, List.foldl_cons, Nat.ofDigitChars_cons,
          (digitVal_ch (h c List.mem_cons_self)).1]
        exact ih _ fun x hx => h x (List.mem_cons_of_mem c hx)
  rw [digitsVal, decimal, hfold _ _ fun c hc =>
    Nat.isDigit_of_mem_toDigits (by decide) (by decide) hc]
  exact Nat.ofDigitChars_toDigits (by decide) (by decide)

/-- A printed number is read back. -/
theorem scanDigits_decimal (n : Nat) {rest : List Byte} (h : Ends rest) :
    scanDigits 10 (decimal n ++ rest) = some (n, rest) := by
  rw [scanDigits_append (decimal_ne_nil n) isDigit_of_mem_decimal h,
    digitsVal_decimal]

/-- A positive number has no leading zero. -/
theorem digitVal_head_decimal {n : Nat} (h : 0 < n) :
    ∀ b ∈ (decimal n).head?, 0 < digitVal b := by
  induction n using Nat.strongRecOn with
  | ind n ih =>
      by_cases hn : n < 10
      · intro b hb
        rw [decimal, Nat.toDigits_of_lt_base hn] at hb
        obtain rfl : ch n.digitChar = b := Option.mem_some_iff.mp hb
        have hdigit : n.digitChar.isDigit := by simp [hn]
        rw [(digitVal_ch hdigit).1, Nat.toNat_digitChar_sub_48_of_lt_ten hn]
        exact h
      · have hhead : (decimal n).head? = (decimal (n / 10)).head? := by
          rw [decimal, Nat.toDigits_of_base_le (by decide) (by omega),
            List.map_append, List.head?_append_of_ne_nil _ (by simp)]
          rfl
        rw [hhead]
        exact ih (n / 10) (by omega) (by omega)

end RoomSpeaker.Foundation
