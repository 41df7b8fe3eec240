import RoomSpeaker.Foundation.Decimal

/-!
# Formatted input and output

`sprintf` and `sscanf` for formats of `%d`, `%u` and single characters.  A
format whose conversions are kept apart reads back what it prints
(`sscanf_sprintf`).

A number that does not fit is taken as `strtol` and `strtoul` take it, the
largest or smallest value of 64 bits, and cut to 32.
-/

namespace RoomSpeaker.Foundation

/-! ## Numerals -/

/-- `isspace`. -/
def isSpace (b : Byte) : Bool :=
  decide (b.toNat = 32) || (decide (9 ≤ b.toNat) && decide (b.toNat ≤ 13))

/-- A number as it is written. -/
structure Numeral where
  neg : Bool
  magnitude : Nat

/-- Reads a numeral: white space, a sign that may be missing, and digits. -/
def scanNumeral (s : List Byte) : Option (Numeral × List Byte) :=
  match s.dropWhile isSpace with
  | [] => none
  | c :: t =>
      if c = ch '-' then (scanDigits 10 t).map fun r => (⟨true, r.1⟩, r.2)
      else if c = ch '+' then (scanDigits 10 t).map fun r => (⟨false, r.1⟩, r.2)
      else (scanDigits 10 (c :: t)).map fun r => (⟨false, r.1⟩, r.2)

/-- The numeral as a `long`, cut to an `int`. -/
def Numeral.asInt (v : Numeral) : BitVec 32 :=
  if v.neg then BitVec.ofInt 32 (-(min v.magnitude (2 ^ 63) : Nat))
  else BitVec.ofNat 32 (min v.magnitude (2 ^ 63 - 1))

/-- The numeral as an `unsigned long`, cut to 32 bits. -/
def Numeral.asUnsigned (v : Numeral) : BitVec 32 :=
  if 2 ^ 64 ≤ v.magnitude then BitVec.allOnes 32
  else if v.neg then -BitVec.ofNat 32 v.magnitude
  else BitVec.ofNat 32 v.magnitude

/-- `atoi`. -/
def atoi (s : List Byte) : BitVec 32 :=
  match scanNumeral s with
  | some r => r.1.asInt
  | none => 0

/-! ## Formats -/

/-- `%d` and `%u`. -/
inductive Conv where
  | int
  | unsigned
  deriving DecidableEq, Repr

/-- One piece of a format. -/
inductive Directive where
  | conv (k : Conv)
  | lit (c : Byte)
  deriving DecidableEq, Repr

def Conv.print : Conv → BitVec 32 → List Byte
  | .int, x =>
      if x.toInt < 0 then ch '-' :: decimal x.toInt.natAbs
      else decimal x.toInt.natAbs
  | .unsigned, x => decimal x.toNat

def Conv.read : Conv → Numeral → BitVec 32
  | .int => Numeral.asInt
  | .unsigned => Numeral.asUnsigned

/-- `sprintf`. -/
def sprintf : List Directive → List (BitVec 32) → List Byte
  | [], _ => []
  | .lit c :: ds, xs => c :: sprintf ds xs
  | .conv _ :: _, [] => []
  | .conv k :: ds, x :: xs => k.print x ++ sprintf ds xs

/-- `sscanf`: the values stored.  The first mismatch ends it. -/
def sscanf : List Directive → List Byte → List (BitVec 32)
  | [], _ => []
  | .lit _ :: _, [] => []
  | .lit c :: ds, b :: s => if b = c then sscanf ds s else []
  | .conv k :: ds, s =>
      match scanNumeral s with
      | some (v, s) => k.read v :: sscanf ds s
      | none => []

/-! ## Reading back -/

/-- A digit is neither white space nor a sign. -/
theorem isDigit_ne {b : Byte} (h : isDigit b = true) :
    isSpace b = false ∧ b ≠ ch '-' ∧ b ≠ ch '+' := by
  revert b
  decide

theorem scanNumeral_digit {b : Byte} (s : List Byte) (h : isDigit b = true) :
    scanNumeral (b :: s) =
      (scanDigits 10 (b :: s)).map fun r => (⟨false, r.1⟩, r.2) := by
  obtain ⟨hspace, hminus, hplus⟩ := isDigit_ne h
  rw [scanNumeral, List.dropWhile_cons_of_neg (by simp [hspace])]
  simp only [if_neg hminus, if_neg hplus]

theorem scanNumeral_decimal (n : Nat) {rest : List Byte} (h : Ends rest) :
    scanNumeral (decimal n ++ rest) = some (⟨false, n⟩, rest) := by
  have hscan := scanDigits_decimal n h
  cases hd : decimal n with
  | nil => exact absurd hd (decimal_ne_nil n)
  | cons b ds =>
      have hb := isDigit_of_mem_decimal (n := n) b (hd ▸ List.mem_cons_self)
      rw [hd, List.cons_append] at hscan
      rw [List.cons_append, scanNumeral_digit _ hb, hscan]
      rfl

theorem scanNumeral_minus (n : Nat) {rest : List Byte} (h : Ends rest) :
    scanNumeral (ch '-' :: decimal n ++ rest) = some (⟨true, n⟩, rest) := by
  rw [List.cons_append, scanNumeral, List.dropWhile_cons_of_neg (by decide)]
  simp only [if_true, scanDigits_decimal n h]
  rfl

/-- A printed value is read back. -/
theorem scanNumeral_print (k : Conv) (x : BitVec 32) {rest : List Byte}
    (h : Ends rest) :
    ∃ v, scanNumeral (k.print x ++ rest) = some (v, rest) ∧ k.read v = x := by
  cases k with
  | int =>
      have hlow := BitVec.le_toInt x
      have hhigh := BitVec.toInt_lt (x := x)
      by_cases hneg : x.toInt < 0
      · refine ⟨⟨true, x.toInt.natAbs⟩, ?_, ?_⟩
        · simp only [Conv.print, if_pos hneg]
          exact scanNumeral_minus _ h
        · have hval : -(min x.toInt.natAbs (2 ^ 63) : Nat) = x.toInt := by omega
          simp only [Conv.read, Numeral.asInt, if_true, hval, BitVec.ofInt_toInt]
      · refine ⟨⟨false, x.toInt.natAbs⟩, ?_, ?_⟩
        · simp only [Conv.print, if_neg hneg]
          exact scanNumeral_decimal _ h
        · have hval : (min x.toInt.natAbs (2 ^ 63 - 1) : Nat) = x.toInt := by omega
          simp only [Conv.read, Numeral.asInt, Bool.false_eq_true, if_false]
          rw [← BitVec.ofInt_natCast, hval, BitVec.ofInt_toInt]
  | unsigned =>
      refine ⟨⟨false, x.toNat⟩, scanNumeral_decimal _ h, ?_⟩
      have hrange := x.isLt
      have hfit : ¬2 ^ 64 ≤ x.toNat := by omega
      simp only [Conv.read, Numeral.asUnsigned, if_neg hfit, Bool.false_eq_true,
        if_false, BitVec.ofNat_toNat, BitVec.setWidth_eq]

/-- One conversion, whatever follows that is no digit. -/
theorem sscanf_conv (k : Conv) (ds : List Directive) (x : BitVec 32)
    {rest : List Byte} (h : Ends rest) :
    sscanf (.conv k :: ds) (k.print x ++ rest) = x :: sscanf ds rest := by
  obtain ⟨v, hscan, hread⟩ := scanNumeral_print k x h
  simp only [sscanf, hscan, hread]

@[simp] theorem sscanf_lit (c : Byte) (ds : List Directive) (s : List Byte) :
    sscanf (.lit c :: ds) (c :: s) = sscanf ds s := if_pos rfl

/-- The conversions of a format are kept apart by characters that are no
digits. -/
def Apart : List Directive → Prop
  | [] => True
  | .lit _ :: ds => Apart ds
  | .conv _ :: ds =>
      (∀ d ∈ ds.head?, ∃ c, d = .lit c ∧ isDigit c = false) ∧ Apart ds

/-- How many values a format takes. -/
def arity : List Directive → Nat
  | [] => 0
  | .lit _ :: ds => arity ds
  | .conv _ :: ds => arity ds + 1

theorem ends_sprintf {ds : List Directive} (xs : List (BitVec 32))
    (h : ∀ d ∈ ds.head?, ∃ c, d = .lit c ∧ isDigit c = false) :
    Ends (sprintf ds xs) := by
  cases ds with
  | nil => exact ends_nil
  | cons d ds =>
      obtain ⟨c, rfl, hc⟩ := h d rfl
      exact ends_cons _ hc

/-- A format reads back what it printed. -/
theorem sscanf_sprintf {ds : List Directive} (h : Apart ds)
    (xs : List (BitVec 32)) (hlen : xs.length = arity ds) :
    sscanf ds (sprintf ds xs) = xs := by
  induction ds generalizing xs with
  | nil =>
      rw [List.eq_nil_of_length_eq_zero hlen]
      rfl
  | cons d ds ih =>
      cases d with
      | lit c => rw [sprintf, sscanf_lit, ih h xs hlen]
      | conv k =>
          cases xs with
          | nil => cases hlen
          | cons x xs =>
              rw [sprintf, sscanf_conv k ds x (ends_sprintf xs h.1),
                ih h.2 xs (Nat.succ.inj hlen)]

/-! ## The text printed -/

theorem print_ne_nil (k : Conv) (x : BitVec 32) : k.print x ≠ [] := by
  cases k with
  | int =>
      rw [Conv.print]
      split
      · exact List.cons_ne_nil _ _
      · exact decimal_ne_nil _
  | unsigned => exact decimal_ne_nil _

/-- A printed value has only digits and a minus. -/
theorem mem_print {k : Conv} {x : BitVec 32} {b : Byte} (h : b ∈ k.print x) :
    isDigit b = true ∨ b = ch '-' := by
  cases k with
  | int =>
      rw [Conv.print] at h
      split at h
      · rcases List.mem_cons.mp h with hminus | hdigit
        · exact Or.inr hminus
        · exact Or.inl (isDigit_of_mem_decimal b hdigit)
      · exact Or.inl (isDigit_of_mem_decimal b h)
  | unsigned => exact Or.inl (isDigit_of_mem_decimal b h)

/-- A format prints digits, minus signs and its own characters. -/
theorem mem_sprintf {ds : List Directive} {xs : List (BitVec 32)} {b : Byte}
    (h : b ∈ sprintf ds xs) :
    isDigit b = true ∨ b = ch '-' ∨ .lit b ∈ ds := by
  induction ds generalizing xs with
  | nil => cases h
  | cons d ds ih =>
      cases d with
      | lit c =>
          rcases List.mem_cons.mp h with rfl | h
          · exact Or.inr (Or.inr List.mem_cons_self)
          · exact (ih h).imp_right (Or.imp_right (List.mem_cons_of_mem _))
      | conv k =>
          cases xs with
          | nil => cases h
          | cons x xs =>
              rcases List.mem_append.mp h with h | h
              · exact (mem_print h).imp_right Or.inl
              · exact (ih h).imp_right (Or.imp_right (List.mem_cons_of_mem _))

/-- A character at the end of a format. -/
theorem sprintf_snoc {ds : List Directive} {xs : List (BitVec 32)} (c : Byte)
    (hlen : xs.length = arity ds) :
    sprintf (ds ++ [.lit c]) xs = sprintf ds xs ++ [c] := by
  induction ds generalizing xs with
  | nil => rfl
  | cons d ds ih =>
      cases d with
      | lit b => rw [List.cons_append, sprintf, sprintf, ih hlen]; rfl
      | conv k =>
          cases xs with
          | nil => cases hlen
          | cons x xs =>
              rw [List.cons_append, sprintf, sprintf, ih (Nat.succ.inj hlen),
                List.append_assoc]

end RoomSpeaker.Foundation
