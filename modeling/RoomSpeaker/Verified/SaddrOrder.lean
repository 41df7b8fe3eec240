import Mathlib.Data.Prod.Lex
import RoomSpeaker.Model.Saddr46

/-!
# The comparisons of socket addresses

Under the mask two addresses have in common, `==`, `<` and `>` order the pairs
of address and port, and leave the ports out when one of them is 0.  `!=` leaves
them out only when both are.

## Main results

* `eq_iff_key`, `lt_iff_key`, `gt_iff_key` — three of the operators compare one
  key.
* `eq_iff`, `ne_iff` — what `==` and `!=` compare.
* `consistent_iff` — when the four agree.
-/

namespace RoomSpeaker

open Foundation

namespace Saddr46

/-! ## The key -/

theorem commonMask_comm (s r : Saddr46) : s.commonMask r = r.commonMask s :=
  BitVec.and_comm s.mask r.mask

/-- One of the ports is 0. -/
def anyPort (s r : Saddr46) : Prop := s.sinPort = 0 ∨ r.sinPort = 0

instance (s r : Saddr46) : Decidable (s.anyPort r) :=
  inferInstanceAs (Decidable (_ ∨ _))

theorem anyPort_comm (s r : Saddr46) : s.anyPort r ↔ r.anyPort s := Or.comm

/-- What a comparison with `r` sees of `s`. -/
def key (s r : Saddr46) : Nat ×ₗ Nat :=
  toLex ((s.masked (s.commonMask r)).toNat,
    if s.anyPort r then 0 else s.sinPort.toNat)

theorem key_any {s r : Saddr46} (h : s.anyPort r) :
    s.key r = toLex ((s.masked (s.commonMask r)).toNat, 0) := by
  rw [key, if_pos h]

theorem key_port {s r : Saddr46} (h : ¬s.anyPort r) :
    s.key r = toLex ((s.masked (s.commonMask r)).toNat, s.sinPort.toNat) := by
  rw [key, if_neg h]

/-- The mask may be applied before the address is widened. -/
theorem bigintNe_eq (s : Saddr46) (m : BitVec 32) : s.bigintNe m = s.bigint m := by
  have hmask : (s.masked m).setWidth 64 =
      s.sAddr.setWidth 64 &&& m.signExtend 64 := by
    apply BitVec.eq_of_getLsbD_eq
    intro i hi
    simp only [masked, BitVec.getLsbD_setWidth, BitVec.getLsbD_and,
      BitVec.getLsbD_signExtend, hi, decide_true, Bool.true_and]
    by_cases hlow : i < 32
    · rw [if_pos hlow]
    · rw [BitVec.getLsbD_of_ge s.sAddr i (by omega), Bool.false_and,
        Bool.false_and]
  rw [bigintNe, hmask, bigint]

/-- The masked address stands above the port. -/
theorem toNat_bigint (s : Saddr46) (m : BitVec 32) :
    (s.bigint m).toNat = (s.masked m).toNat * 2 ^ 32 + s.sinPort.toNat := by
  have haddr := (s.masked m).isLt
  have hport := s.sinPort.isLt
  rw [← bigintNe_eq, bigintNe, BitVec.toNat_or, BitVec.toNat_shiftLeft,
    BitVec.toNat_setWidth, BitVec.toNat_setWidth]
  rw [Nat.mod_eq_of_lt (show (s.masked m).toNat < 2 ^ 64 by omega),
    Nat.mod_eq_of_lt (show s.sinPort.toNat < 2 ^ 64 by omega)]
  have hfits : (s.masked m).toNat <<< 32 < 2 ^ 64 := by
    rw [Nat.shiftLeft_eq]
    omega
  rw [Nat.mod_eq_of_lt hfits, ← Nat.shiftLeft_add_eq_or_of_lt (by omega),
    Nat.shiftLeft_eq]

theorem bigint_inj (s r : Saddr46) (m : BitVec 32) :
    s.bigint m = r.bigint m ↔
      s.masked m = r.masked m ∧ s.sinPort = r.sinPort := by
  have hs := s.sinPort.isLt
  have hr := r.sinPort.isLt
  rw [← BitVec.toNat_inj, toNat_bigint, toNat_bigint, ← BitVec.toNat_inj,
    ← BitVec.toNat_inj]
  omega

/-! ## The operators -/

theorem eq_iff_key (s r : Saddr46) :
    s.eq r = true ↔ s.key r = r.key s := by
  unfold eq
  by_cases hany : s.anyPort r
  · have hports : s.sinPort = 0 ∨ r.sinPort = 0 := hany
    rw [key_any hany, key_any ((anyPort_comm s r).mp hany), commonMask_comm r s]
    simp only [if_pos hports, beq_iff_eq, EmbeddingLike.apply_eq_iff_eq,
      Prod.mk.injEq, BitVec.toNat_inj, and_true]
  · have hports : ¬(s.sinPort = 0 ∨ r.sinPort = 0) := hany
    rw [key_port hany, key_port (fun h => hany ((anyPort_comm s r).mpr h)),
      commonMask_comm r s]
    simp only [if_neg hports, beq_iff_eq, bigint_inj,
      EmbeddingLike.apply_eq_iff_eq, Prod.mk.injEq, BitVec.toNat_inj]

theorem lt_iff_key (s r : Saddr46) :
    s.lt r = true ↔ s.key r < r.key s := by
  unfold lt
  by_cases hany : s.anyPort r
  · have hports : s.sinPort = 0 ∨ r.sinPort = 0 := hany
    rw [key_any hany, key_any ((anyPort_comm s r).mp hany), commonMask_comm r s,
      Prod.Lex.toLex_lt_toLex]
    simp only [if_pos hports, BitVec.ult, decide_eq_true_eq, lt_self_iff_false,
      and_false, or_false]
  · have hports : ¬(s.sinPort = 0 ∨ r.sinPort = 0) := hany
    rw [key_port hany, key_port (fun h => hany ((anyPort_comm s r).mpr h)),
      commonMask_comm r s, Prod.Lex.toLex_lt_toLex]
    simp only [if_neg hports, BitVec.ult, decide_eq_true_eq, toNat_bigint]
    have hs := s.sinPort.isLt
    have hr := r.sinPort.isLt
    omega

theorem lt_eq_gt (a b : Saddr46) : a.lt b = b.gt a := by
  unfold lt gt
  rw [commonMask_comm b a]
  simp only [or_comm]

theorem gt_iff_key (s r : Saddr46) : s.gt r = true ↔ r.key s < s.key r := by
  rw [← lt_eq_gt, lt_iff_key]

/-- `!=` compares addresses and ports whatever they are: two ports that are 0
are the same. -/
theorem ne_iff (s r : Saddr46) :
    s.ne r = true ↔
      s.masked (s.commonMask r) ≠ r.masked (s.commonMask r) ∨
        s.sinPort ≠ r.sinPort := by
  unfold ne
  by_cases hboth : s.sinPort = 0 ∧ r.sinPort = 0
  · have hport : ¬s.sinPort ≠ r.sinPort :=
      not_not_intro (hboth.1.trans hboth.2.symm)
    simp only [if_pos hboth, bne_iff_ne, hport, or_false]
  · simp only [if_neg hboth, bne_iff_ne, bigintNe_eq, ne_eq, bigint_inj]
    exact Decidable.not_and_iff_not_or_not

/-- The two addresses are the same under their masks. -/
def sameMasked (s r : Saddr46) : Prop :=
  s.masked (s.commonMask r) = r.masked (s.commonMask r)

theorem eq_iff (s r : Saddr46) :
    s.eq r = true ↔ s.sameMasked r ∧ (s.anyPort r ∨ s.sinPort = r.sinPort) := by
  rw [eq_iff_key]
  unfold sameMasked
  by_cases hany : s.anyPort r
  · rw [key_any hany, key_any ((anyPort_comm s r).mp hany), commonMask_comm r s]
    simp only [EmbeddingLike.apply_eq_iff_eq, Prod.mk.injEq, BitVec.toNat_inj,
      hany, true_or]
  · rw [key_port hany, key_port (fun h => hany ((anyPort_comm s r).mpr h)),
      commonMask_comm r s]
    simp only [EmbeddingLike.apply_eq_iff_eq, Prod.mk.injEq, BitVec.toNat_inj,
      hany, false_or]

/-! ## Agreement -/

/-- One of less, equal and greater holds, seen from either side, and different
is not equal. -/
structure Consistent (a b : Saddr46) : Prop where
  one : (a.lt b = true ∧ a.eq b = false ∧ a.gt b = false) ∨
    (a.lt b = false ∧ a.eq b = true ∧ a.gt b = false) ∨
    (a.lt b = false ∧ a.eq b = false ∧ a.gt b = true)
  flip : a.lt b = b.gt a
  symm : a.eq b = b.eq a
  differ : a.ne b = true ↔ ¬a.eq b = true

/-- The keys are in a linear order. -/
theorem one_of_three (a b : Saddr46) :
    (a.lt b = true ∧ a.eq b = false ∧ a.gt b = false) ∨
    (a.lt b = false ∧ a.eq b = true ∧ a.gt b = false) ∨
    (a.lt b = false ∧ a.eq b = false ∧ a.gt b = true) := by
  simp only [← Bool.not_eq_true, lt_iff_key, eq_iff_key, gt_iff_key]
  rcases lt_trichotomy (a.key b) (b.key a) with hlt | heq | hgt
  · exact Or.inl ⟨hlt, hlt.ne, hlt.not_gt⟩
  · exact Or.inr (Or.inl ⟨heq.not_lt, heq, heq.not_gt⟩)
  · exact Or.inr (Or.inr ⟨hgt.not_gt, hgt.ne', hgt⟩)

theorem eq_comm' (a b : Saddr46) : a.eq b = b.eq a := by
  rw [Bool.eq_iff_iff, eq_iff_key, eq_iff_key]
  exact eq_comm

/-- `!=` is the negation of `==` unless it compares a wildcard with a port. -/
theorem differ_iff (a b : Saddr46) :
    (a.ne b = true ↔ ¬a.eq b = true) ↔
      (a.sameMasked b → (a.sinPort = 0 ↔ b.sinPort = 0)) := by
  rw [ne_iff, eq_iff]
  by_cases hsame : a.sameMasked b
  · have hno : ¬a.masked (a.commonMask b) ≠ b.masked (a.commonMask b) :=
      not_not_intro hsame
    simp only [hno, hsame, false_or, true_and, forall_const, not_or]
    unfold anyPort
    constructor
    · intro h
      constructor
      · intro ha
        by_contra hb
        have hports : a.sinPort ≠ b.sinPort := fun heq => hb (heq ▸ ha)
        exact (h.mp hports).1 (Or.inl ha)
      · intro hb
        by_contra ha
        have hports : a.sinPort ≠ b.sinPort := fun heq => ha (heq ▸ hb)
        exact (h.mp hports).1 (Or.inr hb)
    · intro h
      constructor
      · intro hports
        refine ⟨?_, hports⟩
        rintro (ha | hb)
        · exact hports (ha.trans (h.mp ha).symm)
        · exact hports ((h.mpr hb).trans hb.symm)
      · exact And.right
  · have hdiff : a.masked (a.commonMask b) ≠ b.masked (a.commonMask b) := hsame
    simp [hdiff, hsame]

/-- The operators agree on two addresses unless these are the same under their
masks and exactly one of the ports is the wildcard. -/
theorem consistent_iff (a b : Saddr46) :
    Consistent a b ↔ (a.sameMasked b → (a.sinPort = 0 ↔ b.sinPort = 0)) := by
  constructor
  · intro h
    exact (differ_iff a b).mp h.differ
  · intro h
    exact ⟨one_of_three a b, lt_eq_gt a b, eq_comm' a b,
      (differ_iff a b).mpr h⟩

/-- 1.2.3.4 with any port and 1.2.3.4 with port 80 are both equal and
different. -/
theorem inconsistent_wildcard :
    ¬Consistent ⟨0x04030201, 0, 0xFFFFFFFF⟩ ⟨0x04030201, 0x5000, 0xFFFFFFFF⟩ := by
  intro h
  exact absurd h.differ (by decide)

end Saddr46

end RoomSpeaker
