import ApiStubs.Number.Shortest
import Mathlib.Algebra.Ring.Nat

/-!
# Decimals that read back

The rank nearest to a decimal depends on the number that the decimal names and not on how many zeros
its digits end in (`Binary64.rankOfDecimal_mul`).  Rounding starts from a quotient, and what it does
is not changed by a common factor of the two numbers (`Binary64.rankOfQuotient_mul`).

The shortest decimal of a rank is searched for by reading back, so that what is found reads back as
the rank.  If nothing were found, all digits of the number would be written, and these read back as
well: a number of whole units is a quotient without rest (`Binary64.rankOfQuotient_unitsOfRank`).
Either way the decimal of a rank reads back as it (`Shortest.rankOfDecimal_ofRank`).
-/

namespace ApiStubs.Number

/-! ## Digits -/

theorem toDigits_mul_pow {m : Nat} (h : 0 < m) (k : Nat) :
    Nat.toDigits 10 (m * 10 ^ k) = Nat.toDigits 10 m ++ List.replicate k '0' := by
  induction k with
  | zero => simp
  | succ k ih =>
      have hpos : 0 < m * 10 ^ k := Nat.mul_pos h (Nat.pow_pos (by decide))
      have hlast := Nat.toDigits_append_toDigits (b := 10) (d := 0) (by decide) hpos (by decide)
      have hnumber : m * 10 ^ (k + 1) = 10 * (m * 10 ^ k) + 0 := by
        rw [Nat.pow_succ, ← Nat.mul_assoc, Nat.mul_comm _ 10, Nat.add_zero]
      rw [hnumber, ← hlast, ih, List.replicate_succ', List.append_assoc, Nat.toDigits_zero]

namespace Binary64

/-! ## Quotients -/

/-- A common factor does not change what a quotient is rounded to. -/
theorem rankOfQuotient_mul (n d : Nat) {c : Nat} (hc : 0 < c) :
    rankOfQuotient (n * c) (d * c) = rankOfQuotient n d := by
  have hquotient : n * c / (d * c) = n / d := Nat.mul_div_mul_right n d hc
  have hstep : ∀ p, d * c * p = d * p * c := fun p => Nat.mul_right_comm d c p
  have hgreater : ∀ a b : Nat, (2 * (a * c) > b * c) = (2 * a > b) := by
    intro a b
    rw [← Nat.mul_assoc]
    exact propext (Nat.mul_lt_mul_right hc)
  have hequal : ∀ a b : Nat, (2 * (a * c) = b * c) = (2 * a = b) := by
    intro a b
    rw [← Nat.mul_assoc]
    exact propext (Nat.mul_left_inj (Nat.ne_of_gt hc))
  simp only [rankOfQuotient, hquotient, hstep, Nat.mul_div_mul_right _ _ hc,
    Nat.mul_mod_mul_right, hgreater, hequal]

/-- A number of units that fills its step is rounded to the rank that it is. -/
theorem rankOfQuotient_of_exact {units shift down : Nat} (hshift : units.log2 - 52 = shift)
    (hunits : units = down * 2 ^ shift) :
    rankOfQuotient units 1 = min infinityRank (shift * ranksPerStep + down) := by
  have hstep : 0 < 2 ^ shift := Nat.two_pow_pos shift
  have hrest : units % 2 ^ shift = 0 := by rw [hunits, Nat.mul_mod_left]
  have hdown : units / 2 ^ shift = down := by rw [hunits, Nat.mul_div_cancel _ hstep]
  have hpow : Nat.pow 2 shift = 2 ^ shift := rfl
  simp only [rankOfQuotient, Nat.div_one, hshift, hpow, Nat.one_mul, hrest, hdown]
  have hnot : ¬ (0 = 2 ^ shift) := Nat.ne_of_lt hstep
  simp [hnot]

/-- Zeros behind 53 binary digits. -/
theorem log2_mul_two_pow {filled : Nat} (low : 2 ^ 52 ≤ filled) (high : filled < 2 ^ 53)
    (place : Nat) : (filled * 2 ^ place).log2 = 52 + place := by
  have hpos : 0 < filled * 2 ^ place :=
    Nat.mul_pos (Nat.lt_of_lt_of_le (by decide) low) (Nat.two_pow_pos place)
  refine (Nat.log2_eq_iff (Nat.ne_of_gt hpos)).mpr ⟨?_, ?_⟩
  · rw [Nat.pow_add]
    exact Nat.mul_le_mul_right _ low
  · rw [Nat.add_right_comm, Nat.pow_add]
    exact Nat.mul_lt_mul_of_pos_right high (Nat.two_pow_pos place)

theorem unitsOfRank_of_lt {rank : Nat} (h : rank < 2 ^ 52) : unitsOfRank rank = rank :=
  if_pos h

theorem unitsOfRank_of_le {rank : Nat} (h : 2 ^ 52 ≤ rank) :
    unitsOfRank rank = (2 ^ 52 + rank % 2 ^ 52) * 2 ^ (rank / 2 ^ 52 - 1) :=
  if_neg (Nat.not_lt.mpr h)

theorem rankOfQuotient_unitsOfRank {rank : Nat} (h : rank ≤ infinityRank) :
    rankOfQuotient (unitsOfRank rank) 1 = rank := by
  have hper : ranksPerStep = 2 ^ 52 := rfl
  rcases Nat.lt_or_ge rank (2 ^ 52) with hrank | hrank
  · have hlog : rank.log2 - 52 = 0 := by
      rcases Nat.eq_zero_or_pos rank with rfl | hpos
      · simp
      · have hlt := (Nat.log2_lt (Nat.ne_of_gt hpos)).mpr hrank
        omega
    rw [unitsOfRank_of_lt hrank, rankOfQuotient_of_exact hlog (Nat.mul_one rank).symm,
      Nat.zero_mul, Nat.zero_add, Nat.min_eq_right h]
  · -- The number fills its step: it has 53 binary digits before the zeros at its end.
    have hhigh : 2 ^ 52 + rank % 2 ^ 52 < 2 ^ 53 := by omega
    have hlog := log2_mul_two_pow (Nat.le_add_right _ _) hhigh (rank / 2 ^ 52 - 1)
    have hparts : (rank / 2 ^ 52 - 1) * 2 ^ 52 + (2 ^ 52 + rank % 2 ^ 52) = rank := by
      have hdiv := Nat.div_add_mod rank (2 ^ 52)
      omega
    rw [unitsOfRank_of_le hrank,
      rankOfQuotient_of_exact (by rw [hlog, Nat.add_sub_cancel_left]) rfl, hper, hparts,
      Nat.min_eq_right h]

/-! ## Decimals -/

/-- What a decimal is rounded to, as long as it is in the range of the format. -/
theorem rankOfDecimal_eq (m : Nat) (e : Int) : rankOfDecimal ⟨m, e⟩ =
    if m = 0 ∨ e + (Nat.toDigits 10 m).length < -330 then 0
    else if e + (Nat.toDigits 10 m).length > 400 then infinityRank
    else rankOfQuotient (m * 10 ^ e.toNat * unitsPerOne) (10 ^ (-e).toNat) := by
  have hpow : ∀ n, Nat.pow 10 n = 10 ^ n := fun _ => rfl
  simp only [rankOfDecimal, hpow, Bool.or_eq_true, decide_eq_true_eq]
  refine ite_congr rfl (fun _ => rfl) fun _ => ite_congr rfl (fun _ => rfl) fun _ => ?_
  split
  · have hnone : (-e).toNat = 0 := by omega
    rw [hnone, Nat.pow_zero]
  · have hnone : e.toNat = 0 := by omega
    rw [hnone, Nat.pow_zero, Nat.mul_one]

/-- Zeros at the end of the digits can as well be counted in the exponent. -/
theorem rankOfDecimal_mul (m k : Nat) (e : Int) :
    rankOfDecimal ⟨m * 10 ^ k, e⟩ = rankOfDecimal ⟨m, e + k⟩ := by
  have hzeros : 0 < 10 ^ k := Nat.pow_pos (by decide)
  rcases Nat.eq_zero_or_pos m with rfl | hm
  · rw [rankOfDecimal_eq, rankOfDecimal_eq, Nat.zero_mul, if_pos (Or.inl rfl), if_pos (Or.inl rfl)]
  · have hzero : (m * 10 ^ k = 0) = (m = 0) := by
      simp only [Nat.ne_of_gt (Nat.mul_pos hm hzeros), Nat.ne_of_gt hm]
    have hsize : e + (Nat.toDigits 10 (m * 10 ^ k)).length =
        e + k + (Nat.toDigits 10 m).length := by
      rw [toDigits_mul_pow hm, List.length_append, List.length_replicate]
      omega
    rw [rankOfDecimal_eq, rankOfDecimal_eq]
    simp only [hzero, hsize]
    refine ite_congr rfl (fun _ => rfl) fun _ => ite_congr rfl (fun _ => rfl) fun _ => ?_
    -- What the two quotients differ by is the power of ten by which one exponent is less negative.
    let c := (-e).toNat - (-(e + k)).toNat
    have hnumerator : 10 ^ k * 10 ^ e.toNat = 10 ^ (e + k).toNat * 10 ^ c := by
      rw [← Nat.pow_add, ← Nat.pow_add]
      congr 1
      omega
    have hdenominator : 10 ^ (-e).toNat = 10 ^ (-(e + k)).toNat * 10 ^ c := by
      rw [← Nat.pow_add]
      congr 1
      omega
    generalize unitsPerOne = u
    rw [hdenominator, Nat.mul_assoc m, hnumerator, ← Nat.mul_assoc m, Nat.mul_right_comm _ _ u]
    exact rankOfQuotient_mul _ _ (Nat.pow_pos (by decide))

end Binary64

namespace Shortest

open Binary64

theorem rankOfDecimal_of_withDigits? {rank count : Nat} {x : Decimal}
    (h : withDigits? rank count = some x) : rankOfDecimal x = rank := by
  rw [withDigits?] at h
  have hfound := List.find?_some h
  exact of_decide_eq_true hfound

theorem unitsOfRank_pos {rank : Nat} (h : 0 < rank) : 0 < unitsOfRank rank := by
  rcases Nat.lt_or_ge rank (2 ^ 52) with hrank | hrank
  · rwa [unitsOfRank_of_lt hrank]
  · rw [unitsOfRank_of_le hrank]
    exact Nat.mul_pos (Nat.add_pos_left (Nat.two_pow_pos 52) _) (Nat.two_pow_pos _)

theorem unitsOfRank_lt (rank : Nat) : unitsOfRank rank < 2 ^ (53 + (rank / 2 ^ 52 - 1)) := by
  rw [Nat.pow_add]
  rcases Nat.lt_or_ge rank (2 ^ 52) with hrank | hrank
  · rw [unitsOfRank_of_lt hrank]
    exact Nat.lt_of_lt_of_le (Nat.lt_trans hrank (by decide))
      (Nat.le_mul_of_pos_right _ (Nat.two_pow_pos _))
  · have hfilled : 2 ^ 52 + rank % 2 ^ 52 < 2 ^ 53 := by omega
    rw [unitsOfRank_of_le hrank]
    exact Nat.mul_lt_mul_of_pos_right hfilled (Nat.two_pow_pos _)

/-- All digits of a number: no fewer than those of a power of five, and not many more. -/
theorem length_toDigits_exact {rank : Nat} (pos : 0 < rank) (finite : rank < infinityRank) :
    744 ≤ (Nat.toDigits 10 (unitsOfRank rank * 5 ^ 1074)).length ∧
      (Nat.toDigits 10 (unitsOfRank rank * 5 ^ 1074)).length ≤ 1474 := by
  have hfive : ∀ k, 0 < 5 ^ k := fun _ => Nat.pow_pos (by decide)
  constructor
  · refine Nat.not_lt.mp fun hshort => ?_
    have hlt := (Nat.length_toDigits_le_iff (by decide) (by decide : 0 < 743)).mp
      (Nat.le_of_lt_succ hshort)
    have hle : 5 ^ 1074 ≤ unitsOfRank rank * 5 ^ 1074 :=
      Nat.le_mul_of_pos_left _ (unitsOfRank_pos pos)
    exact absurd (Nat.lt_of_le_of_lt hle hlt) (by decide +kernel)
  · have hplace : 53 + (rank / 2 ^ 52 - 1) ≤ 2098 := by
      have h : rank < 0x7FF0000000000000 := finite
      omega
    refine (Nat.length_toDigits_le_iff (by decide) (by decide)).mpr ?_
    have hunits := Nat.lt_of_lt_of_le (unitsOfRank_lt rank)
      (Nat.pow_le_pow_right (by decide) hplace)
    exact Nat.lt_trans (Nat.mul_lt_mul_of_pos_right hunits (hfive 1074)) (by decide +kernel)

/-- All digits of a number read back as it. -/
theorem rankOfDecimal_exact {rank : Nat} (pos : 0 < rank) (finite : rank < infinityRank) :
    rankOfDecimal (exact rank) = rank := by
  obtain ⟨hatLeast, hatMost⟩ := length_toDigits_exact pos finite
  have hfive : ∀ k, 0 < 5 ^ k := fun _ => Nat.pow_pos (by decide)
  have hdigits : unitsOfRank rank * 5 ^ 1074 ≠ 0 :=
    Nat.ne_of_gt (Nat.mul_pos (unitsOfRank_pos pos) (hfive 1074))
  have hscale : unitsOfRank rank * 5 ^ 1074 * 10 ^ (-1074 : Int).toNat * unitsPerOne =
      unitsOfRank rank * 10 ^ 1074 := by
    have hone : unitsPerOne = 2 ^ 1074 := by decide +kernel
    have hten : ∀ k, 10 ^ k = 5 ^ k * 2 ^ k := fun k => Nat.mul_pow 5 2 k
    rw [hone, hten 1074, Int.toNat_of_nonpos (by decide), Nat.pow_zero, Nat.mul_one, Nat.mul_assoc]
  have hfold : Nat.pow 5 1074 = 5 ^ 1074 := by decide +kernel
  have hexact : exact rank = ⟨unitsOfRank rank * 5 ^ 1074, -1074⟩ := by rw [exact, hfold]
  have hplaces : (- -1074 : Int).toNat = 1074 := by decide
  rw [hexact, rankOfDecimal_eq, if_neg (by omega), if_neg (by omega), hscale, hplaces]
  have hten : ∀ k, 0 < 10 ^ k := fun _ => Nat.pow_pos (by decide)
  have hreduced := rankOfQuotient_mul (unitsOfRank rank) 1 (hten 1074)
  rw [Nat.one_mul, rankOfQuotient_unitsOfRank (Nat.le_of_lt finite)] at hreduced
  exact hreduced

/-- The decimal that is written for a positive number reads back as it. -/
theorem rankOfDecimal_ofRank {rank : Nat} (pos : 0 < rank) (finite : rank < infinityRank) :
    rankOfDecimal (ofRank rank) = rank := by
  rw [ofRank]
  cases h : (List.range' 1 17).findSome? (withDigits? rank) with
  | none => exact rankOfDecimal_exact pos finite
  | some x =>
      obtain ⟨count, _, hx⟩ := List.exists_of_findSome?_eq_some h
      exact rankOfDecimal_of_withDigits? hx

end Shortest

end ApiStubs.Number
