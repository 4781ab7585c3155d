import ApiStubs.Json.Numeral
import ApiStubs.Json.Printer
import ApiStubs.Proofs.Rounding

/-!
# Numerals that read back

Every number that is printed is read back as itself.

The digits of a decimal are printed without the zeros at their end, and the point is put among them,
before them or after zeros put in behind them.  Whichever of these it is, the digits read and the
exponent read name the decimal that was printed, up to zeros at the end of its digits
(`magnitude?_decimalText`), and rounding does not see those.  So a floating-point number reads back
(`read?_text`), infinite ones excepted, which have words of their own; whole numbers read back as
well (`read?_toString`).  What a numeral is made of is read off the reader, which takes digits,
signs, points and exponent marks and nothing else (`isPart_of_read?`).
-/

namespace ApiStubs.Json.Numeral

open Number (Binary64 Decimal Layout)

/-! ## The reader on the parts of a numeral -/

/-- A run of digits. -/
structure IsDigits (ds : List Char) : Prop where
  ne_nil : ds ≠ []
  all : ∀ c ∈ ds, c.isDigit = true

/-- The digits of an integer part: a zero stands at their start only if it is all of them. -/
structure IsWhole (ds : List Char) : Prop extends IsDigits ds where
  zero : ds.head? = some '0' → ds = ['0']

/-- What can follow a run of digits. -/
def EndsDigits (rest : List Char) : Prop :=
  ∀ c ∈ rest.head?, c.isDigit = false

theorem endsDigits_nil : EndsDigits [] :=
  fun _ h => absurd h (by simp)

theorem endsDigits_cons {c : Char} {rest : List Char} (h : c.isDigit = false) :
    EndsDigits (c :: rest) := by
  intro d hd
  cases hd
  exact h

section

variable {ds rest : List Char}

theorem digits?_append (h : IsDigits ds) (ends : EndsDigits rest) :
    digits? (ds ++ rest) = some (ds, rest) := by
  have htake : rest.takeWhile Char.isDigit = [] := by
    cases rest with
    | nil => rfl
    | cons c rest => rw [List.takeWhile_cons_of_neg (by simp [ends c rfl])]
  have hdrop : rest.dropWhile Char.isDigit = rest := by
    cases rest with
    | nil => rfl
    | cons c rest => rw [List.dropWhile_cons_of_neg (by simp [ends c rfl])]
  rw [digits?, List.takeWhile_append_of_pos h.all, List.dropWhile_append_of_pos h.all, htake, hdrop,
    List.append_nil]
  simp [h.ne_nil]

theorem digits?_eq (h : IsDigits ds) : digits? ds = some (ds, []) := by
  have hall := digits?_append h endsDigits_nil
  rwa [List.append_nil] at hall

theorem whole?_append (h : IsWhole ds) (ends : EndsDigits rest) :
    whole? (ds ++ rest) = some (ds, rest) := by
  cases ds with
  | nil => exact absurd rfl h.ne_nil
  | cons c ds =>
      by_cases hc : c = '0'
      · subst hc
        have hnone : ds = [] := (List.cons.inj (h.zero rfl)).2
        rw [hnone]
        rfl
      · rw [whole?.eq_2 _ (by simp [hc]), digits?_append h.toIsDigits ends]

theorem magnitude?_whole (negative : Bool) (h : IsWhole ds) : magnitude? negative ds =
    some (.int (if negative then -(ofDigits ds : Int) else ofDigits ds)) := by
  have hwhole := whole?_append h endsDigits_nil
  rw [List.append_nil] at hwhole
  rw [magnitude?, hwhole]
  rfl

theorem fraction?_append (h : IsDigits ds) (ends : EndsDigits rest) :
    fraction? ('.' :: (ds ++ rest)) = some (some ds, rest) := by
  rw [fraction?, digits?_append h ends, Option.map_some]

theorem exponent?_signed (negative : Bool) {size : List Char} (h : IsDigits size) :
    exponent? ('e' :: (if negative then '-' else '+') :: size) =
      some (some (if negative then -(ofDigits size : Int) else ofDigits size)) := by
  cases negative <;> simp [exponent?, digits?_eq h]

/-- A whole part and places: the digits of both, the point that many from their end. -/
theorem magnitude?_point (negative : Bool) {places : List Char} (h : IsWhole ds)
    (hplaces : IsDigits places) : magnitude? negative (ds ++ '.' :: places) =
    some (.float (.ofDecimal negative ⟨ofDigits (ds ++ places), 0 - places.length⟩)) := by
  have hfraction := fraction?_append hplaces endsDigits_nil
  rw [List.append_nil] at hfraction
  rw [magnitude?, whole?_append h (endsDigits_cons (by decide))]
  simp only [Option.bind_eq_bind, Option.bind_some, hfraction]
  rfl

/-- The same with an exponent, where there need be no places. -/
theorem magnitude?_exponent (negative down : Bool) {places size : List Char} (h : IsWhole ds)
    (hplaces : ∀ c ∈ places, c.isDigit = true) (hsize : IsDigits size) :
    magnitude? negative (ds ++ (if places.isEmpty then [] else '.' :: places) ++
      'e' :: (if down then '-' else '+') :: size) =
    some (.float (.ofDecimal negative ⟨ofDigits (ds ++ places),
      (if down then -(ofDigits size : Int) else ofDigits size) - places.length⟩)) := by
  have hmark : ∀ rest, EndsDigits ('e' :: rest) := fun rest => endsDigits_cons (by decide)
  cases places with
  | nil =>
      rw [List.isEmpty_nil, if_pos rfl, List.append_nil, magnitude?, whole?_append h (hmark _)]
      have hfraction : ∀ rest, fraction? ('e' :: rest) = some (none, 'e' :: rest) := fun _ => rfl
      simp only [Option.bind_eq_bind, Option.bind_some, hfraction, exponent?_signed down hsize,
        Option.getD_none, List.append_nil]
      rfl
  | cons c places =>
      have hdigits : IsDigits (c :: places) := ⟨List.cons_ne_nil c places, hplaces⟩
      rw [List.isEmpty_cons, if_neg Bool.false_ne_true, List.append_assoc, List.cons_append,
        magnitude?, whole?_append h (endsDigits_cons (by decide))]
      simp only [Option.bind_eq_bind, Option.bind_some, fraction?_append hdigits (hmark _),
        exponent?_signed down hsize]
      rfl

end

/-- A text that reads as a number without a sign reads as it without asking for one. -/
theorem read?_of_magnitude? {cs : List Char} {v : Value} (h : magnitude? false cs = some v) :
    read? cs = some v := by
  cases cs with
  | nil => exact h
  | cons c rest =>
      by_cases hc : c = '-'
      · subst hc
        exact absurd h (by simp [magnitude?, whole?, digits?])
      · rw [read?.eq_2 _ (by simp [hc]), h]

/-! ## What is printed -/

theorem ofDigits_eq (ds : List Char) : ofDigits ds = Nat.ofDigitChars 10 ds 0 := rfl

theorem ofDigits_toDigits (n : Nat) : ofDigits (Nat.toDigits 10 n) = n :=
  Nat.ofDigitChars_ten_toDigits

/-- Zeros at the start of the digits change nothing. -/
theorem ofDigits_zeros_append (k : Nat) (ds : List Char) :
    ofDigits (List.replicate k '0' ++ ds) = ofDigits ds := by
  rw [ofDigits_eq, Nat.ofDigitChars_append, Nat.ofDigitChars_replicate_zero, Nat.mul_zero,
    ofDigits_eq]

/-- Zeros at their end are factors of ten. -/
theorem ofDigits_append_zeros (k : Nat) (ds : List Char) :
    ofDigits (ds ++ List.replicate k '0') = ofDigits ds * 10 ^ k := by
  rw [ofDigits_eq, Nat.ofDigitChars_append, Nat.ofDigitChars_replicate_zero, Nat.mul_comm,
    ofDigits_eq]

theorem isDigits_toDigits (n : Nat) : IsDigits (Nat.toDigits 10 n) :=
  ⟨Nat.toDigits_ne_nil, fun _ => Nat.isDigit_of_mem_toDigits (by decide) (by decide)⟩

theorem isDigit_of_mem_zeros {k : Nat} {c : Char} (h : c ∈ List.replicate k '0') :
    c.isDigit = true := by
  rw [List.eq_of_mem_replicate h]
  rfl

theorem IsDigits.append_zeros {ds : List Char} (h : IsDigits ds) (k : Nat) :
    IsDigits (ds ++ List.replicate k '0') :=
  ⟨List.append_ne_nil_of_left_ne_nil h.ne_nil _,
    fun c hc => (List.mem_append.mp hc).elim (h.all c) isDigit_of_mem_zeros⟩

theorem IsDigits.zeros_append {ds : List Char} (h : IsDigits ds) (k : Nat) :
    IsDigits (List.replicate k '0' ++ ds) :=
  ⟨List.append_ne_nil_of_right_ne_nil _ h.ne_nil,
    fun c hc => (List.mem_append.mp hc).elim isDigit_of_mem_zeros (h.all c)⟩

/-- A positive number does not start with a zero. -/
theorem head?_toDigits_ne {n : Nat} (h : 0 < n) : (Nat.toDigits 10 n).head? ≠ some '0' := by
  induction n using Nat.strongRecOn with
  | ind n ih =>
      by_cases hn : n < 10
      · rw [Nat.toDigits_of_lt_base hn]
        have hdigit : ∀ d < 10, 0 < d → d.digitChar ≠ '0' := by decide
        simpa using hdigit n hn h
      · have hfirst := ih (n / 10) (by omega) (by omega)
        obtain ⟨c, cs, hcs⟩ :=
          List.exists_cons_of_ne_nil (Nat.toDigits_ne_nil (n := n / 10) (b := 10))
        rw [Nat.toDigits_of_base_le (by decide) (Nat.not_lt.mp hn)]
        rw [hcs] at hfirst ⊢
        exact hfirst

theorem isWhole_toDigits (n : Nat) : IsWhole (Nat.toDigits 10 n) where
  toIsDigits := isDigits_toDigits n
  zero := by
    intro hzero
    rcases Nat.eq_zero_or_pos n with rfl | h
    · rfl
    · exact absurd hzero (head?_toDigits_ne h)

/-- The digits without zeros at their end are those of the number without factors of ten. -/
theorem exists_stripZeros {n : Nat} (h : 0 < n) : ∃ m k, 0 < m ∧ n = m * 10 ^ k ∧
    Layout.stripZeros (Nat.toDigits 10 n) = Nat.toDigits 10 m := by
  induction n using Nat.strongRecOn with
  | ind n ih =>
      by_cases hten : n % 10 = 0
      · obtain ⟨m, k, hm, hn, hdigits⟩ := ih (n / 10) (by omega) (by omega)
        refine ⟨m, k + 1, hm, ?_, ?_⟩
        · rw [Nat.pow_succ, ← Nat.mul_assoc, ← hn]
          omega
        · rw [Nat.toDigits_of_base_le (by decide) (by omega), hten, ← hdigits]
          simp [Layout.stripZeros, Nat.digitChar]
      · refine ⟨n, 0, h, by simp, ?_⟩
        have hlast : ∀ d < 10, d ≠ 0 → d.digitChar ≠ '0' := by decide
        have hdigits : ∃ ds, Nat.toDigits 10 n = ds ++ [(n % 10).digitChar] := by
          by_cases hn : n < 10
          · exact ⟨[], by rw [Nat.toDigits_of_lt_base hn, Nat.mod_eq_of_lt hn, List.nil_append]⟩
          · exact ⟨_, Nat.toDigits_of_base_le (by decide) (Nat.not_lt.mp hn)⟩
        obtain ⟨ds, hds⟩ := hdigits
        rw [hds]
        simp [Layout.stripZeros, hlast _ (Nat.mod_lt n (by decide)) hten]

theorem ofDecimal_mul (negative : Bool) (m k : Nat) (e : Int) :
    Binary64.ofDecimal negative ⟨m * 10 ^ k, e⟩ = .ofDecimal negative ⟨m, e + k⟩ := by
  rw [Binary64.ofDecimal, Binary64.ofDecimal, Binary64.rankOfDecimal_mul]

section

variable (negative : Bool) {ds : List Char} (h : IsDigits ds)

include h

/-- Zeros between the point and the digits. -/
theorem magnitude?_before (k : Nat) :
    magnitude? negative ('0' :: '.' :: List.replicate k '0' ++ ds) =
      some (.float (.ofDecimal negative ⟨ofDigits ds, -k - ds.length⟩)) := by
  have hzero : IsWhole ['0'] := ⟨⟨by simp, by simp⟩, fun _ => rfl⟩
  have hvalue : ofDigits (['0'] ++ (List.replicate k '0' ++ ds)) = ofDigits ds :=
    ofDigits_zeros_append (k + 1) ds
  have hexponent : (0 - (List.replicate k '0' ++ ds).length : Int) = -k - ds.length := by
    rw [List.length_append, List.length_replicate]
    omega
  rw [← hvalue, ← hexponent]
  exact magnitude?_point negative hzero (h.zeros_append k)

variable (hfirst : ds.head? ≠ some '0')

include hfirst

theorem isWhole_take {k : Nat} (hk : 0 < k) : IsWhole (ds.take k) where
  ne_nil := by
    rw [ne_eq, List.take_eq_nil_iff]
    exact fun hnil => hnil.elim (Nat.ne_of_gt hk) h.ne_nil
  all c hc := h.all c (List.mem_of_mem_take hc)
  zero hc := by
    rw [List.head?_take, if_neg (Nat.ne_of_gt hk)] at hc
    exact absurd hc hfirst

/-- The point between two of the digits. -/
theorem magnitude?_among {k : Nat} (hk : 0 < k) (inside : k < ds.length) :
    magnitude? negative (ds.take k ++ '.' :: ds.drop k) =
      some (.float (.ofDecimal negative ⟨ofDigits ds, k - ds.length⟩)) := by
  have hplaces : IsDigits (ds.drop k) :=
    ⟨by simpa using inside, fun c hc => h.all c (List.mem_of_mem_drop hc)⟩
  have hexponent : (0 - (ds.drop k).length : Int) = k - ds.length := by
    rw [List.length_drop]
    omega
  rw [magnitude?_point negative (isWhole_take h hfirst hk) hplaces, List.take_append_drop,
    hexponent]

/-- Zeros between the digits and the point, and one place after it. -/
theorem magnitude?_after (k : Nat) :
    magnitude? negative (ds ++ List.replicate k '0' ++ ['.', '0']) =
      some (.float (.ofDecimal negative ⟨ofDigits ds, k⟩)) := by
  have hwhole : IsWhole (ds ++ List.replicate k '0') := by
    refine ⟨h.append_zeros k, fun hc => ?_⟩
    obtain ⟨c, cs, rfl⟩ := List.exists_cons_of_ne_nil h.ne_nil
    exact absurd hc hfirst
  have hplaces : IsDigits ['0'] := ⟨by simp, by simp⟩
  have hvalue : ofDigits (ds ++ List.replicate k '0' ++ ['0']) = ofDigits ds * 10 ^ (k + 1) := by
    rw [← ofDigits_append_zeros, List.replicate_succ', List.append_assoc]
  have hexponent : (0 - (['0'] : List Char).length + (k + 1 : Nat) : Int) = k := by
    rw [List.length_singleton]
    omega
  rw [magnitude?_point negative hwhole hplaces, hvalue, ofDecimal_mul, hexponent]

/-- With its point set among them, digits name the number they should. -/
theorem magnitude?_positionalText (point : Int) :
    magnitude? negative (Layout.positionalText ds point) =
      some (.float (.ofDecimal negative ⟨ofDigits ds, point - ds.length⟩)) := by
  rw [Layout.positionalText]
  split
  case isTrue hpoint =>
    rw [magnitude?_before negative h, Int.toNat_of_nonneg (by omega), Int.neg_neg]
  case isFalse hpoint =>
    obtain ⟨k, rfl⟩ := Int.eq_ofNat_of_zero_le (Int.le_of_lt (Int.not_le.mp hpoint))
    rw [Int.toNat_natCast]
    by_cases inside : k < ds.length
    · have hnone : k - (ds.take k).length = 0 := by simp; omega
      have hplaces : (ds.drop k).isEmpty = false := by simp; omega
      simp only [hnone, hplaces, List.replicate_zero, List.append_nil]
      exact magnitude?_among negative h hfirst (by omega) inside
    · have hall : ds.take k = ds := List.take_of_length_le (by omega)
      have hexponent : ((k - ds.length : Nat) : Int) = k - ds.length := by omega
      rw [hall, List.drop_of_length_le (by omega), ← hexponent]
      exact magnitude?_after negative h hfirst _

/-- With one digit before the point and an exponent, they do as well. -/
theorem magnitude?_scientificText (width : Nat) (exponent : Int) :
    magnitude? negative (Layout.scientificText width ds exponent) =
      some (.float (.ofDecimal negative ⟨ofDigits ds, exponent + 1 - ds.length⟩)) := by
  let size := List.replicate (width - (Nat.toDigits 10 exponent.natAbs).length) '0' ++
    Nat.toDigits 10 exponent.natAbs
  have hsize : IsDigits size := (isDigits_toDigits _).zeros_append _
  have hvalue : ofDigits size = exponent.natAbs :=
    (ofDigits_zeros_append _ _).trans (ofDigits_toDigits _)
  have hsigned : (if decide (exponent < 0) then -(ofDigits size : Int) else ofDigits size) =
      exponent := by
    rw [hvalue]
    split <;> rename_i hsign <;> simp at hsign <;> omega
  have hlength : 0 < ds.length := List.length_pos_iff.mpr h.ne_nil
  have hexponent : exponent - (ds.drop 1).length = exponent + 1 - ds.length := by
    rw [List.length_drop]
    omega
  have hplaces : ∀ c ∈ ds.drop 1, c.isDigit = true := fun c hc => h.all c (List.mem_of_mem_drop hc)
  have hread := magnitude?_exponent negative (decide (exponent < 0))
    (isWhole_take h hfirst Nat.one_pos) hplaces hsize
  rw [List.take_append_drop, hsigned, hexponent] at hread
  rw [← hread, Layout.scientificText]
  simp [size]

end

/-- The text of a positive decimal names it. -/
theorem magnitude?_decimalText (negative : Bool) (layout : Layout) {x : Decimal}
    (pos : 0 < x.digits) : magnitude? negative (layout.decimalText x) =
      some (.float (.ofDecimal negative x)) := by
  obtain ⟨m, k, hm, hx, hstrip⟩ := exists_stripZeros pos
  have hlength : (Nat.toDigits 10 x.digits).length = (Nat.toDigits 10 m).length + k := by
    rw [hx, Number.toDigits_mul_pow hm, List.length_append, List.length_replicate]
  have hvalue : Binary64.ofDecimal negative ⟨m, x.exponent + k⟩ = .ofDecimal negative x := by
    rw [← ofDecimal_mul, ← hx]
  have hdigits := isDigits_toDigits m
  have hfirst := head?_toDigits_ne hm
  simp only [Layout.decimalText, hstrip, hlength]
  split
  · rw [magnitude?_positionalText negative hdigits hfirst, ofDigits_toDigits, ← hvalue]
    congr 4
    omega
  · rw [magnitude?_scientificText negative hdigits hfirst, ofDigits_toDigits, ← hvalue]
    congr 4
    omega

/-! ## Numbers -/

/-- The number that is nearest to its own shortest decimal. -/
theorem ofDecimal_ofRank {x : Binary64} (pos : x.isZero = false) (finite : x.isInfinite = false) :
    Binary64.ofDecimal x.negative (Number.Shortest.ofRank x.rank.val) = x := by
  have hpos : 0 < x.rank.val := by
    simpa [Binary64.isZero, Nat.pos_iff_ne_zero] using pos
  have hfinite : x.rank.val < Binary64.infinityRank := by
    have hne : x.rank.val ≠ Binary64.infinityRank := by simpa [Binary64.isInfinite] using finite
    have hle : x.rank.val < Binary64.infinityRank + 1 := x.rank.isLt
    omega
  rw [Binary64.ofDecimal, Number.Shortest.rankOfDecimal_ofRank hpos hfinite, Fin.ofNat_val_eq_self]

theorem digits_ofRank_pos {x : Binary64} (pos : x.isZero = false) (finite : x.isInfinite = false) :
    0 < (Number.Shortest.ofRank x.rank.val).digits := by
  refine Nat.pos_of_ne_zero fun hnone => ?_
  have hrank := ofDecimal_ofRank pos finite
  have hzero : Binary64.rankOfDecimal (Number.Shortest.ofRank x.rank.val) = 0 := by
    simp [Binary64.rankOfDecimal, hnone]
  rw [Binary64.ofDecimal, hzero] at hrank
  rw [← hrank] at pos
  exact absurd pos (by simp [Binary64.isZero])

/-- The magnitude of a finite number, read back under either sign. -/
theorem magnitude?_magnitudeText (layout : Layout) {x : Binary64} (finite : x.isInfinite = false) :
    magnitude? x.negative (layout.magnitudeText x) = some (.float x) := by
  rw [Layout.magnitudeText, finite, if_neg Bool.false_ne_true]
  cases hzero : x.isZero with
  | true =>
      obtain ⟨negative, rank⟩ := x
      have hrank : rank = 0 := Fin.ext (by simpa [Binary64.isZero] using hzero)
      rw [hrank]
      rfl
  | false =>
      rw [if_neg Bool.false_ne_true, magnitude?_decimalText _ _ (digits_ofRank_pos hzero finite),
        ofDecimal_ofRank hzero finite]

/-- A finite number is read back as itself, however it is laid out. -/
theorem read?_text (layout : Layout) {x : Binary64} (finite : x.isInfinite = false) :
    read? (layout.text x) = some (.float x) := by
  have h := magnitude?_magnitudeText layout finite
  rw [Layout.text]
  split
  case isTrue negative =>
    rw [negative] at h
    exact h
  case isFalse positive =>
    rw [Bool.not_eq_true] at positive
    rw [positive] at h
    exact read?_of_magnitude? h

/-- So is a whole number. -/
theorem read?_toString (n : Int) : read? (toString n).toList = some (.int n) := by
  cases n with
  | ofNat n =>
      have hread := magnitude?_whole false (isWhole_toDigits n)
      rw [ofDigits_toDigits] at hread
      have htext : (toString (Int.ofNat n)).toList = Nat.toDigits 10 n := Nat.toList_repr
      rw [htext]
      exact read?_of_magnitude? hread
  | negSucc n =>
      have hread := magnitude?_whole true (isWhole_toDigits (n + 1))
      rw [ofDigits_toDigits] at hread
      have htext : (toString (Int.negSucc n)).toList = '-' :: Nat.toDigits 10 (n + 1) := by
        rw [Int.toString_eq_repr, Int.repr]
        simp
      rw [htext]
      exact hread

/-! ## What numerals are made of -/

def IsPart (c : Char) : Prop :=
  c.isDigit = true ∨ c ∈ ['+', '-', '.', 'e', 'E']

theorem isPart_or_mem_of_digits? {cs ds rest : List Char} (h : digits? cs = some (ds, rest))
    {c : Char} (hc : c ∈ cs) : IsPart c ∨ c ∈ rest := by
  rw [← List.takeWhile_append_dropWhile (p := Char.isDigit) (l := cs)] at hc
  rw [digits?] at h
  split at h
  case isTrue => exact absurd h (by simp)
  case isFalse =>
    obtain ⟨-, rfl⟩ := Prod.mk.inj (Option.some.inj h)
    exact (List.mem_append.mp hc).imp_left fun htaken =>
      .inl (List.all_eq_true.mp List.all_takeWhile c htaken)

theorem isPart_or_mem_of_whole? {cs ds rest : List Char} (h : whole? cs = some (ds, rest))
    {c : Char} (hc : c ∈ cs) : IsPart c ∨ c ∈ rest := by
  rw [whole?.eq_def] at h
  split at h
  · obtain ⟨-, rfl⟩ := Prod.mk.inj (Option.some.inj h)
    rcases List.mem_cons.mp hc with rfl | hc
    · exact .inl (.inl rfl)
    · exact .inr hc
  · exact isPart_or_mem_of_digits? h hc

theorem isPart_or_mem_of_fraction? {cs rest : List Char} {ds : Option (List Char)}
    (h : fraction? cs = some (ds, rest)) {c : Char} (hc : c ∈ cs) : IsPart c ∨ c ∈ rest := by
  rw [fraction?.eq_def] at h
  split at h
  · obtain ⟨⟨places, after⟩, hplaces, heq⟩ := Option.map_eq_some_iff.mp h
    obtain ⟨-, rfl⟩ := Prod.mk.inj heq
    rcases List.mem_cons.mp hc with rfl | hc
    · exact .inl (.inr (by decide))
    · exact isPart_or_mem_of_digits? hplaces hc
  · obtain ⟨-, rfl⟩ := Prod.mk.inj (Option.some.inj h)
    exact .inr hc

/-- Digits that end the text. -/
theorem isPart_of_digits? {cs ds : List Char} (h : digits? cs = some (ds, [])) {c : Char}
    (hc : c ∈ cs) : IsPart c :=
  (isPart_or_mem_of_digits? h hc).resolve_right List.not_mem_nil

theorem isPart_of_exponent? {cs : List Char} {e : Option Int} (h : exponent? cs = some e) {c : Char}
    (hc : c ∈ cs) : IsPart c := by
  revert h
  fun_cases exponent? cs with
  | case1 => exact absurd hc List.not_mem_nil
  | case2 mark rest hmark negative size hsign ds hsize =>
      intro _
      have hrest : IsPart c ∨ c ∈ size → IsPart c := fun h => h.elim id (isPart_of_digits? hsize)
      rcases List.mem_cons.mp hc with rfl | hc
      · rw [Bool.or_eq_true, decide_eq_true_eq, decide_eq_true_eq] at hmark
        rcases hmark with rfl | rfl
        · exact .inr (by decide)
        · exact .inr (by decide)
      · split at hsign
        all_goals obtain ⟨-, rfl⟩ := Prod.mk.inj hsign
        · exact hrest ((List.mem_cons.mp hc).imp_left fun h => .inr (by rw [h]; decide))
        · exact hrest ((List.mem_cons.mp hc).imp_left fun h => .inr (by rw [h]; decide))
        · exact hrest (.inr hc)
  | case3 => exact fun h => absurd h (by simp)
  | case4 => exact fun h => absurd h (by simp)

theorem isPart_of_magnitude? {negative : Bool} {cs : List Char} {v : Value}
    (h : magnitude? negative cs = some v) {c : Char} (hc : c ∈ cs) : IsPart c := by
  obtain ⟨⟨whole, rest⟩, hwhole, h⟩ := Option.bind_eq_some_iff.mp h
  obtain ⟨⟨fraction, rest'⟩, hfraction, h⟩ := Option.bind_eq_some_iff.mp h
  obtain ⟨exponent, hexponent, h⟩ := Option.bind_eq_some_iff.mp h
  rcases isPart_or_mem_of_whole? hwhole hc with hpart | hc
  · exact hpart
  · rcases isPart_or_mem_of_fraction? hfraction hc with hpart | hc
    · exact hpart
    · exact isPart_of_exponent? hexponent hc

/-- A text that reads as a number has nothing in it but digits, signs, points and exponent marks. -/
theorem isPart_of_read? {cs : List Char} {v : Value} (h : read? cs = some v) {c : Char}
    (hc : c ∈ cs) : IsPart c := by
  rw [read?.eq_def] at h
  split at h
  · rcases List.mem_cons.mp hc with rfl | hc
    · exact .inr (by decide)
    · exact isPart_of_magnitude? h hc
  · exact isPart_of_magnitude? h hc

end ApiStubs.Json.Numeral
