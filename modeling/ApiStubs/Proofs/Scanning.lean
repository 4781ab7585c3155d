import ApiStubs.Proofs.Spelling

/-!
# Scanning piece by piece

The tokens of a text, read off its pieces: a name that no character of a name follows is one token
(`scan_name`), a mark is one token wherever it stands (`scan_mark`, `scan_brackets`), and blanks are
none (`scan_blanks`).
-/

namespace ApiStubs.TypeExpr.Token

/-- The characters of names. -/
def IsPart (c : Char) : Prop :=
  isGap c = false ∧ ofMark? c = none

/-- `EndsName rest`: no name goes on at the start of `rest`. -/
def EndsName (rest : List Char) : Prop :=
  ∀ c, rest.head? = some c → ¬ IsPart c

theorem endsName_nil : EndsName [] :=
  fun _ h => absurd h (by simp)

theorem endsName_cons {c : Char} (rest : List Char) (h : ¬ IsPart c) : EndsName (c :: rest) := by
  intro d hd
  rw [List.head?_cons] at hd
  exact Option.some.inj hd ▸ h

theorem not_isPart_of_blank {c : Char} (h : Text.isBlank c = true) : ¬ IsPart c := by
  rintro ⟨hg, _⟩
  simp [isGap, h] at hg

theorem not_isPart_of_mark {c : Char} {token : Token} (h : ofMark? c = some token) :
    ¬ IsPart c := by
  rintro ⟨_, hm⟩
  exact absurd (h.symm.trans hm) (by simp)

theorem not_isPart_openBracket : ¬ IsPart '[' := by
  rintro ⟨hg, _⟩
  exact absurd hg (by decide)

/-- Blanks end a name, and so does what follows them. -/
theorem endsName_blanks {b rest : List Char} (hb : Blanks b) (h : EndsName rest) :
    EndsName (b ++ rest) := by
  cases b with
  | nil => exact h
  | cons c b => exact endsName_cons (b ++ rest) (not_isPart_of_blank (hb c List.mem_cons_self))

theorem endsName_mark {b : List Char} (hb : Blanks b) {c : Char} (h : ¬ IsPart c)
    (rest : List Char) : EndsName (b ++ c :: rest) :=
  endsName_blanks hb (endsName_cons rest h)

theorem endsName_of_ne_nil {b : List Char} (hb : Blanks b) (h : b ≠ []) (rest : List Char) :
    EndsName (b ++ rest) := by
  cases b with
  | nil => exact absurd rfl h
  | cons c b => exact endsName_cons (b ++ rest) (not_isPart_of_blank (hb c List.mem_cons_self))

theorem isPart_of_isName {n : String} (h : IsName n) : ∀ c ∈ n.toList, IsPart c := by
  intro c hc
  obtain ⟨hb, hm⟩ := h.2 c hc
  simp only [markChars, List.mem_cons, List.not_mem_nil, or_false, not_or] at hm
  obtain ⟨h1, h2, h3, h4, h5, h6⟩ := hm
  constructor
  · simp [isGap, hb, h4, h5]
  · simp [ofMark?, h1, h2, h3, h6]

/-- What a character does that does not start the mark for arrays. -/
theorem scanFrom_cons {c : Char} {rest : List Char}
    (h : ∀ rest', c = '[' → rest = ']' :: rest' → False) (word : List Char) :
    scanFrom word (c :: rest) =
      if isGap c then flush word ++ scanFrom [] rest
      else match ofMark? c with
        | some token => flush word ++ token :: scanFrom [] rest
        | none => scanFrom (c :: word) rest :=
  scanFrom.eq_3 word c rest h

theorem ne_openBracket_of_not_gap {c : Char} (h : isGap c = false) : c ≠ '[' := by
  rintro rfl
  exact absurd h (by decide)

theorem scanFrom_cons_part {c : Char} (h : IsPart c) (word rest : List Char) :
    scanFrom word (c :: rest) = scanFrom (c :: word) rest := by
  rw [scanFrom_cons fun _ e _ => ne_openBracket_of_not_gap h.1 e, h.1, h.2]
  rfl

theorem scanFrom_cons_mark {c : Char} {token : Token} (h : ofMark? c = some token)
    (hg : isGap c = false) (word rest : List Char) :
    scanFrom word (c :: rest) = flush word ++ token :: scanFrom [] rest := by
  rw [scanFrom_cons fun _ e _ => ne_openBracket_of_not_gap hg e, hg, h]
  rfl

theorem scanFrom_cons_gap {c : Char} {rest : List Char} (hg : isGap c = true)
    (h : ∀ rest', c = '[' → rest = ']' :: rest' → False) (word : List Char) :
    scanFrom word (c :: rest) = flush word ++ scanFrom [] rest := by
  rw [scanFrom_cons h, if_pos hg]

theorem scanFrom_parts {cs : List Char} (h : ∀ c ∈ cs, IsPart c) :
    ∀ word rest : List Char,
      scanFrom word (cs ++ rest) = scanFrom (cs.reverse ++ word) rest := by
  induction cs with
  | nil => exact fun _ _ => rfl
  | cons c cs ih =>
      intro word rest
      rw [List.cons_append, scanFrom_cons_part (h c List.mem_cons_self),
        ih fun d hd => h d (List.mem_cons_of_mem _ hd)]
      simp

/-- Where no name goes on, the one that was read is complete. -/
theorem scanFrom_of_endsName {rest : List Char} (h : EndsName rest) (word : List Char) :
    scanFrom word rest = flush word ++ scan rest := by
  unfold scan
  cases rest with
  | nil => simp [scanFrom, flush]
  | cons c rest =>
      by_cases hc : ∃ rest', c = '[' ∧ rest = ']' :: rest'
      · obtain ⟨rest', rfl, rfl⟩ := hc
        simp [scanFrom, flush]
      · have hno : ∀ rest', c = '[' → rest = ']' :: rest' → False :=
          fun rest' h1 h2 => hc ⟨rest', h1, h2⟩
        by_cases hg : isGap c = true
        · rw [scanFrom_cons_gap hg hno word, scanFrom_cons_gap hg hno []]
          simp [flush]
        · have hg : isGap c = false := by simpa using hg
          cases hm : ofMark? c with
          | none => exact absurd ⟨hg, hm⟩ (h c rfl)
          | some token =>
              rw [scanFrom_cons_mark hm hg, scanFrom_cons_mark hm hg]
              simp [flush]

theorem scan_name {n : String} (hn : IsName n) {rest : List Char} (h : EndsName rest) :
    scan (n.toList ++ rest) = .word n :: scan rest := by
  unfold scan
  rw [scanFrom_parts (isPart_of_isName hn), scanFrom_of_endsName h]
  simp [flush, hn.1, scan]

theorem scan_blanks {b : List Char} (hb : Blanks b) (rest : List Char) :
    scan (b ++ rest) = scan rest := by
  induction b with
  | nil => rfl
  | cons c b ih =>
      have hc : Text.isBlank c = true := hb c List.mem_cons_self
      have hr := ih fun d hd => hb d (List.mem_cons_of_mem _ hd)
      rw [← hr]
      refine scanFrom_cons_gap (by simp [isGap, hc]) (fun _ e _ => ?_) []
      subst e
      exact absurd hc (by decide)

theorem scan_mark {c : Char} {token : Token} (h : ofMark? c = some token)
    (hg : isGap c = false) (rest : List Char) : scan (c :: rest) = token :: scan rest :=
  scanFrom_cons_mark h hg [] rest

theorem scan_brackets (rest : List Char) : scan ('[' :: ']' :: rest) = .brackets :: scan rest :=
  scanFrom.eq_2 [] rest

end ApiStubs.TypeExpr.Token
