import ApiStubs.Literal
import Mathlib.Algebra.Ring.Parity
import Mathlib.Data.List.DropRight
import Mathlib.Data.List.Infix

/-!
# Texts as literals

A text in generated code stands between quotes, with escapes for what could end it there.  Both
targets escape character by character, so what holds of literals follows from what holds of the
escape of one character (`Escapes`), whatever stands behind it: a scanner of literals passes over
it, and a reader of escapes takes it for the character.  `literals_read_back` puts this together.

The escapes of Objective-C can also be put in one after the other, each in the whole text
(`encode_eq_replaceEach`).  The one of the backslash has to come first then, since the others bring
backslashes of their own.
-/

namespace ApiStubs.Text

/-! ## Literals in code -/

/-- The body of a literal whose opening quote has been read, and what follows its closing quote.  A
backslash takes the next character with it.  No literal goes on in the next line. -/
def bodyOf? (quote : Char) : List Char → Option (List Char × List Char)
  | [] => none
  | '\\' :: c :: rest =>
    if c = '\r' || c = '\n' then none
    else (bodyOf? quote rest).map fun r => ('\\' :: c :: r.1, r.2)
  | c :: rest =>
    if c = quote then some ([], rest)
    else if c = '\\' || c = '\r' || c = '\n' then none
    else (bodyOf? quote rest).map fun r => (c :: r.1, r.2)

/-- `Stands quote decode body cs`: between two quotes, `body` is a literal of the text `cs`.  It has
no line break, its escapes are read back as the text, and the literal ends where the body does,
whatever code follows. -/
structure Stands (quote : Char) (decode : List Char → Option (List Char)) (body cs : List Char) :
    Prop where
  unbroken : '\r' ∉ body ∧ '\n' ∉ body
  decodes : decode body = some cs
  ends : ∀ rest, bodyOf? quote (body ++ quote :: rest) = some (body, rest)

/-- A character that stands for itself in a literal. -/
def Plain (quote c : Char) : Prop :=
  c ≠ quote ∧ c ≠ '\\' ∧ c ≠ '\r' ∧ c ≠ '\n'

instance (quote c : Char) : Decidable (Plain quote c) :=
  inferInstanceAs (Decidable (_ ∧ _))

/-- The scanner of literals passes over a piece of a body. -/
def Passed (quote : Char) (piece : List Char) : Prop :=
  ∀ rest, bodyOf? quote (piece ++ rest) =
    (bodyOf? quote rest).map fun r => (piece ++ r.1, r.2)

section Scan

variable {quote c : Char}

theorem passed_nil (quote : Char) : Passed quote [] := by
  intro rest
  simp

theorem Passed.append {piece more : List Char} (h : Passed quote piece) (h' : Passed quote more) :
    Passed quote (piece ++ more) := by
  intro rest
  rw [List.append_assoc, h, h', Option.map_map]
  simp [Function.comp_def]

theorem passed_plain (h : Plain quote c) : Passed quote [c] := by
  obtain ⟨hquote, hback, hreturn, hfeed⟩ := h
  intro rest
  simp [bodyOf?, hquote, hback, hreturn, hfeed]

theorem passed_plains {piece : List Char} (h : ∀ c ∈ piece, Plain quote c) :
    Passed quote piece := by
  induction piece with
  | nil => exact passed_nil quote
  | cons c rest ih =>
      obtain ⟨hc, hrest⟩ := List.forall_mem_cons.mp h
      exact (passed_plain hc).append (ih hrest)

theorem passed_backslash (hreturn : c ≠ '\r') (hfeed : c ≠ '\n') : Passed quote ['\\', c] := by
  intro rest
  simp [bodyOf?, hreturn, hfeed]

end Scan

/-- `Escape quote c piece`: in a literal, `piece` can be what is written for the character `c`.  It
is `c` itself, or a backslash with a character that it takes with it and some plain ones. -/
inductive Escape (quote c : Char) : List Char → Prop
  | plain : Plain quote c → Escape quote c [c]
  | backslash {d : Char} {more : List Char} : d ≠ '\r' → d ≠ '\n' →
      (∀ e ∈ more, Plain quote e) → Escape quote c ('\\' :: d :: more)

theorem Escape.passed {quote c : Char} {piece : List Char} (h : Escape quote c piece) :
    Passed quote piece := by
  cases h with
  | plain h => exact passed_plain h
  | backslash hreturn hfeed hmore =>
      exact (passed_backslash hreturn hfeed).append (passed_plains hmore)

theorem Escape.unbroken {quote c : Char} {piece : List Char} (h : Escape quote c piece) :
    '\r' ∉ piece ∧ '\n' ∉ piece := by
  cases h with
  | plain h => simp [h.2.2.1.symm, h.2.2.2.symm]
  | backslash hreturn hfeed hmore =>
      simp only [List.mem_cons, not_or]
      exact ⟨⟨by decide, hreturn.symm, fun h => (hmore _ h).2.2.1 rfl⟩,
        by decide, hfeed.symm, fun h => (hmore _ h).2.2.2 rfl⟩

/-- What a target provides for its literals: how a character is written, and how that is read. -/
structure Escapes (quote : Char) (escape : Char → List Char)
    (decode : List Char → Option (List Char)) : Prop where
  escapes : ∀ c, Escape quote c (escape c)
  nil : decode [] = some []
  reads : ∀ c rest, decode (escape c ++ rest) = (decode rest).map (c :: ·)

theorem Escapes.stands {quote : Char} {escape : Char → List Char}
    {decode : List Char → Option (List Char)} (h : Escapes quote escape decode)
    (closes : ∀ rest, bodyOf? quote (quote :: rest) = some ([], rest)) (cs : List Char) :
    Stands quote decode (cs.flatMap escape) cs := by
  induction cs with
  | nil => exact ⟨⟨List.not_mem_nil, List.not_mem_nil⟩, h.nil, closes⟩
  | cons c rest ih =>
      rw [List.flatMap_cons]
      have unbroken := (h.escapes c).unbroken
      refine ⟨⟨?_, ?_⟩, ?_, fun code => ?_⟩
      · exact fun hc => (List.mem_append.mp hc).elim unbroken.1 ih.unbroken.1
      · exact fun hc => (List.mem_append.mp hc).elim unbroken.2 ih.unbroken.2
      · rw [h.reads, ih.decodes, Option.map_some]
      · rw [List.append_assoc, (h.escapes c).passed, ih.ends, Option.map_some]

/-! ## Single-quoted literals -/

namespace HexEscaped

/-- `\xhl` is what is written for a character: `h` and `l` are its hexadecimal digits. -/
structure Digits (c h l : Char) : Prop where
  plain : Plain '\'' h ∧ Plain '\'' l
  value : ∃ high low, Hex.value? h = some high ∧ Hex.value? l = some low ∧
    Char.ofNat (16 * high + low) = c

theorem escape_cases (c : Char) :
    (∃ h l, escape c = ['\\', 'x', h, l] ∧ Digits c h l) ∨ (escape c = [c] ∧ Plain '\'' c) := by
  by_cases hc : c = '\'' ∨ c = '\\' ∨ c = '\r' ∨ c = '\n'
  · refine Or.inl ?_
    rcases hc with rfl | rfl | rfl | rfl
    · exact ⟨'2', '7', by rfl, by decide, 2, 7, by rfl, by rfl, by rfl⟩
    · exact ⟨'5', 'c', by rfl, by decide, 5, 12, by rfl, by rfl, by rfl⟩
    · exact ⟨'0', 'd', by rfl, by decide, 0, 13, by rfl, by rfl, by rfl⟩
    · exact ⟨'0', 'a', by rfl, by decide, 0, 10, by rfl, by rfl, by rfl⟩
  · simp only [not_or] at hc
    exact Or.inr ⟨by simp [escape, needsEscape, hc], hc⟩

theorem escapes : Escapes '\'' escape decode where
  nil := by rfl
  escapes := by
    intro c
    rcases escape_cases c with ⟨h, l, e, digits⟩ | ⟨e, plain⟩
    · rw [e]
      exact .backslash (by decide) (by decide) (by simp [digits.plain.1, digits.plain.2])
    · rw [e]
      exact .plain plain
  reads := by
    intro c rest
    rcases escape_cases c with ⟨h, l, e, digits⟩ | ⟨e, plain⟩
    · obtain ⟨high, low, hhigh, hlow, hc⟩ := digits.value
      rw [e]
      simp [decode, hhigh, hlow, hc]
    · rw [e]
      simp [decode, plain.2.1]

/-- The quote does not stand in the body at all. -/
theorem quote_not_mem_encode (cs : List Char) : '\'' ∉ encode cs := by
  intro hmem
  obtain ⟨c, _, hc⟩ := List.mem_flatMap.mp hmem
  rcases escape_cases c with ⟨h, l, e, digits⟩ | ⟨e, plain⟩
  · rw [e] at hc
    simp [digits.plain.1.1.symm, digits.plain.2.1.symm] at hc
  · rw [e] at hc
    exact plain.1 (List.mem_singleton.mp hc).symm

/-- Every backslash starts an escape of two hexadecimal digits. -/
theorem backslash_encode (cs : List Char) {back : List Char} (h : '\\' :: back <:+ encode cs) :
    ∃ h l rest, back = 'x' :: h :: l :: rest ∧ (Hex.value? h).isSome ∧ (Hex.value? l).isSome := by
  induction cs with
  | nil => exact absurd (List.suffix_nil.mp h) (List.cons_ne_nil _ _)
  | cons c rest ih =>
      have hcons : encode (c :: rest) = escape c ++ encode rest := List.flatMap_cons
      rw [hcons] at h
      rcases escape_cases c with ⟨high, low, e, digits⟩ | ⟨e, plain⟩
      · rw [e] at h
        simp only [List.cons_append, List.nil_append, List.suffix_cons_iff] at h
        rcases h with h | h | h | h | h
        · obtain ⟨n, m, hn, hm, _⟩ := digits.value
          exact ⟨high, low, _, (List.cons.inj h).2, by simp [hn], by simp [hm]⟩
        · exact absurd (List.cons.inj h).1 (by decide)
        · exact absurd (List.cons.inj h).1.symm digits.plain.1.2.1
        · exact absurd (List.cons.inj h).1.symm digits.plain.2.2.1
        · exact ih h
      · rw [e] at h
        simp only [List.cons_append, List.nil_append, List.suffix_cons_iff] at h
        rcases h with h | h
        · exact absurd (List.cons.inj h).1.symm plain.2.1
        · exact ih h

end HexEscaped

/-! ## String objects -/

/-- The whole text with one character replaced. -/
def replaceEach (old : Char) (new cs : List Char) : List Char :=
  cs.flatMap fun c => if c = old then new else [c]

namespace BackslashEscaped

theorem escape_cases (c : Char) :
    (∃ d, escape c = ['\\', d] ∧ meaning? d = some c ∧ d ≠ '\r' ∧ d ≠ '\n') ∨
      (escape c = [c] ∧ Plain '\"' c) := by
  by_cases hc : c = '\"' ∨ c = '\\' ∨ c = '\r' ∨ c = '\n'
  · refine Or.inl ?_
    rcases hc with rfl | rfl | rfl | rfl
    · exact ⟨'\"', by rfl, by rfl, by decide, by decide⟩
    · exact ⟨'\\', by rfl, by rfl, by decide, by decide⟩
    · exact ⟨'r', by rfl, by rfl, by decide, by decide⟩
    · exact ⟨'n', by rfl, by rfl, by decide, by decide⟩
  · simp only [not_or] at hc
    exact Or.inr ⟨by simp [escape, hc], hc⟩

theorem encode_cons (c : Char) (rest : List Char) :
    encode (c :: rest) = escape c ++ encode rest :=
  List.flatMap_cons

theorem escapes : Escapes '\"' escape decode where
  nil := by rfl
  escapes := by
    intro c
    rcases escape_cases c with ⟨d, e, _, hreturn, hfeed⟩ | ⟨e, plain⟩
    · rw [e]
      exact .backslash hreturn hfeed (by simp)
    · rw [e]
      exact .plain plain
  reads := by
    intro c rest
    rcases escape_cases c with ⟨d, e, hd, _⟩ | ⟨e, plain⟩
    · rw [e]
      simp [decode, hd]
    · rw [e]
      simp [decode, plain.1, plain.2.1]

/-- How many backslashes stand at the end. -/
def backslashes (cs : List Char) : Nat :=
  (cs.rtakeWhile (· = '\\')).length

theorem backslashes_backslash (cs : List Char) :
    backslashes (cs ++ ['\\']) = backslashes cs + 1 := by
  rw [backslashes, List.rtakeWhile_concat_pos _ _ _ (by simp), List.length_append]
  rfl

theorem backslashes_other (cs : List Char) {c : Char} (h : c ≠ '\\') :
    backslashes (cs ++ [c]) = 0 := by
  rw [backslashes, List.rtakeWhile_concat_neg _ _ _ (by simp [h])]
  rfl

/-- A body ends with whole escapes, so the backslashes there come in pairs. -/
theorem even_backslashes_encode (cs : List Char) : Even (backslashes (encode cs)) := by
  induction cs using List.reverseRecOn with
  | nil => exact Even.zero
  | append_singleton cs c ih =>
      have hconcat : encode (cs ++ [c]) = encode cs ++ escape c := by
        simp [encode]
      rw [hconcat]
      rcases escape_cases c with ⟨d, e, _⟩ | ⟨e, plain⟩
      · rw [e, show encode cs ++ ['\\', d] = (encode cs ++ ['\\']) ++ [d] by simp]
        by_cases hd : d = '\\'
        · rw [hd, backslashes_backslash, backslashes_backslash]
          exact ih.add even_two
        · rw [backslashes_other _ hd]
          exact Even.zero
      · rw [e, backslashes_other _ plain.2.1]
        exact Even.zero

/-- A quote in the body ends the escape of a quote. -/
theorem front_of_quote {cs front back : List Char} (h : encode cs = front ++ '\"' :: back) :
    ∃ before, front = encode before ++ ['\\'] := by
  induction cs generalizing front with
  | nil => exact absurd h.symm (by simp [encode])
  | cons c rest ih =>
      rw [encode_cons] at h
      rcases escape_cases c with ⟨d, e, _⟩ | ⟨e, plain⟩
      · rw [e] at h
        match front with
        | [] => exact absurd (List.cons.inj h).1 (by decide)
        | [b] => exact ⟨[], by rw [← (List.cons.inj h).1]; rfl⟩
        | b :: d' :: front' =>
            obtain ⟨hb, h⟩ := List.cons.inj h
            obtain ⟨hd, h⟩ := List.cons.inj h
            obtain ⟨before, hbefore⟩ := ih h
            exact ⟨c :: before, by rw [encode_cons, e, hbefore, ← hb, ← hd]; rfl⟩
      · rw [e] at h
        match front with
        | [] => exact absurd (List.cons.inj h).1 plain.1
        | b :: front' =>
            obtain ⟨hb, h⟩ := List.cons.inj h
            obtain ⟨before, hbefore⟩ := ih h
            exact ⟨c :: before, by rw [encode_cons, e, hbefore, ← hb]; rfl⟩

/-- No quote in the body is bare: the backslashes before it are odd in number. -/
theorem odd_backslashes_of_quote {cs front back : List Char}
    (h : encode cs = front ++ '\"' :: back) : Odd (backslashes front) := by
  obtain ⟨before, rfl⟩ := front_of_quote h
  rw [backslashes_backslash]
  exact (even_backslashes_encode before).add_one

/-- One replacement after the other: a backslash is doubled before any other escape brings one. -/
theorem encode_eq_replaceEach (cs : List Char) :
    encode cs =
      replaceEach '\n' ['\\', 'n'] (replaceEach '\r' ['\\', 'r']
        (replaceEach '\"' ['\\', '\"'] (replaceEach '\\' ['\\', '\\'] cs))) := by
  simp only [replaceEach, List.flatMap_assoc, encode]
  refine List.flatMap_congr fun c _ => ?_
  by_cases hc : c = '\\' ∨ c = '\"' ∨ c = '\r' ∨ c = '\n'
  · rcases hc with rfl | rfl | rfl | rfl <;> rfl
  · simp only [not_or] at hc
    simp [escape, hc]

end BackslashEscaped

/-! ## Both targets -/

/-- What is written for a text is read back as the text, so no two texts are written alike. -/
theorem injective_of_reads {write : String → String} {decode : List Char → Option (List Char)}
    (left right : List Char)
    (h : ∀ s, ∃ body, write s = String.ofList (left ++ body ++ right) ∧
      decode body = some s.toList) :
    Function.Injective write := by
  intro s t hst
  obtain ⟨body, hs, hdecode⟩ := h s
  obtain ⟨body', ht, hdecode'⟩ := h t
  have hlists : left ++ body ++ right = left ++ body' ++ right :=
    String.ofList_injective (hs.symm.trans (hst.trans ht))
  have hbody : body = body' := List.append_cancel_left (List.append_cancel_right hlists)
  rw [hbody, hdecode'] at hdecode
  exact String.toList_injective (Option.some.inj hdecode).symm

theorem HexEscaped.stands (s : String) :
    Stands '\'' decode (encode s.toList) s.toList :=
  escapes.stands (by simp [bodyOf?]) s.toList

theorem BackslashEscaped.stands (s : String) :
    Stands '\"' decode (encode s.toList) s.toList :=
  escapes.stands (by simp [bodyOf?]) s.toList

theorem singleQuoted_injective : Function.Injective singleQuoted :=
  injective_of_reads ['\''] ['\''] fun s => ⟨_, rfl, (HexEscaped.stands s).decodes⟩

theorem objectQuoted_injective : Function.Injective objectQuoted :=
  injective_of_reads ['@', '\"'] ['\"'] fun s => ⟨_, rfl, (BackslashEscaped.stands s).decodes⟩

end ApiStubs.Text

namespace ApiStubs.Literal

open ApiStubs.Text

/-- Every text stands in a literal of either target that ends where it should and reads back as the
text: in single quotes with `\xNN` as the only escapes, and as a string object in which no quote is
bare, made by replacing one character after the other in the whole text.  So either target writes
distinct texts as distinct literals. -/
theorem literals_read_back :
    (∀ s, ∃ body, (text s).inTs = String.ofList ('\'' :: body ++ ['\'']) ∧
      Stands '\'' HexEscaped.decode body s.toList ∧ '\'' ∉ body ∧
      ∀ back, '\\' :: back <:+ body →
        ∃ h l rest, back = 'x' :: h :: l :: rest ∧
          (Hex.value? h).isSome ∧ (Hex.value? l).isSome) ∧
    (∀ s, ∃ body, (text s).inOc = String.ofList ('@' :: '\"' :: body ++ ['\"']) ∧
      Stands '\"' BackslashEscaped.decode body s.toList ∧
      (∀ front back, body = front ++ '\"' :: back →
        Odd (BackslashEscaped.backslashes front)) ∧
      body = replaceEach '\n' ['\\', 'n'] (replaceEach '\r' ['\\', 'r']
        (replaceEach '\"' ['\\', '\"'] (replaceEach '\\' ['\\', '\\'] s.toList)))) ∧
    Function.Injective (fun s => (text s).inTs) ∧
    Function.Injective (fun s => (text s).inOc) := by
  refine ⟨fun s => ⟨_, rfl, HexEscaped.stands s, HexEscaped.quote_not_mem_encode _,
      fun back hback => HexEscaped.backslash_encode _ hback⟩,
    fun s => ⟨_, rfl, BackslashEscaped.stands s, fun front back hquote =>
      BackslashEscaped.odd_backslashes_of_quote hquote, BackslashEscaped.encode_eq_replaceEach _⟩,
    singleQuoted_injective, objectQuoted_injective⟩

end ApiStubs.Literal
