import ApiStubs.Proofs.Scanning

/-!
# Every spelling of a type reads as the type

`parse?_spelling` states that parsing undoes printing: a text that spells a proper type reads as
this type with its variables marked, and no two proper types are written alike.

The text is followed token by token.  A spelling that is read from a state that waits for a type
(`Ready`) leads to a state in which exactly this type is complete up to what may follow it
(`Complete`); of such a state only what the marks behind the type do with it is needed.
-/

namespace ApiStubs.TypeExpr

/-! ## States of the parser -/

namespace Parser

variable {vars : List String} {stack : List Frame}

/-- `Ready stack p`: the parser `p` waits for a type inside the types on the stack, and may instead
wait for the end of the arguments of the innermost one. -/
inductive Ready : List Frame → Parser → Prop
  | start (stack : List Frame) : Ready stack ⟨stack, .start⟩
  | argument (frame : Frame) (rest : List Frame) : Ready (frame :: rest) ⟨rest, .argument frame⟩

/-- `Complete vars stack t p`: the parser `p` has read the type `t` inside the types on the stack,
up to what may follow it. -/
inductive Complete (vars : List String) (stack : List Frame) : TypeExpr → Parser → Prop
  | name (n : String) : Complete vars stack (build vars ⟨n, []⟩) ⟨stack, .name n⟩
  | question : Complete vars stack .wildcard ⟨stack, .question⟩
  | suffix (t : TypeExpr) : Complete vars stack t ⟨stack, .suffix t⟩

theorem build_nil (n : String) : build vars ⟨n, []⟩ = (TypeExpr.named n []).mark vars := by
  by_cases h : n ∈ vars
  · simp [build, mark, h]
  · simp [build, mark, h]

theorem Ready.step {p : Parser} (h : Ready stack p) {token : Token} (ht : token ≠ .greater) :
    p.step vars token = begin stack token := by
  cases h with
  | start => rfl
  | argument frame rest => simp [Parser.step, Parser.argument, ht]

section Marks

variable {frame : Frame} {t : TypeExpr} {p : Parser}

theorem Complete.step_comma (h : Complete vars (frame :: stack) t p) :
    p.step vars .comma = ⟨stack, .argument ⟨frame.name, frame.done ++ [t]⟩⟩ := by
  cases h <;> simp [step, Parser.suffix, complete, separator]

theorem Complete.step_greater (h : Complete vars (frame :: stack) t p) :
    p.step vars .greater = ⟨stack, .suffix (.named frame.name (frame.done ++ [t]))⟩ := by
  cases h <;> simp [step, Parser.suffix, complete, separator, argument, build]

/-- No array has the wildcard as its element. -/
theorem Complete.step_brackets (h : Complete vars stack t p) (ht : t ≠ .wildcard) :
    p.step vars .brackets = ⟨stack, .suffix t.array⟩ := by
  cases h with
  | name n => simp [step, Parser.suffix]
  | question => exact absurd rfl ht
  | suffix t => simp [step, Parser.suffix]

theorem Complete.finish (h : Complete vars [] t p) : p.finish vars = t := by
  cases h <;> simp [Parser.finish, close]

end Marks

/-! ## Reading a spelling -/

def read (vars : List String) (p : Parser) (cs : List Char) : Parser :=
  p.run vars (Token.scan cs)

theorem read_nil (p : Parser) : p.read vars [] = p := rfl

theorem read_blanks (p : Parser) {b : List Char} (hb : Blanks b) (rest : List Char) :
    p.read vars (b ++ rest) = p.read vars rest := by
  unfold read
  rw [Token.scan_blanks hb]

theorem read_name (p : Parser) {n : String} (hn : IsName n) {rest : List Char}
    (h : Token.EndsName rest) :
    p.read vars (n.toList ++ rest) = (p.step vars (.word n)).read vars rest := by
  unfold read
  rw [Token.scan_name hn h]
  rfl

theorem read_mark (p : Parser) {c : Char} {token : Token} (h : Token.ofMark? c = some token)
    (hg : Token.isGap c = false) (rest : List Char) :
    p.read vars (c :: rest) = (p.step vars token).read vars rest := by
  unfold read
  rw [Token.scan_mark h hg]
  rfl

theorem read_question (p : Parser) (rest : List Char) :
    p.read vars ('?' :: rest) = (p.step vars .question).read vars rest :=
  read_mark p rfl rfl rest

theorem read_brackets (p : Parser) (rest : List Char) :
    p.read vars ('[' :: ']' :: rest) = (p.step vars .brackets).read vars rest := by
  unfold read
  rw [Token.scan_brackets]
  rfl

theorem isName_of_mem_boundWords {w : String} (h : w ∈ boundWords) : IsName w := by
  simp only [boundWords, List.mem_cons, List.not_mem_nil, or_false] at h
  rcases h with rfl | rfl
  · exact isName_of_all (by decide) (by decide)
  · exact isName_of_all (by decide) (by decide)

theorem step_boundWord {w : String} (h : w ∈ boundWords) :
    step vars ⟨stack, .question⟩ (.word w) = ⟨stack, .start⟩ := by
  simp only [boundWords, List.mem_cons, List.not_mem_nil, or_false] at h
  rcases h with rfl | rfl
  · rfl
  · rfl

-- The two inductions follow the spelling and not the type, since a bound leaves the type as it is.

mutual

theorem read_spelled : ∀ {t : TypeExpr} {s : List Char}, Spelled t s →
    ∀ {stack : List Frame} {q : Parser}, Ready stack q → ∀ {rest : List Char},
      Token.EndsName rest → ∃ p, q.read vars (s ++ rest) = p.read vars rest ∧
        Complete vars stack (t.mark vars) p
  | _, _, .wildcard, stack, q, hq, rest, _ => by
      refine ⟨⟨stack, .question⟩, ?_, ?_⟩
      · show q.read vars ('?' :: rest) = _
        rw [read_question, hq.step (by decide)]
        rfl
      · rw [mark]
        exact .question
  | _, _, @Spelled.plain n hn, stack, q, hq, rest, hr => by
      refine ⟨⟨stack, .name n⟩, ?_, ?_⟩
      · rw [read_name q hn hr, hq.step (by simp)]
        rfl
      · rw [← build_nil]
        exact .name n
  | _, _, @Spelled.generic n args b s hn hb hs, stack, q, hq, rest, _ => by
      refine ⟨⟨stack, .suffix (.named n (markAll vars args))⟩, ?_, ?_⟩
      · have hassoc : n.toList ++ (b ++ '<' :: (s ++ ['>'])) ++ rest
            = n.toList ++ (b ++ '<' :: (s ++ '>' :: rest)) := by simp
        rw [hassoc, read_name q hn (Token.endsName_mark hb (Token.not_isPart_of_mark rfl) _),
          read_blanks _ hb, read_mark _ rfl rfl, hq.step (by simp)]
        exact read_spelledAll hs n []
      · cases hs with
        | last _ _ _ => exact .suffix _
        | more _ _ _ _ => exact .suffix _
  | _, _, @Spelled.array t s b hs ht hb, stack, q, hq, rest, _ => by
      have hassoc : s ++ (b ++ ['[', ']']) ++ rest = s ++ (b ++ '[' :: ']' :: rest) := by simp
      obtain ⟨p, hp, hc⟩ :=
        read_spelled hs hq (Token.endsName_mark hb Token.not_isPart_openBracket (']' :: rest))
      refine ⟨⟨stack, .suffix (t.mark vars).array⟩, ?_, ?_⟩
      · rw [hassoc, hp, read_blanks _ hb, read_brackets, hc.step_brackets (mark_ne_wildcard ht)]
      · rw [mark_array]
        exact .suffix _
  | _, _, @Spelled.bounded t w b b₂ s hw hb hb₂ hne hs, stack, q, hq, rest, hr => by
      have hassoc : '?' :: (b ++ (w.toList ++ (b₂ ++ s))) ++ rest
          = '?' :: (b ++ (w.toList ++ (b₂ ++ (s ++ rest)))) := by simp
      obtain ⟨p, hp, hc⟩ := read_spelled hs (.start stack) hr
      have hword := Token.endsName_of_ne_nil hb₂ hne (s ++ rest)
      have hbegin : begin stack .question = ⟨stack, .question⟩ := rfl
      refine ⟨p, ?_, hc⟩
      rw [hassoc, read_question, hq.step (by decide), hbegin, read_blanks _ hb,
        read_name _ (isName_of_mem_boundWords hw) hword, step_boundWord hw, read_blanks _ hb₂]
      exact hp

theorem read_spelledAll : ∀ {ts : List TypeExpr} {s : List Char}, SpelledAll ts s →
    ∀ {stack : List Frame} (n : String) (done : List TypeExpr) {rest : List Char},
      read vars ⟨stack, .argument ⟨n, done⟩⟩ (s ++ '>' :: rest)
        = read vars ⟨stack, .suffix (.named n (done ++ markAll vars ts))⟩ rest
  | _, _, @SpelledAll.last t b s b₂ hb hs hb₂, stack, n, done, rest => by
      have hassoc : b ++ (s ++ b₂) ++ '>' :: rest = b ++ (s ++ (b₂ ++ '>' :: rest)) := by simp
      have hend : Token.EndsName (b₂ ++ '>' :: rest) :=
        Token.endsName_mark hb₂ (Token.not_isPart_of_mark rfl) rest
      obtain ⟨p, hp, hc⟩ := read_spelled hs (.argument ⟨n, done⟩ stack) hend
      rw [hassoc, read_blanks _ hb, hp, read_blanks _ hb₂, read_mark _ rfl rfl, hc.step_greater]
      simp [markAll]
  | _, _, @SpelledAll.more t ts b s b₂ s₂ hb hs hb₂ hs₂, stack, n, done, rest => by
      have hassoc : b ++ (s ++ (b₂ ++ ',' :: s₂)) ++ '>' :: rest
          = b ++ (s ++ (b₂ ++ ',' :: (s₂ ++ '>' :: rest))) := by simp
      have hend : Token.EndsName (b₂ ++ ',' :: (s₂ ++ '>' :: rest)) :=
        Token.endsName_mark hb₂ (Token.not_isPart_of_mark rfl) (s₂ ++ '>' :: rest)
      obtain ⟨p, hp, hc⟩ := read_spelled hs (.argument ⟨n, done⟩ stack) hend
      rw [hassoc, read_blanks _ hb, hp, read_blanks _ hb₂, read_mark _ rfl rfl, hc.step_comma,
        read_spelledAll hs₂ n]
      simp [markAll]

end

end Parser

/-! ## Texts that spell a type -/

theorem Spelled.exists_not_blank {t : TypeExpr} {s : List Char} (h : Spelled t s) :
    ∃ c ∈ s, Text.isBlank c = false := by
  cases h with
  | wildcard => exact ⟨'?', List.mem_cons_self, by decide⟩
  | plain hn =>
      obtain ⟨c, hc⟩ := List.exists_mem_of_ne_nil _ hn.1
      exact ⟨c, hc, (hn.2 c hc).1⟩
  | generic _ _ _ => exact ⟨'<', by simp, by decide⟩
  | array _ _ _ => exact ⟨'[', by simp, by decide⟩
  | bounded _ _ _ _ _ => exact ⟨'?', by simp, by decide⟩

theorem isBlankText_eq_false {cs : List Char} (h : ∃ c ∈ cs, Text.isBlank c = false) :
    Text.isBlankText cs = false := by
  obtain ⟨c, hc, hb⟩ := h
  rw [Text.isBlankText, List.all_eq_false]
  exact ⟨c, hc, by simp [hb]⟩

/-- A spelling with blanks around it reads as the type it spells, with its variables marked. -/
theorem parse?_of_spelled (vars : List String) {t : TypeExpr} {b s b₂ : List Char}
    (hb : Blanks b) (hs : Spelled t s) (hb₂ : Blanks b₂) :
    parse? vars (String.ofList (b ++ (s ++ b₂))) = some (t.mark vars) := by
  obtain ⟨c, hc, hblank⟩ := hs.exists_not_blank
  have hend : Token.EndsName b₂ := by
    rw [← List.append_nil b₂]
    exact Token.endsName_blanks hb₂ Token.endsName_nil
  obtain ⟨p, hp, hcomplete⟩ := Parser.read_spelled hs (.start []) hend
  have hread : Parser.initial.read vars (b ++ (s ++ b₂)) = p := by
    rw [Parser.read_blanks _ hb, Parser.initial, hp, ← List.append_nil b₂,
      Parser.read_blanks _ hb₂, Parser.read_nil]
  have hnot : Text.isBlankText (b ++ (s ++ b₂)) = false :=
    isBlankText_eq_false ⟨c, by simp [hc], hblank⟩
  rw [parse?, String.toList_ofList, hnot, ← hcomplete.finish, ← hread]
  rfl

theorem parse?_text (vars : List String) {t : TypeExpr} (h : t.Proper) :
    parse? vars t.text = some (t.mark vars) := by
  have hs := parse?_of_spelled vars blanks_nil (spelled_text h) blanks_nil
  simpa using hs

/-- Parsing undoes printing.  A text that spells a proper type, with blanks around it, reads as this
type with its variables marked; the written form of the type is such a spelling, also once
variables are marked; and proper types that are written alike are equal. -/
theorem parse?_spelling {t : TypeExpr} (proper : t.Proper) :
    (∀ (vars : List String) (b s b₂ : List Char), Blanks b → Spelled t s → Blanks b₂ →
        parse? vars (String.ofList (b ++ (s ++ b₂))) = some (t.mark vars)) ∧
      Spelled t t.text.toList ∧
      (∀ vars : List String, parse? vars (t.mark vars).text = some (t.mark vars)) ∧
      parse? [] t.text = some t ∧
      ∀ u : TypeExpr, u.Proper → u.text = t.text → u = t := by
  have hround : ∀ u : TypeExpr, u.Proper → parse? [] u.text = some u := by
    intro u hu
    rw [parse?_text [] hu, mark_nil]
  refine ⟨?_, spelled_text proper, ?_, hround t proper, ?_⟩
  · intro vars b s b₂ hb hs hb₂
    exact parse?_of_spelled vars hb hs hb₂
  · intro vars
    rw [text_mark, parse?_text vars proper]
  · intro u hu htext
    have hu := hround u hu
    rw [htext, hround t proper] at hu
    exact (Option.some.inj hu).symm

theorem parse?_bounded_argument :
    Proper (.named "Map" [.named "K" [], (TypeExpr.named "List" [.wildcard]).array]) ∧
      parse? ["K"] "Map <? extends K, List<?>[] >"
        = some (.named "Map" [.var "K", (TypeExpr.named "List" [.wildcard]).array]) ∧
      parse? [] "Map<K, List<?>[]>"
        = some (.named "Map" [.named "K" [], (TypeExpr.named "List" [.wildcard]).array]) := by
  have hmap : IsName "Map" := isName_of_all (by decide) (by decide)
  have hkey : IsName "K" := isName_of_all (by decide) (by decide)
  have hlist : IsName "List" := isName_of_all (by decide) (by decide)
  have proper :
      Proper (.named "Map" [.named "K" [], (TypeExpr.named "List" [.wildcard]).array]) := by
    refine .named hmap fun a ha => ?_
    rcases List.mem_cons.mp ha with rfl | ha
    · exact .named hkey fun a ha => absurd ha List.not_mem_nil
    · rw [List.mem_singleton.mp ha]
      exact .array (.named hlist fun a ha => List.mem_singleton.mp ha ▸ .wildcard) (by simp)
  have hbound : Spelled (.named "K" []) "? extends K".toList :=
    .bounded List.mem_cons_self blanks_space blanks_space (by decide) (.plain hkey)
  have helement : Spelled (.named "List" [.wildcard]) "List<?>".toList :=
    .generic hlist blanks_nil (.last blanks_nil .wildcard blanks_nil)
  have harray : Spelled (TypeExpr.named "List" [.wildcard]).array "List<?>[]".toList :=
    .array helement (by simp) blanks_nil
  have hspelled : Spelled (.named "Map" [.named "K" [], (TypeExpr.named "List" [.wildcard]).array])
      "Map <? extends K, List<?>[] >".toList :=
    .generic hmap blanks_space
      (.more blanks_nil hbound blanks_nil (.last blanks_space harray blanks_space))
  obtain ⟨hread, _, _, hround, _⟩ := parse?_spelling proper
  have hread := hread ["K"] [] _ [] blanks_nil hspelled blanks_nil
  rw [List.nil_append, List.append_nil, String.ofList_toList] at hread
  exact ⟨proper, hread, hround⟩

end ApiStubs.TypeExpr
