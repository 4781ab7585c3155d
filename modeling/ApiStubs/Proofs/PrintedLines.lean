import ApiStubs.Proofs.GeneratedFiles
import ApiStubs.Proofs.PrintedJson
import ApiStubs.Text.Blank
import ApiStubs.Text.DecimalDigit

/-!
# The lines of printed values

A text that is cut into lines and put together again is the same text only if nothing but line feeds
breaks it, and a writer that empties the lines that show nothing keeps it only if there is none.
Both hold of printed values (`shown_print`): a break inside a string is printed as an escape, and so
is every other control character, a string of blanks stands between quotes, and every line shows a
bracket if nothing else.
-/

namespace ApiStubs

namespace Text

/-! ## Texts whose lines all show something -/

/-- Whether every line shows something, the first one if it does not already. -/
def eachLineShows (shows : Bool) : List Char → Bool
  | [] => shows
  | c :: rest =>
    if c = '\n' then shows && eachLineShows false rest else eachLineShows (shows || !isBlank c) rest

/-- A piece of text that is cut at line feeds only, and whose lines show something, the last one
whatever follows. -/
structure Shown (cs : List Char) : Prop where
  unbroken : '\r' ∉ cs
  shows : ∀ before rest, eachLineShows before (cs ++ rest) = eachLineShows true rest

section

variable {cs ds : List Char}

theorem eachLineShows_true_append (h : '\n' ∉ cs) (rest : List Char) :
    eachLineShows true (cs ++ rest) = eachLineShows true rest := by
  induction cs with
  | nil => rfl
  | cons c cs ih =>
      have hc : c ≠ '\n' := fun hc => h (hc ▸ List.mem_cons_self)
      have hcs : '\n' ∉ cs := fun hcs => h (List.mem_cons_of_mem c hcs)
      rw [List.cons_append, eachLineShows, if_neg hc, Bool.true_or, ih hcs]

theorem eachLineShows_blanks (k : Nat) (rest : List Char) :
    eachLineShows false (List.replicate k ' ' ++ rest) = eachLineShows false rest := by
  induction k with
  | zero => rfl
  | succ k ih => exact ih

theorem eachLineShows_of_isBlankText (h : isBlankText cs = true) :
    eachLineShows false cs = false := by
  induction cs with
  | nil => rfl
  | cons c cs ih =>
      rw [isBlankText, List.all_cons, Bool.and_eq_true] at h
      rw [eachLineShows, h.1]
      split
      · rfl
      · exact ih h.2

/-- A piece of one line that shows something. -/
theorem shown_of_line (unbroken : '\r' ∉ cs) (line : '\n' ∉ cs)
    (shows : ∃ c ∈ cs, isBlank c = false) : Shown cs where
  unbroken := unbroken
  shows := by
    intro before rest
    induction cs generalizing before with
    | nil =>
        obtain ⟨c, hc, -⟩ := shows
        exact absurd hc List.not_mem_nil
    | cons c cs ih =>
        have hc : c ≠ '\n' := fun hc => line (hc ▸ List.mem_cons_self)
        have hcs : '\n' ∉ cs := fun hcs => line (List.mem_cons_of_mem c hcs)
        rw [List.cons_append, eachLineShows, if_neg hc]
        cases hblank : isBlank c with
        | false =>
            rw [Bool.not_false, Bool.or_true]
            exact eachLineShows_true_append hcs rest
        | true =>
            obtain ⟨d, hd, hshows⟩ := shows
            have hd : d ∈ cs := (List.mem_cons.mp hd).resolve_left fun h => by
              rw [h, hblank] at hshows
              exact Bool.noConfusion hshows
            exact ih (fun h => unbroken (List.mem_cons_of_mem c h)) hcs ⟨d, hd, hshows⟩ _

theorem Shown.append (h : Shown cs) (h' : Shown ds) : Shown (cs ++ ds) where
  unbroken hmem := (List.mem_append.mp hmem).elim h.unbroken h'.unbroken
  shows before rest := by rw [List.append_assoc, h.shows, h'.shows]

/-- What shows something on every line is not blank. -/
theorem Shown.isBlankText_eq_false (h : Shown cs) : isBlankText cs = false := by
  have hshows : eachLineShows false cs = true := by
    have hall := h.shows false []
    rwa [List.append_nil] at hall
  cases hblank : isBlankText cs with
  | false => rfl
  | true =>
      rw [eachLineShows_of_isBlankText hblank] at hshows
      exact Bool.noConfusion hshows

/-- A line feed and blanks between two pieces. -/
theorem Shown.append_newline (h : Shown cs) (depth : Nat) (h' : Shown ds) :
    Shown (cs ++ Json.Printer.newline depth ++ ds) where
  unbroken hmem := by
    rcases List.mem_append.mp hmem with hmem | hmem
    · rcases List.mem_append.mp hmem with hmem | hmem
      · exact h.unbroken hmem
      · simp [Json.Printer.newline] at hmem
    · exact h'.unbroken hmem
  shows before rest := by
    rw [List.append_assoc, List.append_assoc, h.shows, Json.Printer.newline, List.cons_append,
      eachLineShows, if_pos rfl, Bool.true_and, eachLineShows_blanks, h'.shows]

end

/-! ## Lines put together again -/

theorem isBlankText_eq_not_any (cs : List Char) : isBlankText cs = !cs.any (!isBlank ·) := by
  rw [isBlankText, List.not_any_eq_all_not]
  simp

/-- What is cut at line feeds is put together by them. -/
theorem intercalate_linesFrom (line : List Char) {cs : List Char} (h : '\r' ∉ cs) :
    ['\n'].intercalate (linesFrom line cs) = line.reverse ++ cs := by
  fun_induction linesFrom line cs with
  | case1 line => simp
  | case2 line rest ih => exact absurd List.mem_cons_self h
  | case3 line rest _ ih => exact absurd List.mem_cons_self h
  | case4 line rest ih =>
      rw [List.intercalate_cons_of_ne_nil (linesFrom_ne_nil _ _),
        ih fun hmem => h (List.mem_cons_of_mem _ hmem)]
      simp
  | case5 line c rest _ _ _ ih =>
      rw [ih fun hmem => h (List.mem_cons_of_mem _ hmem)]
      simp

/-- Every line as it is cut shows something exactly if every line does. -/
theorem all_linesFrom (line : List Char) {cs : List Char} (h : '\r' ∉ cs) :
    (linesFrom line cs).all (!isBlankText ·) = eachLineShows (line.any (!isBlank ·)) cs := by
  fun_induction linesFrom line cs with
  | case1 line => simp [eachLineShows, isBlankText_eq_not_any]
  | case2 line rest ih => exact absurd List.mem_cons_self h
  | case3 line rest _ ih => exact absurd List.mem_cons_self h
  | case4 line rest ih =>
      rw [List.all_cons, ih fun hmem => h (List.mem_cons_of_mem _ hmem), eachLineShows, if_pos rfl]
      simp [isBlankText_eq_not_any]
  | case5 line c rest hcrlf hcr hlf ih =>
      rw [ih fun hmem => h (List.mem_cons_of_mem _ hmem), eachLineShows, if_neg hlf]
      simp [Bool.or_comm]

end Text

/-! ## Printed values -/

namespace Json.Printer

open Text (Shown isBlank)

theorem shown_mark {c : Char} (h : isBlank c = false) : Shown [c] := by
  refine Text.shown_of_line ?_ ?_ ⟨c, List.mem_singleton_self c, h⟩
  · intro hmem
    rw [← List.mem_singleton.mp hmem] at h
    exact absurd h (by decide)
  · intro hmem
    rw [← List.mem_singleton.mp hmem] at h
    exact absurd h (by decide)

/-- No control character stands in a string as it is printed. -/
theorem le_of_mem_escape {c d : Char} (h : d ∈ escape c) : 0x20 ≤ d.toNat := by
  revert h
  fun_cases escape c with
  | case8 =>
      intro h
      have hdigit : ∀ d < 16, 0x20 ≤ (Text.Hex.digit d).toNat := by decide
      simp only [Text.Hex.fixed, List.nil_append, List.cons_append, List.mem_cons,
        List.not_mem_nil, or_false] at h
      rcases h with rfl | rfl | rfl | rfl | rfl | rfl
      · decide
      · decide
      all_goals exact hdigit _ (Nat.mod_lt _ (by decide))
  | case9 _ _ _ _ _ _ _ hcontrol =>
      intro h
      rw [List.mem_singleton.mp h]
      exact Nat.not_lt.mp hcontrol
  | _ =>
      intro h
      simp only [List.mem_cons, List.not_mem_nil, or_false] at h
      rcases h with rfl | rfl <;> decide

theorem le_of_mem_string {s : String} {c : Char} (h : c ∈ string s) : 0x20 ≤ c.toNat := by
  rw [string, List.cons_append, List.mem_cons, List.mem_append, List.mem_singleton] at h
  rcases h with rfl | h | rfl
  · decide
  · obtain ⟨d, -, hc⟩ := List.mem_flatMap.mp h
    exact le_of_mem_escape hc
  · decide

theorem shown_string (s : String) : Shown (string s) :=
  Text.shown_of_line (fun h => absurd (le_of_mem_string h) (by decide))
    (fun h => absurd (le_of_mem_string h) (by decide)) ⟨'\"', List.mem_cons_self, by decide⟩

theorem shown_word {cs : List Char} (h : Token.IsWord cs) (shows : ∃ c ∈ cs, isBlank c = false) :
    Shown cs :=
  Text.shown_of_line (fun hc => absurd (h.goesOn _ hc) (by decide))
    (fun hc => absurd (h.goesOn _ hc) (by decide)) shows

theorem shown_null : Shown "null".toList :=
  shown_word Token.isWord_null ⟨'n', by decide, by decide⟩

theorem shown_bool (b : Bool) : Shown (if b then "true".toList else "false".toList) :=
  shown_word (Token.isWord_bool b) ⟨'e', by cases b <;> decide, by decide⟩

theorem isBlank_of_isPart {c : Char} (h : Numeral.IsPart c) : isBlank c = false := by
  rcases h with hdigit | hmark
  · have bounds := Text.toNat_of_isDigit hdigit
    simp only [isBlank, Text.inRanges, Text.blankRanges, List.any_cons, List.any_nil,
      Bool.or_false, Bool.or_eq_false_iff, Bool.and_eq_false_iff, decide_eq_false_iff_not]
    omega
  · have hall : ['+', '-', '.', 'e', 'E'].all (fun c => !isBlank c) = true := by decide
    simpa using List.all_eq_true.mp hall c hmark

theorem shown_numeral {cs : List Char} {v : Value} (h : Numeral.read? cs = some v) : Shown cs := by
  have hword := Token.isWord_of_read? h
  obtain ⟨c, rest, rfl⟩ := List.exists_cons_of_ne_nil hword.ne_nil
  exact shown_word hword
    ⟨c, List.mem_cons_self, isBlank_of_isPart (Numeral.isPart_of_read? h List.mem_cons_self)⟩

theorem shown_float (x : Number.Binary64) : Shown (numeralLayout.text x) := by
  cases hinfinite : x.isInfinite with
  | false => exact shown_numeral (Numeral.read?_text numeralLayout hinfinite)
  | true =>
      refine shown_word (Token.isWord_float x) ⟨'I', ?_, by decide⟩
      rw [Token.text_infinite hinfinite]
      split <;> decide

theorem shown_field (key : String) {cs : List Char} (h : Shown cs) :
    Shown (string key ++ ':' :: ' ' :: cs) := by
  have hcolon : Shown [':', ' '] :=
    Text.shown_of_line (by decide) (by decide) ⟨':', by decide, by decide⟩
  have hall := (shown_string key).append (hcolon.append h)
  simpa using hall

mutual

/-- Every line of a printed value shows something. -/
theorem shown_value (depth : Nat) : ∀ v : Value, Shown (value depth v)
  | .null => shown_null
  | .bool b => shown_bool b
  | .int n => shown_numeral (Numeral.read?_toString n)
  | .float x => shown_float x
  | .string s => shown_string s
  | .array [] => (shown_mark (by decide)).append (shown_mark (by decide))
  | .array (v :: rest) => by
      have hopen : Shown ['['] := shown_mark (by decide)
      have hclose : Shown [']'] := shown_mark (by decide)
      have hfirst := hopen.append_newline (depth + 1) (shown_value (depth + 1) v)
      exact (shown_items (depth + 1) rest hfirst).append_newline depth hclose
  | .object [] => (shown_mark (by decide)).append (shown_mark (by decide))
  | .object ((key, v) :: rest) => by
      have hopen : Shown ['\x7b'] := shown_mark (by decide)
      have hclose : Shown ['\x7d'] := shown_mark (by decide)
      have hfirst := hopen.append_newline (depth + 1)
        (shown_field key (shown_value (depth + 1) v))
      have hall := (shown_fields (depth + 1) rest hfirst).append_newline depth hclose
      simpa [value] using hall

theorem shown_items (depth : Nat) : ∀ (vs : List Value) {cs : List Char}, Shown cs →
    Shown (cs ++ items depth vs)
  | [], _, h => by
      rw [items, List.append_nil]
      exact h
  | v :: rest, _, h => by
      have hcomma : Shown [','] := shown_mark (by decide)
      have hfirst := (h.append hcomma).append_newline depth (shown_value depth v)
      have hall := shown_items depth rest hfirst
      simpa [items] using hall

theorem shown_fields (depth : Nat) : ∀ (vs : List (String × Value)) {cs : List Char}, Shown cs →
    Shown (cs ++ fields depth vs)
  | [], _, h => by
      rw [fields, List.append_nil]
      exact h
  | (key, v) :: rest, _, h => by
      have hcomma : Shown [','] := shown_mark (by decide)
      have hfirst := (h.append hcomma).append_newline depth
        (shown_field key (shown_value depth v))
      have hall := shown_fields depth rest hfirst
      simpa [fields] using hall

end

end Json.Printer

theorem Json.Value.shown_print (v : Value) : Text.Shown v.print.toList := by
  rw [print, String.toList_ofList]
  exact Printer.shown_value 0 v

end ApiStubs
