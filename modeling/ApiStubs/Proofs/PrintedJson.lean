import ApiStubs.Json.Reader
import ApiStubs.Proofs.Numerals

/-!
# Printed values read back

Reading undoes printing: `read? v.print = some v`, for every value (`read?_print`).

Between a value and its text stand its tokens.  The scanner takes the text of a value for them.  A
piece that ends with its own delimiter, a string or a bracket, is `Scanned` whatever follows; a bare
word is open until something follows that cannot belong to it, so that values are scanned only where
they are `Delimited`, which they are in a text by the commas and line breaks between them.  The
reader takes the tokens of a value for it, from any stack of open arrays and objects on
(`run_tokens`).
-/

namespace ApiStubs

theorem Text.Hex.value?_digit {d : Nat} (h : d < 16) : value? (digit d) = some d := by
  have hall : ∀ d < 16, value? (digit d) = some d := by decide
  exact hall d h

namespace Json

/-! ## Tokens of a value -/

namespace Token

mutual

def ofValue : Value → List Token
  | .null => [word "null".toList]
  | .bool b => [word (if b then "true".toList else "false".toList)]
  | .int n => [word (toString n).toList]
  | .float x => [word (numeralLayout.text x)]
  | .string s => [string s]
  | .array [] => [openArray, closeArray]
  | .array (v :: rest) => openArray :: ofValue v ++ ofItems rest ++ [closeArray]
  | .object [] => [openObject, closeObject]
  | .object ((key, v) :: rest) =>
    openObject :: string key :: colon :: ofValue v ++ ofFields rest ++ [closeObject]

def ofItems : List Value → List Token
  | [] => []
  | v :: rest => comma :: ofValue v ++ ofItems rest

def ofFields : List (String × Value) → List Token
  | [] => []
  | (key, v) :: rest => comma :: string key :: colon :: ofValue v ++ ofFields rest

end

/-! ## The scanner on pieces -/

/-- From one state the scanner takes a piece for its tokens and is in another state after it,
whatever follows. -/
def Scanned (s : Scan) (cs : List Char) (tokens : List Token) (next : Scan) : Prop :=
  ∀ done rest, scanFrom done s (cs ++ rest) = scanFrom (tokens.reverse ++ done) next rest

section

variable {s s₁ s₂ : Scan} {cs ds : List Char} {ts us : List Token} {c : Char}

theorem scanned_nil (s : Scan) : Scanned s [] [] s :=
  fun _ _ => rfl

theorem scanned_of_step (h : step s c = some (ts, s₁)) : Scanned s [c] ts s₁ := by
  intro done rest
  rw [List.singleton_append, scanFrom, h]

theorem Scanned.append (h : Scanned s cs ts s₁) (h' : Scanned s₁ ds us s₂) :
    Scanned s (cs ++ ds) (ts ++ us) s₂ := by
  intro done rest
  rw [List.append_assoc, h, h', List.reverse_append, List.append_assoc]

theorem Scanned.cons (h : step s c = some (ts, s₁)) (h' : Scanned s₁ ds us s₂) :
    Scanned s (c :: ds) (ts ++ us) s₂ :=
  (scanned_of_step h).append h'

end

/-! ## Strings -/

/-- A digit of a code point that is not its last one. -/
theorem step_unit (done : List Char) (lead : Option Nat) (missing value : Nat) {d : Nat}
    (h : d < 16) : step (.unit done lead (missing + 1) value) (Text.Hex.digit d) =
      some ([], .unit done lead missing (16 * value + d)) := by
  simp only [step, Text.Hex.value?_digit h]

/-- The last one. -/
theorem step_unit_last (done : List Char) {value d : Nat} (h : d < 16)
    (plain : 16 * value + d < 0xD800) : step (.unit done none 0 value) (Text.Hex.digit d) =
      some ([], .string (Char.ofNat (16 * value + d) :: done) none) := by
  simp only [step, Text.Hex.value?_digit h, addUnit]
  rw [if_neg (by simp; omega), if_neg (by simp; omega), Option.map_some]

/-- Four digits are the character that they number. -/
theorem scanned_fixed (done : List Char) {n : Nat} (plain : n < 0xD800) :
    Scanned (.unit done none 3 0) (Text.Hex.fixed 4 n) []
      (.string (Char.ofNat n :: done) none) := by
  have hdigit : ∀ k : Nat, k % 16 < 16 := fun k => Nat.mod_lt k (by decide)
  have hvalue : 16 * (16 * (16 * (16 * 0 + n / 16 / 16 / 16 % 16) + n / 16 / 16 % 16) +
      n / 16 % 16) + n % 16 = n := by omega
  have hlast := step_unit_last done (hdigit n) (hvalue.symm ▸ plain)
  rw [hvalue] at hlast
  exact .cons (step_unit done none 2 0 (hdigit _)) (.cons (step_unit done none 1 _ (hdigit _))
    (.cons (step_unit done none 0 _ (hdigit _)) (scanned_of_step hlast)))

/-- An escape of one letter. -/
theorem scanned_letter (done : List Char) {letter c : Char} (h : escaped? letter = some c)
    (hu : letter ≠ 'u') :
    Scanned (.string done none) ['\\', letter] [] (.string (c :: done) none) := by
  have hopen : step (.string done none) '\\' = some ([], .escape done none) := by simp [step]
  have hclose : step (.escape done none) letter = some ([], .string (c :: done) none) := by
    simp only [step, if_neg hu, h]
  exact .cons hopen (scanned_of_step hclose)

/-- A character as it is printed reads as itself. -/
theorem scanned_escape (done : List Char) (c : Char) :
    Scanned (.string done none) (Printer.escape c) [] (.string (c :: done) none) := by
  fun_cases Printer.escape c with
  | case8 _ _ _ _ _ _ _ hcontrol =>
      have hopen : step (.string done none) '\\' = some ([], .escape done none) := by simp [step]
      have hunit : step (.escape done none) 'u' = some ([], .unit done none 3 0) := by simp [step]
      have hcode := scanned_fixed done (Nat.lt_trans hcontrol (by decide : 0x20 < 0xD800))
      rw [Char.ofNat_toNat] at hcode
      exact .cons hopen (.cons hunit hcode)
  | case9 hquote hbackslash _ _ _ _ _ hcontrol =>
      refine scanned_of_step ?_
      simp only [step, if_neg hquote, if_neg hbackslash, if_neg hcontrol]
  | _ =>
      subst c
      exact scanned_letter done rfl (by decide)

theorem scanned_escapes (done cs : List Char) : Scanned (.string done none)
    (cs.flatMap Printer.escape) [] (.string (cs.reverse ++ done) none) := by
  induction cs generalizing done with
  | nil => exact scanned_nil _
  | cons c cs ih =>
      have h := (scanned_escape done c).append (ih (c :: done))
      rwa [List.reverse_cons, List.append_assoc, List.flatMap_cons]

theorem scanned_string (s : String) : Scanned .between (Printer.string s) [string s] .between := by
  have hopen : step .between '\"' = some ([], .string [] none) := rfl
  have hclose : step (.string s.toList.reverse none) '\"' = some ([string s], .between) := by
    simp [step]
  have hbody := scanned_escapes [] s.toList
  rw [List.append_nil] at hbody
  exact .cons hopen (hbody.append (scanned_of_step hclose))

/-! ## Words -/

def endsWord (c : Char) : Bool :=
  isGap c || c = '\"' || (ofMark? c).isSome

/-- A bare word. -/
structure IsWord (cs : List Char) : Prop where
  ne_nil : cs ≠ []
  goesOn : ∀ c ∈ cs, endsWord c = false

/-- What follows does not go on a word. -/
def Delimited (rest : List Char) : Prop :=
  ∀ c ∈ rest.head?, endsWord c = true

theorem delimited_nil : Delimited [] :=
  fun _ h => absurd h (by simp)

theorem delimited_cons {c : Char} {rest : List Char} (h : endsWord c = true) :
    Delimited (c :: rest) := by
  intro d hd
  cases hd
  exact h

theorem Delimited.append {cs rest : List Char} (h : Delimited cs) (h' : Delimited rest) :
    Delimited (cs ++ rest) := by
  cases cs with
  | nil => exact h'
  | cons c cs => exact delimited_cons (h c rfl)

theorem step_word (done : List Char) {c : Char} (h : endsWord c = false) :
    step (.word done) c = some ([], .word (c :: done)) := by
  rw [endsWord] at h
  rw [step, h, if_neg Bool.false_ne_true]

theorem scanned_goesOn (done : List Char) {cs : List Char} (h : ∀ c ∈ cs, endsWord c = false) :
    Scanned (.word done) cs [] (.word (cs.reverse ++ done)) := by
  induction cs generalizing done with
  | nil => exact scanned_nil _
  | cons c cs ih =>
      have hfirst := step_word done (h c List.mem_cons_self)
      have hrest := ih (c :: done) fun d hd => h d (List.mem_cons_of_mem c hd)
      rw [List.reverse_cons, List.append_assoc]
      exact .cons hfirst hrest

theorem scanned_word {cs : List Char} (h : IsWord cs) :
    Scanned .between cs [] (.word cs.reverse) := by
  obtain ⟨c, cs, rfl⟩ := List.exists_cons_of_ne_nil h.ne_nil
  have hc := h.goesOn c List.mem_cons_self
  simp only [endsWord, Bool.or_eq_false_iff, decide_eq_false_iff_not, Option.isSome_eq_false_iff,
    Option.isNone_iff_eq_none] at hc
  obtain ⟨⟨hgap, hquote⟩, hmark⟩ := hc
  have hstart : step .between c = some ([], .word [c]) := by
    rw [step, start, hgap, if_neg Bool.false_ne_true, if_neg hquote, hmark]
  rw [List.reverse_cons]
  exact .cons hstart (scanned_goesOn [c] fun d hd => h.goesOn d (List.mem_cons_of_mem c hd))

/-- A word is over where nothing follows that goes on it. -/
theorem scanFrom_word (done : List Token) (cs : List Char) {rest : List Char} (h : Delimited rest) :
    scanFrom done (.word cs) rest = scanFrom (word cs.reverse :: done) .between rest := by
  cases rest with
  | nil => simp [scanFrom, finish]
  | cons c rest =>
      have hc : endsWord c = true := h c rfl
      rw [endsWord] at hc
      simp only [scanFrom, step, if_pos hc]
      cases start c with
      | none => rfl
      | some next => simp

/-! ## The scanner on values -/

/-- The scanner takes a piece for its tokens where nothing follows that goes on a word. -/
def Yields (cs : List Char) (tokens : List Token) : Prop :=
  ∀ done rest, Delimited rest →
    scanFrom done .between (cs ++ rest) = scanFrom (tokens.reverse ++ done) .between rest

section

variable {cs ds : List Char} {ts us : List Token}

theorem yields_word (h : IsWord cs) : Yields cs [word cs] := by
  intro done rest hrest
  rw [scanned_word h, List.reverse_nil, List.nil_append, scanFrom_word done _ hrest,
    List.reverse_reverse]
  rfl

theorem Scanned.yields (h : Scanned .between cs ts .between) : Yields cs ts :=
  fun done rest _ => h done rest

theorem Scanned.append_yields (h : Scanned .between cs ts .between) (h' : Yields ds us) :
    Yields (cs ++ ds) (ts ++ us) := by
  intro done rest hrest
  rw [List.append_assoc, h, h' _ _ hrest, List.reverse_append, List.append_assoc]

theorem Yields.append (h : Yields cs ts) (h' : Yields ds us) (hds : Delimited ds) :
    Yields (cs ++ ds) (ts ++ us) := by
  intro done rest hrest
  rw [List.append_assoc, h _ _ (hds.append hrest), h' _ _ hrest, List.reverse_append,
    List.append_assoc]

end

theorem scanned_mark {c : Char} {token : Token} (h : ofMark? c = some token)
    (hgap : isGap c = false) (hquote : c ≠ '\"') : Scanned .between [c] [token] .between := by
  refine scanned_of_step ?_
  rw [step, start, hgap, if_neg Bool.false_ne_true, if_neg hquote, h]

theorem scanned_openArray : Scanned .between ['['] [openArray] .between :=
  scanned_mark rfl rfl (by decide)

theorem scanned_closeArray : Scanned .between [']'] [closeArray] .between :=
  scanned_mark rfl rfl (by decide)

theorem scanned_openObject : Scanned .between ['\x7b'] [openObject] .between :=
  scanned_mark rfl rfl (by decide)

theorem scanned_closeObject : Scanned .between ['\x7d'] [closeObject] .between :=
  scanned_mark rfl rfl (by decide)

theorem scanned_gaps {cs : List Char} (h : ∀ c ∈ cs, isGap c = true) :
    Scanned .between cs [] .between := by
  induction cs with
  | nil => exact scanned_nil _
  | cons c cs ih =>
      have hfirst : step .between c = some ([], .between) := by
        rw [step, start, h c List.mem_cons_self, if_pos rfl]
      exact .cons hfirst (ih fun d hd => h d (List.mem_cons_of_mem c hd))

theorem scanned_newline (depth : Nat) : Scanned .between (Printer.newline depth) [] .between := by
  refine scanned_gaps fun c hc => ?_
  rcases List.mem_cons.mp hc with rfl | hc
  · rfl
  · rw [List.eq_of_mem_replicate hc]
    rfl

theorem delimited_newline (depth : Nat) (rest : List Char) :
    Delimited (Printer.newline depth ++ rest) :=
  delimited_cons rfl

theorem delimited_items (depth : Nat) (vs : List Value) :
    Delimited (Printer.items depth vs) := by
  cases vs with
  | nil => exact delimited_nil
  | cons v vs => exact delimited_cons rfl

theorem delimited_fields (depth : Nat) (fields : List (String × Value)) :
    Delimited (Printer.fields depth fields) := by
  cases fields with
  | nil => exact delimited_nil
  | cons field fields => exact delimited_cons rfl

/-- Infinite numbers are printed as words. -/
theorem text_infinite {x : Number.Binary64} (h : x.isInfinite = true) : numeralLayout.text x =
    if x.negative then "-Infinity".toList else "Infinity".toList := by
  rw [Number.Layout.text, Number.Layout.magnitudeText, if_pos h]
  rfl

theorem isWord_of_all {cs : List Char} (h : (!cs.isEmpty && cs.all (!endsWord ·)) = true) :
    IsWord cs := by
  obtain ⟨hne, hall⟩ := Bool.and_eq_true_iff.mp h
  exact ⟨by simpa using hne, fun c hc => by simpa using List.all_eq_true.mp hall c hc⟩

theorem isWord_null : IsWord "null".toList :=
  isWord_of_all (by decide)

theorem isWord_bool (b : Bool) : IsWord (if b then "true".toList else "false".toList) := by
  cases b <;> exact isWord_of_all (by decide)

/-- The characters that end a word, one by one. -/
theorem mem_of_endsWord {c : Char} (h : endsWord c = true) :
    c ∈ [' ', '\t', '\n', '\r', '\"', '[', ']', '\x7b', '\x7d', ',', ':'] := by
  simp only [endsWord, isGap, Bool.or_eq_true, decide_eq_true_eq] at h
  rcases h with ((((rfl | rfl) | rfl) | rfl) | rfl) | hmark
  case inr =>
    obtain ⟨token, htoken⟩ := Option.isSome_iff_exists.mp hmark
    rw [ofMark?.eq_def] at htoken
    split at htoken
    case h_7 => exact absurd htoken (by simp)
    all_goals decide
  all_goals decide

/-- Nothing that a numeral is made of ends a word. -/
theorem endsWord_of_isPart {c : Char} (h : Numeral.IsPart c) : endsWord c = false := by
  rw [← Bool.not_eq_true]
  intro hends
  have hnone : [' ', '\t', '\n', '\r', '\"', '[', ']', '\x7b', '\x7d', ',', ':'].all
      (fun c => !(c.isDigit || ['+', '-', '.', 'e', 'E'].contains c)) = true := by decide
  have hc := List.all_eq_true.mp hnone c (mem_of_endsWord hends)
  rcases h with h | h <;> simp [h] at hc

theorem isWord_of_read? {cs : List Char} {v : Value} (h : Numeral.read? cs = some v) :
    IsWord cs where
  ne_nil := by
    rintro rfl
    exact absurd h (by simp [Numeral.read?, Numeral.magnitude?, Numeral.whole?, Numeral.digits?])
  goesOn _ hc := endsWord_of_isPart (Numeral.isPart_of_read? h hc)

theorem isWord_int (n : Int) : IsWord (toString n).toList :=
  isWord_of_read? (Numeral.read?_toString n)

theorem isWord_float (x : Number.Binary64) : IsWord (numeralLayout.text x) := by
  cases hinfinite : x.isInfinite with
  | false => exact isWord_of_read? (Numeral.read?_text numeralLayout hinfinite)
  | true =>
      rw [text_infinite hinfinite]
      split <;> exact isWord_of_all (by decide)

/-- What stands between two brackets: a first piece, and more where it is over. -/
theorem yields_enclosed {opening closing : Char} {first last : Token}
    (hopening : Scanned .between [opening] [first] .between)
    (hclosing : Scanned .between [closing] [last] .between) (depth : Nat) {cs ds : List Char}
    {ts us : List Token} (h : Yields cs ts) (h' : Yields ds us) (hds : Delimited ds) :
    Yields
      (opening :: Printer.newline (depth + 1) ++ cs ++ ds ++ Printer.newline depth ++ [closing])
      (first :: ts ++ us ++ [last]) := by
  have hend : Yields (Printer.newline depth ++ [closing]) [last] :=
    ((scanned_newline depth).append hclosing).yields
  have hbody : Yields (cs ++ (ds ++ (Printer.newline depth ++ [closing]))) (ts ++ (us ++ [last])) :=
    h.append (h'.append hend (delimited_newline depth _)) (hds.append (delimited_newline depth _))
  have hall := (hopening.append (scanned_newline (depth + 1))).append_yields hbody
  simpa using hall

/-- A piece after a comma, and more where it is over. -/
theorem yields_after_comma (depth : Nat) {cs ds : List Char} {ts us : List Token} (h : Yields cs ts)
    (h' : Yields ds us) (hds : Delimited ds) :
    Yields (',' :: Printer.newline depth ++ cs ++ ds) (comma :: ts ++ us) := by
  have hcomma : Scanned .between [','] [comma] .between := scanned_mark rfl rfl (by decide)
  have hall := (hcomma.append (scanned_newline depth)).append_yields (h.append h' hds)
  simpa using hall

theorem yields_field (key : String) {cs : List Char} {ts : List Token} (h : Yields cs ts) :
    Yields (Printer.string key ++ ':' :: ' ' :: cs) (string key :: colon :: ts) := by
  have hcolon : Scanned .between [':'] [colon] .between := scanned_mark rfl rfl (by decide)
  have hgap : Scanned .between [' '] [] .between := scanned_of_step rfl
  have hall := ((scanned_string key).append (hcolon.append hgap)).append_yields h
  simpa using hall

mutual

/-- A value is printed as its tokens. -/
theorem yields_value (depth : Nat) : ∀ v : Value, Yields (Printer.value depth v) (ofValue v)
  | .null => yields_word isWord_null
  | .bool b => yields_word (isWord_bool b)
  | .int n => yields_word (isWord_int n)
  | .float x => yields_word (isWord_float x)
  | .string s => (scanned_string s).yields
  | .array [] => (scanned_openArray.append scanned_closeArray).yields
  | .array (v :: rest) =>
      yields_enclosed scanned_openArray scanned_closeArray depth (yields_value (depth + 1) v)
        (yields_items (depth + 1) rest) (delimited_items _ _)
  | .object [] => (scanned_openObject.append scanned_closeObject).yields
  | .object ((key, v) :: rest) => by
      have h := yields_enclosed scanned_openObject scanned_closeObject depth
        (yields_field key (yields_value (depth + 1) v)) (yields_fields (depth + 1) rest)
        (delimited_fields _ _)
      simpa [Printer.value, ofValue] using h

theorem yields_items (depth : Nat) :
    ∀ vs : List Value, Yields (Printer.items depth vs) (ofItems vs)
  | [] => (scanned_nil _).yields
  | v :: rest =>
      yields_after_comma depth (yields_value depth v) (yields_items depth rest)
        (delimited_items depth rest)

theorem yields_fields (depth : Nat) : ∀ fields : List (String × Value),
    Yields (Printer.fields depth fields) (ofFields fields)
  | [] => (scanned_nil _).yields
  | (key, v) :: rest => by
      have h := yields_after_comma depth (yields_field key (yields_value depth v))
        (yields_fields depth rest) (delimited_fields depth rest)
      simpa [Printer.fields, ofFields] using h

end

/-- The tokens of a printed value. -/
theorem scan?_value (v : Value) : scan? (Printer.value 0 v) = some (ofValue v) := by
  have h := yields_value 0 v [] [] delimited_nil
  rw [List.append_nil, List.append_nil] at h
  rw [scan?, h, scanFrom]
  simp [finish]

end Token

/-! ## The reader on tokens -/

namespace Reader

theorem run_cons (reader : Reader) (token : Token) (rest : List Token) :
    reader.run (token :: rest) = (reader.step token).bind (·.run rest) := by
  rw [run]
  cases reader.step token <;> rfl

/-- A numeral is none of the words that are not numerals. -/
theorem ofWord?_of_read? {cs : List Char} {v : Value} (h : Numeral.read? cs = some v) :
    ofWord? cs = some v := by
  have hwords : ["null", "true", "false", "Infinity", "-Infinity"].all
      (fun word => (Numeral.read? word.toList).isNone) = true := by decide +kernel
  have hne : ∀ word ∈ ["null", "true", "false", "Infinity", "-Infinity"], cs ≠ word.toList := by
    rintro word hword rfl
    have hnone := List.all_eq_true.mp hwords word hword
    rw [h] at hnone
    exact absurd hnone (by simp)
  rw [ofWord?, if_neg (hne _ (by decide)), if_neg (hne _ (by decide)), if_neg (hne _ (by decide)),
    if_neg (hne _ (by decide)), if_neg (hne _ (by decide)), h]

theorem eq_infinity {x : Number.Binary64} (h : x.isInfinite = true) : x = .infinity x.negative := by
  obtain ⟨negative, rank⟩ := x
  have hval : rank.val = Number.Binary64.infinityRank := by
    simpa [Number.Binary64.isInfinite] using h
  have hrank : rank = Fin.ofNat _ Number.Binary64.infinityRank := Fin.ext (hval.trans rfl)
  rw [Number.Binary64.infinity, hrank]

theorem ofWord?_text (x : Number.Binary64) : ofWord? (numeralLayout.text x) = some (.float x) := by
  cases hinfinite : x.isInfinite with
  | false => exact ofWord?_of_read? (Numeral.read?_text numeralLayout hinfinite)
  | true =>
      rw [Token.text_infinite hinfinite, eq_infinity hinfinite]
      cases x.negative <;> rfl

/-- Where an array may as well end, a token that does not end it starts a value. -/
theorem step_valueOrClose (stack : List Frame) {token : Token} (h : token ≠ .closeArray) :
    step ⟨stack, .valueOrClose⟩ token = step ⟨stack, .value⟩ token := by
  cases token with
  | closeArray => exact absurd rfl h
  | _ => simp [step]

/-- No value starts with the end of an array. -/
theorem ofValue_eq_cons (v : Value) : ∃ token rest, Token.ofValue v = token :: rest ∧
    token ≠ .closeArray := by
  cases v with
  | array items => cases items <;> exact ⟨_, _, rfl, by simp⟩
  | object fields => cases fields <;> exact ⟨_, _, rfl, by simp⟩
  | _ => exact ⟨_, _, rfl, by simp⟩

theorem run_valueOrClose (stack : List Frame) (v : Value) (rest : List Token) :
    run ⟨stack, .valueOrClose⟩ (Token.ofValue v ++ rest) =
      run ⟨stack, .value⟩ (Token.ofValue v ++ rest) := by
  obtain ⟨token, more, hv, htoken⟩ := ofValue_eq_cons v
  rw [hv, List.cons_append, run_cons, run_cons, step_valueOrClose stack htoken]

theorem run_firstKey (key : String) (stack : List Frame) (rest : List Token) :
    run ⟨.object [] :: stack, .keyOrClose⟩ (.string key :: .colon :: rest) =
      run ⟨.field [] key :: stack, .value⟩ rest := rfl

theorem run_key (done : List (String × Value)) (key : String) (stack : List Frame)
    (rest : List Token) : run ⟨.object done :: stack, .key⟩ (.string key :: .colon :: rest) =
      run ⟨.field done key :: stack, .value⟩ rest := rfl

theorem run_word {cs : List Char} {v : Value} (h : ofWord? cs = some v) (stack : List Frame)
    (rest : List Token) :
    run ⟨stack, .value⟩ (.word cs :: rest) = (complete v stack).bind (·.run rest) := by
  have hstep : step ⟨stack, .value⟩ (.word cs) = complete v stack := by
    simp only [step, startValue, h, Option.bind_some]
  rw [run_cons, hstep]

mutual

/-- The tokens of a value are read as it, whatever is open around it. -/
theorem run_value : ∀ (v : Value) (stack : List Frame) (rest : List Token),
    run ⟨stack, .value⟩ (Token.ofValue v ++ rest) = (complete v stack).bind (·.run rest)
  | .null, stack, rest => run_word rfl stack rest
  | .bool b, stack, rest => run_word (by cases b <;> rfl) stack rest
  | .int n, stack, rest => run_word (ofWord?_of_read? (Numeral.read?_toString n)) stack rest
  | .float x, stack, rest => run_word (ofWord?_text x) stack rest
  | .string s, stack, rest => run_cons _ _ _
  | .array [], stack, rest => (run_cons _ _ _).trans (run_cons _ _ _)
  | .array (v :: vs), stack, rest => by
      have hv := run_value v (.array [] :: stack) (Token.ofItems vs ++ .closeArray :: rest)
      have hvs := run_items vs [v] stack rest
      rw [Token.ofValue, List.append_assoc, List.append_assoc, List.cons_append, run_cons]
      refine Eq.trans ?_ hvs
      exact (run_valueOrClose _ v _).trans hv
  | .object [], stack, rest => (run_cons _ _ _).trans (run_cons _ _ _)
  | .object ((key, v) :: fields), stack, rest => by
      have hv := run_value v (.field [] key :: stack)
        (Token.ofFields fields ++ .closeObject :: rest)
      have hfields := run_fields fields [(key, v)] stack rest
      rw [Token.ofValue, List.append_assoc, List.append_assoc, List.cons_append, List.cons_append,
        List.cons_append, run_cons]
      refine Eq.trans ?_ hfields
      exact (run_firstKey key stack _).trans hv

theorem run_items : ∀ (vs done : List Value) (stack : List Frame) (rest : List Token),
    run ⟨.array done :: stack, .next⟩ (Token.ofItems vs ++ .closeArray :: rest) =
      (complete (.array (done.reverse ++ vs)) stack).bind (·.run rest)
  | [], done, stack, rest => by
      rw [List.append_nil]
      exact run_cons _ _ _
  | v :: vs, done, stack, rest => by
      have hv := run_value v (.array done :: stack) (Token.ofItems vs ++ .closeArray :: rest)
      have hvs := run_items vs (v :: done) stack rest
      rw [List.reverse_cons, List.append_assoc, List.singleton_append] at hvs
      rw [Token.ofItems, List.cons_append, List.cons_append, List.append_assoc, run_cons, ← hvs]
      exact hv

theorem run_fields : ∀ (fields done : List (String × Value)) (stack : List Frame)
    (rest : List Token),
    run ⟨.object done :: stack, .next⟩ (Token.ofFields fields ++ .closeObject :: rest) =
      (complete (.object (done.reverse ++ fields)) stack).bind (·.run rest)
  | [], done, stack, rest => by
      rw [List.append_nil]
      exact run_cons _ _ _
  | (key, v) :: fields, done, stack, rest => by
      have hv := run_value v (.field done key :: stack)
        (Token.ofFields fields ++ .closeObject :: rest)
      have hfields := run_fields fields ((key, v) :: done) stack rest
      rw [List.reverse_cons, List.append_assoc, List.singleton_append] at hfields
      rw [Token.ofFields, List.append_assoc, List.cons_append, List.cons_append, List.cons_append,
        run_cons, ← hfields]
      exact (run_key done key stack _).trans hv

end

end Reader

/-! ## Texts -/

/-- A printed value is read back as itself. -/
theorem read?_print (v : Value) : read? v.print = some v := by
  have hrun := Reader.run_value v [] []
  rw [List.append_nil] at hrun
  rw [read?, Value.print, String.toList_ofList, Token.scan?_value]
  show (Reader.initial.run (Token.ofValue v)).bind _ = _
  rw [Reader.initial, hrun]
  rfl

end Json

end ApiStubs
