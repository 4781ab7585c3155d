import ApiStubs.TypeExpr.Parser

/-!
# Spellings of types

Which texts spell a type, said without the parser.  A `Proper` type is one that the written form can
tell apart: its names are free of blanks and marks, and no array has the wildcard as its element,
since `?[]` does not read as one.

A proper type has many spellings.  Blanks may stand between its tokens, and `? extends` or `? super`
before the type and before each argument, any number of times.  `spelled_text` states that the
written form is one of them.

Variables are no part of a spelling.  `mark` turns the names without arguments that are among the
variables into variables; nothing else about a type changes.
-/

namespace ApiStubs.TypeExpr

/-- The characters that the marks of a type expression consist of. -/
def markChars : List Char := ['<', '>', ',', '[', ']', '?']

/-- A name: not empty, and without blanks and the characters of marks. -/
def IsName (n : String) : Prop :=
  n.toList ≠ [] ∧ ∀ c ∈ n.toList, Text.isBlank c = false ∧ c ∉ markChars

theorem isName_of_all {n : String} (hn : n.toList ≠ [])
    (h : n.toList.all (fun c => !Text.isBlank c && !markChars.contains c) = true) : IsName n := by
  refine ⟨hn, fun c hc => ?_⟩
  have hc := List.all_eq_true.mp h c hc
  simpa using hc

/-- A type that can be told from its written form. -/
inductive Proper : TypeExpr → Prop
  | wildcard : Proper .wildcard
  | named {n : String} {args : List TypeExpr} : IsName n → (∀ a ∈ args, Proper a) →
      Proper (.named n args)
  | array {t : TypeExpr} : Proper t → t ≠ .wildcard → Proper t.array

def Blanks (b : List Char) : Prop :=
  ∀ c ∈ b, Text.isBlank c = true

/-- The words after which a question mark is followed by its bound. -/
def boundWords : List String := ["extends", "super"]

mutual

/-- `Spelled t s`: the text `s` spells the type `t`, from its first token to its last. -/
inductive Spelled : TypeExpr → List Char → Prop
  | wildcard : Spelled .wildcard ['?']
  | plain {n : String} : IsName n → Spelled (.named n []) n.toList
  | generic {n : String} {args : List TypeExpr} {b s : List Char} : IsName n → Blanks b →
      SpelledAll args s → Spelled (.named n args) (n.toList ++ (b ++ '<' :: (s ++ ['>'])))
  | array {t : TypeExpr} {s b : List Char} : Spelled t s → t ≠ .wildcard → Blanks b →
      Spelled t.array (s ++ (b ++ ['[', ']']))
  | bounded {t : TypeExpr} {w : String} {b b' s : List Char} : w ∈ boundWords → Blanks b →
      Blanks b' → b' ≠ [] → Spelled t s → Spelled t ('?' :: (b ++ (w.toList ++ (b' ++ s))))

/-- `SpelledAll ts s`: the text `s` spells the types `ts`, at least one, with commas between. -/
inductive SpelledAll : List TypeExpr → List Char → Prop
  | last {t : TypeExpr} {b s b' : List Char} : Blanks b → Spelled t s → Blanks b' →
      SpelledAll [t] (b ++ (s ++ b'))
  | more {t : TypeExpr} {ts : List TypeExpr} {b s b' s' : List Char} : Blanks b → Spelled t s →
      Blanks b' → SpelledAll ts s' → SpelledAll (t :: ts) (b ++ (s ++ (b' ++ ',' :: s')))

end

mutual

/-- The type in which the names without arguments that are among the variables are variables. -/
def mark (vars : List String) : TypeExpr → TypeExpr
  | .wildcard => .wildcard
  | .var n => .var n
  | .named n [] => if n ∈ vars then .var n else .named n []
  | .named n (t :: rest) => .named n (mark vars t :: markAll vars rest)

/-- The same for several types. -/
def markAll (vars : List String) : List TypeExpr → List TypeExpr
  | [] => []
  | t :: rest => mark vars t :: markAll vars rest

end

/-! ## Marking variables -/

mutual

theorem mark_nil : ∀ t : TypeExpr, t.mark [] = t
  | .wildcard => by simp [mark]
  | .var _ => by simp [mark]
  | .named _ [] => by simp [mark]
  | .named _ (t :: rest) => by simp [mark, mark_nil t, markAll_nil rest]

theorem markAll_nil : ∀ ts : List TypeExpr, markAll [] ts = ts
  | [] => by simp [markAll]
  | t :: rest => by simp [markAll, mark_nil t, markAll_nil rest]

end

mutual

/-- Variables are written like names. -/
theorem text_mark (vars : List String) : ∀ t : TypeExpr, (t.mark vars).text = t.text
  | .wildcard => by simp [mark]
  | .var _ => by simp [mark]
  | .named n [] => by
      by_cases h : n ∈ vars
      · simp [mark, h, text]
      · simp [mark, h]
  | .named _ (t :: rest) => by simp [mark, text, text_mark vars t, moreText_markAll vars rest]

theorem moreText_markAll (vars : List String) :
    ∀ ts : List TypeExpr, moreText (markAll vars ts) = moreText ts
  | [] => by simp [markAll]
  | t :: rest => by simp [markAll, moreText, text_mark vars t, moreText_markAll vars rest]

end

theorem mark_ne_wildcard {vars : List String} {t : TypeExpr} (h : t ≠ .wildcard) :
    t.mark vars ≠ .wildcard := by
  match t with
  | .wildcard => exact absurd rfl h
  | .var _ => simp [mark]
  | .named n [] =>
      by_cases hn : n ∈ vars
      · simp [mark, hn]
      · simp [mark, hn]
  | .named _ (_ :: _) => simp [mark]

theorem mark_array (vars : List String) (t : TypeExpr) :
    t.array.mark vars = (t.mark vars).array := by
  simp [array, mark, markAll]

/-! ## The written form is a spelling -/

theorem blanks_nil : Blanks [] :=
  fun _ h => absurd h List.not_mem_nil

theorem blanks_space : Blanks [' '] := by
  intro c hc
  rw [List.mem_singleton.mp hc]
  decide

theorem ne_arrayName_of_isName {n : String} (h : IsName n) : n ≠ arrayName := by
  rintro rfl
  exact (h.2 '[' (by decide)).2 (by decide)

theorem spelledAll_text {rest : List TypeExpr} :
    ∀ {t : TypeExpr} {b : List Char}, Blanks b →
      (∀ a ∈ t :: rest, Spelled a a.text.toList) →
      SpelledAll (t :: rest) (b ++ (t.text.toList ++ (moreText rest).toList)) := by
  induction rest with
  | nil =>
      intro t b hb h
      exact .last hb (h t List.mem_cons_self) blanks_nil
  | cons u us ih =>
      intro t b hb h
      have hus := ih (t := u) blanks_space fun a ha => h a (List.mem_cons_of_mem _ ha)
      have hs := SpelledAll.more hb (h t List.mem_cons_self) blanks_nil hus
      simpa [moreText] using hs

theorem spelled_text {t : TypeExpr} (h : t.Proper) : Spelled t t.text.toList := by
  induction h with
  | wildcard => exact .wildcard
  | @named n args hn _ ih =>
      cases args with
      | nil => exact .plain hn
      | cons t rest =>
          have hs := Spelled.generic hn blanks_nil (spelledAll_text blanks_nil ih)
          simpa [text, ne_arrayName_of_isName hn] using hs
  | array _ hw ih =>
      have hs := Spelled.array ih hw blanks_nil
      simpa [array, text, arrayName] using hs

end ApiStubs.TypeExpr
