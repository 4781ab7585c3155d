import ApiStubs.Proofs.Indentation
import ApiStubs.Proofs.LiteralTexts
import ApiStubs.Proofs.Samples
import ApiStubs.Proofs.SpellingParsed
import ApiStubs.Proofs.UnbrokenTypes

/-!
# Keys of members

The type of a class declares a field for each member, by a text that starts with the key of the
field and ends with its type.  The key tells the name of the member, as the name itself or as a
literal of it (`Tells`).  Since the writer cuts texts into lines, the declaration is one line only
if no part of it has a line break.  Types have none (`Ts.unbroken_ofType`), and literals neither.

That leaves names which are taken for identifiers.  The test lets one line feed pass behind an
identifier, and a member with such a name has its declaration cut in two behind the key, which then
tells another name.  `Ts.member_keys_iff` says that this is the only way to go wrong, and
`Ts.Field.declaration_cut` that it happens.
-/

namespace ApiStubs

open Text (Unbroken Stands)
open Text.Identifier (isLine isPart isStart isWhole)

/-! ## Cutting into lines -/

namespace Text

theorem linesFrom_append {front : List Char} (h : '\r' ∉ front ∧ '\n' ∉ front)
    (word rest : List Char) :
    linesFrom word (front ++ rest) = linesFrom (front.reverse ++ word) rest := by
  induction front generalizing word with
  | nil => rfl
  | cons c front ih =>
      simp only [List.mem_cons, not_or] at h
      have hreturn : c ≠ '\r' := fun e => h.1.1 e.symm
      have hfeed : c ≠ '\n' := fun e => h.2.1 e.symm
      rw [List.cons_append, linesFrom.eq_5 word c _ (fun _ e _ => hreturn e) hreturn hfeed,
        ih ⟨h.1.2, h.2.2⟩, List.reverse_cons, List.append_assoc]
      rfl

theorem splitLines_unbroken {cs : List Char} (h : '\r' ∉ cs ∧ '\n' ∉ cs) :
    splitLines cs = [cs] := by
  have happend := linesFrom_append h [] []
  rw [List.append_nil, List.append_nil] at happend
  rw [splitLines, happend, linesFrom, List.reverse_reverse]

theorem splitLines_lineFeed {front back : List Char} (hfront : '\r' ∉ front ∧ '\n' ∉ front)
    (hback : '\r' ∉ back ∧ '\n' ∉ back) : splitLines (front ++ '\n' :: back) = [front, back] := by
  rw [splitLines, linesFrom_append hfront, List.append_nil, linesFrom, List.reverse_reverse,
    ← splitLines, splitLines_unbroken hback]

end Text

namespace Writer

theorem indent_of_shows {margin line : List Char} (h : Text.isBlankText line = false) :
    indent margin line = margin ++ line := by
  rw [indent, h, if_neg Bool.false_ne_true]

theorem indentLines_unbroken (margin : String) {s : String} (h : Unbroken s)
    (shows : Text.isBlankText s.toList = false) : indentLines margin s = [margin ++ s] := by
  rw [indentLines, Text.splitLines_unbroken h, List.map_singleton, indent_of_shows shows,
    ← String.toList_append, String.ofList_toList]

theorem indentLines_lineFeed (margin : String) {s t : String} (hs : Unbroken s) (ht : Unbroken t)
    (shows : Text.isBlankText s.toList = false) (shows' : Text.isBlankText t.toList = false) :
    indentLines margin (s ++ "\n" ++ t) = [margin ++ s, margin ++ t] := by
  have hlist : (s ++ "\n" ++ t).toList = s.toList ++ '\n' :: t.toList := by
    simp [String.toList_append]
  rw [indentLines, hlist, Text.splitLines_lineFeed hs ht, List.map_cons, List.map_singleton,
    indent_of_shows shows, indent_of_shows shows', ← String.toList_append, ← String.toList_append,
    String.ofList_toList, String.ofList_toList]

end Writer

/-! ## What operations add -/

namespace WriteOp

open Writer (indentLines)

/-- `Adds style margin ops lines`: to a writer of this style, under this margin, the operations add
these lines, and none of them fails. -/
def Adds (style : WriterStyle) (margin : String) (ops : List WriteOp) (lines : List String) :
    Prop :=
  ∀ w : Writer, w.style = style → String.join w.margins = margin →
    runAll ops w = (w.add lines, none)

def commentLines (style : WriterStyle) (margin : String) (ss : List String) : List String :=
  indentLines margin style.comment.opening ++
    ss.flatMap (indentLines (margin ++ style.comment.margin)) ++
    indentLines margin style.comment.closing

/-- The lines of a comment with one text, which is left out if the text is empty. -/
def noteLines (style : WriterStyle) (margin s : String) : List String :=
  if s.isEmpty then [] else commentLines style margin [s]

section

variable {style : WriterStyle} {margin : String} {ops more : List WriteOp}
  {lines others : List String}

theorem adds_nil : Adds style margin [] [] := by
  intro w _ _
  rw [runAll, Writer.add_nil]

theorem runAll_append {w v : Writer} (h : runAll ops w = (v, none)) :
    runAll (ops ++ more) w = runAll more v := by
  induction ops generalizing w with
  | nil =>
      rw [runAll] at h
      rw [List.nil_append, (Prod.mk.inj h).1]
  | cons op rest ih =>
      rw [runAll] at h
      rw [List.cons_append, runAll]
      split at h
      · exact ih h
      · cases h

theorem Adds.append (h : Adds style margin ops lines) (h' : Adds style margin more others) :
    Adds style margin (ops ++ more) (lines ++ others) := by
  intro w hstyle hmargin
  rw [runAll_append (h w hstyle hmargin), h' (w.add lines) hstyle hmargin, Writer.add_add]

theorem adds_flatMap {α : Type} {f : α → List WriteOp} {g : α → List String} {items : List α}
    (h : ∀ a ∈ items, Adds style margin (f a) (g a)) :
    Adds style margin (items.flatMap f) (items.flatMap g) := by
  induction items with
  | nil => exact adds_nil
  | cons a rest ih =>
      obtain ⟨ha, hrest⟩ := List.forall_mem_cons.mp h
      rw [List.flatMap_cons, List.flatMap_cons]
      exact ha.append (ih hrest)

theorem foldl_writeText_eq_add (ss : List String) (w : Writer) :
    ss.foldl Writer.writeText w = w.add (ss.flatMap (indentLines (String.join w.margins))) := by
  induction ss generalizing w with
  | nil => exact w.add_nil.symm
  | cons s rest ih =>
      rw [List.foldl_cons, ih, Writer.writeText_eq_add, Writer.add_add, List.flatMap_cons]
      rfl

theorem adds_texts (ss : List String) :
    Adds style margin [texts ss] (ss.flatMap (indentLines margin)) := by
  intro w _ hmargin
  rw [runAll_texts, foldl_writeText_eq_add, hmargin]

theorem adds_text (s : String) : Adds style margin [text s] (indentLines margin s) := by
  have h : Adds style margin [texts [s]] ([s].flatMap (indentLines margin)) := adds_texts [s]
  rwa [List.flatMap_singleton] at h

theorem Adds.block (h : Adds style (margin ++ style.indentUnit) ops lines) :
    Adds style margin [.block ops] lines := by
  intro w hstyle hmargin
  have hinner : String.join (w.margins ++ [style.indentUnit]) = margin ++ style.indentUnit := by
    rw [String.join_append, hmargin]
    simp
  rw [runAll_singleton, run, Writer.openBlock, hstyle,
    h (w.push style.indentUnit) hstyle hinner, Writer.closeBlock, Writer.pop_add_push]

theorem adds_comment (ss : List String) :
    Adds style margin [comment [texts ss]] (commentLines style margin ss) := by
  intro w hstyle hmargin
  have hinner : String.join (w.margins ++ [style.comment.margin]) =
      margin ++ style.comment.margin := by
    rw [String.join_append, hmargin]
    simp
  let opening := indentLines margin style.comment.opening
  have hopen : w.openComment = (w.add opening).push style.comment.margin := by
    rw [Writer.openComment, Writer.writeText_eq_add, hstyle, hmargin]
  rw [runAll_singleton, run, hopen,
    adds_texts ss ((w.add opening).push style.comment.margin) hstyle hinner]
  show ((((w.add opening).push style.comment.margin).add _).pop.writeText
    w.style.comment.closing, none) = _
  rw [Writer.pop_add_push, Writer.add_add, Writer.writeText_eq_add, Writer.add_add, hstyle]
  show (w.add (_ ++ indentLines (String.join w.margins) _), none) = _
  rw [hmargin]
  rfl

theorem adds_note (s : String) : Adds style margin (note s) (noteLines style margin s) := by
  unfold note noteLines
  split
  · exact adds_nil
  · exact adds_comment [s]

end

end WriteOp

/-! ## Names taken for identifiers -/

namespace Text

theorem isPart_of_isWhole {cs : List Char} (h : isWhole cs = true) :
    ∀ c ∈ cs, isPart c = true := by
  cases cs with
  | nil => exact fun _ h => absurd h List.not_mem_nil
  | cons c rest =>
      obtain ⟨hc, hrest⟩ := Bool.and_eq_true_iff.mp h
      refine List.forall_mem_cons.mpr ⟨?_, List.all_eq_true.mp hrest⟩
      simp only [isStart, isPart, Char.isAlphanum, Bool.or_eq_true] at hc ⊢
      tauto

theorem unbroken_of_isWhole {s : String} (h : isWhole s.toList = true) : Unbroken s := by
  refine unbroken_of_forall fun c hc => ⟨?_, ?_⟩
  · rintro rfl
    exact absurd (isPart_of_isWhole h _ hc) (by decide)
  · rintro rfl
    exact absurd (isPart_of_isWhole h _ hc) (by decide)

theorem isBlank_of_isPart {c : Char} (h : isPart c = true) : isBlank c = false := by
  have hmarks : isBlank '_' = false ∧ isBlank '$' = false := by decide
  simp only [isPart, Bool.or_eq_true, decide_eq_true_eq] at h
  rcases h with (h | rfl) | rfl
  · simp only [Char.isAlphanum, Char.isAlpha, Char.isUpper, Char.isLower, Char.isDigit,
      UInt32.le_iff_toNat_le, Char.reduceVal, UInt32.reduceToNat, Bool.or_eq_true,
      Bool.and_eq_true, decide_eq_true_eq] at h
    simp only [isBlank, inRanges, blankRanges, List.any_cons, List.any_nil, Bool.or_false,
      Bool.or_eq_false_iff, Bool.and_eq_false_iff, decide_eq_false_iff_not, Char.toNat]
    omega
  · exact hmarks.1
  · exact hmarks.2

theorem shows_of_isWhole {s : String} (h : isWhole s.toList = true) :
    isBlankText s.toList = false := by
  have hne : s.toList ≠ [] := by
    intro hnil
    rw [hnil] at h
    exact absurd h (by decide)
  obtain ⟨c, hc⟩ := List.exists_mem_of_ne_nil _ hne
  exact TypeExpr.isBlankText_eq_false ⟨c, hc, isBlank_of_isPart (isPart_of_isWhole h c hc)⟩

/-- The test for identifiers lets a line feed pass at the end. -/
theorem isLine_iff {s : String} : isLine s.toList = true ↔
    isWhole s.toList = true ∨ ∃ n : String, isWhole n.toList = true ∧ s = n ++ "\n" := by
  have hfeed : "\n".toList = ['\n'] := by rfl
  simp only [isLine, Bool.or_eq_true, Bool.and_eq_true, beq_iff_eq]
  refine or_congr Iff.rfl ⟨?_, ?_⟩
  · rintro ⟨hlast, hwhole⟩
    refine ⟨String.ofList s.toList.dropLast, by rwa [String.toList_ofList], ?_⟩
    rw [← String.toList_inj, String.toList_append, String.toList_ofList, hfeed]
    exact (List.dropLast_append_getLast? _ hlast).symm
  · rintro ⟨n, hn, rfl⟩
    rw [String.toList_append, hfeed, List.getLast?_append, List.dropLast_concat]
    exact ⟨rfl, hn⟩

theorem quote_not_mem_of_isLine {s : String} (h : isLine s.toList = true) : '\'' ∉ s.toList := by
  have hpart : ∀ {n : String}, isWhole n.toList = true → '\'' ∉ n.toList :=
    fun hn hquote => absurd (isPart_of_isWhole hn _ hquote) (by decide)
  rcases isLine_iff.mp h with h | ⟨n, hn, rfl⟩
  · exact hpart h
  · simp [String.toList_append, hpart hn]

end Text

namespace Ts

open WriteOp (Adds commentLines noteLines)
open Writer (indentLines)

/-! ## Declarations of fields -/

/-- The mark of a field that may be missing, and its type. -/
def Field.signature (f : Field) : String :=
  (if f.optional then "?" else "") ++ ": " ++ typeText f.type ++ ";"

def Field.declaration (f : Field) : String :=
  f.key ++ f.signature

def Field.lines (style : WriterStyle) (margin : String) (f : Field) : List String :=
  noteLines style margin f.description ++ indentLines margin f.declaration

theorem Field.adds (style : WriterStyle) (margin : String) (f : Field) :
    Adds style margin f.ops (f.lines style margin) := by
  have hops : f.ops = WriteOp.note f.description ++ [WriteOp.text f.declaration] := by
    simp only [ops, declaration, signature, String.append_assoc]
  rw [hops]
  exact (WriteOp.adds_note f.description).append (WriteOp.adds_text f.declaration)

/-- `Tells name key`: the key is the name itself, which is an identifier then, or a single-quoted
literal that reads back as the name. -/
def Tells (name key : String) : Prop :=
  (key = name ∧ isWhole name.toList = true) ∨
    ∃ body, key = String.ofList ('\'' :: body ++ ['\'']) ∧
      Stands '\'' Text.HexEscaped.decode body name.toList

/-- The declaration of a field is one line, and what it starts with tells the name of the field. -/
def Field.OneLine (margin : String) (f : Field) : Prop :=
  ∃ key, Tells f.name key ∧ indentLines margin f.declaration = [margin ++ key ++ f.signature]

section

variable {f : Field}

theorem Field.shows_signature (f : Field) (front : String) :
    Text.isBlankText (front ++ f.signature).toList = false := by
  refine TypeExpr.isBlankText_eq_false ⟨':', ?_, by decide⟩
  simp [signature, String.toList_append]

theorem Field.unbroken_signature (htype : Unbroken (typeText f.type)) : Unbroken f.signature := by
  have hmark : Unbroken (if f.optional then "?" else "") := by
    split
    · decide
    · decide
  have hmarks : Unbroken ": " ∧ Unbroken ";" := by decide
  simp [signature, hmark, htype, hmarks]

/-- A key without line breaks that tells the name. -/
theorem Field.oneLine (htype : Unbroken (typeText f.type)) {key : String} (hkey : f.key = key)
    (tells : Tells f.name key) (unbroken : Unbroken key) (margin : String) : f.OneLine margin := by
  refine ⟨key, tells, ?_⟩
  rw [declaration, hkey, String.append_assoc]
  exact Writer.indentLines_unbroken margin
    (Text.unbroken_append_iff.mpr ⟨unbroken, unbroken_signature htype⟩) (f.shows_signature key)

/-- Behind an identifier with a line feed the declaration goes on in another line. -/
theorem Field.declaration_cut (htype : Unbroken (typeText f.type)) {n : String}
    (hn : isWhole n.toList = true) (hname : f.name = n ++ "\n") (margin : String) :
    indentLines margin f.declaration = [margin ++ n, margin ++ f.signature] := by
  have hkey : f.key = n ++ "\n" := by
    rw [key, if_pos (Text.isLine_iff.mpr (.inr ⟨n, hn, hname⟩)), hname]
  have hshows : Text.isBlankText f.signature.toList = false := by
    simpa using f.shows_signature ""
  rw [declaration, hkey]
  exact Writer.indentLines_lineFeed margin (Text.unbroken_of_isWhole hn) (unbroken_signature htype)
    (Text.shows_of_isWhole hn) hshows

theorem Field.oneLine_iff (htype : Unbroken (typeText f.type)) (margin : String) :
    f.OneLine margin ↔ ¬ ∃ n : String, isWhole n.toList = true ∧ f.name = n ++ "\n" := by
  constructor
  · rintro ⟨key, _, hline⟩ ⟨n, hn, hname⟩
    rw [declaration_cut htype hn hname] at hline
    exact absurd (congrArg List.length hline) (by simp)
  · intro hname
    by_cases hline : isLine f.name.toList = true
    · have hwhole := (Text.isLine_iff.mp hline).resolve_right hname
      exact oneLine htype (by rw [key, if_pos hline]) (.inl ⟨rfl, hwhole⟩)
        (Text.unbroken_of_isWhole hwhole) margin
    · have stands := Text.HexEscaped.stands f.name
      have hkey : f.key = Text.singleQuoted f.name := by rw [key, if_neg hline]
      refine oneLine htype hkey (.inr ⟨_, rfl, stands⟩) ?_ margin
      simp [Unbroken, Text.singleQuoted, stands.unbroken]

/-- Fields with distinct names have distinct keys. -/
theorem Field.name_eq_of_key_eq {g : Field} (h : f.key = g.key) : f.name = g.name := by
  have hquote : ∀ {s t : String}, isLine s.toList = true → s ≠ Text.singleQuoted t := by
    rintro s t hs rfl
    exact Text.quote_not_mem_of_isLine hs (by simp [Text.singleQuoted])
  unfold key at h
  split at h
  · rename_i hf
    split at h
    · exact h
    · exact absurd h (hquote hf)
  · split at h
    · rename_i hg
      exact absurd h.symm (hquote hg)
    · exact Text.singleQuoted_injective h

end

/-! ## Types of classes -/

/-- The lines of a type with fields: its documentation, its head, its fields and what closes it. -/
def TypeDefinition.recordLines (style : WriterStyle) (margin : String) (t : TypeDefinition)
    (parent : Option Resolved) (fields : List Field) : List String :=
  commentLines style margin [t.title, "@iface " ++ t.className] ++
    (indentLines margin ("export interface " ++ interfaceHead t.head parent ++ " \x7b") ++
    (fields.flatMap (Field.lines style (margin ++ style.indentUnit)) ++
    ["\x7d", ""].flatMap (indentLines margin)))

theorem TypeDefinition.adds_record (style : WriterStyle) (margin : String) {t : TypeDefinition}
    {parent : Option Resolved} {fields : List Field} (hbody : t.body = .record parent fields)
    (hfields : fields ≠ []) :
    Adds style margin t.ops (t.recordLines style margin parent fields) := by
  have hops : t.ops = [.comment [.texts [t.title, "@iface " ++ t.className]]] ++
      ([.text ("export interface " ++ interfaceHead t.head parent ++ " \x7b")] ++
      ([.block (fields.flatMap Field.ops)] ++ [.texts ["\x7d", ""]])) := by
    rw [ops, hbody]
    cases fields with
    | nil => exact absurd rfl hfields
    | cons f rest => rfl
  have hblock : Adds style margin [.block (fields.flatMap Field.ops)]
      (fields.flatMap (Field.lines style (margin ++ style.indentUnit))) :=
    .block (WriteOp.adds_flatMap fun f _ => f.adds style _)
  rw [hops]
  exact (WriteOp.adds_comment _).append
    ((WriteOp.adds_text _).append (hblock.append (WriteOp.adds_texts _)))

theorem TypeBody.exists_ofClass_eq_record (table : DeclarationTable) {c : Class}
    (h : c.members ≠ []) :
    ∃ parent, ofClass table c = .record parent (c.members.map (Field.ofMember table)) := by
  cases hm : c.members with
  | nil => exact absurd hm h
  | cons m rest =>
      simp only [ofClass, hm]
      exact ⟨_, rfl⟩

theorem unbroken_member_type {raw : Json.Value} {options : BuildOptions} {model : Model}
    (assembled : Model.ofJson (Build.modelOptions .ts options) raw = .ok model) {c : Class}
    (held : model.table.Holds c) {m : Member} (hm : m ∈ c.members) :
    Unbroken (typeText (Field.ofMember model.table m).type) := by
  obtain ⟨graph, decoded, rfl⟩ := Model.ofJson_eq_ok_iff.mp assembled
  show Unbroken (typeText (Resolved.ofType? _ m.type))
  cases ht : m.type with
  | none => exact unbroken_unknown
  | some t =>
      have hseparator : Unbroken Target.ts.separator := by decide
      exact unbroken_ofType (fun n hn d hd => Assembly.unbroken_simpleName hseparator hn hd)
        (Model.unbroken_member decoded held hm ht)

/-- The type of a class with members declares a field for each of them, in order.  The declaration
is one line with a key that tells the name of the member, exactly if that name is no identifier with
a line feed behind it.  Of a member with such a name the declaration is cut in two behind the
identifier.  Keys are distinct if names are. -/
theorem member_keys_iff {raw : Json.Value} {options : BuildOptions} {model : Model}
    (assembled : Model.ofJson (Build.modelOptions .ts options) raw = .ok model) {c : Class}
    (held : model.table.Holds c) (members : c.members ≠ []) (w : Writer) :
    (∃ parent, WriteOp.runAll (TypeDefinition.ofClass model.table c).ops w =
      (w.add ((TypeDefinition.ofClass model.table c).recordLines w.style (String.join w.margins)
        parent (c.members.map (Field.ofMember model.table))), none)) ∧
    (∀ m ∈ c.members, ∀ margin, (Field.ofMember model.table m).OneLine margin ↔
      ¬ ∃ n : String, isWhole n.toList = true ∧ m.name = n ++ "\n") ∧
    (∀ m ∈ c.members, ∀ margin n, isWhole n.toList = true → m.name = n ++ "\n" →
      indentLines margin (Field.ofMember model.table m).declaration =
        [margin ++ n, margin ++ (Field.ofMember model.table m).signature]) ∧
    ∀ m ∈ c.members, ∀ m' ∈ c.members, m.name ≠ m'.name →
      (Field.ofMember model.table m).key ≠ (Field.ofMember model.table m').key := by
  refine ⟨?_, ?_, ?_, ?_⟩
  · obtain ⟨parent, hbody⟩ := TypeBody.exists_ofClass_eq_record model.table members
    have hfields : c.members.map (Field.ofMember model.table) ≠ [] := by simpa using members
    exact ⟨parent, (TypeDefinition.ofClass model.table c).adds_record w.style
      (String.join w.margins) hbody hfields w rfl rfl⟩
  · intro m hm margin
    exact Field.oneLine_iff (unbroken_member_type assembled held hm) margin
  · intro m hm margin n hn hname
    exact Field.declaration_cut (unbroken_member_type assembled held hm) hn hname margin
  · intro m _ m' _ hname hkey
    exact hname (Field.name_eq_of_key_eq hkey)

def numbersNamed (names : List String) : List (String × TypeExpr) :=
  names.map fun name => (name, .named "int" [])

/-- Members with a plain name, with a line break and with a quote in the name. -/
def keyMembers : List (String × TypeExpr) :=
  numbersNamed ["id", "two\nlines", "it's"]

theorem member_keys_order :
    let c := Class.sample keyMembers
    ∃ model, Model.ofJson (Build.modelOptions .ts (.ofTexts true none none none))
        (Graph.ofMembers keyMembers).sampleJson = .ok model ∧
      model.table.Holds c ∧ c.members ≠ [] ∧
      (WriteOp.runAll (TypeDefinition.ofClass model.table c).ops (.new .standard)).1.lines.toList =
        ["/**", " * Order", " * @iface app.Order", " */", "export interface Order \x7b",
          "  id?: number;", "  'two\\x0alines'?: number;", "  'it\\x27s'?: number;", "\x7d", ""] ∧
      ∀ m ∈ c.members, (Field.ofMember model.table m).OneLine "  " := by
  intro c
  have decoded : Graph.decode (Graph.ofMembers keyMembers).sampleJson =
      .ok (Graph.ofMembers keyMembers) := by rfl
  have assembled := Graph.ofJson_sampleJson decoded .ts
  have held : ((Graph.ofMembers keyMembers).sampleModel .ts).table.Holds c := by rfl
  have members : c.members ≠ [] := List.cons_ne_nil _ _
  obtain ⟨_, oneLine, _⟩ := member_keys_iff assembled held members (.new .standard)
  refine ⟨_, assembled, held, members, by decide +kernel, fun m hm => (oneLine m hm "  ").mpr ?_⟩
  rintro ⟨n, _, hname⟩
  have hlast : ∀ m ∈ c.members, m.name.toList.getLast? ≠ some '\n' := by decide +kernel
  exact hlast m hm (by simp [hname, String.toList_append])

def cutMembers : List (String × TypeExpr) :=
  numbersNamed ["foo\n"]

/-- The declaration of a member whose name has a line feed at the end. -/
theorem foo_declaration_cut : ∃ result,
    build (.string Target.ts.name) (.string "") (Graph.ofMembers cutMembers).sampleJson
      (.ofTexts true none none none) = .ok result ∧
    ["export interface Order \x7b", "  foo", "  ?: number;", "\x7d"] <:+:
      result.writer.lines.toList ∧
    ∃ model document, Writes (.string "") (Graph.ofMembers cutMembers).sampleJson
      (.ofTexts true none none none) result model document ∧
      ∃ c ∈ model.classes, ∃ m ∈ c.members, m.name = "foo\n" ∧
        ¬ (Field.ofMember model.table m).OneLine "  " := by
  have decoded : Graph.decode (Graph.ofMembers cutMembers).sampleJson =
      .ok (Graph.ofMembers cutMembers) := by rfl
  obtain ⟨result, built⟩ := build_ok_of_decode decoded .ts "" true
  obtain ⟨model, document, writes⟩ := exists_writes built
  have hdocument := writes.document_eq
  cases Model.eq_assemble_of_decode decoded writes.assembled
  let model := Model.assemble (Build.modelOptions .ts (.ofTexts true none none none))
    (Graph.ofMembers cutMembers)
  have held : model.table.Holds (.sample cutMembers) := by rfl
  have hclasses : model.classes = [.sample cutMembers] :=
    Class.eq_of_names_eq Model.settled_classes.held (by simpa using held) (by decide +kernel)
  have hlines : ["export interface Order \x7b", "  foo", "  ?: number;", "\x7d"] <:+:
      (WriteOp.runAll document.ops (.new .standard)).1.lines.toList := by
    rw [hdocument]
    decide +kernel
  rw [Build.runAll_of_write writes.written] at hlines
  refine ⟨result, built, hlines, model, document, writes, .sample cutMembers, by simp [hclasses],
    _, List.mem_cons_self, rfl, fun honeLine => ?_⟩
  have htype := unbroken_member_type writes.assembled held List.mem_cons_self
  exact (Field.oneLine_iff htype "  ").mp honeLine ⟨"foo", by decide, by decide⟩

end Ts

end ApiStubs
