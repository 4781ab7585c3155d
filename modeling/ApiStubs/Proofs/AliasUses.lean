import ApiStubs.Proofs.Registering

/-!
# The uses of auxiliary names

A written type is a sequence of pieces, some of which use an auxiliary name.  What a resolver
registers is to be what the pieces of its results use, in the order of first use, and nothing else
(`ResolveCall.registers_uses`).

Whether a type uses a name at all is a question about its source: the types that it is resolved by
are those of `Enters`, and each is written by at most one name of its own, `TypeExpr.auxiliary?`.
A key that is dropped and an argument beyond the type parameters are not entered.
-/

namespace ApiStubs

open Relation

/-! ## Pieces -/

/-- The name where it is used.  The one with a parameter is defined and used differently. -/
def Alias.symbol : Alias → String
  | .optional => "Optional"
  | a => a.name

/-- What a written type is made of: texts and uses of auxiliary names. -/
inductive Piece where
  | text (s : String)
  | use (a : Alias)

namespace Piece

def written : Piece → String
  | text s => s
  | use a => a.symbol

def use? : Piece → Option Alias
  | text _ => none
  | use a => some a

def writtenAll (pieces : List Piece) : String :=
  String.join (pieces.map written)

/-- The names that several pieces use, from left to right. -/
def uses (pieces : List Piece) : List Alias :=
  pieces.filterMap use?

def separated (items : List (List Piece)) : List Piece :=
  [text ", "].intercalate items

@[simp] theorem writtenAll_nil : writtenAll [] = "" :=
  rfl

@[simp] theorem writtenAll_cons (p : Piece) (pieces : List Piece) :
    writtenAll (p :: pieces) = p.written ++ writtenAll pieces :=
  String.join_cons

@[simp] theorem writtenAll_append (pieces others : List Piece) :
    writtenAll (pieces ++ others) = writtenAll pieces ++ writtenAll others := by
  unfold writtenAll
  rw [List.map_append, String.join_append]

@[simp] theorem uses_append (pieces others : List Piece) :
    uses (pieces ++ others) = uses pieces ++ uses others :=
  List.filterMap_append

theorem writtenAll_text (s : String) : writtenAll [text s] = s := by
  simp [written]

theorem writtenAll_enclosed (opening closing : String) (pieces : List Piece) :
    writtenAll (text opening :: pieces ++ [text closing]) =
      opening ++ writtenAll pieces ++ closing := by
  rw [writtenAll_append, writtenAll_cons, writtenAll_text]
  rfl

theorem uses_closed (closing : String) (pieces : List Piece) :
    uses (pieces ++ [text closing]) = uses pieces := by
  rw [uses_append]
  exact List.append_nil _

theorem separated_cons_cons (item other : List Piece) (rest : List (List Piece)) :
    separated (item :: other :: rest) = item ++ text ", " :: separated (other :: rest) := by
  simp [separated, List.intercalate]

theorem writtenAll_separated (items : List (List Piece)) :
    writtenAll (separated items) = ", ".intercalate (items.map writtenAll) := by
  induction items with
  | nil => rfl
  | cons item rest ih =>
      cases rest with
      | nil => simp [separated, List.intercalate]
      | cons other rest =>
          rw [separated_cons_cons, writtenAll_append, writtenAll_cons, ih, List.map_cons,
            List.map_cons, List.map_cons, String.intercalate_cons_cons, String.append_assoc]
          rfl

theorem uses_separated (items : List (List Piece)) :
    uses (separated items) = items.flatMap uses := by
  induction items with
  | nil => rfl
  | cons item rest ih =>
      cases rest with
      | nil => simp [separated, List.intercalate]
      | cons other rest =>
          rw [separated_cons_cons, uses_append, List.flatMap_cons, ← ih]
          rfl

end Piece

namespace Ts

open Piece

def genericPieces (name : String) (args : List (List Piece)) : List Piece :=
  if args.isEmpty then [.text name] else .text name :: .text "<" :: separated args ++ [.text ">"]

mutual

def pieces : Resolved → List Piece
  | .unknown => [.text unknownType]
  | .void => [.text "void"]
  | .var name => [.text name]
  | .special type => [.use (Alias.ofSpecial type)]
  | .primitive type => [.text (primitiveText type)]
  | .map none value => .text "Record<PropertyKey, " :: pieces value ++ [.text ">"]
  | .map (some key) value =>
    .text "Record<" :: pieces key ++ .text ", " :: pieces value ++ [.text ">"]
  | .list item => pieces item ++ [.text "[]"]
  | .optional content => .use .optional :: .text "<" :: pieces content ++ [.text ">"]
  | .tuple items => .text "[ " :: separated (piecesEach items) ++ [.text " ]"]
  | .ofClass c args => genericPieces c.simpleName (piecesEach args)
  | .ofEnum e => [.text e.simpleName]

def piecesEach : List Resolved → List (List Piece)
  | [] => []
  | w :: rest => pieces w :: piecesEach rest

end

theorem writtenAll_genericPieces (name : String) (args : List (List Piece)) :
    writtenAll (genericPieces name args) = genericText name (args.map writtenAll) := by
  cases args with
  | nil => exact writtenAll_text name
  | cons arg rest =>
      show writtenAll (.text name :: (.text "<" :: separated (arg :: rest) ++ [.text ">"])) =
        name ++ "<" ++ ", ".intercalate ((arg :: rest).map writtenAll) ++ ">"
      rw [writtenAll_cons, writtenAll_enclosed, writtenAll_separated, String.append_assoc,
        String.append_assoc, String.append_assoc]
      rfl

theorem uses_genericPieces (name : String) (args : List (List Piece)) :
    uses (genericPieces name args) = args.flatMap uses := by
  cases args with
  | nil => rfl
  | cons arg rest =>
      show uses (separated (arg :: rest) ++ [.text ">"]) = _
      rw [uses_closed, uses_separated]

mutual

theorem writtenAll_pieces : ∀ w : Resolved, writtenAll (pieces w) = typeText w
  | .unknown => rfl
  | .void => rfl
  | .var name => writtenAll_text name
  | .special type => by cases type <;> rfl
  | .primitive type => writtenAll_text (primitiveText type)
  | .map none value => by
      show writtenAll (.text "Record<PropertyKey, " :: pieces value ++ [.text ">"]) =
        "Record<PropertyKey, " ++ typeText value ++ ">"
      rw [writtenAll_enclosed, writtenAll_pieces value]
  | .map (some key) value => by
      show writtenAll (.text "Record<" :: (pieces key ++ .text ", " :: pieces value) ++
        [.text ">"]) = "Record<" ++ typeText key ++ ", " ++ typeText value ++ ">"
      rw [writtenAll_enclosed, writtenAll_append, writtenAll_cons, writtenAll_pieces key,
        writtenAll_pieces value, ← String.append_assoc, ← String.append_assoc]
      rfl
  | .list item => by
      show writtenAll (pieces item ++ [.text "[]"]) = typeText item ++ "[]"
      rw [writtenAll_append, writtenAll_text, writtenAll_pieces item]
  | .optional content => by
      show writtenAll (.use .optional :: (.text "<" :: pieces content ++ [.text ">"])) =
        "Optional<" ++ typeText content ++ ">"
      -- The name and the bracket after it are one text but two pieces.
      rw [writtenAll_cons, writtenAll_enclosed, writtenAll_pieces content, ← String.append_assoc,
        ← String.append_assoc]
      rfl
  | .tuple items => by
      show writtenAll (.text "[ " :: separated (piecesEach items) ++ [.text " ]"]) =
        "[ " ++ ", ".intercalate (typeTexts items) ++ " ]"
      rw [writtenAll_enclosed, writtenAll_separated, writtenAll_piecesEach items]
  | .ofClass c args => by
      show writtenAll (genericPieces c.simpleName (piecesEach args)) =
        genericText c.simpleName (typeTexts args)
      rw [writtenAll_genericPieces, writtenAll_piecesEach args]
  | .ofEnum e => writtenAll_text e.simpleName

theorem writtenAll_piecesEach : ∀ ws : List Resolved,
    (piecesEach ws).map writtenAll = typeTexts ws
  | [] => rfl
  | w :: rest => by
      show writtenAll (pieces w) :: (piecesEach rest).map writtenAll = typeText w :: typeTexts rest
      rw [writtenAll_pieces w, writtenAll_piecesEach rest]

end

mutual

theorem uses_pieces : ∀ w : Resolved, uses (pieces w) = w.aliases
  | .unknown => rfl
  | .void => rfl
  | .var _ => rfl
  | .special _ => rfl
  | .primitive _ => rfl
  | .map none value => by
      show uses (pieces value ++ [.text ">"]) = value.aliases
      rw [uses_closed, uses_pieces value]
  | .map (some key) value => by
      show uses ((pieces key ++ .text ", " :: pieces value) ++ [.text ">"]) =
        key.aliases ++ value.aliases
      rw [uses_closed, uses_append, uses_pieces key, ← uses_pieces value]
      rfl
  | .list item => by
      show uses (pieces item ++ [.text "[]"]) = item.aliases
      rw [uses_closed, uses_pieces item]
  | .optional content => by
      show .optional :: uses (pieces content ++ [.text ">"]) = .optional :: content.aliases
      rw [uses_closed, uses_pieces content]
  | .tuple items => by
      show uses (separated (piecesEach items) ++ [.text " ]"]) = Resolved.aliasesOfAll items
      rw [uses_closed, uses_separated, uses_piecesEach items]
  | .ofClass c args => by
      show uses (genericPieces c.simpleName (piecesEach args)) = Resolved.aliasesOfAll args
      rw [uses_genericPieces, uses_piecesEach args]
  | .ofEnum _ => rfl

theorem uses_piecesEach : ∀ ws : List Resolved,
    (piecesEach ws).flatMap uses = Resolved.aliasesOfAll ws
  | [] => rfl
  | w :: rest => by
      show uses (pieces w) ++ (piecesEach rest).flatMap uses =
        w.aliases ++ Resolved.aliasesOfAll rest
      rw [uses_pieces w, uses_piecesEach rest]

end

end Ts

/-! ## What is written by a name of its own -/

/-- The auxiliary name that a type is written by, apart from those inside it. -/
def TypeExpr.auxiliary? : TypeExpr → Option Alias
  | wildcard => none
  | var _ => none
  | named n args =>
    match TypeKind.ofName n with
    | .decimal => some .bigDecimal
    | .bigInteger => some .bigInteger
    | .fileUpload => some .multipartFile
    | .wideInteger => some .long
    | .wrapper => if args.isEmpty then none else some .optional
    | _ => none

namespace Resolved

/-- The auxiliary name that a resolved type is written by, apart from those inside it. -/
def alias? : Resolved → Option Alias
  | special type => some (Alias.ofSpecial type)
  | optional _ => some .optional
  | _ => none

theorem aliases_eq (w : Resolved) : w.aliases = w.alias?.toList ++ w.parts.flatMap aliases := by
  cases w with
  | map key value =>
      cases key with
      | none => exact (List.append_nil _).symm
      | some key => exact congrArg (key.aliases ++ ·) (List.append_nil _).symm
  | list item => exact (List.append_nil _).symm
  | optional content => exact congrArg (Alias.optional :: ·) (List.append_nil _).symm
  | tuple items => exact aliasesOfAll_eq_flatMap items
  | ofClass c args => exact aliasesOfAll_eq_flatMap args
  | _ => rfl

theorem sizeOf_lt_of_mem_parts {s w : Resolved} (h : s ∈ w.parts) : sizeOf s < sizeOf w := by
  cases w with
  | map key value =>
      rw [map.sizeOf_spec]
      rcases List.mem_append.mp h with hkey | hvalue
      · cases key with
        | none => exact absurd hkey List.not_mem_nil
        | some key =>
            rw [List.mem_singleton.mp hkey, Option.some.sizeOf_spec]
            omega
      · rw [List.mem_singleton.mp hvalue]
        omega
  | list item =>
      rw [List.mem_singleton.mp h, list.sizeOf_spec]
      omega
  | optional content =>
      rw [List.mem_singleton.mp h, optional.sizeOf_spec]
      omega
  | tuple items =>
      have hitem : sizeOf s < sizeOf items := List.sizeOf_lt_of_mem h
      rw [tuple.sizeOf_spec]
      omega
  | ofClass c args =>
      have harg : sizeOf s < sizeOf args := List.sizeOf_lt_of_mem h
      rw [ofClass.sizeOf_spec]
      omega
  | _ => exact absurd h List.not_mem_nil

theorem exists_within_of_mem_aliases {a : Alias} (w : Resolved) (h : a ∈ w.aliases) :
    ∃ r, Within r w ∧ r.alias? = some a := by
  rw [aliases_eq] at h
  rcases List.mem_append.mp h with h | h
  · exact ⟨w, .self, Option.mem_toList.mp h⟩
  · obtain ⟨s, hs, ha⟩ := List.mem_flatMap.mp h
    -- The recursion is on the size, since a part may stand in a list.
    have hsize := sizeOf_lt_of_mem_parts hs
    obtain ⟨r, hr, hra⟩ := exists_within_of_mem_aliases s ha
    exact ⟨r, .part hs hr, hra⟩
termination_by sizeOf w

theorem mem_aliases_of_within {a : Alias} {r w : Resolved} (h : Within r w)
    (ha : r.alias? = some a) : a ∈ w.aliases := by
  induction h with
  | self =>
      rw [aliases_eq]
      exact List.mem_append_left _ (Option.mem_toList.mpr ha)
  | part hs _ ih =>
      rw [aliases_eq]
      exact List.mem_append_right _ (List.mem_flatMap.mpr ⟨_, hs, ih⟩)

variable {table : DeclarationTable}

theorem alias?_ofType (t : TypeExpr) : (ofType table t).alias? = t.auxiliary? := by
  match t with
  | .wildcard => rw [ofType]; rfl
  | .var n => rw [ofType]; rfl
  | .named n args =>
      rw [ofType, ofTypes_eq_map, ofNamed.eq_def, TypeExpr.auxiliary?]
      cases TypeKind.ofName n with
      | wrapper =>
          cases args with
          | nil => rfl
          | cons _ _ => rfl
      | declared =>
          show (ofDeclared table n _).alias? = none
          unfold ofDeclared
          cases table.find? n with
          | none => rfl
          | some d =>
              cases d with
              | ofClass c => rfl
              | ofEnum e => rfl
      | _ => rfl

/-- Where a type is entered, the meaning of its argument is a part of its own. -/
theorem mem_parts_of_enters {t b : TypeExpr} (h : Enters table t b) :
    ofType table b ∈ (ofType table t).parts := by
  cases h with
  | key hn hk => simp [ofType, ofTypes_eq_map, ofNamed, hn, ofMap, hk, parts]
  | value hn => simp [ofType, ofTypes_eq_map, ofNamed, hn, ofMap, parts]
  | item hn => simp [ofType, ofTypes_eq_map, ofNamed, hn, parts]
  | content hn => simp [ofType, ofTypes_eq_map, ofNamed, hn, parts]
  | component hn hb =>
      simp only [ofType, ofTypes_eq_map, ofNamed, hn, parts]
      exact List.mem_map_of_mem hb
  | argument hn hd hb =>
      simp only [ofType, ofTypes_eq_map, ofNamed, hn, ofDeclared, hd, parts, fit, ← List.map_take]
      exact List.mem_append_left _ (List.mem_map_of_mem hb)

theorem within_of_enters {t s : TypeExpr} (h : ReflTransGen (Enters table) t s) :
    Within (ofType table s) (ofType table t) := by
  induction h using ReflTransGen.head_induction_on with
  | refl => exact .self
  | head hb _ ih => exact .part (mem_parts_of_enters hb) ih

/-- A type uses a name if it is resolved by a type that is written by this name. -/
theorem mem_aliases_ofType_iff {t : TypeExpr} {a : Alias} :
    a ∈ (ofType table t).aliases ↔
      ∃ s, ReflTransGen (Enters table) t s ∧ s.auxiliary? = some a := by
  constructor
  · intro h
    obtain ⟨r, hr, ha⟩ := exists_within_of_mem_aliases _ h
    rcases within_ofType hr with hu | ⟨s, hs, hrs⟩
    · rw [hu] at ha
      cases ha
    · exact ⟨s, hs, by rw [← alias?_ofType, ← hrs, ha]⟩
  · rintro ⟨s, hs, ha⟩
    exact mem_aliases_of_within (within_of_enters hs) (by rw [alias?_ofType, ha])

end Resolved

/-! ## Calls one after the other -/

namespace ResolveCall

/-- What the type of a call means. -/
def resolved (call : ResolveCall) : Resolved :=
  Resolved.ofType? call.table call.type

def pieces (call : ResolveCall) : List Piece :=
  Ts.pieces call.resolved

/-- The type of the call is resolved by a type that is written by `a`. -/
def Uses (call : ResolveCall) (a : Alias) : Prop :=
  ∃ t ∈ call.type, ∃ s, ReflTransGen (Enters call.table) t s ∧ s.auxiliary? = some a

theorem mem_aliases_resolved_iff {call : ResolveCall} {a : Alias} :
    a ∈ call.resolved.aliases ↔ call.Uses a := by
  obtain ⟨table, type, nested⟩ := call
  cases type with
  | none => exact iff_of_false List.not_mem_nil fun ⟨_, ht, _⟩ => absurd ht (Option.not_mem_none _)
  | some t =>
      have h : a ∈ (Resolved.ofType table t).aliases ↔ _ := Resolved.mem_aliases_ofType_iff
      exact h.trans ⟨fun hs => ⟨t, rfl, hs⟩, fun ⟨_, ht, hs⟩ => Option.some.inj ht ▸ hs⟩

theorem writes_runAll {g : TypeGrammar} {text : Bool → Resolved → String}
    {names : Resolved → List Alias} (fits : g.Fits text names) (calls : List ResolveCall) :
    Writes (runAll g calls) (calls.map fun call => text call.nested call.resolved)
      (calls.flatMap fun call => names call.resolved) :=
  writes_mapM fun call _ => TypeGrammar.writes_write? fits call.nested call.type

theorem uses_pieces (calls : List ResolveCall) :
    Piece.uses (calls.flatMap pieces) = calls.flatMap fun call => call.resolved.aliases := by
  induction calls with
  | nil => rfl
  | cons call rest ih =>
      rw [List.flatMap_cons, Piece.uses_append, ih, List.flatMap_cons]
      exact congrArg (· ++ _) (Ts.uses_pieces call.resolved)

/-- Calls of the resolver register what the pieces of their results use: each name once, in the
order of first use, with its definition, and exactly those by which a type is written that the calls
come to.  The results do not depend on what was registered before, and that stays as it is.  In
Objective-C nothing is registered. -/
theorem registers_uses (calls : List ResolveCall) :
    (∃ used : List Alias,
      used = (Piece.uses (calls.flatMap pieces)).eraseDups ∧
      used.Nodup ∧
      (∀ a, a ∈ used ↔ ∃ call ∈ calls, call.Uses a) ∧
      ((runAll Ts.grammar calls).run .empty).2.entries = used.map Alias.entry ∧
      ((runAll Ts.grammar calls).run .empty).2.names.Nodup) ∧
    ∀ registry : AliasRegistry,
      ((runAll Ts.grammar calls).run registry).1 =
        calls.map (fun call => Piece.writtenAll call.pieces) ∧
      registry.entries <+: ((runAll Ts.grammar calls).run registry).2.entries ∧
      (runAll Oc.grammar calls).run registry =
        (calls.map fun call => Oc.typeText call.nested call.resolved, registry) := by
  have hts := writes_runAll Ts.grammar_fits calls
  have hoc := writes_runAll Oc.grammar_fits calls
  refine ⟨⟨_, rfl, nodup_eraseDups _, fun a => ?_, ?_, ?_⟩, fun registry => ⟨?_, ?_, ?_⟩⟩
  · rw [List.mem_eraseDups, uses_pieces, List.mem_flatMap]
    exact exists_congr fun call => and_congr_right fun _ => mem_aliases_resolved_iff
  · rw [hts, AliasRegistry.entries_registerAll_empty, uses_pieces]
  · unfold AliasRegistry.names
    rw [hts, AliasRegistry.entries_registerAll_empty, List.map_map]
    exact (nodup_eraseDups _).map Alias.name_injective
  · rw [hts]
    exact List.map_congr_left fun call _ => (Ts.writtenAll_pieces call.resolved).symm
  · rw [hts]
    exact registry.prefix_registerAll _
  · rw [hoc, List.flatMap_eq_nil_iff.mpr fun _ _ => rfl]
    rfl

end ResolveCall

end ApiStubs
