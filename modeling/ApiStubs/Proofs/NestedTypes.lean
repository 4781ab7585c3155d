import ApiStubs.Proofs.TypeVariables

/-!
# Types in the place of others

Not every type can stand everywhere.  A key of a map must be a text, a number or an enum, and where
objects are needed there is no `void`.  Whether a type is kept as a key is decided before it is
resolved, by a test of its own, and `Resolved.properKey_iff` says that the test is right: what
passes is exactly what resolves to a proper key.  A wrapper around one does not pass, although in
Objective-C it is written like its content.

In Objective-C `void` depends on the place, which is handed on from a type to those inside it.
Since wrappers are written like their contents, `Oc.typeText_ne_void` has to look through them.
Variables and enums may have any name, `void` too, and are left out by hypothesis.

`ResolveCall.nested_types_legal` puts both together for what a resolver writes.  The records of
TypeScript are the maps in the resolved type, each of which stands in the text
(`Ts.infix_of_within`); a class that is called `Record` is none of them.  The text of a type of
Objective-C is put together from those of its parts (`Oc.Composes`), written as arguments.  They
stand in it, and so does all that is inside them, but for the items of a tuple, of which nothing is
written (`Oc.infix_of_inside`).
-/

namespace ApiStubs

open Resolved (Within ofType ofType?)

/-! ## Keys -/

namespace Resolved

variable {table : DeclarationTable}

/-- What the keys of a map may mean. -/
inductive ProperKey (table : DeclarationTable) : Resolved → Prop
  | text : ProperKey table (.primitive .text)
  | number : ProperKey table (.primitive .number)
  | special {type : SpecialType} : type ≠ .fileUpload → ProperKey table (.special type)
  | ofEnum {n : String} {e : Enum} : table.find? n = some (.ofEnum e) →
      ProperKey table (.ofEnum e)

theorem isKey_named (n : String) (args : List TypeExpr) :
    (TypeExpr.named n args).isKey table =
      ((TypeKind.ofName n).isNumeric || TypeKind.ofName n = .text ||
        (TypeKind.ofName n = .declared && ((table.find? n).bind Declaration.enum?).isSome)) := by
  rw [TypeExpr.isKey]
  exact Bool.true_and _

theorem properKey_ofDeclared_iff {n : String} {args : List Resolved} :
    ProperKey table (ofDeclared table n args) ↔
      ((table.find? n).bind Declaration.enum?).isSome = true := by
  rw [ofDeclared]
  cases hd : table.find? n with
  | none => exact iff_of_false (by rintro ⟨⟩) Bool.false_ne_true
  | some d =>
      cases d with
      | ofClass c => exact iff_of_false (by rintro ⟨⟩) Bool.false_ne_true
      | ofEnum e => exact iff_of_true (.ofEnum hd) rfl

/-- A type is kept as the type of keys exactly if its meaning is a proper key. -/
theorem properKey_iff {t : TypeExpr} : ProperKey table (ofType table t) ↔ t.isKey table = true := by
  cases t with
  | wildcard =>
      rw [ofType]
      refine iff_of_false (by rintro ⟨⟩) ?_
      have hk : TypeExpr.wildcard.kind = .unknown := by decide
      simp [TypeExpr.isKey, hk, TypeKind.isNumeric]
  | var n =>
      rw [ofType]
      exact iff_of_false (by rintro ⟨⟩) Bool.false_ne_true
  | named n args =>
      rw [ofType, ofNamed.eq_def, isKey_named]
      cases hn : TypeKind.ofName n with
      | decimal => exact iff_of_true (.special (by decide)) rfl
      | bigInteger => exact iff_of_true (.special (by decide)) rfl
      | wideInteger => exact iff_of_true (.special (by decide)) rfl
      | number => exact iff_of_true .number rfl
      | text => exact iff_of_true .text rfl
      | declared => exact properKey_ofDeclared_iff
      | fileUpload =>
          refine iff_of_false (fun h => ?_) Bool.false_ne_true
          cases h with
          | special hne => exact hne rfl
      | wrapper =>
          refine iff_of_false ?_ Bool.false_ne_true
          cases ofTypes table args with
          | nil => rintro ⟨⟩
          | cons _ _ => rintro ⟨⟩
      | _ => exact iff_of_false (by rintro ⟨⟩) Bool.false_ne_true

/-- The kind of the types with this meaning; none if types of several kinds have it. -/
def kind? : Resolved → Option TypeKind
  | void => some .void
  | map _ _ => some .map
  | list _ => some .list
  | optional _ => some .wrapper
  | tuple _ => some .tuple
  | ofClass _ _ => some .declared
  | ofEnum _ => some .declared
  | _ => none

theorem kind_of_ofType {t : TypeExpr} {k : TypeKind} (h : (ofType table t).kind? = some k) :
    ∃ n args, t = .named n args ∧ TypeKind.ofName n = k := by
  cases t with
  | wildcard => exact absurd h (by simp [ofType, kind?])
  | var n => exact absurd h (by simp [ofType, kind?])
  | named n args =>
      refine ⟨n, args, rfl, ?_⟩
      rw [ofType, ofNamed.eq_def] at h
      revert h
      cases TypeKind.ofName n with
      | void => exact Option.some.inj
      | map => exact Option.some.inj
      | list => exact Option.some.inj
      | tuple => exact Option.some.inj
      | wrapper =>
          cases ofTypes table args with
          | nil => exact fun h => absurd h (by simp [kind?])
          | cons _ _ => exact Option.some.inj
      | declared =>
          show (ofDeclared table n _).kind? = some k → _
          rw [ofDeclared]
          cases table.find? n with
          | none => exact fun h => absurd h (by simp [kind?])
          | some d =>
              cases d with
              | ofClass c => exact Option.some.inj
              | ofEnum e => exact Option.some.inj
      | _ => exact fun h => absurd h (by simp [kind?])

/-- The keys of a map that is the meaning of a type have a type only if it is a proper one. -/
theorem properKey_of_ofType_eq_map {t : TypeExpr} {key value : Resolved}
    (h : ofType table t = .map (some key) value) : ProperKey table key := by
  have hkind : (ofType table t).kind? = some .map := by rw [h, kind?]
  obtain ⟨n, args, rfl, hn⟩ := kind_of_ofType hkind
  rw [ofType, ofTypes_eq_map, ofNamed.eq_def, hn] at h
  have h : ofMap table args.head? (args.map (ofType table)) = .map (some key) value := h
  cases args with
  | nil => exact absurd h (by simp [ofMap])
  | cons k rest =>
      by_cases hk : k.isKey table = true
      · rw [List.head?_cons, ofMap, Option.any_some, if_pos hk] at h
        rw [← Option.some.inj (map.inj h).1]
        exact properKey_iff.mpr hk
      · exact absurd h (by simp [ofMap, hk])

/-- The type of keys is a proper one in every map that a resolved type has, at any depth. -/
theorem properKey_of_within {type : Option TypeExpr} {key value : Resolved}
    (h : Within (.map (some key) value) (ofType? table type)) : ProperKey table key := by
  cases type with
  | none =>
      cases h with
      | part hs _ => exact absurd hs List.not_mem_nil
  | some t =>
      rcases within_ofType h with h | ⟨a, _, h⟩
      · exact absurd h (by simp)
      · exact properKey_of_ofType_eq_map h.symm

end Resolved

/-! ## Records -/

namespace Ts

def keyText : Option Resolved → String
  | none => "PropertyKey"
  | some key => typeText key

theorem typeText_map (key : Option Resolved) (value : Resolved) :
    typeText (.map key value) = "Record<" ++ keyText key ++ ", " ++ typeText value ++ ">" := by
  cases key with
  | none => exact typeText_keyless value
  | some key => rfl

def keyTexts : List String :=
  ["PropertyKey", "string", "number", "Long", "BigDecimal", "BigInteger"]

theorem keyText_legal {table : DeclarationTable} {key : Option Resolved}
    (h : ∀ k ∈ key, Resolved.ProperKey table k) :
    keyText key ∈ keyTexts ∨
      ∃ n e, table.find? n = some (.ofEnum e) ∧ keyText key = e.simpleName := by
  cases key with
  | none => exact Or.inl (by decide)
  | some k =>
      cases h k rfl with
      | text => exact Or.inl (by decide)
      | number => exact Or.inl (by decide)
      | @special type hne =>
          cases type with
          | fileUpload => exact absurd rfl hne
          | _ => exact Or.inl (by decide)
      | ofEnum hfind => exact Or.inr ⟨_, _, hfind, rfl⟩

theorem infix_intercalate {s separator : String} {ss : List String} (h : s ∈ ss) :
    s.toList <:+: (separator.intercalate ss).toList := by
  induction ss with
  | nil => exact absurd h List.not_mem_nil
  | cons t rest ih =>
      cases rest with
      | nil =>
          rw [List.mem_singleton.mp h]
          exact List.infix_rfl
      | cons u rest =>
          rw [String.intercalate_cons_cons, String.toList_append, String.toList_append]
          rcases List.mem_cons.mp h with rfl | h
          · rw [List.append_assoc]
            exact (List.prefix_append _ _).isInfix
          · exact (ih h).trans (List.suffix_append _ _).isInfix

theorem infix_enclosed (opening s closing : String) :
    s.toList <:+: (opening ++ s ++ closing).toList :=
  ⟨opening.toList, closing.toList, by simp⟩

theorem infix_of_mem_parts {s w : Resolved} (h : s ∈ w.parts) :
    (typeText s).toList <:+: (typeText w).toList := by
  cases w with
  | map key value =>
      rw [typeText_map]
      rcases List.mem_append.mp h with h | h
      · rw [Option.mem_toList.mp h, keyText]
        exact ⟨"Record<".toList, (", " ++ typeText value ++ ">").toList, by simp⟩
      · rw [List.mem_singleton.mp h]
        exact infix_enclosed _ _ _
  | list item =>
      rw [List.mem_singleton.mp h]
      show _ <:+: (typeText item ++ "[]").toList
      exact ⟨[], "[]".toList, by simp⟩
  | optional content =>
      rw [List.mem_singleton.mp h]
      exact infix_enclosed "Optional<" (typeText content) ">"
  | tuple items =>
      show _ <:+: ("[ " ++ ", ".intercalate (typeTexts items) ++ " ]").toList
      rw [typeTexts_eq_map]
      exact (infix_intercalate (List.mem_map_of_mem h)).trans (infix_enclosed _ _ _)
  | ofClass c args =>
      have hargs : (typeTexts args).isEmpty = false := by
        rw [typeTexts_eq_map, List.isEmpty_map]
        exact List.isEmpty_eq_false_iff_exists_mem.mpr ⟨s, h⟩
      show _ <:+: (genericText c.simpleName (typeTexts args)).toList
      rw [genericText, hargs, if_neg Bool.false_ne_true, typeTexts_eq_map]
      exact (infix_intercalate (List.mem_map_of_mem h)).trans (infix_enclosed _ _ _)
  | _ => exact absurd h List.not_mem_nil

/-- What stands inside a type stands in its written form. -/
theorem infix_of_within {s w : Resolved} (h : Within s w) :
    (typeText s).toList <:+: (typeText w).toList := by
  induction h with
  | self => exact List.infix_rfl
  | part hs _ ih => exact ih.trans (infix_of_mem_parts hs)

end Ts

/-! ## Texts put together -/

namespace Oc

/-- The text of a type that has parts, given the texts of these. -/
inductive Composes : Resolved → List String → String → Prop
  | map {key value : Resolved} {k v : String} :
      Composes (.map (some key) value) [k, v] ("NSDictionary<" ++ k ++ ", " ++ v ++ ">*")
  /-- any object that can be copied -/
  | keyless {value : Resolved} {v : String} :
      Composes (.map none value) [v] ("NSDictionary<id<NSCopying>, " ++ v ++ ">*")
  | list {item : Resolved} {s : String} : Composes (.list item) [s] ("NSArray<" ++ s ++ ">*")
  | optional {content : Resolved} {s : String} : Composes (.optional content) [s] s
  | tuple {items : List Resolved} {ss : List String} : Composes (.tuple items) ss "NSArray*"
  | ofClass {c : Class} {args : List Resolved} {ss : List String} :
      Composes (.ofClass c args) ss (c.simpleName ++ "<" ++ ", ".intercalate ss ++ ">*")

theorem composes_typeText (nested : Bool) {w : Resolved} (h : w.parts ≠ []) :
    Composes w (w.parts.map (typeText true)) (typeText nested w) := by
  cases w with
  | map key value =>
      cases key with
      | none => exact .keyless
      | some key => exact .map
  | list item => exact .list
  | optional content => exact .optional
  | tuple items => exact .tuple
  | ofClass c args =>
      have hargs : (typeTexts args).isEmpty = false := by
        rw [typeTexts_eq_map, List.isEmpty_map]
        exact List.isEmpty_eq_false_iff.mpr h
      show Composes _ (args.map (typeText true)) (pointerText c.simpleName (typeTexts args))
      rw [pointerText, hargs, if_neg Bool.false_ne_true, typeTexts_eq_map]
      exact .ofClass
  | _ => exact absurd rfl h

theorem Composes.infix_of_mem {w : Resolved} {ss : List String} {text s : String}
    (h : Composes w ss text) (written : w.kind? ≠ some .tuple) (hs : s ∈ ss) :
    s.toList <:+: text.toList := by
  cases h with
  | @map _ _ k v =>
      rcases List.mem_pair.mp hs with rfl | rfl
      · exact ⟨"NSDictionary<".toList, (", " ++ v ++ ">*").toList, by simp⟩
      · exact Ts.infix_enclosed _ _ _
  | keyless =>
      rw [List.mem_singleton.mp hs]
      exact Ts.infix_enclosed _ _ _
  | list =>
      rw [List.mem_singleton.mp hs]
      exact Ts.infix_enclosed _ _ _
  | optional => rw [List.mem_singleton.mp hs]
  | tuple => exact absurd rfl written
  | ofClass => exact (Ts.infix_intercalate hs).trans (Ts.infix_enclosed _ _ _)

/-- `Inside s w`: the type `s` is a part of `w` that is written. -/
def Inside (s w : Resolved) : Prop :=
  s ∈ w.parts ∧ w.kind? ≠ some .tuple

theorem infix_of_inside {s w : Resolved} (h : Relation.TransGen Inside s w) :
    ∀ nested, (typeText true s).toList <:+: (typeText nested w).toList := by
  have hpart : ∀ {r w}, Inside r w → ∀ nested,
      (typeText true r).toList <:+: (typeText nested w).toList := by
    intro r w hr nested
    exact (composes_typeText nested (List.ne_nil_of_mem hr.1)).infix_of_mem hr.2
      (List.mem_map_of_mem hr.1)
  induction h with
  | single hs => exact hpart hs
  | tail _ hr ih => exact fun nested => (ih true).trans (hpart hr nested)

end Oc

/-! ## Void -/

namespace Resolved

/-- Only what means `void` has it in its name, at any depth. -/
structure VoidReserved (w : Resolved) : Prop where
  var : ¬ Within (.var "void") w
  ofEnum (e : Enum) : Within (.ofEnum e) w → e.simpleName ≠ "void"

theorem VoidReserved.part {s w : Resolved} (reserved : w.VoidReserved) (h : s ∈ w.parts) :
    s.VoidReserved :=
  ⟨fun hs => reserved.var (.part h hs), fun e hs => reserved.ofEnum e (.part h hs)⟩

theorem ofType_eq_void_iff {table : DeclarationTable} {t : TypeExpr} :
    ofType table t = .void ↔ t.isVariable = false ∧ t.kind = .void := by
  constructor
  · intro h
    have hvoid : (ofType table t).kind? = some .void := by rw [h, kind?]
    obtain ⟨n, args, rfl, hn⟩ := kind_of_ofType hvoid
    exact ⟨rfl, hn⟩
  · rintro ⟨hvar, hkind⟩
    cases t with
    | wildcard => exact absurd hkind (by decide)
    | var n => exact Bool.noConfusion hvar
    | named n args =>
        have hn : TypeKind.ofName n = .void := hkind
        rw [ofType, ofNamed.eq_def, hn]

/-- What is resolved has no enum that is not declared. -/
theorem find?_of_within_ofEnum {table : DeclarationTable} {t : TypeExpr} {e : Enum}
    (h : Within (.ofEnum e) (ofType table t)) : ∃ n, table.find? n = some (.ofEnum e) := by
  rcases within_ofType h with h | ⟨a, _, h⟩
  · exact absurd h (by simp)
  · have hlooked : LooksUp table a (.ofEnum e) := looksUp_of_ofType (by rw [← h, declaration?])
    cases hlooked with
    | name _ hfind => exact ⟨_, hfind⟩
    | key hn _ _ =>
        rw [ofType, ofNamed.eq_def, hn] at h
        exact absurd h (by simp [ofMap])

theorem voidReserved_ofType? {table : DeclarationTable} {type : Option TypeExpr}
    (unreturned : ∀ t ∈ type, ¬ Returns table t "void")
    (declared : ∀ d ∈ table.declarations, d.simpleName ≠ "void") :
    (ofType? table type).VoidReserved where
  var h := by
    obtain ⟨t, ht, hreturns⟩ := within_var_ofType?_iff.mp h
    exact unreturned t ht hreturns
  ofEnum e h := by
    cases type with
    | none =>
        cases h with
        | part hs _ => exact absurd hs List.not_mem_nil
    | some t =>
        obtain ⟨n, hfind⟩ := find?_of_within_ofEnum h
        exact declared _ (List.mem_map_of_mem (DeclarationTable.mem_of_find? hfind))

end Resolved

namespace Oc

theorem append_ne_void {s t : String} (h : ¬ t.toList <:+ "void".toList) : s ++ t ≠ "void" := by
  intro e
  exact h ⟨s.toList, by rw [← String.toList_append, e]⟩

theorem unknownType_ne_void : unknownType ≠ "void" := by
  decide

theorem specialText_ne_void (type : SpecialType) : specialText type ≠ "void" := by
  cases type with
  | _ => decide

theorem primitiveText_ne_void (type : PrimitiveType) : primitiveText type ≠ "void" := by
  cases type with
  | _ => decide

/-- No type is written as `void`, apart from `void` itself where it is no argument. -/
theorem typeText_ne_void {nested : Bool} : ∀ {w : Resolved}, w.VoidReserved →
    (w = .void → nested = true) → typeText nested w ≠ "void"
  | .unknown, _, _ => unknownType_ne_void
  | .void, _, argument => by
      rw [argument rfl]
      exact unknownType_ne_void
  | .var n, reserved, _ => fun h : n = "void" => reserved.var (h ▸ .self)
  | .special type, _, _ => specialText_ne_void type
  | .primitive type, _, _ => primitiveText_ne_void type
  | .map none value, _, _ => append_ne_void (t := ">*") (by decide)
  | .map (some key) value, _, _ => append_ne_void (t := ">*") (by decide)
  | .list item, _, _ => append_ne_void (t := ">*") (by decide)
  | .optional content, reserved, _ => by
      have hcontent : content.VoidReserved := reserved.part (List.mem_singleton_self _)
      show typeText true content ≠ "void"
      exact typeText_ne_void hcontent fun _ => rfl
  | .tuple items, _, _ => show "NSArray*" ≠ "void" by decide
  | .ofClass c args, _, _ => by
      show pointerText c.simpleName (typeTexts args) ≠ "void"
      rw [pointerText]
      split
      · exact append_ne_void (by decide)
      · exact append_ne_void (by decide)
  | .ofEnum e, reserved, _ => by
      show (if e.valueType = .number then "NSNumber*" else e.simpleName) ≠ "void"
      split
      · decide
      · exact reserved.ofEnum e .self

theorem typeText_eq_void_iff {nested : Bool} {w : Resolved} (reserved : w.VoidReserved) :
    typeText nested w = "void" ↔ w = .void ∧ nested = false := by
  constructor
  · intro h
    by_contra hne
    exact typeText_ne_void reserved (fun hw => by simpa [hw] using hne) h
  · rintro ⟨rfl, rfl⟩
    rfl

theorem ne_void_of_within {r s w : Resolved} (reserved : w.VoidReserved) (hr : Within r w)
    (hs : s ∈ r.parts) : typeText true s ≠ "void" := by
  induction hr with
  | self => exact typeText_ne_void (reserved.part hs) fun _ => rfl
  | part hmem _ ih => exact ih (reserved.part hmem)

theorem typeText_ofType?_eq_void_iff {nested : Bool} {table : DeclarationTable}
    {type : Option TypeExpr} (reserved : (ofType? table type).VoidReserved) :
    typeText nested (ofType? table type) = "void" ↔
      ∃ t ∈ type, t.isVariable = false ∧ t.kind = .void ∧ nested = false := by
  rw [typeText_eq_void_iff reserved]
  cases type with
  | none => simp [ofType?]
  | some t =>
      rw [ofType?, Resolved.ofType_eq_void_iff, and_assoc]
      simp

end Oc

namespace ResolveCall

/-- What is written for a type is legal where it stands.  A record of TypeScript has a proper key,
or the text for any key.  In Objective-C the text of a type is put together from those that its
parts have as arguments.  None of these is `void`, and the type itself is written so only if it is
no variable, of the kind `void` and no argument. -/
theorem nested_types_legal (call : ResolveCall) {vars : List String}
    (read : ∀ t ∈ call.type, t.Scoped vars) (unlisted : "void" ∉ vars)
    (declared : ∀ d ∈ call.table.declarations, d.simpleName ≠ "void") :
    (∀ registry : AliasRegistry,
      ((call.run Ts.grammar).run registry).1 = Ts.typeText call.resolved ∧
      ((call.run Oc.grammar).run registry).1 = Oc.typeText call.nested call.resolved) ∧
    (∀ key value, Within (.map key value) call.resolved →
      (Ts.typeText (.map key value)).toList <:+: (Ts.typeText call.resolved).toList ∧
      Ts.typeText (.map key value) =
        "Record<" ++ Ts.keyText key ++ ", " ++ Ts.typeText value ++ ">" ∧
      (∀ k ∈ key, Resolved.ProperKey call.table k) ∧
      (Ts.keyText key ∈ Ts.keyTexts ∨
        ∃ n e, call.table.find? n = some (.ofEnum e) ∧ Ts.keyText key = e.simpleName)) ∧
    (∀ w, Within w call.resolved → w.parts ≠ [] → ∀ nested,
      Oc.Composes w (w.parts.map (Oc.typeText true)) (Oc.typeText nested w)) ∧
    (∀ s, Relation.TransGen Oc.Inside s call.resolved →
      (Oc.typeText true s).toList <:+: (Oc.typeText call.nested call.resolved).toList) ∧
    (∀ w, Within w call.resolved → ∀ s ∈ w.parts, Oc.typeText true s ≠ "void") ∧
    (Oc.typeText call.nested call.resolved = "void" ↔
      ∃ t ∈ call.type, t.isVariable = false ∧ t.kind = .void ∧ call.nested = false) := by
  have reserved : call.resolved.VoidReserved :=
    Resolved.voidReserved_ofType? (fun t ht h => unlisted (h.mem (read t ht))) declared
  refine ⟨fun registry => ⟨?_, ?_⟩, fun key value h => ?_,
    fun _ _ parts nested => Oc.composes_typeText nested parts,
    fun _ inside => Oc.infix_of_inside inside call.nested, ?_, ?_⟩
  · exact congrArg Prod.fst
      (TypeGrammar.writes_write? Ts.grammar_fits call.nested call.type registry)
  · exact congrArg Prod.fst
      (TypeGrammar.writes_write? Oc.grammar_fits call.nested call.type registry)
  · have proper : ∀ k ∈ key, Resolved.ProperKey call.table k := by
      rintro k rfl
      exact Resolved.properKey_of_within h
    exact ⟨Ts.infix_of_within h, Ts.typeText_map key value, proper, Ts.keyText_legal proper⟩
  · exact fun w hw s hs => Oc.ne_void_of_within reserved hw hs
  · exact Oc.typeText_ofType?_eq_void_iff reserved

/-- A map from an enum to lists of nothing. -/
def palette : ResolveCall where
  table := .ofList [.ofEnum ⟨⟨"paint.Color", [], .string, "", []⟩, "Color"⟩]
  type := some (.named "java.util.Map"
    [.named "paint.Color" [], .named "java.util.List" [.named "void" []]])
  nested := false

theorem nested_types_legal_palette :
    (∀ registry : AliasRegistry,
      ((palette.run Ts.grammar).run registry).1 = "Record<Color, void[]>" ∧
      ((palette.run Oc.grammar).run registry).1 =
        "NSDictionary<Color, NSArray<NSObject*>*>*") ∧
    (∀ s, Relation.TransGen Oc.Inside s palette.resolved →
      (Oc.typeText true s).toList <:+: "NSDictionary<Color, NSArray<NSObject*>*>*".toList) ∧
    (∀ w, Within w palette.resolved → ∀ s ∈ w.parts, Oc.typeText true s ≠ "void") := by
  have read : ∀ t ∈ palette.type, t.Scoped [] := by
    rintro t ⟨⟩
    refine .named ?_
    simp only [List.forall_mem_cons, List.not_mem_nil, false_imp_iff, implies_true, and_true]
    have hplain : ∀ n, (TypeExpr.named n []).Scoped [] := fun n => .named (by simp)
    exact ⟨hplain _, .named (by simpa using hplain _)⟩
  obtain ⟨written, _, _, stands, inside, _⟩ :=
    palette.nested_types_legal read List.not_mem_nil (by decide)
  have hts : Ts.typeText palette.resolved = "Record<Color, void[]>" := by decide +kernel
  have hoc : Oc.typeText palette.nested palette.resolved =
      "NSDictionary<Color, NSArray<NSObject*>*>*" := by decide +kernel
  exact ⟨fun registry => ⟨(written registry).1.trans hts, (written registry).2.trans hoc⟩,
    hoc ▸ stands, inside⟩

end ResolveCall

end ApiStubs
