import ApiStubs.Proofs.Consulted
import ApiStubs.Proofs.DocumentationTexts
import ApiStubs.Proofs.Registering

/-!
# Types without line breaks

Names of declarations may have line breaks, but no type that is written does.  A type is read from
tokens, which have no blanks (`Token.unbroken_of_mem_scan`), so that it finds only declarations
without line breaks in their names, and what these are called in a file comes from their names
(`Assembly.unbroken_simpleName`).  The rest of what is written are words and marks of the language
(`Ts.unbroken_ofType`).
-/

namespace ApiStubs

/-! ## Texts without line breaks -/

namespace Text

/-- A text that is one line. -/
def Unbroken (s : String) : Prop :=
  '\r' ∉ s.toList ∧ '\n' ∉ s.toList

instance (s : String) : Decidable (Unbroken s) :=
  inferInstanceAs (Decidable (_ ∧ _))

theorem unbroken_of_forall {s : String} (h : ∀ c ∈ s.toList, c ≠ '\r' ∧ c ≠ '\n') : Unbroken s :=
  ⟨fun hc => (h _ hc).1 rfl, fun hc => (h _ hc).2 rfl⟩

theorem Unbroken.of_subset {s t : String} (h : Unbroken t) (hsub : s.toList ⊆ t.toList) :
    Unbroken s :=
  ⟨fun hc => h.1 (hsub hc), fun hc => h.2 (hsub hc)⟩

@[simp] theorem unbroken_append_iff {s t : String} :
    Unbroken (s ++ t) ↔ Unbroken s ∧ Unbroken t := by
  simp only [Unbroken, String.toList_append, List.mem_append, not_or]
  exact and_and_and_comm

theorem unbroken_intercalate {separator : String} (hseparator : Unbroken separator)
    {ss : List String} (h : ∀ s ∈ ss, Unbroken s) : Unbroken (separator.intercalate ss) := by
  induction ss with
  | nil => exact ⟨List.not_mem_nil, List.not_mem_nil⟩
  | cons s rest ih =>
      obtain ⟨hs, hrest⟩ := List.forall_mem_cons.mp h
      cases rest with
      | nil => exact hs
      | cons t rest =>
          rw [String.intercalate_cons_cons]
          simp [hs, hseparator, ih hrest]

theorem unbroken_of_isBlank {s : String} (h : ∀ c ∈ s.toList, isBlank c = false) : Unbroken s := by
  refine unbroken_of_forall fun c hc => ⟨?_, ?_⟩
  · rintro rfl
    exact absurd (h _ hc) (by decide)
  · rintro rfl
    exact absurd (h _ hc) (by decide)

end Text

open Text (Unbroken)

/-! ## Tokens -/

namespace TypeExpr

namespace Token

theorem isBlank_of_mem_flush {word : List Char} (hword : ∀ c ∈ word, Text.isBlank c = false)
    {token : Token} (h : token ∈ flush word) : ∀ c ∈ token.text.toList, Text.isBlank c = false := by
  unfold flush at h
  split at h
  · exact absurd h List.not_mem_nil
  · rw [List.mem_singleton.mp h]
    intro c hc
    rw [text, String.toList_ofList, List.mem_reverse] at hc
    exact hword c hc

theorem isBlank_of_mark {token : Token} (h : ∀ s, token ≠ .word s) :
    ∀ c ∈ token.text.toList, Text.isBlank c = false := by
  have hany : token.text.toList.any Text.isBlank = false := by
    cases token with
    | word s => exact absurd rfl (h s)
    | _ => decide
  exact fun c hc => Bool.eq_false_iff.mpr (List.any_eq_false.mp hany c hc)

theorem ne_word_of_ofMark? {c : Char} {token : Token} (h : ofMark? c = some token) (s : String) :
    token ≠ .word s := by
  rintro rfl
  unfold ofMark? at h
  split_ifs at h <;> cases h

/-- No blank stands in a token. -/
theorem isBlank_of_mem_scanFrom (word cs : List Char) (hword : ∀ c ∈ word, Text.isBlank c = false)
    {token : Token} (h : token ∈ scanFrom word cs) :
    ∀ c ∈ token.text.toList, Text.isBlank c = false := by
  have nil : ∀ c ∈ ([] : List Char), Text.isBlank c = false := fun _ h => absurd h List.not_mem_nil
  fun_induction scanFrom word cs with
  | case1 word => exact isBlank_of_mem_flush hword h
  | case2 word rest ih =>
      rcases List.mem_append.mp h with h | h
      · exact isBlank_of_mem_flush hword h
      · rcases List.mem_cons.mp h with rfl | h
        · exact isBlank_of_mark (fun _ => Token.noConfusion)
        · exact ih nil h
  | case3 word c rest _ _ ih =>
      rcases List.mem_append.mp h with h | h
      · exact isBlank_of_mem_flush hword h
      · exact ih nil h
  | case4 word c rest _ _ mark hmark ih =>
      rcases List.mem_append.mp h with h | h
      · exact isBlank_of_mem_flush hword h
      · rcases List.mem_cons.mp h with rfl | h
        · exact isBlank_of_mark (ne_word_of_ofMark? hmark)
        · exact ih nil h
  | case5 word c rest _ hgap _ ih =>
      have hc : Text.isBlank c = false := by
        simp only [isGap, Bool.or_eq_true, not_or] at hgap
        simpa using hgap.1.1
      exact ih (List.forall_mem_cons.mpr ⟨hc, hword⟩) h

theorem unbroken_of_mem_scan {cs : List Char} {token : Token} (h : token ∈ scan cs) :
    Unbroken token.text :=
  Text.unbroken_of_isBlank
    (isBlank_of_mem_scanFrom [] cs (fun _ h => absurd h List.not_mem_nil) h)

end Token

theorem unbroken_parse? {vars : List String} {text : String} {t : TypeExpr}
    (h : parse? vars text = some t) : t.Spelt Unbroken :=
  spelt_parse? (fun _ => Token.unbroken_of_mem_scan) h

end TypeExpr

/-! ## Names in a model -/

theorem Graph.unbroken_type? {vars : List String} {key : String} {v : Json.Value} {t : TypeExpr}
    (h : type? vars key v = some t) : t.Spelt Unbroken := by
  obtain ⟨s, _, hs⟩ := Option.bind_eq_some_iff.mp h
  exact TypeExpr.unbroken_parse? hs

theorem Variant.unbroken {separator name given : String} (h : Variant separator name given)
    (hseparator : Unbroken separator) (hname : Unbroken name) : Unbroken given := by
  obtain ⟨rest, rfl, hrest⟩ := h.exists_append
  refine Text.unbroken_append_iff.mpr ⟨hname, Text.unbroken_of_forall fun c hc => ?_⟩
  rcases hrest c hc with hc | hdigit
  · exact ⟨fun e => hseparator.1 (e ▸ hc), fun e => hseparator.2 (e ▸ hc)⟩
  · exact ⟨fun e => absurd (e ▸ hdigit) (by decide), fun e => absurd (e ▸ hdigit) (by decide)⟩

/-- What a name without line breaks finds is called by a name without line breaks. -/
theorem Assembly.unbroken_simpleName {separator : String} (hseparator : Unbroken separator)
    {graph : Graph} {n : String} (hn : Unbroken n) {d : Declaration}
    (h : (Assembly.table separator graph).find? n = some d) : Unbroken d.simpleName := by
  have hname : d.name = n := (Assembly.keyed_table separator graph).named n d h
  refine (variant_of_find? h).unbroken hseparator ?_
  rw [hname]
  exact hn.of_subset (Text.simpleName_suffix n).subset

/-- The types of members of the classes that a table holds have no line break. -/
theorem Model.unbroken_member {raw : Json.Value} {graph : Graph} {separator : String}
    (decoded : Graph.decode raw = .ok graph) {c : Class}
    (held : (Assembly.table separator graph).Holds c) {m : Member} (hm : m ∈ c.members)
    {t : TypeExpr} (ht : m.type = some t) : t.Spelt Unbroken := by
  obtain ⟨_, hclasses, _⟩ := Graph.decode_eq_ok_iff.mp decoded
  obtain ⟨v, _, hv⟩ := exists_left_of_forall₂ hclasses (Assembly.record_mem_of_holds held)
  obtain ⟨w, hw⟩ := Graph.exists_type_of_decodeClass hv hm
  exact Graph.unbroken_type? (hw.symm.trans ht)

/-! ## Written types -/

namespace Ts

open Resolved (ofType ofTypes ofType? ofNamed ofDeclared ofMap fit)

theorem unbroken_genericText {name : String} {args : List String} (hname : Unbroken name)
    (hargs : ∀ s ∈ args, Unbroken s) : Unbroken (genericText name args) := by
  have hlist : Unbroken (", ".intercalate args) := Text.unbroken_intercalate (by decide) hargs
  have hmarks : Unbroken "<" ∧ Unbroken ">" := by decide
  unfold genericText
  split
  · exact hname
  · simp [hname, hlist, hmarks]

theorem unbroken_map {key : Option Resolved} {value : Resolved}
    (hkey : ∀ w ∈ key, Unbroken (typeText w)) (hvalue : Unbroken (typeText value)) :
    Unbroken (typeText (.map key value)) := by
  have hmarks : Unbroken "Record<PropertyKey, " ∧ Unbroken "Record<" ∧ Unbroken ", " ∧
      Unbroken ">" := by decide
  cases key with
  | none =>
      show Unbroken ("Record<PropertyKey, " ++ typeText value ++ ">")
      simp [hvalue, hmarks]
  | some w =>
      show Unbroken ("Record<" ++ typeText w ++ ", " ++ typeText value ++ ">")
      simp [hvalue, hkey w rfl, hmarks]

theorem unbroken_unknown : Unbroken (typeText .unknown) := by
  show Unbroken "unknown"
  decide

section

variable {table : DeclarationTable} {n : String} {meanings : List Resolved}
  (hmeanings : ∀ w ∈ meanings, Unbroken (typeText w))

include hmeanings

theorem unbroken_ofDeclared
    (declared : ∀ d, table.find? n = some d → Unbroken d.simpleName) :
    Unbroken (typeText (ofDeclared table n meanings)) := by
  unfold ofDeclared
  split
  · rename_i c hc
    show Unbroken (genericText c.simpleName (typeTexts _))
    rw [typeTexts_eq_map]
    refine unbroken_genericText (declared _ hc) (List.forall_mem_map.mpr fun w hw => ?_)
    rcases List.mem_append.mp hw with hw | hw
    · exact hmeanings w (List.mem_of_mem_take hw)
    · rw [List.eq_of_mem_replicate hw]
      exact unbroken_unknown
  · rename_i e he
    exact declared _ he
  · exact unbroken_unknown

theorem unbroken_getD {w? : Option Resolved} (h : ∀ w ∈ w?, w ∈ meanings) :
    Unbroken (typeText (w?.getD .unknown)) := by
  cases w? with
  | none => exact unbroken_unknown
  | some w => exact hmeanings w (h w rfl)

theorem unbroken_ofMap (key : Option TypeExpr) :
    Unbroken (typeText (ofMap table key meanings)) := by
  refine unbroken_map (fun w hw => ?_) (unbroken_getD hmeanings fun w => List.mem_of_getElem?)
  split at hw
  · exact hmeanings w (List.mem_of_getElem? hw)
  · exact absurd hw (Option.not_mem_none w)

theorem unbroken_ofNamed (declared : ∀ d, table.find? n = some d → Unbroken d.simpleName)
    (args : List TypeExpr) : Unbroken (typeText (ofNamed table n args meanings)) := by
  unfold ofNamed
  cases TypeKind.ofName n with
  | map => exact unbroken_ofMap hmeanings args.head?
  | list =>
      have hbrackets : Unbroken "[]" := by decide
      show Unbroken (typeText (meanings.head?.getD .unknown) ++ "[]")
      exact Text.unbroken_append_iff.mpr
        ⟨unbroken_getD hmeanings fun w => List.mem_of_mem_head?, hbrackets⟩
  | wrapper =>
      cases meanings with
      | nil => exact unbroken_unknown
      | cons w rest =>
          have hmarks : Unbroken "Optional<" ∧ Unbroken ">" := by decide
          show Unbroken ("Optional<" ++ typeText w ++ ">")
          simp [hmeanings w List.mem_cons_self, hmarks]
  | tuple =>
      have hlist : Unbroken (", ".intercalate (meanings.map typeText)) :=
        Text.unbroken_intercalate (by decide) (List.forall_mem_map.mpr hmeanings)
      have hmarks : Unbroken "[ " ∧ Unbroken " ]" := by decide
      show Unbroken ("[ " ++ ", ".intercalate (typeTexts meanings) ++ " ]")
      rw [typeTexts_eq_map]
      simp [hlist, hmarks]
  | declared => exact unbroken_ofDeclared hmeanings declared
  | unknown => exact unbroken_unknown
  | decimal | bigInteger | fileUpload | wideInteger =>
      show Unbroken (specialText _)
      decide
  | number | text | bool =>
      show Unbroken (primitiveText _)
      decide
  | void =>
      show Unbroken "void"
      decide

end

/-- A type that is written has no line break, if the names in it and those of the declarations that
they find have none. -/
theorem unbroken_ofType {table : DeclarationTable}
    (declared : ∀ n, Unbroken n → ∀ d, table.find? n = some d → Unbroken d.simpleName)
    {t : TypeExpr} (h : t.Spelt Unbroken) : Unbroken (typeText (ofType table t)) := by
  induction h with
  | wildcard =>
      rw [ofType]
      exact unbroken_unknown
  | var hv =>
      rw [ofType]
      exact hv
  | @named n args hn _ ih =>
      rw [ofType, Resolved.ofTypes_eq_map]
      exact unbroken_ofNamed (List.forall_mem_map.mpr ih) (declared n hn) args

end Ts

end ApiStubs
