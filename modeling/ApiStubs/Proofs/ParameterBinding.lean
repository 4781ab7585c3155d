import ApiStubs.Model.Assembly
import Mathlib.Logic.ExistsUnique

/-!
# The ways of binding a parameter

The server supplies a parameter, an annotation binds it, or the policy binds it, as a single value
or as a structured one.  `BindingWay.Of` says when a parameter goes each way, without the searches
that decide it: an annotation binds it if it is the first of its type and no rule before its own has
an annotation there (`Binding.Decides`).

Every parameter goes exactly one way, and `BindingWay.Describes` is what callers then see of it: its
action, the key of the action, and whether it is required (`parameter_described`).  The proof goes
through the function that finds the way (`BindingWay.of_iff`).
-/

namespace ApiStubs

/-! ## Types and attributes -/

namespace TypeExpr

/-- Values of the type are single: numbers, texts, truth values, files and the constants of
enums. -/
def Scalar (table : DeclarationTable) (t : TypeExpr) : Prop :=
  t.kind ∈ [.number, .wideInteger, .decimal, .bigInteger, .text, .bool, .fileUpload] ∨
    t.kind = .declared ∧ ∃ e, t.declaration? table = some (.ofEnum e)

/-- The name of the type of files in requests. -/
def fileName : String :=
  "org.springframework.web.multipart.MultipartFile"

theorem isScalar_iff {table : DeclarationTable} {t : TypeExpr} :
    t.isScalar table = true ↔ t.Scalar table := by
  have henum : ((t.declaration? table).bind Declaration.enum?).isSome = true ↔
      ∃ e, t.declaration? table = some (.ofEnum e) := by
    cases t.declaration? table with
    | none => simp
    | some d => cases d <;> simp [Declaration.enum?]
  unfold isScalar Scalar TypeKind.isNumeric
  simp only [Bool.or_eq_true, Bool.and_eq_true, decide_eq_true_eq, henum, List.mem_cons,
    List.not_mem_nil, or_false, or_assoc]

theorem kind_eq_fileUpload_iff {t : TypeExpr} : t.kind = .fileUpload ↔ t.name = fileName := by
  constructor
  · intro h
    have hentries : ∀ entry ∈ TypeKind.table, entry.1 = .fileUpload → entry.2 = [fileName] := by
      decide
    unfold kind TypeKind.ofName at h
    split at h
    · next entry hentry =>
      have hnames := List.find?_some hentry
      rw [hentries entry (List.mem_of_find?_eq_some hentry) h] at hnames
      simpa using hnames
    · simp at h
  · intro h
    rw [kind, h]
    decide

end TypeExpr

theorem unless_empty_eq_some_iff {s t : String} :
    (if s.isEmpty then none else some s) = some t ↔ s = t ∧ t ≠ "" := by
  grind [String.isEmpty_iff]

namespace AnnotationRecord

theorem textOf?_eq_some_iff {v : Json.Value} {s : String} :
    textOf? v = some s ↔ (v = .string s ∨ ∃ rest, v = .array (.string s :: rest)) ∧ s ≠ "" := by
  unfold textOf?
  split
  · rw [unless_empty_eq_some_iff]
    simp
  · rw [unless_empty_eq_some_iff]
    simp
  · next hstring harray =>
    constructor
    · exact fun h => absurd h (by simp)
    · rintro ⟨rfl | ⟨rest, rfl⟩, _⟩
      · exact absurd rfl (hstring s)
      · exact absurd rfl (harray s rest)

theorem text?_ne_empty {record : AnnotationRecord} {name s : String}
    (h : record.text? name = some s) : s ≠ "" := by
  obtain ⟨v, _, hv⟩ := Option.bind_eq_some_iff.mp h
  exact (textOf?_eq_some_iff.mp hv).2

theorem find?_eq_none_iff {type : String} {records : List AnnotationRecord} :
    find? type records = none ↔ ∀ record ∈ records, record.type ≠ type := by
  simp [find?]

theorem find?_eq_some_iff {type : String} {records : List AnnotationRecord}
    {record : AnnotationRecord} :
    find? type records = some record ↔
      record.type = type ∧ ∃ before after, records = before ++ record :: after ∧
        ∀ other ∈ before, other.type ≠ type := by
  simp [find?, List.find?_eq_some_iff_append]

end AnnotationRecord

theorem Graph.decodeParameter_name_ne_empty (vars : List String) (i : Nat) (v : Json.Value) :
    (decodeParameter vars i v).name ≠ "" := by
  have hfield : ∀ s, v.text? "name" = some s → s ≠ "" := by
    intro s hs
    unfold Json.Value.text? at hs
    split at hs
    · exact (unless_empty_eq_some_iff.mp hs).2
    · exact absurd hs (by simp)
  unfold decodeParameter
  cases h : v.text? "name" with
  | none => simp [String.append_eq_empty_iff]
  | some s => exact hfield s h

/-! ## The rule that decides -/

namespace Binding

/-- `Decides records rule record`: the rule is the first one that has an annotation among the
records, and the record is the first such annotation. -/
structure Decides (records : List AnnotationRecord) (rule : String × BindingKind)
    (record : AnnotationRecord) : Prop where
  type : record.type = rule.1
  firstRecord : ∃ before after, records = before ++ record :: after ∧
    ∀ other ∈ before, other.type ≠ rule.1
  firstRule : ∃ before after, rules = before ++ rule :: after ∧
    ∀ earlier ∈ before, ∀ other ∈ records, other.type ≠ earlier.1

def deciding? (records : List AnnotationRecord) :
    Option ((String × BindingKind) × AnnotationRecord) :=
  rules.findSome? fun rule => (AnnotationRecord.find? rule.1 records).map (rule, ·)

variable {records : List AnnotationRecord}

theorem ofRecords?_eq (name : String) (records : List AnnotationRecord) :
    ofRecords? name records =
      (deciding? records).map fun decided => ofRecord name decided.1.2 decided.2 := by
  unfold ofRecords? deciding?
  rw [List.map_findSome?]
  congr 1
  funext rule
  simp [Function.comp_def]

theorem deciding?_eq_none_iff :
    deciding? records = none ↔ ∀ rule ∈ rules, ∀ record ∈ records, record.type ≠ rule.1 := by
  simp [deciding?, AnnotationRecord.find?_eq_none_iff]

theorem deciding?_eq_some_iff {rule : String × BindingKind} {record : AnnotationRecord} :
    deciding? records = some (rule, record) ↔ Decides records rule record := by
  unfold deciding?
  rw [List.findSome?_eq_some_iff]
  constructor
  · rintro ⟨before, r, after, hrules, hr, hbefore⟩
    obtain ⟨a, ha, heq⟩ := Option.map_eq_some_iff.mp hr
    cases heq
    obtain ⟨htype, hrecord⟩ := AnnotationRecord.find?_eq_some_iff.mp ha
    refine ⟨htype, hrecord, before, after, hrules, fun earlier hearlier => ?_⟩
    have hnone := Option.map_eq_none_iff.mp (hbefore earlier hearlier)
    exact AnnotationRecord.find?_eq_none_iff.mp hnone
  · rintro ⟨htype, hrecord, before, after, hrules, hbefore⟩
    refine ⟨before, rule, after, hrules, ?_, fun earlier hearlier => ?_⟩
    · rw [AnnotationRecord.find?_eq_some_iff.mpr ⟨htype, hrecord⟩, Option.map_some]
    · rw [AnnotationRecord.find?_eq_none_iff.mpr (hbefore earlier hearlier), Option.map_none]

theorem Decides.mem_rules {rule : String × BindingKind} {record : AnnotationRecord}
    (h : Decides records rule record) : rule ∈ rules := by
  obtain ⟨before, after, hrules, _⟩ := h.firstRule
  simp [hrules]

/-! ## What a binding says -/

theorem defaultOf?_eq_some_iff {record : AnnotationRecord} {s : String} :
    defaultOf? record = some s ↔
      record.attribute? "defaultValue" = some (.string s) ∧ s ≠ noDefault := by
  unfold defaultOf?
  split
  · next h =>
    rw [h]
    grind
  · next h =>
    constructor
    · exact fun hs => absurd hs (by simp)
    · exact fun hs => absurd hs.1 (h s)

theorem action_kind (binding : Binding) (type : Option TypeExpr) :
    (binding.action type).kind =
      if binding.kind = .query ∧ ∃ t ∈ type, t.name = TypeExpr.fileName then .file
      else binding.kind.actionKind := by
  have hquery : binding.kind.actionKind = .query ↔ binding.kind = .query := by
    cases binding.kind <;> decide
  simp [action, actionKind, hquery, Option.any_eq_true, TypeExpr.kind_eq_fileUpload_iff]

theorem action_keyed (binding : Binding) (type : Option TypeExpr) :
    (binding.action type).key.isSome ↔
      (binding.action type).kind ∈ [.query, .path, .header, .cookie, .file] := by
  have hnamed (kind : ActionKind) :
      kind.isNamed = true ↔ kind ∈ [.query, .path, .header, .cookie, .file] := by
    cases kind <;> decide
  unfold action
  dsimp only
  rw [← hnamed]
  split
  · next h => simp [h]
  · next h => simp [h]

theorem action_key {binding : Binding} {type : Option TypeExpr} {key : String}
    (h : (binding.action type).key = some key) : key = binding.key := by
  unfold action at h
  dsimp only at h
  split at h
  · exact (Option.some.inj h).symm
  · simp at h

end Binding

/-! ## The ways -/

/-- How a parameter is bound: the server supplies it, an annotation of a rule binds it, or the
policy does, as a single value or as a structured one. -/
inductive BindingWay where
  | supplied
  | annotated (rule : String × BindingKind) (record : AnnotationRecord)
  | single
  | structured

namespace BindingWay

def Supplied (p : ParameterRecord) : Prop :=
  ∃ t ∈ p.type, t.name ∈ injectedTypeNames

def Unannotated (p : ParameterRecord) : Prop :=
  ∀ rule ∈ Binding.rules, ∀ record ∈ p.annotations, record.type ≠ rule.1

/-- `way.Of table p`: the parameter `p` goes this way. -/
def Of (table : DeclarationTable) (p : ParameterRecord) : BindingWay → Prop
  | supplied => Supplied p
  | annotated rule record => ¬ Supplied p ∧ Binding.Decides p.annotations rule record
  | single => ¬ Supplied p ∧ Unannotated p ∧ ∃ t ∈ p.type, t.Scalar table
  | structured => ¬ Supplied p ∧ Unannotated p ∧ ∀ t ∈ p.type, ¬ t.Scalar table

/-- The family of the binding, where the policy has `entry`. -/
def family? (entry : BindingKind × BindingKind) : BindingWay → Option BindingKind
  | supplied => none
  | annotated rule _ => some rule.2
  | single => some entry.1
  | structured => some entry.2

/-- The entry of the policy for a method: that of the method in upper case, and where there is none
the query for single values and the form for structured ones. -/
def entryOf (options : ModelOptions) (method : String) : BindingKind × BindingKind :=
  ((options.policy.getD .standard).entries.lookup (Text.toUpper method)).getD (.query, .form)

/-- The name in the request: that of the annotation, else its value, else the parameter's own. -/
def key (own : String) : BindingWay → String
  | annotated _ record => ((record.text? "name").or (record.text? "value")).getD own
  | _ => own

/-- A value must be given: an annotation does not say that none is required, and it is no request
parameter with a default value. -/
def Requires : BindingWay → Prop
  | annotated _ record => record.flag? "required" ≠ some false ∧
      ¬ (record.type = "org.springframework.web.bind.annotation.RequestParam" ∧
        ∃ s, record.attribute? "defaultValue" = some (.string s) ∧ s ≠ Binding.noDefault)
  | _ => False

/-- `way.Describes entry type q`: what callers see of the parameter `q` of the given type, which
goes this way. -/
structure Describes (way : BindingWay) (entry : BindingKind × BindingKind)
    (type : Option TypeExpr) (q : Parameter) : Prop where
  /-- the action that the family stands for, if there is one; what would go to the query goes as a
  file exactly if it is one -/
  kind : q.action.map (·.kind) = (way.family? entry).map fun family =>
    if family = .query ∧ ∃ t ∈ type, t.name = TypeExpr.fileName then .file else family.actionKind
  keyed : ∀ action ∈ q.action,
    (action.key.isSome ↔ action.kind ∈ [.query, .path, .header, .cookie, .file])
  key : ∀ action ∈ q.action, ∀ key ∈ action.key, key = way.key q.name ∧ key ≠ ""
  required : q.required = true ↔ way.Requires

def ofRecord (table : DeclarationTable) (p : ParameterRecord) : BindingWay :=
  if p.type.any fun t => injectedTypeNames.contains t.name then supplied
  else
    match Binding.deciding? p.annotations with
    | some (rule, record) => annotated rule record
    | none => if p.type.any (·.isScalar table) then single else structured

variable {table : DeclarationTable} {p : ParameterRecord}

theorem supplied_iff :
    (p.type.any fun t => injectedTypeNames.contains t.name) = true ↔ Supplied p := by
  simp [Supplied, Option.any_eq_true]

theorem single_iff : p.type.any (·.isScalar table) = true ↔ ∃ t ∈ p.type, t.Scalar table := by
  simp [Option.any_eq_true, TypeExpr.isScalar_iff]

theorem unannotated_iff : Unannotated p ↔ Binding.deciding? p.annotations = none :=
  Binding.deciding?_eq_none_iff.symm

theorem of_ofRecord (table : DeclarationTable) (p : ParameterRecord) :
    (ofRecord table p).Of table p := by
  unfold ofRecord
  split
  · next hsupplied => exact supplied_iff.mp hsupplied
  · next hsupplied =>
    have bound : ¬ Supplied p := mt supplied_iff.mpr hsupplied
    split
    · next rule record hdeciding => exact ⟨bound, Binding.deciding?_eq_some_iff.mp hdeciding⟩
    · next hdeciding =>
      have unannotated : Unannotated p := unannotated_iff.mpr hdeciding
      split
      · next hsingle => exact ⟨bound, unannotated, single_iff.mp hsingle⟩
      · next hsingle =>
        exact ⟨bound, unannotated, fun t ht h => hsingle (single_iff.mpr ⟨t, ht, h⟩)⟩

theorem Of.eq_ofRecord {way : BindingWay} (h : way.Of table p) : way = ofRecord table p := by
  unfold ofRecord
  cases way with
  | supplied => rw [if_pos (supplied_iff.mpr h)]
  | annotated rule record =>
      obtain ⟨bound, decides⟩ := h
      rw [if_neg (mt supplied_iff.mp bound), Binding.deciding?_eq_some_iff.mpr decides]
  | single =>
      obtain ⟨bound, unannotated, hsingle⟩ := h
      rw [if_neg (mt supplied_iff.mp bound), unannotated_iff.mp unannotated]
      exact (if_pos (single_iff.mpr hsingle)).symm
  | structured =>
      obtain ⟨bound, unannotated, hstructured⟩ := h
      rw [if_neg (mt supplied_iff.mp bound), unannotated_iff.mp unannotated]
      refine (if_neg fun hsingle => ?_).symm
      obtain ⟨t, ht, hscalar⟩ := single_iff.mp hsingle
      exact hstructured t ht hscalar

theorem of_iff {way : BindingWay} : way.Of table p ↔ way = ofRecord table p :=
  ⟨Of.eq_ofRecord, fun h => h ▸ of_ofRecord table p⟩

/-- The name in the request is not empty, since no attribute gives an empty one. -/
theorem key_ne_empty {own : String} (named : own ≠ "") (way : BindingWay) : way.key own ≠ "" := by
  cases way with
  | annotated rule record =>
      show ((record.text? "name").or (record.text? "value")).getD own ≠ ""
      cases h : (record.text? "name").or (record.text? "value") with
      | none => exact named
      | some s =>
          rcases Option.or_eq_some_iff.mp h with hs | ⟨_, hs⟩
          · exact record.text?_ne_empty hs
          · exact record.text?_ne_empty hs
  | _ => exact named

theorem requires_iff {rule : String × BindingKind} {record : AnnotationRecord}
    (h : Binding.Decides p.annotations rule record) (name : String) :
    (annotated rule record).Requires ↔
      ((Binding.ofRecord name rule.2 record).required &&
        (Binding.ofRecord name rule.2 record).defaultValue.isNone) = true := by
  have hquery : record.type = "org.springframework.web.bind.annotation.RequestParam" ↔
      rule.2 = .query := by
    have hrules : ∀ rule ∈ Binding.rules,
        rule.1 = "org.springframework.web.bind.annotation.RequestParam" ↔ rule.2 = .query := by
      decide
    rw [h.type]
    exact hrules rule h.mem_rules
  have hflag : record.flag? "required" ≠ some false ↔
      ((record.flag? "required").getD true) = true := by
    cases record.flag? "required" with
    | none => simp
    | some b => simp
  have hdefault : (∃ s, record.attribute? "defaultValue" = some (.string s) ∧
      s ≠ Binding.noDefault) ↔ Binding.defaultOf? record ≠ none := by
    rw [Option.ne_none_iff_exists']
    exact exists_congr fun s => Binding.defaultOf?_eq_some_iff.symm
  unfold Requires Binding.ofRecord
  dsimp only
  rw [hquery, hflag, hdefault, Bool.and_eq_true]
  split
  · next hq => simp [hq]
  · next hq => simp [hq]

variable {options : ModelOptions} {method : String}

theorem describes_bound {way : BindingWay} {binding : Binding} {entry : BindingKind × BindingKind}
    (named : p.name ≠ "") (family : way.family? entry = some binding.kind)
    (key : way.key p.name = binding.key)
    (required : way.Requires ↔ (binding.required && binding.defaultValue.isNone) = true) :
    way.Describes entry p.type ⟨p.name, p.type,
      binding.required && binding.defaultValue.isNone, binding.action p.type, p.description⟩ where
  kind := by
    rw [family]
    exact congrArg some (binding.action_kind p.type)
  keyed := by
    rintro action ⟨⟩
    exact binding.action_keyed p.type
  key := by
    rintro action ⟨⟩ k hk
    have hown : k = way.key p.name := (Binding.action_key hk).trans key.symm
    exact ⟨hown, hown ▸ key_ne_empty named way⟩
  required := required.symm

theorem describes (named : p.name ≠ "") :
    (ofRecord table p).Describes (entryOf options method) p.type
      (Assembly.parameter options table method p) := by
  unfold ofRecord Assembly.parameter Assembly.binding
  rw [Binding.ofRecords?_eq]
  split
  · exact ⟨rfl, by simp, by simp, by simp [Requires]⟩
  · split
    · next rule record hdeciding =>
      have hdecides := Binding.deciding?_eq_some_iff.mp hdeciding
      rw [hdeciding]
      exact describes_bound named rfl rfl (requires_iff hdecides p.name)
    · next hdeciding =>
      rw [hdeciding]
      split
      · next hsingle =>
        refine describes_bound named ?_ rfl (by simp [Requires, Binding.ofPolicy])
        simp only [family?, Binding.ofPolicy, hsingle]
        rfl
      · next hsingle =>
        refine describes_bound named ?_ rfl (by simp [Requires, Binding.ofPolicy])
        simp only [family?, Binding.ofPolicy, hsingle]
        rfl

end BindingWay

/-- A parameter goes exactly one way, and that way describes it: where the server supplies it, it has
no action and is not required, and else it has the one action of its family. -/
theorem parameter_described (options : ModelOptions) (table : DeclarationTable) (method : String)
    (vars : List String) (i : Nat) (v : Json.Value) :
    let p := Graph.decodeParameter vars i v
    (∃! way, BindingWay.Of table p way) ∧
      ∀ way, BindingWay.Of table p way →
        way.Describes (BindingWay.entryOf options method) p.type
          (Assembly.parameter options table method p) := by
  intro p
  have named : p.name ≠ "" := Graph.decodeParameter_name_ne_empty vars i v
  constructor
  · exact ⟨BindingWay.ofRecord table p, BindingWay.of_iff.mpr rfl, fun way => BindingWay.of_iff.mp⟩
  · intro way hway
    rw [BindingWay.of_iff.mp hway]
    exact BindingWay.describes named

/-- A file has a header annotation and, behind it, two of request parameters.  The first of these two
decides, and the file is attached as one under the name that it gives.  A constant of an enum, which
has an annotation of no rule, is passed as the policy says for single values. -/
theorem parameter_described_file :
    let web := "org.springframework.web.bind.annotation."
    let record (type : String) (attributes : List (String × Json.Value)) : Json.Value :=
      .object [("type", .string (web ++ type)), ("attributes", .object attributes)]
    let raw (name type : String) (annotations : List Json.Value) : Json.Value :=
      .object [("name", .string name), ("type", .string type), ("annotations", .array annotations)]
    let file := raw "data" TypeExpr.fileName
      [record "RequestHeader" [], record "RequestParam" [("value", .array [.string "up"])],
        record "RequestParam" [("required", .bool false)]]
    let status := raw "status" "shop.Status" [record "GetMapping" []]
    let table := DeclarationTable.ofList [.ofEnum ⟨⟨"shop.Status", [], .unknown, "", []⟩, "Status"⟩]
    let options : ModelOptions := ⟨"$", none, some ⟨[("POST", .header, .body)]⟩, []⟩
    let seen (v : Json.Value) := Assembly.parameter options table "post"
      (Graph.decodeParameter [] 0 v)
    let first : BindingWay := .annotated (web ++ "RequestParam", .query)
      ⟨web ++ "RequestParam", [("value", .array [.string "up"])]⟩
    first.Of table (Graph.decodeParameter [] 0 file) ∧
    first.Describes (.header, .body) (some (.named TypeExpr.fileName [])) (seen file) ∧
    (seen file).action = some ⟨.file, some "up"⟩ ∧
    BindingWay.single.Of table (Graph.decodeParameter [] 0 status) ∧
    BindingWay.single.Describes (.header, .body) (some (.named "shop.Status" [])) (seen status) ∧
    (seen status).action = some ⟨.header, some "status"⟩ := by
  intro web record raw file status table options seen first
  have hfile : first.Of table (Graph.decodeParameter [] 0 file) := BindingWay.of_iff.mpr rfl
  have hstatus : BindingWay.single.Of table (Graph.decodeParameter [] 0 status) :=
    BindingWay.of_iff.mpr rfl
  obtain ⟨_, describedFile⟩ := parameter_described options table "post" [] 0 file
  obtain ⟨_, describedStatus⟩ := parameter_described options table "post" [] 0 status
  exact ⟨hfile, describedFile first hfile, by decide +kernel, hstatus,
    describedStatus .single hstatus, by decide +kernel⟩

end ApiStubs
