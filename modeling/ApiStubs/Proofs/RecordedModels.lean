import ApiStubs.Model.Json
import Mathlib.Data.List.Forall2

/-!
# What the document of a model holds

A value records a model if it is an object with the keys of models, and under each key there is what
the model has there.  A list is recorded by an array with as many items, each of which records the
element at its place (`Value.Lists`), so that modules, routes, parameters, classes, members, enums
and constants all come in the order of the model.  A type is recorded by its text, a missing type or
content type by null, and the value of a constant by itself, whatever it is.

The keys of an object differ, so that they and the values under them leave no choice
(`Value.eq_object`): the document of a model is the one value that records it
(`Model.recorded_iff`).
-/

namespace ApiStubs

open Json (Value)

namespace Json.Value

/-- An object with these keys, in this order. -/
def HasKeys (keys : List String) (v : Value) : Prop :=
  ∃ fields, v = .object fields ∧ fields.map (·.1) = keys

/-- A field that is an array of values which are to the elements of a list, one by one, as `R`
says. -/
def Lists {α : Type} (key : String) (R : α → Value → Prop) (elements : List α) (v : Value) : Prop :=
  ∃ items, v.field? key = some (.array items) ∧ List.Forall₂ R elements items

section

variable {α : Type} {v : Value}

theorem eq_of_lookup {fields : List (String × Value)} (nodup : (fields.map (·.1)).Nodup) :
    ∀ {others : List (String × Value)}, others.map (·.1) = fields.map (·.1) →
      (∀ field ∈ fields, others.lookup field.1 = some field.2) → others = fields := by
  induction fields with
  | nil => exact fun keys _ => List.map_eq_nil_iff.mp keys
  | cons field rest ih =>
      intro others keys values
      rw [List.map_cons, List.nodup_cons] at nodup
      obtain ⟨⟨key, w⟩, others, rfl, hkey, hrest⟩ := List.map_eq_cons_iff.mp keys
      obtain rfl : key = field.1 := hkey
      have hfirst := values field List.mem_cons_self
      rw [List.lookup_cons_self] at hfirst
      have hothers : others = rest := by
        refine ih nodup.2 hrest fun other hother => ?_
        have hne : other.1 ≠ field.1 := fun h => nodup.1 (h ▸ List.mem_map_of_mem hother)
        have hvalue := values other (List.mem_cons_of_mem _ hother)
        rwa [List.lookup_cons, beq_false_of_ne hne] at hvalue
      rw [hothers, Option.some.inj hfirst]

/-- An object whose keys differ is determined by them and the values under them. -/
theorem eq_object {fields : List (String × Value)} (nodup : (fields.map (·.1)).Nodup)
    (keys : v.HasKeys (fields.map (·.1)))
    (values : ∀ field ∈ fields, v.field? field.1 = some field.2) : v = .object fields := by
  obtain ⟨others, rfl, hkeys⟩ := keys
  exact congrArg Value.object (eq_of_lookup nodup hkeys values)

variable {R : α → Value → Prop} {f : α → Value}

theorem forall₂_iff_eq_map (h : ∀ a w, R a w ↔ w = f a) (elements : List α) (items : List Value) :
    List.Forall₂ R elements items ↔ items = elements.map f := by
  have hR : R = fun a w => f a = w := by
    funext a w
    exact propext ((h a w).trans eq_comm)
  rw [hR, ← List.forall₂_map_left_iff, List.forall₂_eq_eq_eq]
  exact eq_comm

theorem lists_iff (h : ∀ a w, R a w ↔ w = f a) (key : String) (elements : List α) :
    v.Lists key R elements ↔ v.field? key = some (.array (elements.map f)) := by
  constructor
  · rintro ⟨items, hfield, hitems⟩
    rw [hfield, (forall₂_iff_eq_map h elements items).mp hitems]
  · exact fun hfield => ⟨_, hfield, (forall₂_iff_eq_map h elements _).mpr rfl⟩

end

end Json.Value

theorem typeJson_eq_elim (t : Option TypeExpr) :
    typeJson t = t.elim .null fun t => .string t.text := by
  cases t with
  | none => rfl
  | some t => rfl

theorem textJson_eq_elim (s : Option String) : textJson s = s.elim .null .string := by
  cases s with
  | none => rfl
  | some s => rfl

/-! ## Routes -/

/-- The method of the runtime, and behind it the key if there is one. -/
def Action.Recorded (a : Action) (v : Value) : Prop :=
  match a.key with
  | none => v = .array [.string a.kind.method]
  | some key => v = .array [.string a.kind.method, .string key]

theorem Action.recorded_iff (a : Action) (v : Value) : a.Recorded v ↔ v = a.toJson := by
  unfold Recorded toJson
  cases a.key with
  | none => rfl
  | some key => rfl

structure Parameter.Recorded (p : Parameter) (v : Value) : Prop where
  keys : v.HasKeys ["name", "type", "required", "description", "actions"]
  name : v.field? "name" = some (.string p.name)
  type : v.field? "type" = some (p.type.elim .null fun t => .string t.text)
  required : v.field? "required" = some (.bool p.required)
  description : v.field? "description" = some (.string p.description)
  /-- no item for a parameter that the server supplies -/
  actions : v.Lists "actions" Action.Recorded p.action.toList

theorem Parameter.recorded_iff (p : Parameter) (v : Value) : p.Recorded v ↔ v = p.toJson := by
  constructor
  · intro h
    have hactions := (Value.lists_iff Action.recorded_iff _ _).mp h.actions
    refine Value.eq_object (by simp) h.keys ?_
    simp [h.name, h.type, h.required, h.description, hactions, typeJson_eq_elim]
  · rintro rfl
    exact {
      keys := ⟨_, rfl, rfl⟩
      name := rfl
      type := congrArg some (typeJson_eq_elim p.type)
      required := rfl
      description := rfl
      actions := (Value.lists_iff Action.recorded_iff _ _).mpr rfl }

structure Route.Recorded (r : Route) (v : Value) : Prop where
  keys : v.HasKeys ["bean", "name", "uniqName", "method", "pattern", "mapped",
    "requestContentType", "description", "returnType", "parameters"]
  bean : v.field? "bean" = some (.string r.bean)
  name : v.field? "name" = some (.string r.name)
  uniqueName : v.field? "uniqName" = some (.string r.uniqueName)
  method : v.field? "method" = some (.string r.method)
  pattern : v.field? "pattern" = some (.string r.pattern)
  mapped : v.field? "mapped" = some (.bool r.mapped)
  contentType : v.field? "requestContentType" = some (r.contentType.elim .null .string)
  description : v.field? "description" = some (.string r.description)
  returnType : v.field? "returnType" = some (r.returnType.elim .null fun t => .string t.text)
  parameters : v.Lists "parameters" Parameter.Recorded r.parameters

theorem Route.recorded_iff (r : Route) (v : Value) : r.Recorded v ↔ v = r.toJson := by
  constructor
  · intro h
    have hparameters := (Value.lists_iff Parameter.recorded_iff _ _).mp h.parameters
    refine Value.eq_object (by simp) h.keys ?_
    simp [h.bean, h.name, h.uniqueName, h.method, h.pattern, h.mapped, h.contentType,
      h.description, h.returnType, hparameters, typeJson_eq_elim, textJson_eq_elim]
  · rintro rfl
    exact {
      keys := ⟨_, rfl, rfl⟩
      bean := rfl
      name := rfl
      uniqueName := rfl
      method := rfl
      pattern := rfl
      mapped := rfl
      contentType := congrArg some (textJson_eq_elim r.contentType)
      description := rfl
      returnType := congrArg some (typeJson_eq_elim r.returnType)
      parameters := (Value.lists_iff Parameter.recorded_iff _ _).mpr rfl }

structure Module.Recorded (m : Module) (v : Value) : Prop where
  keys : v.HasKeys ["name", "displayName", "identifier", "routes"]
  name : v.field? "name" = some (.string m.name)
  displayName : v.field? "displayName" = some (.string m.displayName)
  identifier : v.field? "identifier" = some (.string m.identifier)
  routes : v.Lists "routes" Route.Recorded m.routes

theorem Module.recorded_iff (m : Module) (v : Value) : m.Recorded v ↔ v = m.toJson := by
  constructor
  · intro h
    have hroutes := (Value.lists_iff Route.recorded_iff _ _).mp h.routes
    refine Value.eq_object (by simp) h.keys ?_
    simp [h.name, h.displayName, h.identifier, hroutes]
  · rintro rfl
    exact {
      keys := ⟨_, rfl, rfl⟩
      name := rfl
      displayName := rfl
      identifier := rfl
      routes := (Value.lists_iff Route.recorded_iff _ _).mpr rfl }

/-! ## Declarations -/

structure Member.Recorded (m : Member) (v : Value) : Prop where
  keys : v.HasKeys ["name", "type", "optional", "description"]
  name : v.field? "name" = some (.string m.name)
  type : v.field? "type" = some (m.type.elim .null fun t => .string t.text)
  optional : v.field? "optional" = some (.bool m.optional)
  description : v.field? "description" = some (.string m.description)

theorem Member.recorded_iff (m : Member) (v : Value) : m.Recorded v ↔ v = m.toJson := by
  constructor
  · intro h
    refine Value.eq_object (by simp) h.keys ?_
    simp [h.name, h.type, h.optional, h.description, typeJson_eq_elim]
  · rintro rfl
    exact {
      keys := ⟨_, rfl, rfl⟩
      name := rfl
      type := congrArg some (typeJson_eq_elim m.type)
      optional := rfl
      description := rfl }

structure Class.Recorded (c : Class) (v : Value) : Prop where
  keys : v.HasKeys
    ["name", "simpleName", "typeParameters", "superclass", "description", "members"]
  name : v.field? "name" = some (.string c.name)
  simpleName : v.field? "simpleName" = some (.string c.simpleName)
  typeParameters : v.field? "typeParameters" = some (.array (c.typeParameters.map .string))
  superclass : v.field? "superclass" = some (c.superclass.elim .null fun t => .string t.text)
  description : v.field? "description" = some (.string c.description)
  members : v.Lists "members" Member.Recorded c.members

theorem Class.recorded_iff (c : Class) (v : Value) : c.Recorded v ↔ v = c.toJson := by
  constructor
  · intro h
    have hmembers := (Value.lists_iff Member.recorded_iff _ _).mp h.members
    refine Value.eq_object (by simp) h.keys ?_
    simp [h.name, h.simpleName, h.typeParameters, h.superclass, h.description, hmembers,
      typeJson_eq_elim]
  · rintro rfl
    exact {
      keys := ⟨_, rfl, rfl⟩
      name := rfl
      simpleName := rfl
      typeParameters := rfl
      superclass := congrArg some (typeJson_eq_elim c.superclass)
      description := rfl
      members := (Value.lists_iff Member.recorded_iff _ _).mpr rfl }

structure Constant.Recorded (c : Constant) (v : Value) : Prop where
  keys : v.HasKeys ["name", "value", "description", "memo"]
  name : v.field? "name" = some (.string c.name)
  /-- the value as the graph has it, and not what a literal makes of it -/
  value : v.field? "value" = some c.raw
  description : v.field? "description" = some (.string c.description)
  memo : v.field? "memo" = some (.string c.memo)

theorem Constant.recorded_iff (c : Constant) (v : Value) : c.Recorded v ↔ v = c.toJson := by
  constructor
  · intro h
    refine Value.eq_object (by simp) h.keys ?_
    simp [h.name, h.value, h.description, h.memo]
  · rintro rfl
    exact {
      keys := ⟨_, rfl, rfl⟩
      name := rfl
      value := rfl
      description := rfl
      memo := rfl }

structure Enum.Recorded (e : Enum) (v : Value) : Prop where
  keys : v.HasKeys ["name", "simpleName", "valueType", "description", "constants"]
  name : v.field? "name" = some (.string e.name)
  simpleName : v.field? "simpleName" = some (.string e.simpleName)
  valueType : v.field? "valueType" = some (.string e.valueType.name)
  description : v.field? "description" = some (.string e.description)
  constants : v.Lists "constants" Constant.Recorded e.constants

theorem Enum.recorded_iff (e : Enum) (v : Value) : e.Recorded v ↔ v = e.toJson := by
  constructor
  · intro h
    have hconstants := (Value.lists_iff Constant.recorded_iff _ _).mp h.constants
    refine Value.eq_object (by simp) h.keys ?_
    simp [h.name, h.simpleName, h.valueType, h.description, hconstants]
  · rintro rfl
    exact {
      keys := ⟨_, rfl, rfl⟩
      name := rfl
      simpleName := rfl
      valueType := rfl
      description := rfl
      constants := (Value.lists_iff Constant.recorded_iff _ _).mpr rfl }

/-! ## The document -/

/-- What a value holds that records a model with the base address of its requests. -/
structure Model.Recorded (base : Value) (model : Model) (document : Value) : Prop where
  keys : document.HasKeys ["base", "modules", "classes", "enums"]
  base : document.field? "base" = some base
  modules : document.Lists "modules" Module.Recorded model.modules
  /-- superclasses before the classes that extend them -/
  classes : document.Lists "classes" Class.Recorded model.classes
  enums : document.Lists "enums" Enum.Recorded model.enums

theorem Model.recorded_iff (base : Value) (model : Model) (document : Value) :
    model.Recorded base document ↔ document = model.toJson base := by
  constructor
  · intro h
    have hmodules := (Value.lists_iff Module.recorded_iff _ _).mp h.modules
    have hclasses := (Value.lists_iff Class.recorded_iff _ _).mp h.classes
    have henums := (Value.lists_iff Enum.recorded_iff _ _).mp h.enums
    refine Value.eq_object (by simp) h.keys ?_
    simp [h.base, hmodules, hclasses, henums]
  · rintro rfl
    exact {
      keys := ⟨_, rfl, rfl⟩
      base := rfl
      modules := (Value.lists_iff Module.recorded_iff _ _).mpr rfl
      classes := (Value.lists_iff Class.recorded_iff _ _).mpr rfl
      enums := (Value.lists_iff Enum.recorded_iff _ _).mpr rfl }

end ApiStubs
