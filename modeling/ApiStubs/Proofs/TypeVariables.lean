import ApiStubs.Proofs.ClosedOutput
import ApiStubs.Proofs.TopLevelNames
import ApiStubs.Proofs.AliasUses

/-!
# Type variables in TypeScript files

A type variable is bound where the declaration around it lists it as a type parameter.  Types are
read with the type parameters of their record in scope, a class or a route (`TypeExpr.Scoped`), and
resolving a type enters only types inside it, so that the variables which stand in generated code
are type parameters of the record from which they come.

The header of a class lists all of them.  The header of a stub lists none.  So variables of classes
are always bound, and those of routes never are: a file has no unbound variable exactly if no route
mentions a variable at all (`Ts.variables_bound_iff`).  A generic route is one that does
(`Ts.variable_unbound`).
-/

namespace ApiStubs

open Relation
open Resolved (Within ofType ofType?)

/-! ## Variables of records -/

namespace Graph

open Json (Value)

theorem scoped_of_decodeClass {i : Nat} {v : Value} {c : ClassRecord}
    (h : decodeClass i v = .ok c) {t : TypeExpr}
    (ht : c.superclass = some t ∨ ∃ m ∈ c.members, m.type = some t) :
    t.Scoped c.typeParameters := by
  rcases ht with ht | ⟨m, hm, ht⟩
  · exact (superclass_of_decodeClass h ht).1
  · obtain ⟨w, hw⟩ := exists_type_of_decodeClass h hm
    exact scoped_type? (hw.symm.trans ht)

theorem scoped_of_decodeRoute {i : Nat} {v : Value} {r : RouteRecord}
    (h : decodeRoute i v = .ok r) {t : TypeExpr}
    (ht : (∃ p ∈ r.parameters, p.type = some t) ∨ r.returnType = some t) :
    t.Scoped (typeParameters v) := by
  obtain ⟨name, _, h⟩ := bind_eq_ok.mp h
  rw [← Except.ok.inj h] at ht
  rcases ht with ⟨p, hp, ht⟩ | ht
  · obtain ⟨j, _, rfl⟩ := List.mem_mapIdx.mp hp
    exact scoped_type? ht
  · exact scoped_type? ht

end Graph

/-- The types that the stub of a route shows: those of the parameters that callers pass and the one
that the route returns. -/
def Route.types (r : Route) : List TypeExpr :=
  r.exposed.filterMap (·.type) ++ r.returnType.toList

namespace Model

variable {options : ModelOptions} {graph : Graph} {raw : Json.Value}

theorem scoped_references (decoded : Graph.decode raw = .ok graph) {c : Class}
    (hc : c ∈ (assemble options graph).classes) {t : TypeExpr}
    (ht : t ∈ (Declaration.ofClass c).references) : t.Scoped c.typeParameters := by
  have hrecord := Assembly.record_mem_of_holds (settled_classes.held c hc)
  obtain ⟨_, hclasses, _⟩ := Graph.decode_eq_ok_iff.mp decoded
  obtain ⟨v, _, hv⟩ := exists_left_of_forall₂ hclasses hrecord
  refine Graph.scoped_of_decodeClass hv ?_
  rcases List.mem_append.mp ht with ht | ht
  · exact Or.inl (Option.mem_toList.mp ht)
  · exact Or.inr (List.mem_filterMap.mp ht)

/-- The variables of a route are type parameters of the item from which it is decoded. -/
theorem scoped_route (decoded : Graph.decode raw = .ok graph) {r : Route}
    (hr : r ∈ (assemble options graph).routes) :
    ∃ v ∈ raw.itemsOf "routes", ∀ t ∈ r.types, t.Scoped (Graph.typeParameters v) := by
  obtain ⟨record, hrecord, name, _, rfl⟩ := exists_of_mem_zipWith hr
  obtain ⟨_, _, _, hroutes⟩ := Graph.decode_eq_ok_iff.mp decoded
  obtain ⟨v, hitem, hv⟩ := exists_left_of_forall₂ hroutes (List.mem_filter.mp hrecord).1
  refine ⟨v, hitem, fun t ht => Graph.scoped_of_decodeRoute hv ?_⟩
  rcases List.mem_append.mp ht with ht | ht
  · obtain ⟨p, hp, ht⟩ := List.mem_filterMap.mp ht
    obtain ⟨q, hq, rfl⟩ := List.mem_map.mp (List.mem_filter.mp hp).1
    have htype : ∀ method, (Assembly.parameter options (assemble options graph).table method
        q).type = q.type := by
      intro method
      rw [Assembly.parameter]
      split
      · rfl
      · rfl
    exact Or.inl ⟨q, hq, (htype _).symm.trans ht⟩
  · exact Or.inr (Option.mem_toList.mp ht)

end Model

/-! ## Variables of resolved types -/

/-- `Returns table t v`: the variable `v` is what a type is resolved to on the way of resolving the
type `t`, at any depth. -/
def Returns (table : DeclarationTable) (t : TypeExpr) (v : String) : Prop :=
  ReflTransGen (Enters table) t (.var v)

section

variable {table : DeclarationTable} {vars : List String} {t : TypeExpr} {v : String}

theorem TypeExpr.Scoped.of_mem_args {a : TypeExpr} (h : t.Scoped vars) (ha : a ∈ t.args) :
    a.Scoped vars := by
  cases h with
  | wildcard => exact absurd ha List.not_mem_nil
  | var _ => exact absurd ha List.not_mem_nil
  | named hargs => exact hargs a ha

/-- What is returned was in scope where the type was read. -/
theorem Returns.mem (h : Returns table t v) (read : t.Scoped vars) : v ∈ vars := by
  induction h using ReflTransGen.head_induction_on with
  | refl => exact read.mem
  | head hb _ ih => exact ih (read.of_mem_args hb.mem_args)

namespace Resolved

theorem ofType_eq_var (h : ofType table t = .var v) : t = .var v := by
  cases t with
  | wildcard => exact absurd h (by simp [ofType])
  | var n =>
      rw [ofType] at h
      rw [var.inj h]
  | named n args =>
      rw [ofType, ofNamed.eq_def] at h
      cases hn : TypeKind.ofName n with
      | wrapper =>
          rw [hn] at h
          cases hm : ofTypes table args with
          | nil => exact absurd h (by simp [hm])
          | cons _ _ => exact absurd h (by simp [hm])
      | declared =>
          rw [hn] at h
          have h : ofDeclared table n _ = .var v := h
          rw [ofDeclared] at h
          cases hd : table.find? n with
          | none => exact absurd h (by simp [hd])
          | some d =>
              cases d with
              | ofClass c => exact absurd h (by simp [hd])
              | ofEnum e => exact absurd h (by simp [hd])
      | _ => exact absurd h (by simp [hn, ofMap])

theorem within_var_iff : Within (.var v) (ofType table t) ↔ Returns table t v := by
  constructor
  · intro h
    rcases within_ofType h with h | ⟨a, ha, h⟩
    · cases h
    · rw [Returns, ← ofType_eq_var h.symm]
      exact ha
  · intro h
    have hvar : ofType table (.var v) = .var v := by rw [ofType]
    rw [← hvar]
    exact within_of_enters h

theorem within_var_ofType?_iff {type : Option TypeExpr} :
    Within (.var v) (ofType? table type) ↔ ∃ t ∈ type, Returns table t v := by
  cases type with
  | none =>
      refine iff_of_false (fun h => ?_) fun ⟨_, h, _⟩ => absurd h (Option.not_mem_none _)
      cases h with
      | part hs _ => exact absurd hs List.not_mem_nil
  | some t =>
      refine within_var_iff.trans ⟨fun h => ⟨t, rfl, h⟩, ?_⟩
      rintro ⟨_, ht, h⟩
      exact Option.some.inj ht ▸ h

end Resolved

end

/-! ## Scopes -/

theorem WriteOp.ownTexts_subset_codeTexts {op : WriteOp} {s : String} (h : s ∈ op.ownTexts) :
    s ∈ op.codeTexts := by
  cases op with
  | write items =>
      rw [codeTexts]
      exact h
  | _ => exact absurd h List.not_mem_nil

namespace Ts

/-- A header with the types that stand in what it declares. -/
structure Scope where
  header : Header
  types : List Resolved

/-- All variables in the types of a scope are listed by its header. -/
def Scope.Bound (scope : Scope) : Prop :=
  ∀ w ∈ scope.types, ∀ v, Within (.var v) w → v ∈ scope.header.parameters

def stubHeader (stub : Stub) : Header :=
  ⟨"async ", stub.name, [], "(" ++ ", ".intercalate stub.parameterList ++ ") \x7b"⟩

/-- The stub of a route with the types of its parameters and the one that it returns. -/
def stubScope (table : DeclarationTable) (r : Route) : Scope :=
  ⟨stubHeader (.ofRoute table r), (Stub.ofRoute table r).types⟩

/-- The type of a class with its superclass and the types of its members. -/
def classScope (table : DeclarationTable) (c : Class) : Scope :=
  ⟨classHeader table c, (Declaration.ofClass c).references.map (ofType table)⟩

def scopes (model : Model) : List Scope :=
  (model.modules.flatMap (·.routes)).map (stubScope model.table) ++
    model.classes.map (classScope model.table)

/-- What a stub is written as stands in the file. -/
theorem mem_codeTexts_of_stub {document : Document} {m : ModuleObject} (hm : m ∈ document.modules)
    {stub : Stub} (hstub : stub ∈ m.stubs) {s : String}
    (hs : s ∈ stub.ops.flatMap WriteOp.codeTexts) : s ∈ document.codeTexts := by
  have hmodule : s ∈ m.ops.flatMap WriteOp.codeTexts := by
    refine List.mem_flatMap.mpr ⟨.block (m.stubs.flatMap Stub.ops), by simp [ModuleObject.ops], ?_⟩
    rw [WriteOp.codeTexts_block, List.flatMap_assoc]
    exact List.mem_flatMap.mpr ⟨stub, hstub, hs⟩
  obtain ⟨op, hop, htext⟩ := List.mem_flatMap.mp hmodule
  refine List.mem_flatMap.mpr ⟨op, ?_, htext⟩
  have hmodules : op ∈ document.modules.flatMap ModuleObject.ops :=
    List.mem_flatMap.mpr ⟨m, hm, hop⟩
  simp [Document.ops, hmodules]

section

variable {hasBanner : Bool} {runtime base : Literal} {model : Model} {document : Document}
  (content : document = .ofModel hasBanner runtime base model)

include content

theorem text_stub_mem {m : Module} (hm : m ∈ model.modules) {r : Route} (hr : r ∈ m.routes) :
    (stubHeader (.ofRoute model.table r)).text ∈ document.codeTexts := by
  have hobject : ModuleObject.ofModule model.table m ∈ document.modules := by
    rw [modules_eq content]
    exact List.mem_map_of_mem hm
  refine mem_codeTexts_of_stub hobject (List.mem_map_of_mem hr) ?_
  rw [stubHeader, Header.text_plain]
  simp [Stub.ops, String.append_assoc]

theorem text_class_mem {c : Class} (hc : c ∈ model.classes) :
    (classHeader model.table c).text ∈ document.codeTexts := by
  have hstatement : (classHeader model.table c).text ∈ document.statements := by
    rw [statements_eq content]
    exact List.mem_map_of_mem (by simp [headers, List.mem_map_of_mem hc])
  obtain ⟨op, hop, htext⟩ := List.mem_flatMap.mp (List.mem_filter.mp hstatement).1
  exact List.mem_flatMap.mpr ⟨op, hop, WriteOp.ownTexts_subset_codeTexts htext⟩

/-- The headers of scopes stand in the file. -/
theorem text_scope_mem {scope : Scope} (h : scope ∈ scopes model) :
    scope.header.text ∈ document.codeTexts := by
  rcases List.mem_append.mp h with h | h
  · obtain ⟨r, hr, rfl⟩ := List.mem_map.mp h
    obtain ⟨m, hm, hr⟩ := List.mem_flatMap.mp hr
    exact text_stub_mem content hm hr
  · obtain ⟨c, hc, rfl⟩ := List.mem_map.mp h
    exact text_class_mem content hc

end

/-- A stub shows the meanings of the types of its route. -/
theorem bound_stubScope_iff {table : DeclarationTable} {r : Route} :
    (stubScope table r).Bound ↔ ∀ t ∈ r.types, ∀ v, ¬ Returns table t v := by
  have htypes : (Stub.ofRoute table r).types =
      (r.exposed.map (·.type) ++ [r.returnType]).map (ofType? table) := by
    rw [← r.map_parameter_arguments .ts, List.map_append, List.map_map, List.map_map, Stub.types,
      Stub.ofRoute, List.map_map]
    rfl
  have hshown : ∀ t, t ∈ r.types ↔ some t ∈ r.exposed.map (·.type) ++ [r.returnType] := by
    intro t
    simp [Route.types, eq_comm]
  constructor
  · intro bound t ht v hv
    have hmem : ofType? table (some t) ∈ (Stub.ofRoute table r).types := by
      rw [htypes]
      exact List.mem_map_of_mem ((hshown t).mp ht)
    have hlisted := bound _ hmem v (Resolved.within_var_ofType?_iff.mpr ⟨t, rfl, hv⟩)
    exact absurd hlisted List.not_mem_nil
  · intro none w hw v hv
    have hw : w ∈ (Stub.ofRoute table r).types := hw
    rw [htypes] at hw
    obtain ⟨type, htype, rfl⟩ := List.mem_map.mp hw
    obtain ⟨t, ht, hreturns⟩ := Resolved.within_var_ofType?_iff.mp hv
    have ht : type = some t := ht
    exact absurd hreturns (none t ((hshown t).mpr (ht ▸ htype)) v)

theorem bound_classScope {options : ModelOptions} {graph : Graph} {raw : Json.Value}
    (decoded : Graph.decode raw = .ok graph) {c : Class}
    (hc : c ∈ (Model.assemble options graph).classes) :
    (classScope (Model.assemble options graph).table c).Bound := by
  intro w hw v hv
  obtain ⟨t, ht, rfl⟩ := List.mem_map.mp hw
  have hparameters : (classHeader (Model.assemble options graph).table c).parameters =
      c.typeParameters := by
    rw [classHeader]
    cases TypeBody.ofClass (Model.assemble options graph).table c with
    | _ => rfl
  show v ∈ (classHeader _ c).parameters
  rw [hparameters]
  exact (Resolved.within_var_iff.mp hv).mem (Model.scoped_references decoded hc ht)

/-- The header of every scope stands in the file.  Variables of classes are listed by their headers;
those of routes are not, so that all variables are bound exactly if routes return none.  What a
route returns is a type parameter of its own. -/
theorem variables_bound_iff {base raw : Json.Value} {options : BuildOptions} {result : BuildResult}
    (built : build (.string Target.ts.name) base raw options = .ok result) :
    ∃ model document, Writes base raw options result model document ∧
      (∀ scope ∈ scopes model, scope.header.text ∈ document.codeTexts) ∧
      (∀ c ∈ model.classes, (classScope model.table c).Bound) ∧
      ((∀ scope ∈ scopes model, scope.Bound) ↔
        ∀ r ∈ model.routes, ∀ t ∈ r.types, ∀ v, ¬ Returns model.table t v) ∧
      ∀ r ∈ model.routes, ∃ item ∈ raw.itemsOf "routes", ∀ t ∈ r.types, ∀ v,
        Returns model.table t v → v ∈ Graph.typeParameters item := by
  obtain ⟨model, document, writes⟩ := exists_writes built
  refine ⟨model, document, writes, fun _ h => text_scope_mem writes.content h, ?_⟩
  obtain ⟨graph, decoded, rfl⟩ := Model.ofJson_eq_ok_iff.mp writes.assembled
  have hroutes : ∀ r, r ∈ (Model.assemble (Build.modelOptions .ts options) graph).modules.flatMap
      (·.routes) ↔ r ∈ (Model.assemble (Build.modelOptions .ts options) graph).routes :=
    fun r => Assembly.perm_routes_modules.mem_iff
  refine ⟨fun c hc => bound_classScope decoded hc, ?_, ?_⟩
  · constructor
    · intro bound r hr
      refine bound_stubScope_iff.mp (bound _ (List.mem_append_left _ ?_))
      exact List.mem_map_of_mem ((hroutes r).mpr hr)
    · intro none scope h
      rcases List.mem_append.mp h with h | h
      · obtain ⟨r, hr, rfl⟩ := List.mem_map.mp h
        exact bound_stubScope_iff.mpr (none r ((hroutes r).mp hr))
      · obtain ⟨c, hc, rfl⟩ := List.mem_map.mp h
        exact bound_classScope decoded hc
  · intro r hr
    obtain ⟨item, hitem, read⟩ := Model.scoped_route decoded hr
    exact ⟨item, hitem, fun t ht v hv => hv.mem (read t ht)⟩

def boxClass : ClassRecord :=
  { ClassRecord.sample "Box" [("item", .var "T")] with typeParameters := ["T"] }

/-- A graph with this class, and a route that may have type parameters of its own. -/
def boxGraph (returnType : TypeExpr) : Graph where
  classes := [boxClass]
  enums := []
  routes := [.sample "Loader" [] (some returnType)]

/-- What such a graph is decoded from. -/
def boxJson (typeParameters : List String) (returnType : String) : Json.Value :=
  .object
    [("classes", .array [Sample.ofClass boxClass]),
     ("routes", .array [.object
      [("name", .string "load"), ("bean", .string "Loader"),
       ("typeParameters", .array (typeParameters.map .string)),
       ("returnType", .string returnType)]])]

/-- A route without type parameters, which returns a type of the class. -/
theorem variables_bound_box : ∃ result,
    build (.string Target.ts.name) (.string "") (boxJson [] "Box<Box>")
      (.ofTexts true none none none) = .ok result ∧
    ∃ model document, Writes (.string "") (boxJson [] "Box<Box>") (.ofTexts true none none none)
      result model document ∧ ∀ scope ∈ scopes model, scope.Bound := by
  have decoded : Graph.decode (boxJson [] "Box<Box>") =
      .ok (boxGraph (.named "Box" [.named "Box" []])) := by rfl
  obtain ⟨result, built⟩ := build_ok_of_decode decoded .ts "" true
  obtain ⟨model, document, writes, _, _, bound, read⟩ := variables_bound_iff built
  refine ⟨result, built, model, document, writes, bound.mpr ?_⟩
  intro r hr t ht v hv
  obtain ⟨item, hitem, hlisted⟩ := read r hr
  have hnone : ∀ item ∈ (boxJson [] "Box<Box>").itemsOf "routes",
      Graph.typeParameters item = [] := by decide +kernel
  exact absurd (hnone item hitem ▸ hlisted t ht v hv) List.not_mem_nil

/-- A route that returns its own type parameter. -/
theorem variable_unbound : ∃ result,
    build (.string Target.ts.name) (.string "") (boxJson ["T"] "T") (.ofTexts true none none none) =
      .ok result ∧
    ∃ model document, Writes (.string "") (boxJson ["T"] "T") (.ofTexts true none none none)
      result model document ∧
      ∃ scope ∈ scopes model,
        scope.header.text = "async load(settings?: Partial<Settings>) \x7b" ∧
        scope.header.text ∈ document.codeTexts ∧ scope.types = [.var "T"] ∧ ¬ scope.Bound := by
  have decoded : Graph.decode (boxJson ["T"] "T") = .ok (boxGraph (.var "T")) := by rfl
  obtain ⟨result, built⟩ := build_ok_of_decode decoded .ts "" true
  obtain ⟨model, document, writes⟩ := exists_writes built
  refine ⟨result, built, model, document, writes, ?_⟩
  cases Model.eq_assemble_of_decode decoded writes.assembled
  let r : Route := ⟨"Loader", "load", "load", "GET", "", false, none, "", some (.var "T"), []⟩
  let model := Model.assemble (Build.modelOptions .ts (.ofTexts true none none none))
    (boxGraph (.var "T"))
  have hroutes : model.modules.flatMap (·.routes) = [r] := by rfl
  have hscope : stubScope model.table r ∈ scopes model := by
    refine List.mem_append_left _ (List.mem_map_of_mem ?_)
    rw [hroutes]
    exact List.mem_singleton_self r
  have htypes : (stubScope model.table r).types = [.var "T"] := by
    show [ofType model.table (.var "T")] = _
    rw [ofType]
  refine ⟨_, hscope, by decide +kernel, text_scope_mem writes.content hscope, htypes, ?_⟩
  intro bound
  have hlisted := bound (.var "T") (by rw [htypes]; exact List.mem_singleton_self _) "T" .self
  exact absurd hlisted List.not_mem_nil

end Ts

end ApiStubs
