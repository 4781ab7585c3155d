import ApiStubs.Proofs.Assembled
import ApiStubs.Proofs.Consulted
import ApiStubs.Proofs.Samples
import ApiStubs.Proofs.Signature
import ApiStubs.Oc.Document
import ApiStubs.Ts.Document

/-!
# Output is closed

Generated code mentions nothing that it does not contain: every declaration that is consulted while
the types of the output are resolved is put out, and every class that a type mentions has as many
arguments as it declares type parameters (`emits_consulted`).

Two traversals have to agree for this, the walk that collects declarations and the recursion of the
resolver.  Both are compared with `Reaches`: the resolver consults only what a type leads to, and
what is collected is closed under what its members lead to.  Classes are put out that no walk
collects only where a class has one of its own type parameters as its superclass, since a variable
names no declaration but the hierarchy of classes looks at the mere name.
-/

namespace ApiStubs

open Resolved (Within ofType)

namespace Model

/-- The types that generated code shows: of each route those of the parameters that callers pass and
the one it returns, and of each class its superclass and those of its members. -/
def resolvedTypes (model : Model) : List TypeExpr :=
  model.routes.flatMap (fun r => r.exposed.filterMap (·.type) ++ r.returnType.toList) ++
    model.classes.flatMap fun c => (Declaration.ofClass c).references

/-- `model.Emits d`: the declaration `d` is put out. -/
def Emits (model : Model) : Declaration → Prop
  | .ofClass c => c ∈ model.classes
  | .ofEnum e => e ∈ model.enums

/-- No class gives one of its own type parameters as its superclass. -/
def ProperSuperclasses (model : Model) : Prop :=
  ∀ c v, model.table.Holds c → c.superclass = some (.var v) → v ∉ c.typeParameters

variable {options : ModelOptions} {graph : Graph}

theorem emits_of_mem_collected {d : Declaration} (h : d ∈ collected options graph) :
    (assemble options graph).Emits d := by
  cases d with
  | ofClass c => exact mem_classes_iff.mpr ⟨c, h, .refl⟩
  | ofEnum e => exact mem_enums_iff.mpr h

theorem knows_of_emits {d : Declaration} (h : (assemble options graph).Emits d) :
    (assemble options graph).table.Knows d := by
  cases d with
  | ofClass c => exact settled_classes.held c h
  | ofEnum e => exact knows_of_mem_collected (mem_enums_iff.mp h)

section Decoded

variable {raw : Json.Value} (decoded : Graph.decode raw = .ok graph)
  (proper : (assemble options graph).ProperSuperclasses)

include decoded proper

/-- A superclass that the table knows is one to which its type leads. -/
theorem declaration?_superclass {c p : Class} (hc : (assemble options graph).table.Holds c)
    {t : TypeExpr} (ht : c.superclass = some t)
    (hp : (assemble options graph).table.find? t.name = some (.ofClass p)) :
    t.declaration? (assemble options graph).table = some (.ofClass p) := by
  have hrecord := Assembly.record_mem_of_holds hc
  obtain ⟨hscoped, hkind⟩ := Graph.superclass_of_decode decoded hrecord ht
  cases t with
  -- Decoding drops a superclass of which nothing is known.
  | wildcard => exact absurd rfl hkind
  -- The variables of a superclass are type parameters of its class.
  | var v => exact absurd hscoped.mem (proper c v hc ht)
  | named n args => exact hp

/-- The classes put out are those collected: superclasses bring no others. -/
theorem mem_collected_of_mem_classes {c : Class} (h : c ∈ (assemble options graph).classes) :
    .ofClass c ∈ collected options graph := by
  obtain ⟨b, hb, hbc⟩ := mem_classes_iff.mp h
  clear h
  induction hbc with
  | refl => exact hb
  | @tail x p _ hxp hx =>
      obtain ⟨t, ht, hp⟩ := hxp
      have hholds : (assemble options graph).table.Holds x :=
        knows_of_mem_collected hx
      have hd := declaration?_superclass decoded proper hholds ht hp
      refine mem_collected_of_references hx ?_ (.names hd)
      exact List.mem_append_left _ (by simp [ht])

/-- What the types of the output lead to is collected. -/
theorem mem_collected_of_reaches {t : TypeExpr} (ht : t ∈ (assemble options graph).resolvedTypes)
    {d : Declaration} (h : Reaches (assemble options graph).table t d) :
    d ∈ collected options graph := by
  rcases List.mem_append.mp ht with ht | ht
  · obtain ⟨r, hr, ht⟩ := List.mem_flatMap.mp ht
    refine mem_collected_iff.mpr (Or.inl ⟨t, ?_, h⟩)
    refine List.mem_flatMap.mpr ⟨r, hr, ?_⟩
    rcases List.mem_append.mp ht with ht | ht
    · obtain ⟨p, hp, ht⟩ := List.mem_filterMap.mp ht
      exact List.mem_append_left _ (List.mem_filterMap.mpr ⟨p, (List.mem_filter.mp hp).1, ht⟩)
    · exact List.mem_append_right _ ht
  · obtain ⟨c, hc, ht⟩ := List.mem_flatMap.mp ht
    have hc := mem_collected_of_mem_classes decoded proper hc
    exact mem_collected_of_references hc ht h

end Decoded

/-- `model.Closes w`: the resolved type `w` mentions, at any depth, only declarations that are put
out, and classes only with as many arguments as they declare type parameters. -/
def Closes (model : Model) (w : Resolved) : Prop :=
  ∀ r, Within r w → (∀ d, r.declaration? = some d → model.Emits d) ∧
    ∀ c args, r = .ofClass c args → args.length = c.typeParameters.length

theorem closes_unknown (model : Model) : model.Closes .unknown := by
  intro r h
  cases h with
  | self => exact ⟨fun d h => absurd h (by simp [Resolved.declaration?]), by simp⟩
  | part hs _ => exact absurd hs List.not_mem_nil

theorem closes_ofType {model : Model} {t : TypeExpr}
    (consulted : ∀ d, Consults model.table t d → model.Emits d) :
    model.Closes (ofType model.table t) := by
  intro r h
  rcases Resolved.within_ofType h with rfl | ⟨a, ha, rfl⟩
  · exact closes_unknown model .unknown .self
  · constructor
    · exact fun d hd => consulted d ⟨a, ha, Resolved.looksUp_of_ofType hd⟩
    · exact fun c args hr => Resolved.length_of_ofType_eq_ofClass hr

end Model

/-! ## What documents mention -/

theorem Route.exposed_of_mem_arguments {target : Target} {route : Route} {a : Argument}
    (h : a ∈ route.arguments target) : a.parameter ∈ route.exposed := by
  rw [← route.map_parameter_arguments target]
  exact List.mem_map_of_mem h

namespace Model

variable {model : Model}

/-- `model.Shows w`: the resolved type `w` is the meaning of a type that generated code shows, or
unknown because no type is given. -/
def Shows (model : Model) (w : Resolved) : Prop :=
  w = .unknown ∨ ∃ t ∈ model.resolvedTypes, w = ofType model.table t

theorem shows_ofType? {t : Option TypeExpr} (h : ∀ u, t = some u → u ∈ model.resolvedTypes) :
    model.Shows (.ofType? model.table t) := by
  cases t with
  | none => exact Or.inl rfl
  | some u => exact Or.inr ⟨u, h u rfl, rfl⟩

theorem shows_argument {route : Route} (hr : route ∈ model.routes) {target : Target}
    {a : Argument} (ha : a ∈ route.arguments target) :
    model.Shows (.ofType? model.table a.parameter.type) := by
  refine shows_ofType? fun u hu => List.mem_append_left _ ?_
  refine List.mem_flatMap.mpr ⟨route, hr, List.mem_append_left _ ?_⟩
  exact List.mem_filterMap.mpr ⟨_, route.exposed_of_mem_arguments ha, hu⟩

theorem shows_result {route : Route} (hr : route ∈ model.routes) :
    model.Shows (.ofType? model.table route.returnType) := by
  refine shows_ofType? fun u hu => List.mem_append_left _ ?_
  exact List.mem_flatMap.mpr ⟨route, hr, List.mem_append_right _ (by simp [hu])⟩

theorem shows_member {c : Class} (hc : c ∈ model.classes) {m : Member} (hm : m ∈ c.members) :
    model.Shows (.ofType? model.table m.type) := by
  refine shows_ofType? fun u hu => List.mem_append_right _ ?_
  refine List.mem_flatMap.mpr ⟨c, hc, List.mem_append_right _ ?_⟩
  exact List.mem_filterMap.mpr ⟨m, hm, hu⟩

theorem shows_superclass {c : Class} (hc : c ∈ model.classes) {t : TypeExpr}
    (ht : c.superclass = some t) : model.Shows (ofType model.table t) := by
  refine Or.inr ⟨t, List.mem_append_right _ ?_, rfl⟩
  exact List.mem_flatMap.mpr ⟨c, hc, List.mem_append_left _ (by simp [ht])⟩

end Model

section Documents

variable {model : Model} (grouped : ∀ m ∈ model.modules, ∀ r ∈ m.routes, r ∈ model.routes)

include grouped

theorem Ts.shows_of_mem_mentioned {hasBanner : Bool} {runtime base : Literal} {w : Resolved}
    (h : w ∈ (Document.ofModel hasBanner runtime base model).mentioned) : model.Shows w := by
  rcases List.mem_append.mp h with h | h
  · obtain ⟨object, ho, h⟩ := List.mem_flatMap.mp h
    obtain ⟨m, hm, rfl⟩ := List.mem_map.mp ho
    obtain ⟨stub, hs, h⟩ := List.mem_flatMap.mp h
    obtain ⟨route, hr, rfl⟩ := List.mem_map.mp hs
    rcases List.mem_append.mp h with h | h
    · obtain ⟨p, hp, rfl⟩ := List.mem_map.mp h
      obtain ⟨a, ha, rfl⟩ := List.mem_map.mp hp
      exact Model.shows_argument (grouped m hm route hr) ha
    · rw [List.mem_singleton.mp h]
      exact Model.shows_result (grouped m hm route hr)
  · obtain ⟨definition, hd, h⟩ := List.mem_flatMap.mp h
    obtain ⟨c, hc, rfl⟩ := List.mem_map.mp hd
    have hparent : ∀ type, c.superclass.map (ofType model.table) = some type →
        model.Shows type := by
      intro type htype
      obtain ⟨t, ht, rfl⟩ := Option.map_eq_some_iff.mp htype
      exact Model.shows_superclass hc ht
    have h : w ∈ (TypeBody.ofClass model.table c).types := h
    simp only [TypeBody.ofClass] at h
    split at h
    · rename_i type _ htype
      rw [List.mem_singleton.mp h]
      exact hparent type htype
    · rcases List.mem_append.mp h with h | h
      · have h := Option.mem_toList.mp h
        exact hparent w (Option.filter_eq_some_iff.mp h).1
      · obtain ⟨field, hf, rfl⟩ := List.mem_map.mp h
        obtain ⟨m, hm, rfl⟩ := List.mem_map.mp hf
        exact Model.shows_member hc hm

def Oc.Document.mentioned (document : Document) : List Resolved :=
  document.interfaces.flatMap (fun i => i.properties.map (·.type)) ++
    document.modules.flatMap fun m =>
      m.methods.flatMap fun f => f.parameters.map (·.type) ++ [f.result]

theorem Oc.shows_of_mem_mentioned {hasBanner : Bool} {runtime base : String} {w : Resolved}
    (h : w ∈ (Document.ofModel hasBanner runtime base model).mentioned) : model.Shows w := by
  rcases List.mem_append.mp h with h | h
  · obtain ⟨interface, hi, h⟩ := List.mem_flatMap.mp h
    obtain ⟨c, hc, rfl⟩ := List.mem_map.mp hi
    obtain ⟨property, hp, rfl⟩ := List.mem_map.mp h
    obtain ⟨m, hm, rfl⟩ := List.mem_map.mp hp
    exact Model.shows_member hc hm
  · obtain ⟨object, ho, h⟩ := List.mem_flatMap.mp h
    obtain ⟨m, hm, rfl⟩ := List.mem_map.mp ho
    obtain ⟨method, hf, h⟩ := List.mem_flatMap.mp h
    obtain ⟨route, hr, rfl⟩ := List.mem_map.mp hf
    rcases List.mem_append.mp h with h | h
    · obtain ⟨p, hp, rfl⟩ := List.mem_map.mp h
      obtain ⟨i, hi, rfl⟩ := List.mem_mapIdx.mp hp
      exact Model.shows_argument (grouped m hm route hr) (List.getElem_mem hi)
    · rw [List.mem_singleton.mp h]
      exact Model.shows_result (grouped m hm route hr)

end Documents

/-- Let no class give one of its own type parameters as its superclass.  Then every declaration that
is consulted while the types of the output are resolved is put out; what they mean mentions only
declarations that are put out, and every class with as many arguments as it declares type
parameters; their meanings stay the same in a table without the declarations that are not put out;
and the files of both targets mention nothing else. -/
theorem Model.output_closed {options : ModelOptions} {raw : Json.Value} {model : Model}
    (built : Model.ofJson options raw = .ok model) (proper : model.ProperSuperclasses) :
    (∀ t ∈ model.resolvedTypes, ∀ d, Consults model.table t d → model.Emits d) ∧
    (∀ t ∈ model.resolvedTypes, model.Closes (ofType model.table t)) ∧
    (∀ t ∈ model.resolvedTypes, ∀ names : List String,
      (∀ d, model.Emits d → d.name ∉ names) →
        ofType (model.table.hide names) t = ofType model.table t) ∧
    (∀ hasBanner runtime base, ∀ w ∈ (Ts.Document.ofModel hasBanner runtime base model).mentioned,
      model.Closes w) ∧
    ∀ hasBanner runtime base, ∀ w ∈ (Oc.Document.ofModel hasBanner runtime base model).mentioned,
      model.Closes w := by
  obtain ⟨graph, decoded, rfl⟩ := ofJson_eq_ok_iff.mp built
  have consulted : ∀ t ∈ (assemble options graph).resolvedTypes, ∀ d,
      Consults (assemble options graph).table t d → (assemble options graph).Emits d := by
    intro t ht d hd
    exact emits_of_mem_collected (mem_collected_of_reaches decoded proper ht hd.reaches)
  have closes : ∀ w, (assemble options graph).Shows w → (assemble options graph).Closes w := by
    rintro w (rfl | ⟨t, ht, rfl⟩)
    · exact closes_unknown _
    · exact closes_ofType (consulted t ht)
  have grouped : ∀ m ∈ (assemble options graph).modules, ∀ r ∈ m.routes,
      r ∈ (assemble options graph).routes :=
    fun m hm r hr => Assembly.mem_routes_of_modules hm hr
  refine ⟨consulted, fun t ht => closes_ofType (consulted t ht), ?_, ?_, ?_⟩
  · intro t ht names hidden
    exact Resolved.ofType_hide keyed_assemble.named t fun d hd => hidden d (consulted t ht d hd)
  · exact fun _ _ _ w hw => closes w (Ts.shows_of_mem_mentioned grouped hw)
  · exact fun _ _ _ w hw => closes w (Oc.shows_of_mem_mentioned grouped hw)

/-- A generic class below another one, with one argument too many where a route returns it, and a
class to which no route leads. -/
def boxedGraph : Graph where
  classes :=
    [{ ClassRecord.sample "Box" [("item", .var "T")] with
        typeParameters := ["T"], superclass := some (.named "Base" []) },
     .sample "Base" [], .sample "Spare" []]
  enums := []
  routes := [.sample "Loader" [] (some (.named "Box" [.named "Base" [], .named "Base" []]))]

theorem Model.output_closed_boxed :
    ∃ model, Model.ofJson ⟨"$", some ["Loader"], none, []⟩ boxedGraph.sampleJson = .ok model ∧
      model.ProperSuperclasses ∧
      ∀ t ∈ model.resolvedTypes, model.Closes (ofType model.table t) := by
  let options : ModelOptions := ⟨"$", some ["Loader"], none, []⟩
  have decoded : Graph.decode boxedGraph.sampleJson = .ok boxedGraph := by rfl
  have built := ofJson_eq_ok_iff.mpr ⟨boxedGraph, decoded, Eq.refl (assemble options boxedGraph)⟩
  have proper : (Model.assemble options boxedGraph).ProperSuperclasses := by
    intro c v hc hs
    have hrecord := Assembly.record_mem_of_holds hc
    simp only [boxedGraph, List.mem_cons, List.not_mem_nil, or_false] at hrecord
    rcases hrecord with h | h | h
    all_goals
      rw [h] at hs
      exact absurd hs (by simp [ClassRecord.sample])
  exact ⟨_, built, proper, (output_closed built proper).2.1⟩

end ApiStubs
