import ApiStubs.Proofs.Assembled
import ApiStubs.Proofs.Correspondence

/-!
# Apart from the names handed out

What names are handed out depends on the separator and on the reserved words.  Nothing else in a
model does, and `Model.same_but_names` states this of two models of one graph: with the same filter
and the same policy both fail in the same way, or both are there and the same without the unique
names of routes, the simple names of declarations and the identifiers of modules.

Without their simple names the tables of a graph are the same (`nameless_table`), so they
correspond, and no binding, no walk and no order depends on what a declaration is called in
generated code.
-/

namespace ApiStubs

open List (Forall₂)

/-! ## Declarations -/

/-- The declaration without its simple name. -/
def Declaration.nameless : Declaration → Declaration
  | ofClass c => ofClass { c with simpleName := "" }
  | ofEnum e => ofEnum { e with simpleName := "" }

def Class.nameless (c : Class) : Class :=
  { c with simpleName := "" }

def Enum.nameless (e : Enum) : Enum :=
  { e with simpleName := "" }

def Declaration.SameButName (d d' : Declaration) : Prop :=
  d.nameless = d'.nameless

theorem Declaration.sameShape_nameless (d : Declaration) : d.SameShape d.nameless := by
  cases d with
  | ofClass c => exact .ofClass rfl rfl rfl
  | ofEnum e => exact .ofEnum rfl

theorem Declaration.SameButName.shape {d d' : Declaration} (h : d.SameButName d') :
    d.SameShape d' := by
  have hshape := d.sameShape_nameless
  rw [h] at hshape
  exact hshape.trans d'.sameShape_nameless.symm

namespace DeclarationTable

variable {table other : DeclarationTable}

def nameless (table : DeclarationTable) : DeclarationTable :=
  ⟨table.entries.map fun entry => (entry.1, entry.2.nameless)⟩

theorem nameless_eq_iff :
    table.nameless = other.nameless ↔ table.Entrywise Declaration.SameButName other := by
  unfold nameless Entrywise
  rw [DeclarationTable.mk.injEq, ← List.forall₂_eq_eq_eq, List.forall₂_map_left_iff,
    List.forall₂_map_right_iff]
  simp only [Prod.mk.injEq]
  exact Iff.rfl

theorem corresponds_of_nameless (same : table.nameless = other.nameless) :
    table.Corresponds Declaration.SameButName other :=
  ⟨Declaration.SameButName.shape, (nameless_eq_iff.mp same).finds⟩

end DeclarationTable

namespace Assembly

theorem nameless_table (separator separator' : String) (graph : Graph) :
    (Assembly.table separator graph).nameless = (Assembly.table separator' graph).nameless := by
  refine DeclarationTable.nameless_eq_iff.mpr ?_
  refine DeclarationTable.entrywise_ofList (fun _ _ h => h.shape.name_eq) ?_
  refine List.rel_append (forall₂_of_map_eq ?_) (forall₂_of_map_eq ?_)
  · have hplain (namer : Namer) :
        (List.zipWith (fun c simpleName => Declaration.ofClass ⟨c, simpleName⟩) graph.classes
            (namer.takeAll (graph.classes.map fun c => Text.Identifier.simpleName c.name)).1).map
          Declaration.nameless = graph.classes.map fun c => .ofClass ⟨c, ""⟩ :=
      namer.map_named_left graph.classes fun _ _ => rfl
    exact (hplain _).trans (hplain _).symm
  · have hplain (namer : Namer) :
        (List.zipWith (fun e simpleName => Declaration.ofEnum ⟨e, simpleName⟩) graph.enums
            (namer.takeAll (graph.enums.map fun e => Text.Identifier.simpleName e.name)).1).map
          Declaration.nameless = graph.enums.map fun e => .ofEnum ⟨e, ""⟩ :=
      namer.map_named_left graph.enums fun _ _ => rfl
    exact (hplain _).trans (hplain _).symm

end Assembly

/-! ## Routes -/

/-- The route without its unique name. -/
def Route.nameless (route : Route) : Route :=
  { route with uniqueName := "" }

namespace Assembly

variable {options options' : ModelOptions} {table table' : DeclarationTable}

theorem nameless_route (policy : options.policy = options'.policy)
    (same : table.nameless = table'.nameless) (r : RouteRecord) (name name' : String) :
    (route options table r name).nameless = (route options' table' r name').nameless := by
  have hparameters : ∀ method, r.parameters.map (parameter options table method) =
      r.parameters.map (parameter options' table' method) :=
    fun method => List.map_congr_left fun p _ =>
      parameter_eq (DeclarationTable.corresponds_of_nameless same) policy method p
  unfold route Route.nameless
  simp only [hparameters]

/-- The routes are made of the records that the filter keeps, one by one. -/
theorem nameless_routes (options : ModelOptions) (table : DeclarationTable)
    (records : List RouteRecord) :
    (routes options table records).map Route.nameless =
      (records.filter fun r => keeps options.apis r.bean r.name).map fun r =>
        (route options table r "").nameless :=
  Namer.map_named_left _ _ fun _ _ => rfl

theorem nameless_routes_eq (apis : options.apis = options'.apis)
    (policy : options.policy = options'.policy) (same : table.nameless = table'.nameless)
    (records : List RouteRecord) :
    (routes options table records).map Route.nameless =
      (routes options' table' records).map Route.nameless := by
  rw [nameless_routes, nameless_routes, apis]
  exact List.map_congr_left fun r _ => nameless_route policy same r "" ""

theorem routeTypes_nameless (routes : List Route) :
    routeTypes (routes.map Route.nameless) = routeTypes routes := by
  unfold routeTypes
  rw [List.flatMap_map]
  rfl

end Assembly

/-! ## Modules -/

/-- The module without its identifier and without the unique names of its routes. -/
def Module.nameless (m : Module) : Module :=
  { m with identifier := "", routes := m.routes.map Route.nameless }

/-- The modules group the routes in the same way, whatever these are called. -/
theorem Assembly.nameless_modules (options : ModelOptions) (routes : List Route) :
    (modules options routes).map Module.nameless =
      (groupBy (·.bean) (routes.map Route.nameless)).map fun g =>
        ⟨g.1, Text.Identifier.simpleName g.1, "", g.2⟩ := by
  rw [groupBy_map, List.map_map]
  exact Namer.map_named_left _ _ fun _ _ => rfl

/-! ## Models -/

namespace Model

variable {options options' : ModelOptions}

def nameless (model : Model) : Model where
  routes := model.routes.map Route.nameless
  modules := model.modules.map Module.nameless
  table := model.table.nameless
  classes := model.classes.map Class.nameless
  enums := model.enums.map Enum.nameless

/-- What the declarations of graphs are called makes no difference to the rest of their models. -/
theorem nameless_assemble_of_tables (apis : options.apis = options'.apis)
    (policy : options.policy = options'.policy) {graph graph' : Graph}
    (htable : (Assembly.table options.separator graph).nameless =
      (Assembly.table options'.separator graph').nameless)
    (routes : graph.routes = graph'.routes) :
    (assemble options graph).nameless = (assemble options' graph').nameless := by
  have hcorresponds := DeclarationTable.corresponds_of_nameless htable
  have hroutes := Assembly.nameless_routes_eq apis policy htable graph.routes
  rw [congrArg (Assembly.routes options' _) routes] at hroutes
  have hmodules : (assemble options graph).modules.map Module.nameless =
      (assemble options' graph').modules.map Module.nameless := by
    unfold assemble
    rw [Assembly.nameless_modules, Assembly.nameless_modules, hroutes]
  have htypes := congrArg Assembly.routeTypes hroutes
  rw [Assembly.routeTypes_nameless, Assembly.routeTypes_nameless] at htypes
  have hcollected := Assembly.forall₂_collected hcorresponds apis
    (fun _ => (DeclarationTable.nameless_eq_iff.mp htable).declarations) htypes
  have hclasses : (assemble options graph).classes.map Class.nameless =
      (assemble options' graph').classes.map Class.nameless :=
    map_eq_of_forall₂ (fun _ _ hc => Declaration.ofClass.inj hc)
      (hcorresponds.forall₂_inOrder (hcorresponds.forall₂_classes hcollected))
  have henums : (assemble options graph).enums.map Enum.nameless =
      (assemble options' graph').enums.map Enum.nameless :=
    map_eq_of_forall₂ (fun _ _ he => Declaration.ofEnum.inj he)
      (hcorresponds.forall₂_enums hcollected)
  unfold nameless
  rw [hclasses, henums, hmodules]
  congr 1

theorem nameless_assemble (apis : options.apis = options'.apis)
    (policy : options.policy = options'.policy) (graph : Graph) :
    (assemble options graph).nameless = (assemble options' graph).nameless :=
  nameless_assemble_of_tables apis policy
    (Assembly.nameless_table options.separator options'.separator graph) rfl

/-- Two models of one graph with the same filter and the same policy, whatever their separators and
reserved words are: either the graph lacks a name, and the same one for both, or both are there and
the same but for the names handed out.  So they have the same routes with the same parameters, the
same modules with the same routes, and the same declarations in the same order. -/
theorem same_but_names (apis : options.apis = options'.apis)
    (policy : options.policy = options'.policy) (raw : Json.Value) :
    (∃ m, ofJson options raw = .error m ∧ ofJson options' raw = .error m) ∨
      ∃ model model', ofJson options raw = .ok model ∧ ofJson options' raw = .ok model' ∧
        model.nameless = model'.nameless := by
  unfold ofJson
  cases Graph.decode raw with
  | error m => exact Or.inl ⟨m, rfl, rfl⟩
  | ok graph => exact Or.inr ⟨_, _, rfl, rfl, nameless_assemble apis policy graph⟩

/-- Two classes of one simple name, and two routes of one name, of a bean that goes by a word which
the first options reserve. -/
theorem same_but_names_new :
    let options : ModelOptions := ⟨"$", none, none, ["new"]⟩
    let options' : ModelOptions := ⟨"_", none, none, []⟩
    let route : Json.Value := .object
      [("name", .string "load"), ("bean", .string "New"), ("returnType", .string "b.Order")]
    let raw : Json.Value := .object
      [("classes", .array
        [.object [("name", .string "a.Order")], .object [("name", .string "b.Order")]]),
       ("routes", .array [route, route])]
    options.apis = options'.apis ∧ options.policy = options'.policy ∧
    ∃ model model', ofJson options raw = .ok model ∧ ofJson options' raw = .ok model' ∧
      model.routes.map (·.uniqueName) = ["load", "load$1"] ∧
      model'.routes.map (·.uniqueName) = ["load", "load_1"] ∧
      model.classes.map (·.simpleName) = ["Order$1", "Order"] ∧
      model'.classes.map (·.simpleName) = ["Order_1", "Order"] ∧
      model.modules.map (·.identifier) = ["_new"] ∧ model'.modules.map (·.identifier) = ["new"] ∧
      model.nameless = model'.nameless := by
  intro options options' route raw
  let order (name : String) : ClassRecord := ⟨name, [], none, [], "", []⟩
  let load : RouteRecord := ⟨"load", "New", [], [], [], [], some (.named "b.Order" []), ""⟩
  let graph : Graph := ⟨[order "a.Order", order "b.Order"], [], [load, load]⟩
  have decoded : Graph.decode raw = .ok graph := by rfl
  have built := ofJson_eq_ok_iff.mpr ⟨graph, decoded, Eq.refl (assemble options graph)⟩
  have built' := ofJson_eq_ok_iff.mpr ⟨graph, decoded, Eq.refl (assemble options' graph)⟩
  have hsame : (assemble options graph).nameless = (assemble options' graph).nameless := by
    rcases same_but_names (show options.apis = options'.apis from rfl) rfl raw with
      ⟨m, h, _⟩ | ⟨model, model', h, h', hsame⟩
    · exact absurd (built.symm.trans h) (by simp)
    · rw [Except.ok.inj (built.symm.trans h), Except.ok.inj (built'.symm.trans h')]
      exact hsame
  refine ⟨rfl, rfl, _, _, built, built', ?_, ?_, ?_, ?_, ?_, ?_, hsame⟩
  · decide +kernel
  · decide +kernel
  · decide +kernel
  · decide +kernel
  · decide +kernel
  · decide +kernel

end Model

end ApiStubs
