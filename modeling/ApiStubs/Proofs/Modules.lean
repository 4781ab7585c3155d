import ApiStubs.Proofs.PutOut

/-!
# Distinct names and modules

The names of a model come from three runs of handing out names: one for classes and then enums, one
for routes, and one for modules.  Each run is over all that could clash, so its names are distinct
(`Namer.nodup_takeAll`) whatever the input asks for.  What is left to see is that the names end up
in the model as they were handed out: a declaration whose qualified name is taken drops out of the
table with its simple name, and nothing else gets lost.

Modules are the groups of the routes by bean, so they partition the routes.
-/

namespace ApiStubs

namespace Assembly

variable {options : ModelOptions} {table : DeclarationTable} {routes : List Route}

/-! ## Names -/

theorem nodup_simpleNames_table (separator : String) (graph : Graph) :
    ((Assembly.table separator graph).declarations.map (·.simpleName)).Nodup := by
  refine ((DeclarationTable.declarations_ofList_sublist _).map _).nodup ?_
  rw [List.map_append, Namer.map_named_right _ _ fun _ _ => rfl,
    Namer.map_named_right _ _ fun _ _ => rfl]
  -- The enums go on where the classes stopped, so that this is one run.
  have hrun := Namer.nodup_takeAll separator
    (graph.classes.map (fun c => Text.Identifier.simpleName c.name) ++
      graph.enums.map fun e => Text.Identifier.simpleName e.name)
  rw [Namer.takeAll_append] at hrun
  exact hrun

theorem nodup_uniqueNames_routes (records : List RouteRecord) :
    ((Assembly.routes options table records).map (·.uniqueName)).Nodup := by
  unfold Assembly.routes
  rw [Namer.map_named_right _ _ fun _ _ => rfl]
  exact Namer.nodup_takeAll options.separator _

theorem nodup_identifiers_modules : ((modules options routes).map (·.identifier)).Nodup := by
  unfold modules
  rw [Namer.map_named_right _ _ fun _ _ => rfl]
  exact Namer.nodup_takeAll options.separator _

/-- No record that the filter keeps is lost or moved. -/
theorem routes_kept (records : List RouteRecord) :
    (Assembly.routes options table records).map (fun r => (r.bean, r.name)) =
      (records.filter fun r => keeps options.apis r.bean r.name).map fun r => (r.bean, r.name) :=
  Namer.map_named_left _ _ fun _ _ => rfl

/-! ## Modules -/

theorem modules_groups (options : ModelOptions) (routes : List Route) :
    (modules options routes).map (fun m => (m.name, m.routes)) = groupBy (·.bean) routes := by
  have h : (modules options routes).map (fun m => (m.name, m.routes)) =
      (groupBy (·.bean) routes).map id :=
    Namer.map_named_left _ _ fun _ _ => rfl
  rw [h, List.map_id]

theorem names_modules :
    (modules options routes).map (·.name) = (routes.map (·.bean)).eraseDups := by
  have h := congrArg (List.map Prod.fst) (modules_groups options routes)
  rw [List.map_map, groupBy_eq, List.map_map] at h
  exact h.trans (List.map_id _)

theorem nodup_names_modules : ((modules options routes).map (·.name)).Nodup := by
  rw [names_modules]
  exact nodup_eraseDups _

theorem routes_of_mem_modules {m : Module} (hm : m ∈ modules options routes) :
    m.routes = routes.filter fun r => r.bean = m.name := by
  have h := List.mem_map_of_mem (f := fun m : Module => (m.name, m.routes)) hm
  rw [modules_groups, groupBy_eq] at h
  obtain ⟨bean, _, he⟩ := List.mem_map.mp h
  obtain ⟨hname, hroutes⟩ := Prod.mk.inj he
  rw [← hroutes, ← hname]

theorem perm_routes_modules : ((modules options routes).flatMap (·.routes)).Perm routes := by
  have h := groupBy_perm (·.bean) routes
  rw [← modules_groups options, List.flatMap_map] at h
  exact h

/-- The module of a route is the one of its bean, and no other module has the route. -/
theorem exists_module {r : Route} (hr : r ∈ routes) :
    ∃ m ∈ modules options routes, m.name = r.bean ∧
      ∀ n ∈ modules options routes, r ∈ n.routes ↔ n = m := by
  have hbean : r.bean ∈ (modules options routes).map (·.name) := by
    rw [names_modules, List.mem_eraseDups]
    exact List.mem_map_of_mem hr
  obtain ⟨m, hm, hname⟩ := List.mem_map.mp hbean
  refine ⟨m, hm, hname, fun n hn => ?_⟩
  rw [routes_of_mem_modules hn, List.mem_filter]
  constructor
  · rintro ⟨_, hbean⟩
    have hsame : n.name = m.name := (of_decide_eq_true hbean).symm.trans hname.symm
    exact List.inj_on_of_nodup_map nodup_names_modules hn hm hsame
  · rintro rfl
    exact ⟨hr, decide_eq_true hname.symm⟩

end Assembly

namespace Model

variable {options : ModelOptions} {graph : Graph} {raw : Json.Value} {model : Model}

theorem nodup_simpleNames_emitted :
    ((assemble options graph).classes.map (·.simpleName) ++
      (assemble options graph).enums.map (·.simpleName)).Nodup := by
  let emitted := (assemble options graph).classes.map Declaration.ofClass ++
    (assemble options graph).enums.map Declaration.ofEnum
  have hdeclared : ∀ d ∈ emitted, d ∈ (assemble options graph).table.declarations := by
    intro d hd
    refine keyed_assemble.mem_declarations_iff.mpr ?_
    rcases List.mem_append.mp hd with hd | hd
    · obtain ⟨c, hc, rfl⟩ := List.mem_map.mp hd
      exact knows_of_emits hc
    · obtain ⟨e, he, rfl⟩ := List.mem_map.mp hd
      exact knows_of_emits he
  have hnodup : emitted.Nodup := by
    refine List.nodup_append.mpr ⟨?_, ?_, ?_⟩
    · exact settled_classes.nodup.of_map.map fun _ _ => Declaration.ofClass.inj
    · exact nodup_names_enums.of_map.map fun _ _ => Declaration.ofEnum.inj
    · intro d hd e he hde
      obtain ⟨c, _, rfl⟩ := List.mem_map.mp hd
      obtain ⟨e, _, rfl⟩ := List.mem_map.mp he
      cases hde
  have hnames : (emitted.map (·.simpleName)).Nodup :=
    hnodup.map_on fun d hd e he => List.inj_on_of_nodup_map
      (Assembly.nodup_simpleNames_table options.separator graph) (hdeclared d hd) (hdeclared e he)
  rw [List.map_append, List.map_map, List.map_map] at hnames
  exact hnames

/-- Of the names in a model no two are the same: not of two routes, not of two declarations, whether
these are classes or enums, and not of two modules.  The routes are the records that the filter
keeps.  There is a module for each bean, in the order in which the beans come first, and it has the
routes of its bean in their order, so that each route is in one module. -/
theorem modules_partition_routes (built : ofJson options raw = .ok model) :
    ((model.routes.map (·.uniqueName)).Nodup ∧
      (model.table.declarations.map (·.simpleName)).Nodup ∧
      (model.classes.map (·.simpleName) ++ model.enums.map (·.simpleName)).Nodup ∧
      (model.modules.map (·.identifier)).Nodup) ∧
    (∃ graph, Graph.decode raw = .ok graph ∧
      model.routes.map (fun r => (r.bean, r.name)) =
        (graph.routes.filter fun r => Assembly.keeps options.apis r.bean r.name).map
          fun r => (r.bean, r.name)) ∧
    (model.modules.map (·.name) = (model.routes.map (·.bean)).eraseDups ∧
      (model.modules.map (·.name)).Nodup) ∧
    (∀ m ∈ model.modules, m.routes = model.routes.filter fun r => r.bean = m.name) ∧
    (model.modules.flatMap (·.routes)).Perm model.routes ∧
    ∀ r ∈ model.routes, ∃ m ∈ model.modules, m.name = r.bean ∧
      ∀ n ∈ model.modules, r ∈ n.routes ↔ n = m := by
  obtain ⟨graph, decoded, rfl⟩ := ofJson_eq_ok_iff.mp built
  refine ⟨⟨?_, ?_, nodup_simpleNames_emitted, ?_⟩, ⟨graph, decoded, ?_⟩,
    ⟨Assembly.names_modules, Assembly.nodup_names_modules⟩, ?_, ?_, ?_⟩
  · exact Assembly.nodup_uniqueNames_routes graph.routes
  · exact Assembly.nodup_simpleNames_table options.separator graph
  · exact Assembly.nodup_identifiers_modules
  · exact Assembly.routes_kept graph.routes
  · exact fun m hm => Assembly.routes_of_mem_modules hm
  · exact Assembly.perm_routes_modules
  · exact fun r hr => Assembly.exists_module hr

/-- A graph that asks for the same names again and again, also for one that stands for the second
of its kind. -/
def ordersGraph : Graph where
  classes := [.sample "a.Order" [], .sample "a.Order" []]
  enums := [.sample "b.Order" []]
  routes := [("list", "a.Orders"), ("list", "b.Orders"), ("list$1", "a.Orders")].map fun r =>
    { RouteRecord.sample r.2 [] none with name := r.1 }

theorem modules_partition_orders :
    ∃ model, ofJson ⟨"$", none, none, []⟩ ordersGraph.sampleJson = .ok model ∧
      model.routes.map (·.uniqueName) = ["list", "list$1", "list$1$1"] ∧
      model.table.declarations.map (·.simpleName) = ["Order", "Order$2"] ∧
      model.modules.map (·.identifier) = ["orders", "orders$1"] ∧
      model.modules.map (·.name) = (model.routes.map (·.bean)).eraseDups ∧
      ∀ r ∈ model.routes, ∃ m ∈ model.modules, m.name = r.bean ∧
        ∀ n ∈ model.modules, r ∈ n.routes ↔ n = m := by
  have decoded : Graph.decode ordersGraph.sampleJson = .ok ordersGraph := by rfl
  have built := ofJson_eq_ok_iff.mpr
    ⟨ordersGraph, decoded, Eq.refl (assemble ⟨"$", none, none, []⟩ ordersGraph)⟩
  obtain ⟨_, _, ⟨hmodules, _⟩, _, _, hpartition⟩ := modules_partition_routes built
  refine ⟨_, built, ?_, ?_, ?_, hmodules, hpartition⟩
  · decide +kernel
  · decide +kernel
  · decide +kernel

end Model

end ApiStubs
