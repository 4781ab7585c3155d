import ApiStubs.Proofs.Assembled
import ApiStubs.Proofs.Outcome
import ApiStubs.Proofs.WrittenAlike

/-!
# The order of declarations

With a filter, what a build puts out is found from the routes, so the order in which a graph lists
its classes and enums could show in three places only: in the simple names, which are handed out in
this order, in which of two declarations of one name is kept, and in the index by which a missing
name is reported.  `build_of_permuted` states that it does not show where the simple names are
distinct and the build succeeds: the graph with its classes and enums in any other order gives the
same result.

With distinct simple names every declaration is kept under its own one (`Assembly.table_of_nodup`),
and a table of distinct names finds the same under every name in whatever order it was made
(`DeclarationTable.find?_ofList_of_perm`).  Nothing else is asked of a table, whether superclasses
come first, last or in a circle.
-/

namespace ApiStubs

open Json (Value)
open List (Forall₂)

/-! ## Tables of distinct names -/

namespace DeclarationTable

theorem entries_foldl_add (ds : List Declaration) (table : DeclarationTable)
    (nodup : (table.entries.map (·.1) ++ Reach.names ds).Nodup) :
    (ds.foldl add table).entries = table.entries ++ ds.map fun d => (d.name, d) := by
  induction ds generalizing table with
  | nil => exact (List.append_nil _).symm
  | cons d rest ih =>
      have hfree : table.find? d.name = none :=
        find?_eq_none_iff.mpr fun hmem =>
          (List.nodup_append.mp nodup).2.2 d.name hmem d.name List.mem_cons_self rfl
      have hadd : table.add d = ⟨table.entries ++ [(d.name, d)]⟩ := by
        unfold add
        rw [hfree]
        rfl
      rw [List.foldl_cons, hadd, ih]
      · rw [List.append_assoc, List.singleton_append, List.map_cons]
      · rw [List.map_append, List.append_assoc]
        exact nodup

/-- Declarations of distinct names are all kept. -/
theorem declarations_ofList_of_nodup {ds : List Declaration} (nodup : (Reach.names ds).Nodup) :
    (ofList ds).declarations = ds := by
  unfold declarations ofList
  rw [entries_foldl_add ds empty nodup, List.map_append, List.map_map]
  exact List.map_id ds

theorem find?_ofList_eq_some_iff {ds : List Declaration} (nodup : (Reach.names ds).Nodup)
    {n : String} {d : Declaration} : (ofList ds).find? n = some d ↔ d ∈ ds ∧ d.name = n := by
  have keyed := keyed_ofList ds
  have hmem : d ∈ ds ↔ (ofList ds).Knows d := by
    rw [← keyed.mem_declarations_iff, declarations_ofList_of_nodup nodup]
  constructor
  · intro h
    exact ⟨hmem.mpr (keyed.named.knows h), keyed.named n d h⟩
  · rintro ⟨hd, rfl⟩
    exact hmem.mp hd

theorem find?_ofList_of_perm {ds ds' : List Declaration} (nodup : (Reach.names ds).Nodup)
    (perm : ds.Perm ds') (n : String) : (ofList ds).find? n = (ofList ds').find? n := by
  have nodup' : (Reach.names ds').Nodup := (perm.map Declaration.name).nodup_iff.mp nodup
  refine Option.ext fun d => ?_
  rw [find?_ofList_eq_some_iff nodup, find?_ofList_eq_some_iff nodup', perm.mem_iff]

/-- Tables that find the same correspond. -/
theorem corresponds_of_find? {table other : DeclarationTable}
    (same : ∀ n, table.find? n = other.find? n) :
    table.Corresponds Declaration.SameButAnnotations other := by
  refine ⟨Declaration.SameButAnnotations.shape, fun n => ?_⟩
  rw [same n]
  cases other.find? n with
  | none => exact .none
  | some d => exact .some rfl

end DeclarationTable

/-! ## Distinct simple names -/

/-- The declarations of a graph, each with the simple name of its own qualified name. -/
def Graph.declarations (graph : Graph) : List Declaration :=
  graph.classes.map (fun c => .ofClass ⟨c, Text.Identifier.simpleName c.name⟩) ++
    graph.enums.map (fun e => .ofEnum ⟨e, Text.Identifier.simpleName e.name⟩)

namespace Assembly

/-- Distinct simple names are handed out as they are. -/
theorem table_of_nodup (separator : String) {graph : Graph}
    (nodup : (graph.declarations.map (·.simpleName)).Nodup) :
    Assembly.table separator graph = .ofList graph.declarations := by
  let classNames := graph.classes.map fun c => Text.Identifier.simpleName c.name
  let enumNames := graph.enums.map fun e => Text.Identifier.simpleName e.name
  have hnames : graph.declarations.map (·.simpleName) = classNames ++ enumNames := by
    unfold Graph.declarations
    rw [List.map_append, List.map_map, List.map_map]
    rfl
  have htaken : ((Namer.new separator).takeAll (classNames ++ enumNames)).1 =
      classNames ++ enumNames :=
    Namer.takeAll_of_nodup (hnames ▸ nodup) fun _ _ => List.not_mem_nil
  rw [Namer.takeAll_append] at htaken
  obtain ⟨hclasses, henums⟩ := List.append_inj htaken (Namer.length_takeAll _ classNames)
  show DeclarationTable.ofList (List.zipWith _ graph.classes _ ++ List.zipWith _ graph.enums _) = _
  rw [hclasses, henums, List.zipWith_map_right, List.zipWith_map_right, List.zipWith_self,
    List.zipWith_self]
  rfl

theorem nodup_names {graph : Graph} (nodup : (graph.declarations.map (·.simpleName)).Nodup) :
    (Reach.names graph.declarations).Nodup := by
  have hnames : graph.declarations.map (·.simpleName) =
      (Reach.names graph.declarations).map Text.Identifier.simpleName := by
    unfold Graph.declarations Reach.names
    simp only [List.map_append, List.map_map]
    rfl
  exact .of_map _ (hnames ▸ nodup)

end Assembly

/-! ## Permuted graphs -/

/-- With a filter, the model of a graph is written like those of the graphs that list the same
classes and enums in another order, if all simple names are distinct. -/
theorem Model.writtenAlike_of_perm {options : ModelOptions} (filtered : options.apis.isSome)
    {graph graph' : Graph} (nodup : (graph.declarations.map (·.simpleName)).Nodup)
    (classes : graph.classes.Perm graph'.classes) (enums : graph.enums.Perm graph'.enums)
    (routes : graph.routes = graph'.routes) :
    (assemble options graph).WrittenAlike (assemble options graph') := by
  have hperm : graph.declarations.Perm graph'.declarations := (classes.map _).append (enums.map _)
  have nodup' : (graph'.declarations.map (·.simpleName)).Nodup := (hperm.map _).nodup_iff.mp nodup
  have htable : (Assembly.table options.separator graph).Corresponds
      Declaration.SameButAnnotations (Assembly.table options.separator graph') := by
    rw [Assembly.table_of_nodup _ nodup, Assembly.table_of_nodup _ nodup']
    exact DeclarationTable.corresponds_of_find?
      (DeclarationTable.find?_ofList_of_perm (Assembly.nodup_names nodup) hperm)
  refine writtenAlike_assemble htable (fun hnone => ?_) ?_
  · -- What the table lists comes into the output only without a filter.
    rw [hnone] at filtered
    exact absurd filtered (by simp)
  · show Assembly.routes options _ graph.routes = Assembly.routes options _ graph'.routes
    rw [Assembly.routes_eq htable, routes]

namespace Graph

def simpleNames (raw : Value) : List String :=
  ((raw.itemsOf "classes" ++ raw.itemsOf "enums").filterMap (·.text? "name")).map
    Text.Identifier.simpleName

theorem filterMap_text?_name {α : Type} {R : Value → α → Prop} {vs : List Value} {xs : List α}
    (h : Forall₂ R vs xs) {name : α → String}
    (named : ∀ v x, R v x → v.text? "name" = some (name x)) :
    vs.filterMap (·.text? "name") = xs.map name := by
  induction h with
  | nil => rfl
  | cons hv _ ih => rw [List.filterMap_cons, named _ _ hv, List.map_cons, ih]

theorem simpleNames_of_decode {raw : Value} {graph : Graph} (h : decode raw = .ok graph) :
    simpleNames raw = graph.declarations.map (·.simpleName) := by
  obtain ⟨_, hclasses, henums, _⟩ := decode_eq_ok_iff.mp h
  unfold simpleNames declarations
  rw [List.filterMap_append,
    filterMap_text?_name hclasses fun _ _ hv => text?_name_of_decodeClass hv,
    filterMap_text?_name henums fun _ _ hv => text?_name_of_decodeEnum hv]
  simp only [List.map_append, List.map_map]
  rfl

/-- A graph that lists the same in another order is decoded to the same records in this order. -/
theorem decode_of_perm {raw raw' : Value} {graph : Graph} (h : decode raw = .ok graph)
    (classes : (raw.itemsOf "classes").Perm (raw'.itemsOf "classes"))
    (enums : (raw.itemsOf "enums").Perm (raw'.itemsOf "enums"))
    (routes : raw.itemsOf "routes" = raw'.itemsOf "routes") :
    ∃ graph', decode raw' = .ok graph' ∧ graph.classes.Perm graph'.classes ∧
      graph.enums.Perm graph'.enums ∧ graph.routes = graph'.routes := by
  obtain ⟨hne, hclasses, henums, hroutes⟩ := decode_eq_ok_iff.mp h
  obtain ⟨classes', hclasses', hpermC⟩ := List.perm_comp_forall₂ classes.symm hclasses
  obtain ⟨enums', henums', hpermE⟩ := List.perm_comp_forall₂ enums.symm henums
  rw [routes] at hne hroutes
  exact ⟨⟨classes', enums', graph.routes⟩,
    decode_eq_ok_iff.mpr ⟨hne, hclasses', henums', hroutes⟩, hpermC.symm, hpermE.symm, rfl⟩

end Graph

/-- Let the classes and enums of a graph all have distinct simple names, and let a build with a
filter succeed.  Then the build of the same graph with its classes and its enums in any other order
has the same result, for every target, base address and policy. -/
theorem build_of_permuted {options : BuildOptions} (filtered : options.apis.isSome)
    {raw raw' : Value} (distinct : (Graph.simpleNames raw).Nodup)
    (classes : (raw.itemsOf "classes").Perm (raw'.itemsOf "classes"))
    (enums : (raw.itemsOf "enums").Perm (raw'.itemsOf "enums"))
    (routes : raw.itemsOf "routes" = raw'.itemsOf "routes") {target base : Value}
    {result : BuildResult} (built : build target base raw options = .ok result) :
    build target base raw' options = .ok result := by
  obtain ⟨t, model, ht, hmodel, hemit⟩ := build_eq_ok_iff.mp built
  obtain ⟨graph, hdecode, rfl⟩ := Model.ofJson_eq_ok_iff.mp hmodel
  obtain ⟨graph', hdecode', hclasses, henums, hroutes⟩ :=
    Graph.decode_of_perm hdecode classes enums routes
  have hfilter : (Build.modelOptions t options).apis.isSome := filtered
  have halike := Model.writtenAlike_of_perm hfilter
    (Graph.simpleNames_of_decode hdecode ▸ distinct) hclasses henums hroutes
  exact build_eq_ok_iff.mpr ⟨t, _, ht, Model.ofJson_eq_ok_iff.mpr ⟨graph', hdecode', rfl⟩,
    (Build.emit_eq halike t base options).symm.trans hemit⟩

/-- Two classes that extend each other and mention each other and an enum, in both orders.  The
route mentions only the second one of the first order. -/
theorem build_of_permuted_cycle :
    let options : BuildOptions := .ofTexts false none (some ["Shop"]) none
    let class_ (name superclass member : String) : Value := .object
      [("name", .string name), ("superclass", .string superclass),
       ("members", .array [.object [("name", .string "item"), ("type", .string member)]])]
    let order := class_ "shop.Order" "shop.Item" "List<shop.Item>"
    let item := class_ "shop.Item" "shop.Order" "Map<shop.State, shop.Order>"
    let enum (name : String) : Value := .object [("name", .string name)]
    let graph (classes enums : List Value) : Value := .object
      [("classes", .array classes), ("enums", .array enums),
       ("routes", .array [.object
         [("name", .string "find"), ("bean", .string "Shop"),
          ("returnType", .string "shop.Item")]])]
    let raw := graph [order, item] [enum "shop.State", enum "shop.Unused"]
    let raw' := graph [item, order] [enum "shop.Unused", enum "shop.State"]
    options.apis.isSome ∧ (Graph.simpleNames raw).Nodup ∧
      (raw.itemsOf "classes").Perm (raw'.itemsOf "classes") ∧
      (raw.itemsOf "enums").Perm (raw'.itemsOf "enums") ∧
      raw.itemsOf "routes" = raw'.itemsOf "routes" ∧
      ∀ target : Target, ∃ result,
        build (.string target.name) (.string "/api") raw options = .ok result ∧
        build (.string target.name) (.string "/api") raw' options = .ok result := by
  intro options class_ order item enum graph raw raw'
  have distinct : (Graph.simpleNames raw).Nodup := by decide +kernel
  have classes : (raw.itemsOf "classes").Perm (raw'.itemsOf "classes") := .swap item order []
  have enums : (raw.itemsOf "enums").Perm (raw'.itemsOf "enums") :=
    .swap (enum "shop.Unused") (enum "shop.State") []
  refine ⟨rfl, distinct, classes, enums, rfl, fun target => ?_⟩
  obtain ⟨g, decoded⟩ : ∃ g, Graph.decode raw = .ok g := ⟨_, rfl⟩
  obtain ⟨result, emitted⟩ := Build.emit_ok target "/api" false none (some ["Shop"]) none
    (.assemble (Build.modelOptions target options) g)
  have built : build (.string target.name) (.string "/api") raw options = .ok result :=
    build_eq_ok_iff.mpr ⟨target, _, Target.ofJson?_eq_some_iff.mpr rfl,
      Model.ofJson_eq_ok_iff.mpr ⟨g, decoded, rfl⟩, emitted⟩
  exact ⟨result, built, build_of_permuted rfl distinct classes enums rfl built⟩

end ApiStubs
