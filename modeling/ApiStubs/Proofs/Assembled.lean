import ApiStubs.Model.Assembly
import ApiStubs.Proofs.Decoding
import ApiStubs.Proofs.FirstOccurrence
import ApiStubs.Proofs.HandedOut
import ApiStubs.Proofs.Reachability
import ApiStubs.Proofs.SuperclassOrder

/-!
# What a model is assembled from

The declarations of an assembled model, said without the walks that find them: the table holds
records of the graph under their own names, what is collected is what the routes lead to or, without
a filter, all that the table knows, and the classes put out are those collected and the ones that
they inherit from.
-/

namespace ApiStubs

/-! ## Lists -/

theorem exists_of_mem_zipWith {α β γ : Type} {f : α → β → γ} {as : List α} {bs : List β} {c : γ}
    (h : c ∈ List.zipWith f as bs) : ∃ a ∈ as, ∃ b ∈ bs, c = f a b := by
  obtain ⟨i, hi⟩ := List.mem_iff_getElem?.mp h
  obtain ⟨a, b, ha, hb, hc⟩ := List.getElem?_zipWith_eq_some.mp hi
  exact ⟨a, List.mem_of_getElem? ha, b, List.mem_of_getElem? hb, hc.symm⟩

/-! ## The table -/

theorem DeclarationTable.declarations_add_sublist (table : DeclarationTable) (d : Declaration) :
    (table.add d).declarations.Sublist (table.declarations ++ [d]) := by
  unfold add
  split
  · exact List.sublist_append_left _ _
  · unfold declarations
    rw [List.map_append]
    exact .refl _

theorem DeclarationTable.declarations_ofList_sublist (ds : List Declaration) :
    (ofList ds).declarations.Sublist ds := by
  suffices h : ∀ (rest : List Declaration) (table : DeclarationTable),
      (rest.foldl add table).declarations.Sublist (table.declarations ++ rest) from h ds empty
  intro rest
  induction rest with
  | nil => exact fun table => List.sublist_append_left _ _
  | cons d rest ih =>
      intro table
      refine (ih (table.add d)).trans ?_
      rw [List.append_cons]
      exact (table.declarations_add_sublist d).append_right rest

namespace Assembly

variable {options : ModelOptions} {graph : Graph} {table : DeclarationTable}

theorem keyed_table (separator : String) (graph : Graph) :
    (Assembly.table separator graph).Keyed :=
  DeclarationTable.keyed_ofList _

/-- The classes that the table holds are those of the graph. -/
theorem record_mem_of_holds {separator : String} {c : Class}
    (h : (Assembly.table separator graph).Holds c) : c.toClassRecord ∈ graph.classes := by
  have hd := (DeclarationTable.declarations_ofList_sublist _).subset
    (List.mem_map_of_mem (DeclarationTable.mem_of_find? h))
  rcases List.mem_append.mp hd with hd | hd
  · obtain ⟨record, hr, _, _, hc⟩ := exists_of_mem_zipWith hd
    have hc : c = _ := Declaration.ofClass.inj hc
    rw [hc]
    exact hr
  · obtain ⟨_, _, _, _, hc⟩ := exists_of_mem_zipWith hd
    exact absurd hc (by simp)

/-- So are the enums. -/
theorem enumRecord_mem_of_find? {separator n : String} {e : Enum}
    (h : (Assembly.table separator graph).find? n = some (.ofEnum e)) :
    e.toEnumRecord ∈ graph.enums := by
  have hd := (DeclarationTable.declarations_ofList_sublist _).subset
    (List.mem_map_of_mem (DeclarationTable.mem_of_find? h))
  rcases List.mem_append.mp hd with hd | hd
  · obtain ⟨_, _, _, _, he⟩ := exists_of_mem_zipWith hd
    exact absurd he (by simp)
  · obtain ⟨record, hr, _, _, he⟩ := exists_of_mem_zipWith hd
    have he : e = _ := Declaration.ofEnum.inj he
    rw [he]
    exact hr

/-! ## What is collected -/

theorem mem_collected_iff (keyed : table.Keyed) {routes : List Route} {d : Declaration} :
    d ∈ collected options table routes ↔
      (∃ t ∈ routeTypes routes, Reaches table t d) ∨ (options.apis = none ∧ table.Knows d) := by
  have found : d ∈ Reach.fromTypes table (routeTypes routes) ↔
      ∃ t ∈ routeTypes routes, Reaches table t d := Reach.mem_fromTypes_iff keyed.named
  unfold collected
  cases ha : options.apis with
  | some entries =>
      show d ∈ Reach.fromTypes table (routeTypes routes) ↔ _
      rw [found]
      simp
  | none =>
      show d ∈ Reach.andOthers table (Reach.fromTypes table (routeTypes routes)) ↔ _
      rw [Reach.mem_andOthers_iff keyed]
      constructor
      · exact fun h => Or.inr ⟨rfl, h⟩
      · rintro (⟨t, _, h⟩ | ⟨_, h⟩)
        · exact keyed.named.knows_of_reaches h
        · exact h

theorem mem_routes_of_modules {routes : List Route} {m : Module}
    (hm : m ∈ modules options routes) {r : Route} (hr : r ∈ m.routes) : r ∈ routes := by
  obtain ⟨g, hg, _, _, rfl⟩ := exists_of_mem_zipWith hm
  exact (groupBy_perm (·.bean) routes).mem_iff.mp (List.mem_flatMap.mpr ⟨g, hg, hr⟩)

end Assembly

namespace Model

variable {options : ModelOptions} {graph : Graph}

/-- The declarations that the assembly of a model collects. -/
def collected (options : ModelOptions) (graph : Graph) : List Declaration :=
  Assembly.collected options (assemble options graph).table (assemble options graph).routes

theorem ofJson_eq_ok_iff {raw : Json.Value} {model : Model} :
    ofJson options raw = .ok model ↔
      ∃ graph, Graph.decode raw = .ok graph ∧ assemble options graph = model := by
  unfold ofJson
  cases Graph.decode raw with
  | error m =>
      constructor
      · exact fun h => absurd h (by simp [Except.map])
      · rintro ⟨_, h, _⟩
        exact absurd h (by simp)
  | ok graph =>
      constructor
      · exact fun h => ⟨graph, rfl, Except.ok.inj h⟩
      · rintro ⟨_, h, rfl⟩
        rw [← Except.ok.inj h]
        rfl

theorem keyed_assemble : (assemble options graph).table.Keyed :=
  Assembly.keyed_table options.separator graph

theorem mem_collected_iff {d : Declaration} :
    d ∈ collected options graph ↔
      (∃ t ∈ Assembly.routeTypes (assemble options graph).routes,
        Reaches (assemble options graph).table t d) ∨
      (options.apis = none ∧ (assemble options graph).table.Knows d) :=
  Assembly.mem_collected_iff keyed_assemble

theorem knows_of_mem_collected {d : Declaration} (h : d ∈ collected options graph) :
    (assemble options graph).table.Knows d := by
  rcases mem_collected_iff.mp h with ⟨t, _, h⟩ | ⟨_, h⟩
  · exact keyed_assemble.named.knows_of_reaches h
  · exact h

/-- What a collected declaration mentions leads to collected ones only. -/
theorem mem_collected_of_references {d e : Declaration} (h : d ∈ collected options graph)
    {r : TypeExpr} (hr : r ∈ d.references) (he : Reaches (assemble options graph).table r e) :
    e ∈ collected options graph := by
  refine mem_collected_iff.mpr ?_
  rcases mem_collected_iff.mp h with ⟨t, ht, h⟩ | ⟨ha, _⟩
  · exact Or.inl ⟨t, ht, Reach.reaches_references h hr he⟩
  · exact Or.inr ⟨ha, keyed_assemble.named.knows_of_reaches he⟩

theorem mem_enums_iff {e : Enum} :
    e ∈ (assemble options graph).enums ↔ .ofEnum e ∈ collected options graph := by
  show e ∈ (collected options graph).filterMap Declaration.enum? ↔ _
  rw [List.mem_filterMap]
  constructor
  · rintro ⟨d, hd, he⟩
    cases d with
    | ofClass c => exact absurd he (by simp [Declaration.enum?])
    | ofEnum e' => exact Option.some.inj he ▸ hd
  · exact fun h => ⟨_, h, rfl⟩

/-- The classes that are put in order are those collected. -/
theorem mem_listed_iff {c : Class} :
    c ∈ (collected options graph).filterMap Declaration.class? ↔
      .ofClass c ∈ collected options graph := by
  rw [List.mem_filterMap]
  constructor
  · rintro ⟨d, hd, hc⟩
    cases d with
    | ofClass c' => exact Option.some.inj hc ▸ hd
    | ofEnum e => exact absurd hc (by simp [Declaration.class?])
  · exact fun h => ⟨_, h, rfl⟩

theorem holds_of_listed :
    ∀ c ∈ (collected options graph).filterMap Declaration.class?,
      (assemble options graph).table.Holds c :=
  fun _ hc => knows_of_mem_collected (mem_listed_iff.mp hc)

theorem settled_classes :
    Class.Settled (assemble options graph).table (assemble options graph).classes :=
  Class.settled_inOrder keyed_assemble.named holds_of_listed

theorem mem_classes_iff {c : Class} :
    c ∈ (assemble options graph).classes ↔
      ∃ b, .ofClass b ∈ collected options graph ∧
        Inherits (assemble options graph).table b c := by
  show c ∈ Class.inOrder (assemble options graph).table
    ((collected options graph).filterMap Declaration.class?) ↔ _
  rw [Class.mem_inOrder_iff keyed_assemble.named holds_of_listed]
  constructor
  · rintro ⟨b, hb, h⟩
    exact ⟨b, mem_listed_iff.mp hb, h⟩
  · rintro ⟨b, hb, h⟩
    exact ⟨b, mem_listed_iff.mpr hb, h⟩

end Model

end ApiStubs
