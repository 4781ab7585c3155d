import ApiStubs.Proofs.ClosedOutput
import ApiStubs.Proofs.Samples

/-!
# What is put out

Every declaration is put out once, since a walk records a name only where it is new.  Without a
filter all declarations of the table are put out.  With a filter it is those that the routes lead to
(`Model.Reached`), and the classes that these inherit from.

The two need not be the same.  A type variable names no declaration, but the hierarchy of classes
looks at the mere name of a superclass; so a class that extends a variable brings with it whatever
class the table knows under the name of the variable.  `emits_iff_reached` states that nothing else
is put out beyond what the routes lead to, and `base_put_out_unreached` is such a class.
-/

namespace ApiStubs

/-! ## Each declaration once -/

namespace Reach

variable {table : DeclarationTable}

theorem nodup_names_walk {found : List Declaration} {pending : List TypeExpr}
    (h : (names found).Nodup) : (names (walk table found pending)).Nodup := by
  fun_induction walk table found pending with
  | case1 => exact h
  | case2 found t pending d hnew ih =>
      exact ih (List.nodup_cons.mpr ⟨(new?_eq_some_iff.mp hnew).2, h⟩)
  | case3 found t pending _ ih => exact ih h

theorem nodup_names_fromTypes (types : List TypeExpr) : (names (fromTypes table types)).Nodup := by
  unfold names fromTypes
  rw [List.map_reverse]
  exact List.nodup_reverse.mpr (nodup_names_walk List.nodup_nil)

theorem nodup_names_andOthers (keyed : table.Keyed) {found : List Declaration}
    (h : (names found).Nodup) : (names (andOthers table found)).Nodup := by
  have hkeys : names table.declarations = table.entries.map (·.1) := by
    unfold names DeclarationTable.declarations
    rw [List.map_map]
    exact List.map_congr_left fun entry he => (keyed.key entry he).symm
  have hall : (names table.declarations).Nodup := hkeys ▸ keyed.nodup
  have hrest : (table.declarations.filter fun d => !(names found).contains d.name).Sublist
      table.declarations := List.filter_sublist
  unfold andOthers
  rw [names, List.map_append]
  refine List.nodup_append.mpr ⟨h, (hrest.map _).nodup hall, ?_⟩
  intro n hn m hm e
  obtain ⟨d, hd, hdm⟩ := List.mem_map.mp hm
  have hfresh : d.name ∉ names found := by simpa using (List.mem_filter.mp hd).2
  rw [hdm, ← e] at hfresh
  exact hfresh hn

end Reach

theorem Declaration.names_enums_sublist (ds : List Declaration) :
    ((ds.filterMap enum?).map (·.name)).Sublist (Reach.names ds) := by
  induction ds with
  | nil => exact .slnil
  | cons d rest ih =>
      cases d with
      | ofClass c => exact .cons _ ih
      | ofEnum e => exact .cons_cons _ ih

namespace Model

variable {options : ModelOptions} {graph : Graph}

theorem nodup_names_collected : (Reach.names (collected options graph)).Nodup := by
  have found : (Reach.names (Reach.fromTypes (assemble options graph).table
      (Assembly.routeTypes (assemble options graph).routes))).Nodup :=
    Reach.nodup_names_fromTypes _
  unfold collected Assembly.collected
  split
  · exact found
  · exact Reach.nodup_names_andOthers keyed_assemble found

theorem nodup_names_enums : ((assemble options graph).enums.map (·.name)).Nodup :=
  (Declaration.names_enums_sublist _).nodup nodup_names_collected

/-! ## What the routes lead to -/

/-- `model.Reached d`: a type that a route mentions leads to the declaration `d`. -/
def Reached (model : Model) (d : Declaration) : Prop :=
  ∃ r ∈ model.routes, ∃ t ∈ r.parameters.filterMap (·.type) ++ r.returnType.toList,
    Reaches model.table t d

/-- The routes lead to every class that has the name of a type variable which a class, to which they
lead, gives as its superclass. -/
def ReachesNamesakes (model : Model) : Prop :=
  ∀ c p v, model.Reached (.ofClass c) → c.superclass = some (.var v) →
    model.table.find? v = some (.ofClass p) → model.Reached (.ofClass p)

theorem reached_iff {model : Model} {d : Declaration} :
    model.Reached d ↔ ∃ t ∈ Assembly.routeTypes model.routes, Reaches model.table t d := by
  constructor
  · rintro ⟨r, hr, t, ht, h⟩
    exact ⟨t, List.mem_flatMap.mpr ⟨r, hr, ht⟩, h⟩
  · rintro ⟨t, ht, h⟩
    obtain ⟨r, hr, ht⟩ := List.mem_flatMap.mp ht
    exact ⟨r, hr, t, ht, h⟩

theorem Reached.reference {model : Model} {d e : Declaration} (h : model.Reached d) {t : TypeExpr}
    (ht : t ∈ d.references) (he : t.declaration? model.table = some e) : model.Reached e := by
  obtain ⟨r, hr, u, hu, h⟩ := h
  exact ⟨r, hr, u, hu, Reach.reaches_references h ht (.names he)⟩

section Filtered

variable (filtered : options.apis.isSome)

include filtered

theorem mem_collected_iff_reached {d : Declaration} :
    d ∈ collected options graph ↔ (assemble options graph).Reached d := by
  rw [mem_collected_iff, reached_iff]
  constructor
  · rintro (h | ⟨h, _⟩)
    · exact h
    · exact absurd filtered (by simp [h])
  · exact Or.inl

theorem mem_enums_iff_reached {e : Enum} :
    e ∈ (assemble options graph).enums ↔ (assemble options graph).Reached (.ofEnum e) := by
  rw [mem_enums_iff, mem_collected_iff_reached filtered]

theorem mem_classes_iff_reached {c : Class} :
    c ∈ (assemble options graph).classes ↔
      ∃ b, (assemble options graph).Reached (.ofClass b) ∧
        Inherits (assemble options graph).table b c := by
  rw [mem_classes_iff]
  constructor
  · rintro ⟨b, hb, h⟩
    exact ⟨b, (mem_collected_iff_reached filtered).mp hb, h⟩
  · rintro ⟨b, hb, h⟩
    exact ⟨b, (mem_collected_iff_reached filtered).mpr hb, h⟩

/-- A superclass that is no variable is reached with its class. -/
theorem reached_of_extends {raw : Json.Value} (decoded : Graph.decode raw = .ok graph)
    (namesakes : (assemble options graph).ReachesNamesakes) {c p : Class}
    (hc : (assemble options graph).Reached (.ofClass c))
    (h : Extends (assemble options graph).table c p) :
    (assemble options graph).Reached (.ofClass p) := by
  obtain ⟨t, ht, hp⟩ := h
  cases t with
  | wildcard =>
      -- Decoding drops a superclass of which nothing is known.
      have hholds := knows_of_mem_collected ((mem_collected_iff_reached filtered).mpr hc)
      have hrecord := Assembly.record_mem_of_holds hholds
      exact absurd rfl (Graph.superclass_of_decode decoded hrecord ht).2
  | var v => exact namesakes c p v hc ht hp
  | named n args =>
      have hmem : .named n args ∈ (Declaration.ofClass c).references :=
        List.mem_append_left _ (by simp [ht])
      exact hc.reference hmem hp

/-- What is put out is what the routes lead to, exactly if the namesakes of variables are no
exception. -/
theorem emits_reached_iff_namesakes {raw : Json.Value} (decoded : Graph.decode raw = .ok graph) :
    (∀ d, (assemble options graph).Emits d ↔ (assemble options graph).Reached d) ↔
      (assemble options graph).ReachesNamesakes := by
  constructor
  · intro h c p v hc hs hp
    refine (h (.ofClass p)).mp ((mem_classes_iff_reached filtered).mpr ⟨c, hc, ?_⟩)
    exact .single ⟨.var v, hs, hp⟩
  · intro namesakes d
    cases d with
    | ofEnum e => exact mem_enums_iff_reached filtered
    | ofClass c =>
        refine (mem_classes_iff_reached filtered).trans ⟨?_, fun hc => ⟨c, hc, .refl⟩⟩
        rintro ⟨b, hb, h⟩
        induction h with
        | refl => exact hb
        | tail _ he ih => exact reached_of_extends filtered decoded namesakes ih he

end Filtered

/-- Without a filter all that is declared is put out. -/
theorem emits_iff_declared (unfiltered : options.apis = none) {d : Declaration} :
    (assemble options graph).Emits d ↔ d ∈ (assemble options graph).table.declarations := by
  rw [keyed_assemble.mem_declarations_iff]
  constructor
  · exact knows_of_emits
  · exact fun h => emits_of_mem_collected (mem_collected_iff.mpr (Or.inr ⟨unfiltered, h⟩))

/-- With a filter the enums put out are those that the routes lead to, and the classes those that
the routes lead to with all that these inherit from; the latter are reached themselves exactly if
the routes lead to the classes that have the name of a variable in the place of a superclass.
Without a filter all that is declared is put out.  In both cases no name comes twice. -/
theorem emits_iff_reached {raw : Json.Value} {model : Model}
    (built : ofJson options raw = .ok model) :
    (options.apis.isSome →
      (∀ e, e ∈ model.enums ↔ model.Reached (.ofEnum e)) ∧
      (∀ c, c ∈ model.classes ↔
        ∃ b, model.Reached (.ofClass b) ∧ Inherits model.table b c) ∧
      ((∀ d, model.Emits d ↔ model.Reached d) ↔ model.ReachesNamesakes)) ∧
    (options.apis = none → ∀ d, model.Emits d ↔ d ∈ model.table.declarations) ∧
    (model.classes.map (·.name)).Nodup ∧ (model.enums.map (·.name)).Nodup := by
  obtain ⟨graph, decoded, rfl⟩ := ofJson_eq_ok_iff.mp built
  refine ⟨?_, fun unfiltered d => emits_iff_declared unfiltered, settled_classes.nodup,
    nodup_names_enums⟩
  intro filtered
  exact ⟨fun e => mem_enums_iff_reached filtered, fun c => mem_classes_iff_reached filtered,
    emits_reached_iff_namesakes filtered decoded⟩

/-- A class that extends `Base`, which may be a type parameter of its own, next to a class of this
name.  The one route leads to the former class. -/
def leafGraph (typeParameters : List String) (superclass : TypeExpr) : Graph where
  classes :=
    [{ ClassRecord.sample "Leaf" [] with typeParameters, superclass := some superclass },
     .sample "Base" []]
  enums := []
  routes := [.sample "Loader" [] (some (.named "Leaf" []))]

/-- Only the routes of one bean are kept. -/
def loaderOptions : ModelOptions := ⟨"$", some ["Loader"], none, []⟩

/-- Where `Base` is no type parameter, the route leads to it and it is put out. -/
theorem emits_iff_reached_leaf :
    ∃ model, ofJson loaderOptions (leafGraph [] (.named "Base" [])).sampleJson = .ok model ∧
      loaderOptions.apis.isSome ∧ model.classes.map (·.name) = ["Base", "Leaf"] ∧
      ∀ d, model.Emits d ↔ model.Reached d := by
  let graph := leafGraph [] (.named "Base" [])
  have decoded : Graph.decode graph.sampleJson = .ok graph := by rfl
  have built := ofJson_eq_ok_iff.mpr ⟨graph, decoded, Eq.refl (assemble loaderOptions graph)⟩
  obtain ⟨filtered, _⟩ := emits_iff_reached built
  obtain ⟨_, _, exact_iff⟩ := filtered rfl
  refine ⟨_, built, rfl, by decide +kernel, exact_iff.mpr ?_⟩
  intro c p v hc hs _
  have hholds := knows_of_mem_collected ((mem_collected_iff_reached rfl).mpr hc)
  have hrecord := Assembly.record_mem_of_holds hholds
  simp only [graph, leafGraph, List.mem_cons, List.not_mem_nil, or_false] at hrecord
  rcases hrecord with h | h
  · rw [h] at hs
    exact absurd hs (by simp)
  · rw [h] at hs
    exact absurd hs (by simp [ClassRecord.sample])

/-- Where `Base` is a type parameter, the route does not lead to the class of this name, but that is
put out as well. -/
theorem base_put_out_unreached :
    ∃ model, ofJson loaderOptions (leafGraph ["Base"] (.var "Base")).sampleJson = .ok model ∧
      model.classes.map (·.name) = ["Base", "Leaf"] ∧
      (∀ d, model.Reached d → d.name = "Leaf") ∧
      ¬ ∀ d, model.Emits d ↔ model.Reached d := by
  let graph := leafGraph ["Base"] (.var "Base")
  have decoded : Graph.decode graph.sampleJson = .ok graph := by rfl
  have built := ofJson_eq_ok_iff.mpr ⟨graph, decoded, Eq.refl (assemble loaderOptions graph)⟩
  have hclasses : (assemble loaderOptions graph).classes.map (·.name) = ["Base", "Leaf"] := by
    decide +kernel
  have hfound : Reach.names (collected loaderOptions graph) = ["Leaf"] := by decide +kernel
  have hreached : ∀ d, (assemble loaderOptions graph).Reached d → d.name = "Leaf" := by
    intro d hd
    have hmem := List.mem_map_of_mem (f := Declaration.name)
      ((mem_collected_iff_reached rfl).mpr hd)
    exact List.mem_singleton.mp (hfound ▸ hmem)
  refine ⟨_, built, hclasses, hreached, fun h => ?_⟩
  obtain ⟨c, hc, hname⟩ := List.mem_map.mp (hclasses ▸ List.mem_cons_self : "Base" ∈ _)
  have hleaf := hreached (.ofClass c) ((h (.ofClass c)).mp hc)
  exact absurd (hname.symm.trans hleaf) (by decide)

end Model

end ApiStubs
