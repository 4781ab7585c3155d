import ApiStubs.Proofs.Outcome

/-!
# Routes that the filter leaves out

With a filter, routes that it does not select leave no trace in a build.  `build_of_selected` states
it of two graphs with the same classes and enums of which the routes that the filter selects are the
same in the same order: whatever other routes there are, how many, and wherever they stand, the
builds give the same code or fail with the same error.  The other routes need only have names, since
a route without one is an error before any filter looks at it.
-/

namespace ApiStubs

open Json (Value)
open List (Forall₂)

namespace Graph

/-- Whether a filter selects a route, as the graph gives it: by its bean, which is empty if there is
none, and by its name. -/
def isSelected (entries : List String) (v : Value) : Bool :=
  (v.text? "name").any fun name =>
    entries.any (Assembly.selects (((v.field? "bean").bind Value.string?).getD "") name)

/-- There are routes, and all of them have names. -/
structure NamesRoutes (raw : Value) : Prop where
  nonempty : raw.itemsOf "routes" ≠ []
  named : ∀ v ∈ raw.itemsOf "routes", (v.text? "name").isSome

/-- What decoding a route tells of it. -/
theorem isSelected_of_decodeRoute {entries : List String} {v : Value} {r : RouteRecord}
    (h : decodeRoute 0 v = .ok r) :
    isSelected entries v = Assembly.keeps (some entries) r.bean r.name := by
  obtain ⟨n, hn, h⟩ := bind_eq_ok.mp h
  unfold isSelected
  rw [name_eq_ok_iff.mp hn, ← Except.ok.inj h]
  rfl

theorem exists_decoded {vs : List Value} (named : ∀ v ∈ vs, (v.text? "name").isSome) :
    ∃ records, Forall₂ (fun v r => decodeRoute 0 v = .ok r) vs records := by
  induction vs with
  | nil => exact ⟨[], .nil⟩
  | cons v rest ih =>
      obtain ⟨records, hrecords⟩ := ih fun w hw => named w (List.mem_cons_of_mem _ hw)
      obtain ⟨n, hn⟩ := Option.isSome_iff_exists.mp (named v List.mem_cons_self)
      exact ⟨_ :: records, .cons (bind_eq_ok.mpr ⟨n, name_eq_ok_iff.mpr hn, rfl⟩) hrecords⟩

/-- Where all routes have names, only classes and enums can make decoding fail. -/
theorem decode_of_namesRoutes {raw : Value} (h : NamesRoutes raw) :
    ∃ records, Forall₂ (fun v r => decodeRoute 0 v = .ok r) (raw.itemsOf "routes") records ∧
      decode raw = (do
        let classes ← decodeAll decodeClass 0 (raw.itemsOf "classes")
        let enums ← decodeAll decodeEnum 0 (raw.itemsOf "enums")
        .ok ⟨classes, enums, records⟩) := by
  obtain ⟨records, hrecords⟩ := exists_decoded h.named
  refine ⟨records, hrecords, ?_⟩
  have hvalues : routeValues raw = .ok (raw.itemsOf "routes") :=
    routeValues_eq_ok_iff.mpr ⟨h.nonempty, rfl⟩
  have hroutes : decodeAll decodeRoute 0 (raw.itemsOf "routes") = .ok records :=
    (decodeAll_eq_ok_iff steady_decodeRoute).mpr hrecords
  have hdecode : decode raw = (do
      let classes ← decodeAll decodeClass 0 (raw.itemsOf "classes")
      let enums ← decodeAll decodeEnum 0 (raw.itemsOf "enums")
      let routes ← decodeAll decodeRoute 0 (raw.itemsOf "routes")
      .ok ⟨classes, enums, routes⟩) := by
    unfold decode
    rw [hvalues]
    rfl
  rw [hdecode, hroutes]
  rfl

end Graph

/-- A model depends on its routes only through those that the filter keeps. -/
theorem Model.assemble_of_kept {options : ModelOptions} {classes : List ClassRecord}
    {enums : List EnumRecord} {records records' : List RouteRecord}
    (kept : (records.filter fun r => Assembly.keeps options.apis r.bean r.name) =
      records'.filter fun r => Assembly.keeps options.apis r.bean r.name) :
    assemble options ⟨classes, enums, records⟩ = assemble options ⟨classes, enums, records'⟩ := by
  have hroutes : ∀ table, Assembly.routes options table records =
      Assembly.routes options table records' := by
    intro table
    unfold Assembly.routes
    rw [kept]
  unfold assemble
  simp only [hroutes]
  rfl

/-- The models of two graphs with the same classes and enums and the same selected routes. -/
theorem Model.ofJson_of_selected {options : ModelOptions} {entries : List String}
    (filtered : options.apis = some entries) {raw raw' : Value}
    (classes : raw.itemsOf "classes" = raw'.itemsOf "classes")
    (enums : raw.itemsOf "enums" = raw'.itemsOf "enums")
    (named : Graph.NamesRoutes raw) (named' : Graph.NamesRoutes raw')
    (selected : (raw.itemsOf "routes").filter (Graph.isSelected entries) =
      (raw'.itemsOf "routes").filter (Graph.isSelected entries)) :
    ofJson options raw = ofJson options raw' := by
  obtain ⟨records, hrecords, hdecode⟩ := Graph.decode_of_namesRoutes named
  obtain ⟨records', hrecords', hdecode'⟩ := Graph.decode_of_namesRoutes named'
  have hkeeps : ∀ v r, Graph.decodeRoute 0 v = .ok r →
      (Graph.isSelected entries v = true ↔ Assembly.keeps options.apis r.bean r.name = true) := by
    intro v r hv
    rw [Graph.isSelected_of_decodeRoute hv, filtered]
  -- The records that are kept are decoded from the routes that are selected.
  have hkept := List.rel_filter (fun v r hv => hkeeps v r hv) hrecords
  have hkept' := List.rel_filter (fun v r hv => hkeeps v r hv) hrecords'
  rw [selected] at hkept
  have hsame : (records.filter fun r => Assembly.keeps options.apis r.bean r.name) =
      records'.filter fun r => Assembly.keeps options.apis r.bean r.name :=
    List.right_unique_forall₂' (fun _ _ _ h h' => Except.ok.inj (h.symm.trans h')) hkept hkept'
  unfold ofJson
  rw [hdecode, hdecode', classes, enums]
  cases Graph.decodeAll Graph.decodeClass 0 (raw'.itemsOf "classes") with
  | error m => rfl
  | ok classes =>
      cases Graph.decodeAll Graph.decodeEnum 0 (raw'.itemsOf "enums") with
      | error m => rfl
      | ok enums => exact congrArg Except.ok (assemble_of_kept hsame)

/-- Let two graphs have the same classes and enums, and routes that all have names, of which a
filter selects the same ones in the same order.  Then their builds with this filter are the same,
for every target, base address and other settings: the same code, or the same error. -/
theorem build_of_selected {options : BuildOptions} {entries : List String}
    (filtered : options.apis = some entries) {raw raw' : Value}
    (classes : raw.itemsOf "classes" = raw'.itemsOf "classes")
    (enums : raw.itemsOf "enums" = raw'.itemsOf "enums")
    (named : Graph.NamesRoutes raw) (named' : Graph.NamesRoutes raw')
    (selected : (raw.itemsOf "routes").filter (Graph.isSelected entries) =
      (raw'.itemsOf "routes").filter (Graph.isSelected entries)) (target base : Value) :
    build target base raw options = build target base raw' options := by
  refine build_congr (fun t => ?_) target
  have hfilter : (Build.modelOptions t options).apis = some entries := filtered
  unfold buildTarget
  rw [Model.ofJson_of_selected hfilter classes enums named named' selected]

/-- Two graphs of which a filter by simple name selects the same route.  Around it one of them has
routes of the same name, a second bean, and a route that mentions the only class. -/
theorem build_of_selected_orders :
    let options : BuildOptions := ⟨false, .null, some ["Orders"], none⟩
    let route (bean returnType : String) : Value := .object
      [("name", .string "list"), ("bean", .string bean), ("returnType", .string returnType)]
    let graph (routes : List Value) : Value := .object
      [("classes", .array [.object [("name", .string "shop.Order")]]), ("routes", .array routes)]
    let raw := graph [route "shop.Orders" "long"]
    let raw' := graph
      [route "shop.Admin" "shop.Order", route "shop.Orders" "long", route "Orders2" "Optional<T>"]
    options.apis = some ["Orders"] ∧ Graph.NamesRoutes raw ∧ Graph.NamesRoutes raw' ∧
      (raw.itemsOf "routes").filter (Graph.isSelected ["Orders"]) =
        (raw'.itemsOf "routes").filter (Graph.isSelected ["Orders"]) ∧
      ∀ target base, build target base raw options = build target base raw' options := by
  intro options route graph raw raw'
  have named : Graph.NamesRoutes raw := by
    refine ⟨List.cons_ne_nil _ _, fun v hv => ?_⟩
    rw [List.mem_singleton.mp hv]
    rfl
  have named' : Graph.NamesRoutes raw' := by
    refine ⟨List.cons_ne_nil _ _, fun v hv => ?_⟩
    have hv : v ∈ [_, _, _] := hv
    simp only [List.mem_cons, List.not_mem_nil, or_false] at hv
    rcases hv with rfl | rfl | rfl
    · rfl
    · rfl
    · rfl
  have horders : Graph.isSelected ["Orders"] (route "shop.Orders" "long") = true := by
    decide +kernel
  have hadmin : Graph.isSelected ["Orders"] (route "shop.Admin" "shop.Order") = false := by
    decide +kernel
  have hother : Graph.isSelected ["Orders"] (route "Orders2" "Optional<T>") = false := by
    decide +kernel
  have selected : (raw.itemsOf "routes").filter (Graph.isSelected ["Orders"]) =
      (raw'.itemsOf "routes").filter (Graph.isSelected ["Orders"]) := by
    show [_].filter _ = [_, _, _].filter _
    simp only [List.filter_cons, List.filter_nil, horders, hadmin, hother, if_true,
      Bool.false_eq_true, if_false]
  exact ⟨rfl, named, named', selected, build_of_selected rfl rfl rfl named named' selected⟩

end ApiStubs
