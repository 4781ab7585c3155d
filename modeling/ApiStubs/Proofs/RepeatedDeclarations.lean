import ApiStubs.Proofs.DeclarationOrder
import ApiStubs.Proofs.ExcessName
import ApiStubs.Proofs.Headers
import ApiStubs.Proofs.Nameless
import ApiStubs.Proofs.Samples
import ApiStubs.Proofs.StubNames

/-!
# Repeated declarations

Of the classes and enums of one qualified name the first is kept.  A later one gets no place in the
table, but it is given a simple name before it is dropped, and this name is missing to those that
come behind it.  So a graph without the later one has the same model but for simple names, and all
of these are the same exactly if no declaration that is kept asks for a name that the dropped ones
took away (`spares`): the simple name which they share with the kept one, or the variant that the
last of them was given (`build_of_repeat_iff`).

The two graphs are followed side by side behind the dropped record, by two namers of which one has
that variant in excess (`Namer.Excess`).
-/

namespace ApiStubs

open Json (Value)
open List (Forall₂)
open Reach (names)
open Text.Identifier (simpleName)

/-! ## Tables -/

namespace DeclarationTable

variable {table : DeclarationTable} {d : Declaration}

theorem add_of_mem (h : d.name ∈ table.entries.map (·.1)) : table.add d = table := by
  have hsome : (table.find? d.name).isSome = true := by
    rw [Option.isSome_iff_ne_none]
    exact fun hnone => find?_eq_none_iff.mp hnone h
  rw [add, if_pos hsome]

theorem add_of_not_mem (h : d.name ∉ table.entries.map (·.1)) :
    table.add d = ⟨table.entries ++ [(d.name, d)]⟩ := by
  rw [add, find?_eq_none_iff.mpr h]
  rfl

theorem mem_keys_add {n : String} : n ∈ (table.add d).entries.map (·.1) ↔
    n = d.name ∨ n ∈ table.entries.map (·.1) := by
  by_cases h : d.name ∈ table.entries.map (·.1)
  · rw [add_of_mem h]
    exact (or_iff_right_of_imp fun hn => hn ▸ h).symm
  · rw [add_of_not_mem h, List.map_append, List.mem_append, or_comm]
    exact or_congr List.mem_singleton Iff.rfl

theorem mem_keys_foldl_add {ds : List Declaration} {n : String} :
    n ∈ (ds.foldl add table).entries.map (·.1) ↔ n ∈ names ds ∨ n ∈ table.entries.map (·.1) := by
  induction ds generalizing table with
  | nil => exact (or_iff_right List.not_mem_nil).symm
  | cons d rest ih =>
      rw [List.foldl_cons, ih, mem_keys_add, ← or_assoc]
      exact or_congr (or_comm.trans List.mem_cons.symm) Iff.rfl

theorem prefix_foldl_add (ds : List Declaration) (table : DeclarationTable) :
    table.entries <+: (ds.foldl add table).entries := by
  induction ds generalizing table with
  | nil => exact List.prefix_refl _
  | cons d rest ih =>
      refine List.IsPrefix.trans ?_ (ih (table.add d))
      by_cases h : d.name ∈ table.entries.map (·.1)
      · rw [add_of_mem h]
      · rw [add_of_not_mem h]
        exact List.prefix_append _ _

/-- A declaration is dropped if one of its name comes before it. -/
theorem ofList_of_repeat {front : List Declaration} (h : d.name ∈ names front)
    (back : List Declaration) : ofList (front ++ d :: back) = ofList (front ++ back) := by
  have hkey : d.name ∈ (front.foldl add empty).entries.map (·.1) :=
    mem_keys_foldl_add.mpr (.inl h)
  rw [ofList, ofList, List.foldl_append, List.foldl_append, List.foldl_cons, add_of_mem hkey]

end DeclarationTable

/-! ## Simple names -/

/-- The declaration under another simple name. -/
def Declaration.called (d : Declaration) (s : String) : Declaration :=
  match d with
  | ofClass c => ofClass { c with simpleName := s }
  | ofEnum e => ofEnum { e with simpleName := s }

theorem Declaration.name_called (d : Declaration) (s : String) : (d.called s).name = d.name := by
  cases d with
  | ofClass c => rfl
  | ofEnum e => rfl

theorem Declaration.simpleName_called (d : Declaration) (s : String) :
    (d.called s).simpleName = s := by
  cases d with
  | ofClass c => rfl
  | ofEnum e => rfl

theorem Declaration.nameless_called (d : Declaration) (s : String) :
    (d.called s).nameless = d.nameless := by
  cases d with
  | ofClass c => rfl
  | ofEnum e => rfl

namespace Assembly

def named (namer : Namer) (ds : List Declaration) : List Declaration :=
  List.zipWith Declaration.called ds (namer.takeAll (ds.map (·.simpleName))).1

theorem named_cons (namer : Namer) (d : Declaration) (rest : List Declaration) :
    named namer (d :: rest) = d.called (namer.take d.simpleName).1 ::
      named (namer.take d.simpleName).2 rest := by
  rw [named, List.map_cons, Namer.takeAll_cons, List.zipWith_cons_cons, named]

theorem named_append (namer : Namer) (front back : List Declaration) :
    named namer (front ++ back) = named namer front ++
      named (namer.takeAll (front.map (·.simpleName))).2 back := by
  rw [named, List.map_append, Namer.takeAll_append, List.zipWith_append, named, named]
  rw [Namer.length_takeAll, List.length_map]

theorem names_named (namer : Namer) (ds : List Declaration) : names (named namer ds) = names ds :=
  map_zipWith_left Declaration.name_called (by rw [Namer.length_takeAll, List.length_map])

theorem nameless_named (namer : Namer) (ds : List Declaration) :
    (named namer ds).map Declaration.nameless = ds.map Declaration.nameless :=
  map_zipWith_left Declaration.nameless_called (by rw [Namer.length_takeAll, List.length_map])

theorem table_eq_ofList (separator : String) (graph : Graph) :
    Assembly.table separator graph = .ofList (named (.new separator) graph.declarations) := by
  rw [Graph.declarations, named_append, named, named, List.map_map, List.map_map,
    List.zipWith_map_left, List.zipWith_map_left]
  rfl

end Assembly

/-! ## What the dropped ones take away -/

/-- Whether no declaration that is kept asks for a name that dropped ones have taken away, which are
`base` and `excess` at first.  The declarations have the qualified names that are listed, and those
before them the ones that are known.  One that asks for either is given a name that is missing to
those behind it in turn. -/
def Assembly.sparesFrom (namer : Namer) (base excess : String) (known : List String) :
    List String → Bool
  | [] => true
  | n :: rest =>
    let (given, next) := namer.take (simpleName n)
    if simpleName n = base ∨ simpleName n = excess then
      known.contains n && sparesFrom next (simpleName n) given (n :: known) rest
    else sparesFrom next base excess (n :: known) rest

/-- Whether a declaration of the name `n`, of which there is one in front, takes no name away from
those behind it that are kept. -/
def Assembly.spares (separator : String) (front : List String) (n : String) (back : List String) :
    Bool :=
  let namer := ((Namer.new separator).takeAll (front.map simpleName)).2
  let (given, next) := namer.take (simpleName n)
  sparesFrom next (simpleName n) given front back

namespace Assembly

theorem sparesFrom_cons (namer : Namer) (base excess : String) (known : List String) (n : String)
    (rest : List String) : sparesFrom namer base excess known (n :: rest) =
      if simpleName n = base ∨ simpleName n = excess then
        known.contains n && sparesFrom (namer.take (simpleName n)).2 (simpleName n)
          (namer.take (simpleName n)).1 (n :: known) rest
      else sparesFrom (namer.take (simpleName n)).2 base excess (n :: known) rest :=
  rfl

/-- Declarations of one new name make different tables if they are called differently, whatever
comes behind them. -/
theorem foldl_called_ne {table : DeclarationTable} {d : Declaration}
    (hnew : d.name ∉ table.entries.map (·.1)) {s t : String} (hne : s ≠ t)
    (ds ds' : List Declaration) :
    ds.foldl DeclarationTable.add (table.add (d.called s)) ≠
      ds'.foldl DeclarationTable.add (table.add (d.called t)) := by
  intro he
  have hentries : ∀ u, (table.add (d.called u)).entries =
      table.entries ++ [(d.name, d.called u)] := by
    intro u
    rw [DeclarationTable.add_of_not_mem (by rwa [d.name_called]), d.name_called]
  have hs := DeclarationTable.prefix_foldl_add ds (table.add (d.called s))
  have ht := DeclarationTable.prefix_foldl_add ds' (table.add (d.called t))
  rw [he, hentries] at hs
  rw [hentries] at ht
  have heq := List.append_cancel_left
    ((List.prefix_of_prefix_length_le hs ht (by simp)).eq_of_length (by simp))
  have hcalled : d.called s = d.called t := by simpa using heq
  rw [← d.simpleName_called s, hcalled, d.simpleName_called] at hne
  exact hne rfl

/-- Two namers, one of which has a name in excess, make the same table exactly if none of the
declarations that are kept is hit. -/
theorem foldl_named_eq_iff {separator : String} (separates : Namer.Separates separator)
    {ds : List Declaration} (proper : ∀ d ∈ ds, d.simpleName = simpleName d.name)
    {more less : Namer} {base excess : String}
    (h : Namer.Excess separator more less base excess) {table : DeclarationTable}
    {known : List String} (hknown : ∀ n, n ∈ table.entries.map (·.1) ↔ n ∈ known) :
    (named more ds).foldl DeclarationTable.add table =
        (named less ds).foldl DeclarationTable.add table ↔
      sparesFrom more base excess known (names ds) = true := by
  induction ds generalizing more less base excess table known with
  | nil => exact iff_of_true rfl rfl
  | cons d rest ih =>
      obtain ⟨hd, hrest⟩ := List.forall_mem_cons.mp proper
      have hadd : ∀ s n, n ∈ (table.add (d.called s)).entries.map (·.1) ↔ n ∈ d.name :: known := by
        intro s n
        rw [DeclarationTable.mem_keys_add, d.name_called, List.mem_cons, hknown]
      have hnames : names (d :: rest) = d.name :: names rest := rfl
      rw [named_cons, named_cons, List.foldl_cons, List.foldl_cons, hnames, sparesFrom_cons, ← hd]
      by_cases hit : d.simpleName = base ∨ d.simpleName = excess
      · obtain ⟨hne, hnext⟩ := h.take_of_hit hit
        rw [if_pos hit, Bool.and_eq_true_iff, List.contains_iff_mem]
        by_cases hmem : d.name ∈ known
        · -- The declaration is dropped, and so it does not matter what it is called.
          have hsame : ∀ s, table.add (d.called s) = table := fun s =>
            DeclarationTable.add_of_mem ((d.name_called s).symm ▸ (hknown _).mpr hmem)
          rw [hsame, hsame, and_iff_right hmem]
          exact ih hrest hnext fun n => by rw [← hadd "", hsame]
        · have hnew : d.name ∉ table.entries.map (·.1) := fun hkey => hmem ((hknown _).mp hkey)
          exact iff_of_false (foldl_called_ne hnew hne _ _) fun hspares => hmem hspares.1
      · obtain ⟨hbase, hexcess⟩ := not_or.mp hit
        obtain ⟨hsame, hnext⟩ := h.take_of_miss separates hbase hexcess
        rw [if_neg hit, hsame]
        exact ih hrest hnext (hadd _)

/-- The namer that has given the declarations their simple names. -/
def namerAfter (separator : String) (ds : List Declaration) : Namer :=
  ((Namer.new separator).takeAll (ds.map (·.simpleName))).2

theorem excess_of_repeat (separator : String) {front : List Declaration} {s : String}
    (h : s ∈ front.map (·.simpleName)) :
    Namer.Excess separator ((namerAfter separator front).take s).2 (namerAfter separator front) s
      ((namerAfter separator front).take s).1 := by
  have htaken : s ∈ (namerAfter separator front).taken := by
    rw [namerAfter, Namer.taken_takeAll, List.mem_append, List.mem_reverse]
    exact .inl (Namer.mem_takeAll_new h)
  have hseparator : (namerAfter separator front).separator = separator :=
    Namer.separator_takeAll _ _
  have exhausted : (namerAfter separator front).Exhausted :=
    (Namer.exhausted_new separator).takeAll _
  have h := Namer.excess_take exhausted htaken
  rwa [hseparator] at h

theorem proper_declarations (graph : Graph) :
    ∀ d ∈ graph.declarations, d.simpleName = simpleName d.name := by
  intro d hd
  rcases List.mem_append.mp hd with hd | hd
  · obtain ⟨c, _, rfl⟩ := List.mem_map.mp hd
    rfl
  · obtain ⟨e, _, rfl⟩ := List.mem_map.mp hd
    rfl

section

variable {separator : String} {graph graph' : Graph} {front back : List Declaration}
  {d : Declaration} (listed : graph.declarations = front ++ d :: back)
  (listed' : graph'.declarations = front ++ back) (repeated : d.name ∈ names front)

include listed repeated in
theorem table_of_repeat (separator : String) :
    Assembly.table separator graph = .ofList (named (.new separator) front ++
      named ((namerAfter separator front).take d.simpleName).2 back) := by
  have hrepeat : ∀ s, (d.called s).name ∈ names (named (.new separator) front) := by
    intro s
    rw [d.name_called, names_named]
    exact repeated
  rw [table_eq_ofList, listed, named_append, named_cons,
    DeclarationTable.ofList_of_repeat (hrepeat _)]
  rfl

include listed' in
theorem table_without_repeat (separator : String) :
    Assembly.table separator graph' = .ofList (named (.new separator) front ++
      named (namerAfter separator front) back) := by
  rw [table_eq_ofList, listed', named_append]
  rfl

include listed listed' repeated

/-- A repeated declaration leaves no trace but in simple names. -/
theorem nameless_table_of_repeat (separator : String) :
    (Assembly.table separator graph).nameless = (Assembly.table separator graph').nameless := by
  rw [table_of_repeat listed repeated, table_without_repeat listed',
    DeclarationTable.nameless_eq_iff]
  refine DeclarationTable.entrywise_ofList (fun _ _ h => h.shape.name_eq)
    (forall₂_of_map_eq (f := Declaration.nameless) ?_)
  simp only [List.map_append, nameless_named]

theorem table_eq_iff_of_repeat (separates : Namer.Separates separator) :
    Assembly.table separator graph = Assembly.table separator graph' ↔
      spares separator (names front) d.name (names back) = true := by
  have proper := proper_declarations graph
  rw [listed] at proper
  obtain ⟨hfront, hrest⟩ := List.forall_mem_append.mp proper
  obtain ⟨hd, hback⟩ := List.forall_mem_cons.mp hrest
  have hnamer : ((Namer.new separator).takeAll ((names front).map simpleName)).2 =
      namerAfter separator front := by
    rw [namerAfter, names, List.map_map]
    exact congrArg (fun asked => ((Namer.new separator).takeAll asked).2)
      (List.map_congr_left fun x hx => (hfront x hx).symm)
  have hmem : d.simpleName ∈ front.map (·.simpleName) := by
    obtain ⟨x, hx, hname⟩ := List.mem_map.mp repeated
    exact List.mem_map.mpr ⟨x, hx, by rw [hfront x hx, hname, hd]⟩
  have hknown : ∀ n, n ∈ (DeclarationTable.ofList (named (.new separator) front)).entries.map
      (·.1) ↔ n ∈ names front := by
    intro n
    refine DeclarationTable.mem_keys_foldl_add.trans ?_
    rw [names_named]
    exact or_iff_left List.not_mem_nil
  rw [table_of_repeat listed repeated, table_without_repeat listed', spares, hnamer, ← hd,
    DeclarationTable.ofList, DeclarationTable.ofList, List.foldl_append, List.foldl_append]
  exact foldl_named_eq_iff separates hback (excess_of_repeat separator hmem) hknown

end

end Assembly

/-! ## Graphs without a repeat -/

namespace Graph

def namesOf (vs : List Value) : List String :=
  vs.filterMap (·.text? "name")

/-- All classes and enums of a graph can be decoded. -/
structure WellFormed (raw : Value) : Prop where
  classes : ∀ v ∈ raw.itemsOf "classes", ∃ c, decodeClass 0 v = .ok c
  enums : ∀ v ∈ raw.itemsOf "enums", ∃ e, decodeEnum 0 v = .ok e

/-- `Without raw raw' front v back`: the graph `raw'` is `raw` without the class or the enum `v`, in
front of which are the classes and enums `front` and behind which are those in `back`. -/
inductive Without (raw raw' : Value) : List Value → Value → List Value → Prop
  | ofClass {front later : List Value} {v : Value} :
      raw.itemsOf "classes" = front ++ v :: later → raw'.itemsOf "classes" = front ++ later →
      raw'.itemsOf "enums" = raw.itemsOf "enums" →
      Without raw raw' front v (later ++ raw.itemsOf "enums")
  | ofEnum {earlier back : List Value} {v : Value} :
      raw'.itemsOf "classes" = raw.itemsOf "classes" →
      raw.itemsOf "enums" = earlier ++ v :: back → raw'.itemsOf "enums" = earlier ++ back →
      Without raw raw' (raw.itemsOf "classes" ++ earlier) v back

/-- What `raw` and `raw'` are decoded to, up to their routes, if `raw'` is without a class or enum
that decodes to `d`, with `front` before it and `back` behind it. -/
structure Lists (raw raw' : Value) (graph graph' : List RouteRecord → Graph)
    (front : List Declaration) (d : Declaration) (back : List Declaration) : Prop where
  decode : decode raw = (routeValues raw >>= decodeAll decodeRoute 0).map graph
  decode' : Graph.decode raw' = (routeValues raw' >>= decodeAll decodeRoute 0).map graph'
  routes : ∀ routes, (graph routes).routes = routes ∧ (graph' routes).routes = routes
  listed : ∀ routes, (graph routes).declarations = front ++ d :: back
  listed' : ∀ routes, (graph' routes).declarations = front ++ back

theorem bind_ok_eq_map {ε α β : Type} {x : Except ε α} {f : α → β} :
    (x >>= fun a => .ok (f a)) = x.map f := by
  cases x with
  | error e => rfl
  | ok a => rfl

theorem decode_eq {raw : Value} {classes : List ClassRecord} {enums : List EnumRecord}
    (hclasses : Forall₂ (fun v c => decodeClass 0 v = .ok c) (raw.itemsOf "classes") classes)
    (henums : Forall₂ (fun v e => decodeEnum 0 v = .ok e) (raw.itemsOf "enums") enums) :
    decode raw = (routeValues raw >>= decodeAll decodeRoute 0).map (⟨classes, enums, ·⟩) := by
  have hclasses := (decodeAll_eq_ok_iff steady_decodeClass (i := 0)).mpr hclasses
  have henums := (decodeAll_eq_ok_iff steady_decodeEnum (i := 0)).mpr henums
  unfold decode
  rw [hclasses, henums]
  cases routeValues raw with
  | error m => rfl
  | ok vs => exact bind_ok_eq_map

/-- The declaration of a class record, under the simple name of its qualified name. -/
def classOf (c : ClassRecord) : Declaration :=
  .ofClass ⟨c, simpleName c.name⟩

/-- The declaration of an enum record, under the simple name of its qualified name. -/
def enumOf (e : EnumRecord) : Declaration :=
  .ofEnum ⟨e, simpleName e.name⟩

theorem declarations_eq (graph : Graph) :
    graph.declarations = graph.classes.map classOf ++ graph.enums.map enumOf :=
  rfl

theorem namesOf_classes {vs : List Value} {cs : List ClassRecord}
    (h : Forall₂ (fun v c => decodeClass 0 v = .ok c) vs cs) :
    namesOf vs = names (cs.map classOf) := by
  rw [namesOf, filterMap_text?_name h fun _ _ hv => text?_name_of_decodeClass hv, names,
    List.map_map]
  rfl

theorem namesOf_enums {vs : List Value} {es : List EnumRecord}
    (h : Forall₂ (fun v e => decodeEnum 0 v = .ok e) vs es) :
    namesOf vs = names (es.map enumOf) := by
  rw [namesOf, filterMap_text?_name h fun _ _ hv => text?_name_of_decodeEnum hv, names,
    List.map_map]
  rfl

theorem Without.exists_lists {raw raw' v : Value} {front back : List Value}
    (without : Without raw raw' front v back) (wellFormed : WellFormed raw) :
    ∃ graph graph' before d behind, Lists raw raw' graph graph' before d behind ∧
      namesOf front = names before ∧ v.text? "name" = some d.name ∧
      namesOf back = names behind := by
  have hnames : ∀ vs ws, namesOf (vs ++ ws) = namesOf vs ++ namesOf ws :=
    fun vs ws => List.filterMap_append
  cases without with
  | @ofClass front later v split split' same =>
      have hclasses := wellFormed.classes
      rw [split, List.forall_mem_append, List.forall_mem_cons] at hclasses
      obtain ⟨hfront, ⟨c, hc⟩, hlater⟩ := hclasses
      obtain ⟨cs, hcs⟩ := exists_forall₂ hfront
      obtain ⟨ds, hds⟩ := exists_forall₂ hlater
      obtain ⟨es, hes⟩ := exists_forall₂ wellFormed.enums
      refine ⟨(⟨cs ++ c :: ds, es, ·⟩), (⟨cs ++ ds, es, ·⟩), cs.map classOf, classOf c,
        ds.map classOf ++ es.map enumOf, ⟨?_, ?_, ?_, ?_, ?_⟩, ?_, ?_, ?_⟩
      · exact decode_eq (split ▸ List.rel_append hcs (.cons hc hds)) hes
      · exact decode_eq (split' ▸ List.rel_append hcs hds) (same ▸ hes)
      · exact fun routes => ⟨rfl, rfl⟩
      · intro routes
        simp [declarations_eq]
      · intro routes
        simp [declarations_eq]
      · exact namesOf_classes hcs
      · exact text?_name_of_decodeClass hc
      · rw [hnames, namesOf_classes hds, namesOf_enums hes]
        exact List.map_append.symm
  | @ofEnum earlier back v same split split' =>
      have henums := wellFormed.enums
      rw [split, List.forall_mem_append, List.forall_mem_cons] at henums
      obtain ⟨hearlier, ⟨e, he⟩, hback⟩ := henums
      obtain ⟨cs, hcs⟩ := exists_forall₂ wellFormed.classes
      obtain ⟨ds, hds⟩ := exists_forall₂ hearlier
      obtain ⟨es, hes⟩ := exists_forall₂ hback
      refine ⟨(⟨cs, ds ++ e :: es, ·⟩), (⟨cs, ds ++ es, ·⟩), cs.map classOf ++ ds.map enumOf,
        enumOf e, es.map enumOf, ⟨?_, ?_, ?_, ?_, ?_⟩, ?_, ?_, ?_⟩
      · exact decode_eq hcs (split ▸ List.rel_append hds (.cons he hes))
      · exact decode_eq (same ▸ hcs) (split' ▸ List.rel_append hds hes)
      · exact fun routes => ⟨rfl, rfl⟩
      · intro routes
        simp [declarations_eq]
      · intro routes
        simp [declarations_eq]
      · rw [hnames, namesOf_classes hcs, namesOf_enums hds]
        exact List.map_append.symm
      · exact text?_name_of_decodeEnum he
      · exact namesOf_enums hes

end Graph

/-! ## Builds -/

theorem Model.assemble_congr {options : ModelOptions} {graph graph' : Graph}
    (tables : Assembly.table options.separator graph = Assembly.table options.separator graph')
    (routes : graph.routes = graph'.routes) :
    assemble options graph = assemble options graph' := by
  unfold assemble
  rw [tables, routes]

theorem Model.ofJson_eq_map (options : ModelOptions) {raw : Value} {α : Type}
    {x : Except Graph.Missing α} {graph : α → Graph} (h : Graph.decode raw = x.map graph) :
    ofJson options raw = x.map fun a => assemble options (graph a) := by
  rw [ofJson, h]
  cases x with
  | error m => rfl
  | ok a => rfl

theorem Model.ofJson_of_repeat (options : ModelOptions)
    (separates : Namer.Separates options.separator) {raw raw' v : Value} {front back : List Value}
    (without : Graph.Without raw raw' front v back)
    (routes : Graph.routeValues raw' = Graph.routeValues raw) (wellFormed : Graph.WellFormed raw)
    {n : String} (named : v.text? "name" = some n) (repeated : n ∈ Graph.namesOf front) :
    (∃ m, ofJson options raw = .error m ∧ ofJson options raw' = .error m) ∨
      ∃ model model', ofJson options raw = .ok model ∧ ofJson options raw' = .ok model' ∧
        model.nameless = model'.nameless ∧
        (model = model' ↔ Assembly.spares options.separator (Graph.namesOf front) n
          (Graph.namesOf back) = true) := by
  obtain ⟨graph, graph', before, d, behind, lists, hfront, hd, hback⟩ :=
    without.exists_lists wellFormed
  cases Option.some.inj (named.symm.trans hd)
  have hdecode' := lists.decode'
  rw [routes] at hdecode'
  rw [ofJson_eq_map options lists.decode, ofJson_eq_map options hdecode', hfront, hback]
  rw [hfront] at repeated
  cases Graph.routeValues raw >>= Graph.decodeAll Graph.decodeRoute 0 with
  | error m => exact .inl ⟨m, rfl, rfl⟩
  | ok rs =>
      have hroutes : (graph rs).routes = (graph' rs).routes :=
        (lists.routes rs).1.trans (lists.routes rs).2.symm
      have hnameless := Assembly.nameless_table_of_repeat (lists.listed rs) (lists.listed' rs)
        repeated options.separator
      refine .inr ⟨_, _, rfl, rfl, nameless_assemble_of_tables rfl rfl hnameless hroutes, ?_⟩
      refine Iff.trans ⟨congrArg table, fun h => assemble_congr h hroutes⟩ ?_
      exact Assembly.table_eq_iff_of_repeat (lists.listed rs) (lists.listed' rs) repeated separates

/-- Let a graph whose classes and enums are all well-formed have one whose qualified name is that of
one before it, and let another graph be the same without it.  Then both have no model, for the same
reason, or the same model but for the names of declarations in generated code.  All names are the
same exactly if the repeat takes none away from those that are kept, and then the builds are the
same in every respect. -/
theorem build_of_repeat_iff (target : Target) (options : BuildOptions) {raw raw' v : Value}
    {front back : List Value} (without : Graph.Without raw raw' front v back)
    (routes : Graph.routeValues raw' = Graph.routeValues raw) (wellFormed : Graph.WellFormed raw)
    {n : String} (named : v.text? "name" = some n) (repeated : n ∈ Graph.namesOf front) :
    ((∃ m, Model.ofJson (Build.modelOptions target options) raw = .error m ∧
        Model.ofJson (Build.modelOptions target options) raw' = .error m) ∨
      ∃ model model', Model.ofJson (Build.modelOptions target options) raw = .ok model ∧
        Model.ofJson (Build.modelOptions target options) raw' = .ok model' ∧
        model.nameless = model'.nameless ∧
        (model = model' ↔ Assembly.spares target.separator (Graph.namesOf front) n
          (Graph.namesOf back) = true)) ∧
    (Assembly.spares target.separator (Graph.namesOf front) n (Graph.namesOf back) = true →
      ∀ base, build (.string target.name) base raw options =
        build (.string target.name) base raw' options) := by
  have models := Model.ofJson_of_repeat (Build.modelOptions target options) target.separates
    without routes wellFormed named repeated
  refine ⟨models, fun spares base => ?_⟩
  have hsame : Model.ofJson (Build.modelOptions target options) raw =
      Model.ofJson (Build.modelOptions target options) raw' := by
    rcases models with ⟨m, h, h'⟩ | ⟨model, model', h, h', _, hiff⟩
    · rw [h, h']
    · rw [h, h', hiff.mpr spares]
  have htarget : Target.ofJson? (.string target.name) = some target :=
    Target.ofJson?_eq_some_iff.mpr rfl
  simp only [build, htarget, buildTarget, hsame]

/-- A graph that declares classes and enums of these names. -/
def repeatGraph (classes enums : List String) : Graph :=
  .sample (classes.map (.sample · [])) (enums.map (.sample · [])) (some (.named "b.Order" []))

/-- Of three classes of one name the second is left out.  The third is dropped as well, so that it
takes the other variant of the name away, but the enum asks for none of them. -/
theorem build_of_repeat_thrice :
    let raw := (repeatGraph ["a.Order", "a.Order", "a.Order"] ["c.Item"]).sampleJson
    let raw' := (repeatGraph ["a.Order", "a.Order"] ["c.Item"]).sampleJson
    let record (name : String) : Value := .object [("name", .string name)]
    Graph.Without raw raw' [record "a.Order"] (record "a.Order")
      [record "a.Order", record "c.Item"] ∧
    Graph.routeValues raw' = Graph.routeValues raw ∧ Graph.WellFormed raw ∧
    (record "a.Order").text? "name" = some "a.Order" ∧
    "a.Order" ∈ Graph.namesOf [record "a.Order"] ∧
    ∀ target : Target, ∃ result,
      build (.string target.name) (.string "") raw (.ofTexts false none none none) = .ok result ∧
      build (.string target.name) (.string "") raw' (.ofTexts false none none none) =
        .ok result := by
  intro raw raw' record
  have without : Graph.Without raw raw' [record "a.Order"] (record "a.Order")
      [record "a.Order", record "c.Item"] :=
    @Graph.Without.ofClass raw raw' [record "a.Order"] [record "a.Order"] (record "a.Order")
      rfl rfl rfl
  have wellFormed : Graph.WellFormed raw := by
    refine ⟨fun v hv => ?_, fun v hv => ?_⟩
    · have hv : v ∈ List.replicate 3 (record "a.Order") := hv
      cases List.eq_of_mem_replicate hv
      exact ⟨_, rfl⟩
    · cases List.mem_singleton.mp hv
      exact ⟨_, rfl⟩
  have repeated : "a.Order" ∈ Graph.namesOf [record "a.Order"] := by decide
  refine ⟨without, rfl, wellFormed, rfl, repeated, fun target => ?_⟩
  have decoded : Graph.decode raw =
      .ok (repeatGraph ["a.Order", "a.Order", "a.Order"] ["c.Item"]) := rfl
  obtain ⟨result, built⟩ := build_ok_of_decode decoded target "" false
  have spares : Assembly.spares target.separator (Graph.namesOf [record "a.Order"]) "a.Order"
      (Graph.namesOf [record "a.Order", record "c.Item"]) = true := by
    cases target with
    | _ => decide +kernel
  obtain ⟨_, same⟩ := build_of_repeat_iff target (.ofTexts false none none none) without rfl
    wellFormed rfl repeated
  exact ⟨result, built, same spares (.string "") ▸ built⟩

theorem Ts.writer_of_build {base : String} {noHead : Bool} {raw : Value} {graph : Graph}
    {result : BuildResult} (decoded : Graph.decode raw = .ok graph)
    (built : build (.string Target.ts.name) (.string base) raw (.ofTexts noHead none none none) =
      .ok result) :
    result.writer = (WriteOp.runAll (Document.ofModel (!noHead) (.text Target.ts.runtime)
      (.text base) (.assemble (Build.modelOptions .ts (.ofTexts noHead none none none)) graph)).ops
      (.new .standard)).1 := by
  obtain ⟨model, document, writes⟩ := exists_writes built
  rw [← Model.eq_assemble_of_decode decoded writes.assembled, ← writes.document_eq,
    Build.runAll_of_write writes.written]

/-- The repeat takes the first variant of its simple name away from the class behind it. -/
theorem variant_taken_away : ∃ result result',
    build (.string Target.ts.name) (.string "")
      (repeatGraph ["a.Order", "a.Order", "b.Order"] []).sampleJson
      (.ofTexts true none none none) = .ok result ∧
    build (.string Target.ts.name) (.string "") (repeatGraph ["a.Order", "b.Order"] []).sampleJson
      (.ofTexts true none none none) = .ok result' ∧
    "export interface Order$2 \x7b\x7d" ∈ result.writer.lines.toList ∧
    "export interface Order$1 \x7b\x7d" ∈ result'.writer.lines.toList ∧
    result.code ≠ result'.code := by
  have decoded : Graph.decode (repeatGraph ["a.Order", "a.Order", "b.Order"] []).sampleJson =
      .ok (repeatGraph ["a.Order", "a.Order", "b.Order"] []) := rfl
  have decoded' : Graph.decode (repeatGraph ["a.Order", "b.Order"] []).sampleJson =
      .ok (repeatGraph ["a.Order", "b.Order"] []) := rfl
  obtain ⟨result, built⟩ := build_ok_of_decode decoded .ts "" true
  obtain ⟨result', built'⟩ := build_ok_of_decode decoded' .ts "" true
  refine ⟨result, result', built, built', ?_⟩
  -- One evaluation for all three parts, which look at the same two writers.
  rw [BuildResult.code, BuildResult.code, Ts.writer_of_build decoded built,
    Ts.writer_of_build decoded' built']
  decide +kernel

end ApiStubs
