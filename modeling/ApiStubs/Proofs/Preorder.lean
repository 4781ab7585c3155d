import ApiStubs.Proofs.PutOut
import Mathlib.Data.List.ReduceOption
import Mathlib.Order.Bounds.Defs

/-!
# Discovery in preorder

The declarations to put out are found with an explicit stack: a type is taken off it, what it names
is recorded, and the types behind it are pushed in reverse.  `Search.step` is one turn of this loop.
`preorderFrom` visits the same types by recursion: it records what a type names, if that is new,
then visits the arguments of the type, then what a new declaration mentions.

Both find the same declarations in the same order (`search_finds_preorder`).  They are compared by
`Reach.walk`, which keeps the pending types in a list with the next one first.  The stack is this
list in reverse, but for places without a type (`Search.runs_walk`); and the walk through pending
types is the recursion on the first of them, followed by the walk through the others
(`walk_append`), whatever the others are.  Together the declarations found are the least set that
holds what the routes mention and what its own classes mention (`isLeast_preorder`).

The recursion ends although types refer to each other in circles.  What it has found grows at its
front, which the type of `preorderFrom` says, so that a visit never leaves more to be found than
there was before it.
-/

namespace ApiStubs

open Relation

theorem DeclarationTable.unvisited_anti (table : DeclarationTable) (weight : Declaration → Nat)
    {visited visited' : List String} (h : visited ⊆ visited') :
    table.unvisited weight visited' ≤ table.unvisited weight visited := by
  refine weightOf_mono _ (fun entry hentry => ?_) _
  simp only [Bool.not_eq_true', List.contains_iff_mem, ← Bool.not_eq_true] at hentry ⊢
  exact fun hmem => hentry (h hmem)

namespace Reach

variable {table : DeclarationTable} {found : List Declaration} {t : TypeExpr} {d : Declaration}

/-! ## The recursion -/

/-- What there is to be found, with what that mentions. -/
def remaining (table : DeclarationTable) (found : List Declaration) : Nat :=
  table.unvisited load (names found)

theorem remaining_anti (table : DeclarationTable) {after : List Declaration}
    (h : found <:+ after) :
    remaining table after ≤ remaining table found :=
  table.unvisited_anti load (List.map_subset _ h.subset)

theorem remaining_new (h : new? table found t = some d) :
    remaining table (d :: found) + TypeExpr.sizeAll d.references < remaining table found := by
  obtain ⟨⟨_, known⟩, new⟩ := of_new? h
  have hle := DeclarationTable.unvisited_add_le load known new
  unfold remaining
  simp only [load, names, List.map_cons] at hle ⊢
  omega

/-- Visits types in order.  At each one what it names is recorded if it is new, then the arguments
are visited, then the types that a new declaration mentions: the superclass and the types of the
members.  What has been found comes last one first. -/
def preorderFrom (table : DeclarationTable) (found : List Declaration) :
    List TypeExpr → {after : List Declaration // found <:+ after}
  | [] => ⟨found, List.suffix_refl found⟩
  | t :: rest =>
    match _new : new? table found t with
    | some d =>
      let ⟨inside, kept⟩ := preorderFrom table (d :: found) t.args
      let ⟨behind, kept'⟩ := preorderFrom table inside d.references
      let ⟨after, kept''⟩ := preorderFrom table behind rest
      ⟨after, (List.suffix_cons d found).trans (kept.trans (kept'.trans kept''))⟩
    | none =>
      let ⟨inside, kept⟩ := preorderFrom table found t.args
      let ⟨after, kept'⟩ := preorderFrom table inside rest
      ⟨after, kept.trans kept'⟩
termination_by types => remaining table found + TypeExpr.sizeAll types
decreasing_by
  all_goals have hargs := t.sizeAll_args_lt
  all_goals rw [TypeExpr.sizeAll.eq_2]
  · have hnew := remaining_new _new
    omega
  · have hnew := remaining_new _new
    have hinside := remaining_anti table kept
    omega
  · have hnew := remaining_new _new
    have hbehind := remaining_anti table (kept.trans kept')
    omega
  · omega
  · have hinside := remaining_anti table kept
    omega

/-- The declarations that types lead to, in preorder. -/
def preorder (table : DeclarationTable) (types : List TypeExpr) : List Declaration :=
  (preorderFrom table [] types).1.reverse

theorem preorderFrom_of_new (h : new? table found t = some d) (rest : List TypeExpr) :
    (preorderFrom table found (t :: rest)).1 =
      (preorderFrom table (preorderFrom table (preorderFrom table (d :: found) t.args).1
        d.references).1 rest).1 := by
  rw [preorderFrom]
  split
  · rename_i e he
    cases h.symm.trans he
    rfl
  · rename_i he
    cases h.symm.trans he

theorem preorderFrom_of_not_new (h : new? table found t = none) (rest : List TypeExpr) :
    (preorderFrom table found (t :: rest)).1 =
      (preorderFrom table (preorderFrom table found t.args).1 rest).1 := by
  rw [preorderFrom]
  split
  · rename_i e he
    cases h.symm.trans he
  · rfl

/-- A walk through pending types is the recursion on the first ones and the walk through what is
pending besides. -/
theorem walk_append (table : DeclarationTable) (found : List Declaration)
    (types pending : List TypeExpr) :
    walk table found (types ++ pending) =
      walk table (preorderFrom table found types).1 pending := by
  induction found, types using preorderFrom.induct table generalizing pending with
  | case1 found => rw [List.nil_append, preorderFrom]
  | case2 found t rest d hnew inside _ hinside behind _ hbehind _ _ _ ihargs ihreferences ihrest =>
      rw [List.cons_append, walk_of_new hnew, List.append_assoc, ihargs, hinside,
        ihreferences, hbehind, ihrest, preorderFrom_of_new hnew, hinside, hbehind]
  | case3 found t rest hnew inside _ hinside _ _ _ ihargs ihrest =>
      rw [List.cons_append, walk_of_not_new hnew, ihargs, hinside, ihrest,
        preorderFrom_of_not_new hnew, hinside]

theorem fromTypes_eq_preorder (table : DeclarationTable) (types : List TypeExpr) :
    fromTypes table types = preorder table types := by
  have h := walk_append table [] types []
  rw [List.append_nil, walk] at h
  rw [fromTypes, h, preorder]

/-! ## The explicit stack -/

/-- The places of a declaration where a type may stand, also those where there is none. -/
def places : Declaration → List (Option TypeExpr)
  | .ofClass c => c.superclass :: c.members.map (·.type)
  | .ofEnum _ => []

theorem reduceOption_places (d : Declaration) : (places d).reduceOption = d.references := by
  cases d with
  | ofClass c =>
      have hmembers : (c.members.map (·.type)).reduceOption = c.members.filterMap (·.type) :=
        List.filterMap_map
      show (c.superclass :: c.members.map (·.type)).reduceOption =
        c.superclass.toList ++ c.members.filterMap (·.type)
      rw [← hmembers]
      cases c.superclass with
      | none => exact List.reduceOption_cons_of_none _
      | some t => exact List.reduceOption_cons_of_some t _
  | ofEnum e => rfl

/-- The state of a search: what has been found, in order of discovery, and the stack, of which the
last place is visited next. -/
structure Search where
  found : List Declaration
  stack : List (Option TypeExpr)

namespace Search

/-- One turn of the search, unless the stack is empty: takes a place off the stack, records what
its type names if that is new, and pushes the arguments of the type and the places of a new
declaration, the last one first. -/
def step (table : DeclarationTable) (s : Search) : Option Search :=
  match s.stack.getLast? with
  | none => none
  | some none => some ⟨s.found, s.stack.dropLast⟩
  | some (some t) =>
    match new? table s.found t with
    | some d => some ⟨s.found ++ [d], s.stack.dropLast ++ (t.args.map some ++ places d).reverse⟩
    | none => some ⟨s.found, s.stack.dropLast ++ (t.args.map some).reverse⟩

/-- `Runs table s s'`: turn after turn the search gets from `s` to `s'`. -/
abbrev Runs (table : DeclarationTable) : Search → Search → Prop :=
  ReflTransGen fun s s' => s.step table = some s'

/-- The search from the types of routes: those of the parameters of each route, then the one it
returns. -/
def start (routes : List Route) : Search :=
  ⟨[], (routes.flatMap fun r => r.parameters.map (·.type) ++ [r.returnType]).reverse⟩

section Step

variable {found : List Declaration} {pending : List (Option TypeExpr)}

theorem step_nil : step table ⟨found, []⟩ = none := rfl

theorem step_none :
    step table ⟨found, (none :: pending).reverse⟩ = some ⟨found, pending.reverse⟩ := by
  simp [step]

theorem new?_reverse : new? table found.reverse t = new? table found t := by
  simp [new?, names]

theorem step_of_new (h : new? table found t = some d) :
    step table ⟨found.reverse, (some t :: pending).reverse⟩ =
      some ⟨(d :: found).reverse, (t.args.map some ++ places d ++ pending).reverse⟩ := by
  simp [step, new?_reverse, h]

theorem step_of_not_new (h : new? table found t = none) :
    step table ⟨found.reverse, (some t :: pending).reverse⟩ =
      some ⟨found.reverse, (t.args.map some ++ pending).reverse⟩ := by
  simp [step, new?_reverse, h]

end Step

theorem runs_replicate_none (table : DeclarationTable) (found : List Declaration) (n : Nat)
    (pending : List (Option TypeExpr)) :
    Runs table ⟨found, (List.replicate n none ++ pending).reverse⟩ ⟨found, pending.reverse⟩ := by
  induction n with
  | zero => exact .refl
  | succ n ih => exact .head step_none ih

theorem exists_of_reduceOption_eq_cons {pending : List (Option TypeExpr)} {types : List TypeExpr}
    (h : pending.reduceOption = t :: types) :
    ∃ n rest, pending = List.replicate n none ++ some t :: rest ∧ rest.reduceOption = types := by
  obtain ⟨l, rest, rfl, hl, hrest⟩ := (List.reduceOption_eq_append_iff pending [t] types).mp h
  obtain ⟨n, m, rfl⟩ := (List.reduceOption_eq_singleton_iff l t).mp hl
  refine ⟨n, List.replicate m none ++ rest, by simp, ?_⟩
  rw [List.reduceOption_append, List.reduceOption_replicate_none, hrest, List.nil_append]

/-- The search empties the stack, and then has found what the walk through its types finds. -/
theorem runs_walk (found : List Declaration) (types : List TypeExpr)
    (pending : List (Option TypeExpr)) (h : pending.reduceOption = types) :
    Runs table ⟨found.reverse, pending.reverse⟩ ⟨(walk table found types).reverse, []⟩ := by
  have hmap : ∀ ts : List TypeExpr, (ts.map some).reduceOption = ts := fun ts => by
    simp [List.reduceOption, List.filterMap_map]
  fun_induction walk table found types generalizing pending with
  | case1 found =>
      obtain ⟨n, rfl⟩ := (List.reduceOption_eq_nil_iff pending).mp h
      have hrun := runs_replicate_none table found.reverse n []
      rwa [List.append_nil] at hrun
  | case2 found t types d hnew ih =>
      obtain ⟨n, rest, rfl, rfl⟩ := exists_of_reduceOption_eq_cons h
      refine (runs_replicate_none table _ n _).trans (.head (step_of_new hnew) (ih _ ?_))
      rw [List.reduceOption_append, List.reduceOption_append, hmap, reduceOption_places]
  | case3 found t types hnew ih =>
      obtain ⟨n, rest, rfl, rfl⟩ := exists_of_reduceOption_eq_cons h
      refine (runs_replicate_none table _ n _).trans (.head (step_of_not_new hnew) (ih _ ?_))
      rw [List.reduceOption_append, hmap]

/-- The search from the types of routes ends, and then has found these in preorder. -/
theorem runs_start (table : DeclarationTable) (routes : List Route) :
    Runs table (start routes) ⟨preorder table (Assembly.routeTypes routes), []⟩ := by
  rw [← fromTypes_eq_preorder]
  refine runs_walk [] _ _ ?_
  unfold List.reduceOption Assembly.routeTypes
  rw [List.filterMap_flatMap]
  refine List.flatMap_congr fun r _ => ?_
  rw [List.filterMap_append, List.filterMap_map]
  cases r.returnType <;> rfl

end Search

/-! ## The least set -/

/-- `Mentions table t d`: the declaration `d` is named by the type `t`, or by one inside it. -/
def Mentions (table : DeclarationTable) (t : TypeExpr) (d : Declaration) : Prop :=
  ∃ a, ReflTransGen (fun u v => v ∈ u.args) t a ∧ a.declaration? table = some d

/-- `Closed table routes S`: in `S` is what the types of the routes mention and, with a class, what
its superclass and the types of its members mention. -/
structure Closed (table : DeclarationTable) (routes : List Route) (S : Set Declaration) : Prop where
  parameter : ∀ r ∈ routes, ∀ p ∈ r.parameters, ∀ t ∈ p.type, ∀ d, Mentions table t d → d ∈ S
  returned : ∀ r ∈ routes, ∀ t ∈ r.returnType, ∀ d, Mentions table t d → d ∈ S
  superclass : ∀ c, .ofClass c ∈ S → ∀ t ∈ c.superclass, ∀ d, Mentions table t d → d ∈ S
  member : ∀ c, .ofClass c ∈ S → ∀ m ∈ c.members, ∀ t ∈ m.type, ∀ d, Mentions table t d → d ∈ S

theorem reaches_of_mentions (h : Mentions table t d) : Reaches table t d := by
  obtain ⟨a, inside, hd⟩ := h
  induction inside using ReflTransGen.head_induction_on with
  | refl => exact .names hd
  | head ha _ ih => exact .argument ha ih

theorem mem_references_ofClass {c : Class} {r : TypeExpr} :
    r ∈ (Declaration.ofClass c).references ↔
      c.superclass = some r ∨ ∃ m ∈ c.members, m.type = some r := by
  simp [Declaration.references]

theorem Closed.reference {routes : List Route} {S : Set Declaration} (h : Closed table routes S)
    (hd : d ∈ S) {r : TypeExpr} (hr : r ∈ d.references) {e : Declaration}
    (he : Mentions table r e) : e ∈ S := by
  cases d with
  | ofEnum _ => exact absurd hr List.not_mem_nil
  | ofClass c =>
      rcases mem_references_ofClass.mp hr with hs | ⟨m, hm, hs⟩
      · exact h.superclass c hd r hs e he
      · exact h.member c hd m hm r hs e he

theorem Closed.mem_of_reaches {routes : List Route} {S : Set Declaration}
    (h : Closed table routes S) (reaches : Reaches table t d)
    (mentioned : ∀ e, Mentions table t e → e ∈ S) : d ∈ S := by
  induction reaches with
  | names hd => exact mentioned _ ⟨_, .refl, hd⟩
  | argument ha _ ih =>
      refine ih fun e he => ?_
      obtain ⟨a, inside, hd⟩ := he
      exact mentioned e ⟨a, .head ha inside, hd⟩
  | reference hd hr _ ih =>
      exact ih fun e he => h.reference (mentioned _ ⟨_, .refl, hd⟩) hr he

/-- What the types of routes lead to is the least closed set. -/
theorem isLeast_reached (table : DeclarationTable) (routes : List Route) :
    IsLeast {S | Closed table routes S}
      {d | ∃ t ∈ Assembly.routeTypes routes, Reaches table t d} := by
  have hroutes : ∀ t, t ∈ Assembly.routeTypes routes ↔
      ∃ r ∈ routes, (∃ p ∈ r.parameters, p.type = some t) ∨ r.returnType = some t := by
    simp [Assembly.routeTypes]
  have hreference : ∀ d r e, (∃ t ∈ Assembly.routeTypes routes, Reaches table t d) →
      r ∈ d.references → Mentions table r e →
      ∃ t ∈ Assembly.routeTypes routes, Reaches table t e := by
    rintro d r e ⟨t, ht, hd⟩ hr he
    exact ⟨t, ht, reaches_references hd hr (reaches_of_mentions he)⟩
  constructor
  · exact {
      parameter := fun r hr p hp t ht d hd =>
        ⟨t, (hroutes t).mpr ⟨r, hr, .inl ⟨p, hp, ht⟩⟩, reaches_of_mentions hd⟩
      returned := fun r hr t ht d hd =>
        ⟨t, (hroutes t).mpr ⟨r, hr, .inr ht⟩, reaches_of_mentions hd⟩
      superclass := fun c hc t ht d hd =>
        hreference _ t d hc (mem_references_ofClass.mpr (.inl ht)) hd
      member := fun c hc m hm t ht d hd =>
        hreference _ t d hc (mem_references_ofClass.mpr (.inr ⟨m, hm, ht⟩)) hd }
  · rintro S hS d ⟨t, ht, hd⟩
    refine hS.mem_of_reaches hd fun e he => ?_
    obtain ⟨r, hr, ⟨p, hp, hs⟩ | hs⟩ := (hroutes t).mp ht
    · exact hS.parameter r hr p hp t hs e he
    · exact hS.returned r hr t hs e he

theorem isLeast_preorder (named : table.Named) (routes : List Route) :
    IsLeast {S | Closed table routes S} {d | d ∈ preorder table (Assembly.routeTypes routes)} := by
  have hset : {d | d ∈ preorder table (Assembly.routeTypes routes)} =
      {d | ∃ t ∈ Assembly.routeTypes routes, Reaches table t d} := by
    ext d
    rw [← fromTypes_eq_preorder]
    exact mem_fromTypes_iff named
  rw [hset]
  exact isLeast_reached table routes

/-- The search from the types of routes ends, and then has found the declarations in preorder: each
once, and together the least set that is closed.  These are collected, and without a filter behind
them the others of the table in its order. -/
theorem search_finds_preorder (keyed : table.Keyed) (options : ModelOptions)
    (routes : List Route) :
    (∃ last, Search.Runs table (Search.start routes) last ∧ last.step table = none ∧
      last.found = preorder table (Assembly.routeTypes routes)) ∧
    (names (preorder table (Assembly.routeTypes routes))).Nodup ∧
    IsLeast {S | Closed table routes S} {d | d ∈ preorder table (Assembly.routeTypes routes)} ∧
    (names (Assembly.collected options table routes)).Nodup ∧
    Assembly.collected options table routes =
      preorder table (Assembly.routeTypes routes) ++
        if options.apis.isSome then []
        else table.declarations.filter fun d =>
          d.name ∉ names (preorder table (Assembly.routeTypes routes)) := by
  have hruns := Search.runs_start table routes
  have hnodup : (names (fromTypes table (Assembly.routeTypes routes))).Nodup :=
    nodup_names_fromTypes _
  unfold Assembly.collected
  rw [fromTypes_eq_preorder] at hnodup ⊢
  refine ⟨⟨_, hruns, Search.step_nil, rfl⟩, hnodup, isLeast_preorder keyed.named routes, ?_⟩
  split
  · exact ⟨hnodup, (List.append_nil _).symm⟩
  · refine ⟨nodup_names_andOthers keyed hnodup, ?_⟩
    simp only [andOthers, List.contains_eq_mem, decide_not]

/-- Orders and pages of orders.  The class of orders and its superclass extend each other, its items
mention it again, and no type mentions the log. -/
def orderTable : DeclarationTable :=
  let declare (name : String) (parameters : List String) (superclass : Option TypeExpr)
      (types : List TypeExpr) : Declaration :=
    .ofClass ⟨⟨name, parameters, superclass, types.map fun t => ⟨"m", some t, false, ""⟩, "", []⟩,
      name⟩
  let order := .named "Order" []
  DeclarationTable.ofList
    [declare "Log" [] none [order],
      declare "Base" [] (some order) [],
      declare "Item" [] none [order, .named "Item" []],
      .ofEnum ⟨⟨"Status", [], .unknown, "", []⟩, "Status"⟩,
      declare "Order" [] (some (.named "Base" []))
        [.named "Status" [], .named "List" [.named "Item" []]],
      declare "Page" ["T"] none [.var "T", .named "Page" [.var "T"]]]

/-- A route that takes a status and something of no known type, and returns a page of orders. -/
def orderRoute : Route :=
  ⟨"Orders", "load", "load", "GET", "/", true, none, "",
    some (.named "Page" [.named "Order" []]),
    [⟨"any", none, false, none, ""⟩, ⟨"status", some (.named "Status" []), false, none, ""⟩]⟩

/-- The argument of the page comes before what pages mention, the superclass of orders before what
their members mention, and the log behind all of these. -/
theorem search_finds_preorder_orders :
    orderTable.Keyed ∧
    (∃ last, Search.Runs orderTable (Search.start [orderRoute]) last ∧
      last.step orderTable = none ∧
      names last.found = ["Status", "Page", "Order", "Base", "Item"]) ∧
    names (Assembly.collected ⟨"$", none, none, []⟩ orderTable [orderRoute]) =
      ["Status", "Page", "Order", "Base", "Item", "Log"] := by
  have keyed : orderTable.Keyed := DeclarationTable.keyed_ofList _
  obtain ⟨⟨last, hruns, hend, hfound⟩, _, _, _, hcollected⟩ :=
    search_finds_preorder keyed ⟨"$", none, none, []⟩ [orderRoute]
  refine ⟨keyed, ⟨last, hruns, hend, ?_⟩, ?_⟩
  · rw [hfound]
    decide +kernel
  · rw [hcollected]
    decide +kernel

end Reach
end ApiStubs
