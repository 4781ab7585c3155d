import ApiStubs.Model.Assembly
import ApiStubs.Proofs.Reachability
import ApiStubs.Resolved
import Mathlib.Data.List.Forall2

/-!
# Tables that correspond

A build asks a table of declarations for names only, and what it asks of a declaration that it finds
is in most places its name, its kind and the types that it mentions.  So let `R` relate declarations
of the same shape, and let two tables find related declarations under every name
(`DeclarationTable.Corresponds`).  What is computed over the one table then corresponds to what is
computed over the other:

* a type is a single value, or the type of keys, over both or over neither, so that parameters are
  bound and routes assembled in the same way (`Assembly.parameter_eq`, `Assembly.routes_eq`);
* the walk finds related declarations in the same order (`forall₂_walk`);
* related classes are put in the same order (`forall₂_inOrder`);
* what is collected for the same types is related one by one (`Assembly.forall₂_collected`).

What `R` is depends on what two builds may differ in: it is sameness after something has been erased
from both declarations.
-/

namespace ApiStubs

open List (Forall₂)

theorem forall₂_of_map_eq {α β : Type} {f : α → β} {as bs : List α} (h : as.map f = bs.map f) :
    Forall₂ (fun a b => f a = f b) as bs := by
  rw [← List.forall₂_eq_eq_eq, List.forall₂_map_left_iff, List.forall₂_map_right_iff] at h
  exact h

theorem map_eq_of_forall₂ {α β γ : Type} {R : α → β → Prop} {f : α → γ} {g : β → γ}
    (hR : ∀ a b, R a b → f a = g b) {as : List α} {bs : List β} (h : Forall₂ R as bs) :
    as.map f = bs.map g := by
  induction h with
  | nil => rfl
  | cons hab _ ih => rw [List.map_cons, List.map_cons, hR _ _ hab, ih]

theorem eq_none_of_rel {α β : Type} {R : α → β → Prop} {y : Option β}
    (h : Option.Rel R none y) : y = none := by
  cases h with
  | none => rfl

theorem exists_of_rel_some {α β : Type} {R : α → β → Prop} {a : α} {y : Option β}
    (h : Option.Rel R (some a) y) : ∃ b, y = some b ∧ R a b := by
  cases h with
  | some hab => exact ⟨_, rfl, hab⟩

namespace Class

variable {table : DeclarationTable} {stop visited : List String} {c : Class}

theorem ancestors_of_stop (h : stop.contains c.name) : c.ancestors table stop visited = [] := by
  rw [ancestors, if_pos h]

/-- The walk from a class at which it does not stop, as its superclass decides. -/
theorem ancestors_of_not_stop (h : ¬ stop.contains c.name) :
    c.ancestors table stop visited =
      match c.parent? table with
      | none => []
      | some p =>
        if p.name ∈ visited then [] else p :: p.ancestors table stop (p.name :: visited) := by
  rw [ancestors, if_neg h]
  split
  · rename_i hp
    rw [hp]
  · rename_i p hp
    rw [hp]
    rfl

end Class

/-! ## Declarations of one shape -/

/-- Declarations of one name and one kind that mention the same types. -/
inductive Declaration.SameShape : Declaration → Declaration → Prop
  | ofClass {c c' : Class} : c.name = c'.name → c.superclass = c'.superclass →
      c.members = c'.members → SameShape (.ofClass c) (.ofClass c')
  | ofEnum {e e' : Enum} : e.name = e'.name → SameShape (.ofEnum e) (.ofEnum e')

namespace Declaration.SameShape

variable {d d' : Declaration}

theorem name_eq (h : d.SameShape d') : d.name = d'.name := by
  cases h with
  | ofClass hname _ _ => exact hname
  | ofEnum hname => exact hname

theorem references_eq (h : d.SameShape d') : d.references = d'.references := by
  cases h with
  | ofClass _ hsuper hmembers =>
      show _ ++ _ = _ ++ _
      rw [hsuper, hmembers]
  | ofEnum _ => rfl

theorem isSome_enum? (h : d.SameShape d') : d.enum?.isSome = d'.enum?.isSome := by
  cases h with
  | ofClass _ _ _ => rfl
  | ofEnum _ => rfl

theorem symm (h : d.SameShape d') : d'.SameShape d := by
  cases h with
  | ofClass hname hsuper hmembers => exact .ofClass hname.symm hsuper.symm hmembers.symm
  | ofEnum hname => exact .ofEnum hname.symm

theorem trans {d'' : Declaration} (h : d.SameShape d') (h' : d'.SameShape d'') :
    d.SameShape d'' := by
  cases h with
  | ofClass hname hsuper hmembers =>
      cases h' with
      | ofClass hname' hsuper' hmembers' =>
          exact .ofClass (hname.trans hname') (hsuper.trans hsuper') (hmembers.trans hmembers')
  | ofEnum hname =>
      cases h' with
      | ofEnum hname' => exact .ofEnum (hname.trans hname')

end Declaration.SameShape

variable {R : Declaration → Declaration → Prop}

/-- What relates declarations also relates classes. -/
def OnClasses (R : Declaration → Declaration → Prop) (c c' : Class) : Prop :=
  R (.ofClass c) (.ofClass c')

/-- What relates declarations also relates enums. -/
def OnEnums (R : Declaration → Declaration → Prop) (e e' : Enum) : Prop :=
  R (.ofEnum e) (.ofEnum e')

/-- Under every name the two tables find declarations that `R` relates, or both find none. -/
structure DeclarationTable.Corresponds (R : Declaration → Declaration → Prop)
    (table other : DeclarationTable) : Prop where
  shape : ∀ {d d' : Declaration}, R d d' → d.SameShape d'
  finds : ∀ n, Option.Rel R (table.find? n) (other.find? n)

variable {table other : DeclarationTable}

namespace DeclarationTable.Corresponds

variable (h : table.Corresponds R other)

include h

theorem declaration? (t : TypeExpr) :
    Option.Rel R (t.declaration? table) (t.declaration? other) := by
  cases t with
  | wildcard => exact .none
  | var _ => exact .none
  | named n _ => exact h.finds n

theorem isSome_enum? (t : TypeExpr) :
    ((t.declaration? table).bind Declaration.enum?).isSome =
      ((t.declaration? other).bind Declaration.enum?).isSome := by
  have hrel := h.declaration? t
  generalize t.declaration? table = x at hrel
  generalize t.declaration? other = y at hrel
  cases hrel with
  | none => rfl
  | some hd => exact (h.shape hd).isSome_enum?

theorem isScalar_eq (t : TypeExpr) : t.isScalar table = t.isScalar other := by
  unfold TypeExpr.isScalar
  rw [h.isSome_enum?]

theorem isKey_eq (t : TypeExpr) : t.isKey table = t.isKey other := by
  unfold TypeExpr.isKey
  rw [h.isSome_enum?]

theorem findClass? (n : String) :
    Option.Rel (OnClasses R) (table.findClass? n) (other.findClass? n) := by
  unfold DeclarationTable.findClass?
  have hrel := h.finds n
  generalize table.find? n = x at hrel
  generalize other.find? n = y at hrel
  cases hrel with
  | none => exact .none
  | @some d d' hd =>
      have hshape := h.shape hd
      cases hshape with
      | ofClass _ _ _ => exact .some hd
      | ofEnum _ => exact .none

theorem forall₂_classes {ds ds' : List Declaration} (hds : Forall₂ R ds ds') :
    Forall₂ (OnClasses R) (ds.filterMap Declaration.class?) (ds'.filterMap Declaration.class?) := by
  refine List.rel_filterMap (fun d d' hd => ?_) hds
  have hshape := h.shape hd
  cases hshape with
  | ofClass _ _ _ => exact .some hd
  | ofEnum _ => exact .none

theorem forall₂_enums {ds ds' : List Declaration} (hds : Forall₂ R ds ds') :
    Forall₂ (OnEnums R) (ds.filterMap Declaration.enum?) (ds'.filterMap Declaration.enum?) := by
  refine List.rel_filterMap (fun d d' hd => ?_) hds
  have hshape := h.shape hd
  cases hshape with
  | ofClass _ _ _ => exact .none
  | ofEnum _ => exact .some hd

theorem names_eq {ds ds' : List Declaration} (hds : Forall₂ R ds ds') :
    Reach.names ds = Reach.names ds' :=
  map_eq_of_forall₂ (R := R) (fun _ _ hd => (h.shape hd).name_eq) hds

/-! ## Classes in order -/

theorem name_of_onClasses {c c' : Class} (hc : OnClasses R c c') : c.name = c'.name :=
  (h.shape hc).name_eq

theorem classNames_eq {cs cs' : List Class} (hcs : Forall₂ (OnClasses R) cs cs') :
    Class.names cs = Class.names cs' :=
  map_eq_of_forall₂ (fun _ _ hc => h.name_of_onClasses hc) hcs

theorem parent? {c c' : Class} (hc : OnClasses R c c') :
    Option.Rel (OnClasses R) (c.parent? table) (c'.parent? other) := by
  have hsuper : c.superclass = c'.superclass := by
    have hshape := h.shape hc
    cases hshape with
    | ofClass _ hsuper _ => exact hsuper
  unfold Class.parent?
  rw [hsuper]
  cases c'.superclass with
  | none => exact .none
  | some t => exact h.findClass? t.name

/-- The walks from related classes go through related classes. -/
theorem forall₂_ancestors {stop visited : List String} {c c' : Class} (hc : OnClasses R c c') :
    Forall₂ (OnClasses R) (c.ancestors table stop visited) (c'.ancestors other stop visited) := by
  have hname := h.name_of_onClasses hc
  have hparent := h.parent? hc
  fun_induction c.ancestors table stop visited generalizing c' with
  | case1 visited c hstop =>
      rw [Class.ancestors_of_stop (c := c') (hname ▸ hstop)]
      exact .nil
  | case2 visited c hstop hnone =>
      rw [hnone] at hparent
      rw [Class.ancestors_of_not_stop (c := c') (hname ▸ hstop), eq_none_of_rel hparent]
      exact .nil
  | case3 visited c hstop p hp hv =>
      obtain ⟨p', hp', hpp⟩ := exists_of_rel_some (hp ▸ hparent)
      rw [Class.ancestors_of_not_stop (c := c') (hname ▸ hstop), hp']
      show Forall₂ _ [] (if _ then _ else _)
      rw [if_pos (h.name_of_onClasses hpp ▸ hv)]
      exact .nil
  | case4 visited c hstop p hp hv ih =>
      obtain ⟨p', hp', hpp⟩ := exists_of_rel_some (hp ▸ hparent)
      have hname' := h.name_of_onClasses hpp
      rw [Class.ancestors_of_not_stop (c := c') (hname ▸ hstop), hp']
      show Forall₂ _ _ (if _ then _ else _)
      rw [if_neg (hname' ▸ hv), ← hname']
      exact .cons hpp (ih hpp hname' (h.parent? hpp))

theorem forall₂_chain {stop : List String} {c c' : Class} (hc : OnClasses R c c') :
    Forall₂ (OnClasses R) (c.chain table stop) (c'.chain other stop) := by
  unfold Class.chain
  rw [h.name_of_onClasses hc]
  exact .cons hc (h.forall₂_ancestors hc)

theorem forall₂_addNew {done done' : List Class} (hdone : Forall₂ (OnClasses R) done done')
    {c c' : Class} (hc : OnClasses R c c') :
    Forall₂ (OnClasses R) (Class.addNew done c) (Class.addNew done' c') := by
  unfold Class.addNew
  rw [h.classNames_eq hdone, h.name_of_onClasses hc]
  split
  · exact hdone
  · exact List.rel_append hdone (.cons hc .nil)

theorem forall₂_addChain {done done' : List Class} (hdone : Forall₂ (OnClasses R) done done')
    {c c' : Class} (hc : OnClasses R c c') :
    Forall₂ (OnClasses R) (Class.addChain table done c) (Class.addChain other done' c') := by
  unfold Class.addChain
  rw [h.classNames_eq hdone, h.name_of_onClasses hc]
  split
  · exact hdone
  · exact List.rel_foldl (P := Forall₂ (OnClasses R)) (R := OnClasses R)
      (fun _ _ hd _ _ hx => h.forall₂_addNew hd hx) hdone (List.rel_reverse (h.forall₂_chain hc))

theorem forall₂_inOrder {cs cs' : List Class} (hcs : Forall₂ (OnClasses R) cs cs') :
    Forall₂ (OnClasses R) (Class.inOrder table cs) (Class.inOrder other cs') :=
  List.rel_foldl (P := Forall₂ (OnClasses R)) (R := OnClasses R)
    (fun _ _ hd _ _ hx => h.forall₂_addChain hd hx) .nil hcs

/-! ## Reachable declarations -/

section Walk

variable {found found' : List Declaration} (hfound : Forall₂ R found found')

include hfound

theorem rel_new? (t : TypeExpr) :
    Option.Rel R (Reach.new? table found t) (Reach.new? other found' t) := by
  unfold Reach.new?
  rw [h.names_eq hfound]
  have hrel := h.declaration? t
  generalize t.declaration? table = x at hrel
  generalize t.declaration? other = y at hrel
  cases hrel with
  | none => exact .none
  | some hd =>
      show Option.Rel R (if _ then _ else _) (if _ then _ else _)
      rw [(h.shape hd).name_eq]
      split
      · exact .none
      · exact .some hd

theorem forall₂_walk (pending : List TypeExpr) :
    Forall₂ R (Reach.walk table found pending) (Reach.walk other found' pending) := by
  fun_induction Reach.walk table found pending generalizing found' with
  | case1 found =>
      rw [Reach.walk]
      exact hfound
  | case2 found t pending d hnew ih =>
      obtain ⟨d', hnew', hd⟩ := exists_of_rel_some (hnew ▸ h.rel_new? hfound t)
      rw [Reach.walk_of_new hnew', ← (h.shape hd).references_eq]
      exact ih (.cons hd hfound)
  | case3 found t pending hnew ih =>
      rw [Reach.walk_of_not_new (eq_none_of_rel (hnew ▸ h.rel_new? hfound t))]
      exact ih hfound

end Walk

theorem forall₂_fromTypes (types : List TypeExpr) :
    Forall₂ R (Reach.fromTypes table types) (Reach.fromTypes other types) :=
  List.rel_reverse (h.forall₂_walk .nil types)

theorem forall₂_andOthers (declared : Forall₂ R table.declarations other.declarations)
    {found found' : List Declaration} (hfound : Forall₂ R found found') :
    Forall₂ R (Reach.andOthers table found) (Reach.andOthers other found') := by
  unfold Reach.andOthers
  rw [h.names_eq hfound]
  refine List.rel_append hfound (List.rel_filter (fun d d' hd => ?_) declared)
  show (!_) = true ↔ (!_) = true
  rw [(h.shape hd).name_eq]

end DeclarationTable.Corresponds

/-! ## Tables made of related lists -/

namespace DeclarationTable

/-- The entries of the two tables have the same names in the same order, and `R` relates them. -/
def Entrywise (R : Declaration → Declaration → Prop) (table other : DeclarationTable) : Prop :=
  Forall₂ (fun x y => x.1 = y.1 ∧ R x.2 y.2) table.entries other.entries

theorem Entrywise.finds (h : table.Entrywise R other) (n : String) :
    Option.Rel R (table.find? n) (other.find? n) := by
  unfold find?
  unfold Entrywise at h
  generalize table.entries = entries at h
  generalize other.entries = entries' at h
  induction h with
  | nil => exact .none
  | @cons x y _ _ hxy _ ih =>
      rw [List.lookup_cons, List.lookup_cons, ← hxy.1]
      cases n == x.1 with
      | true => exact .some hxy.2
      | false => exact ih

theorem Entrywise.declarations (h : table.Entrywise R other) :
    Forall₂ R table.declarations other.declarations :=
  List.rel_map (fun _ _ hxy => hxy.2) h

theorem Entrywise.add (names : ∀ d d', R d d' → d.name = d'.name) (h : table.Entrywise R other)
    {d d' : Declaration} (hd : R d d') : (table.add d).Entrywise R (other.add d') := by
  have hname := names d d' hd
  have hfinds := h.finds d.name
  unfold DeclarationTable.add
  rw [← hname]
  generalize table.find? d.name = x at hfinds
  generalize other.find? d.name = y at hfinds
  cases hfinds with
  | none => exact List.rel_append h (.cons ⟨rfl, hd⟩ .nil)
  | some _ => exact h

theorem entrywise_ofList (names : ∀ d d', R d d' → d.name = d'.name) {ds ds' : List Declaration}
    (h : Forall₂ R ds ds') : (ofList ds).Entrywise R (ofList ds') :=
  List.rel_foldl (P := Entrywise R) (R := R) (fun _ _ ht _ _ hd => ht.add names hd) .nil h

end DeclarationTable

/-! ## Assembly -/

namespace Assembly

variable {options options' : ModelOptions} (h : table.Corresponds R other)

include h

theorem parameter_eq (policy : options.policy = options'.policy) (method : String)
    (p : ParameterRecord) :
    parameter options table method p = parameter options' other method p := by
  have hscalar : p.type.any (·.isScalar table) = p.type.any (·.isScalar other) := by
    cases p.type with
    | none => rfl
    | some t => exact h.isScalar_eq t
  unfold parameter binding Binding.ofPolicy
  rw [policy, hscalar]

theorem routes_eq (records : List RouteRecord) :
    routes options table records = routes options other records := by
  have hparameters : ∀ method, parameter options table method = parameter options other method :=
    fun method => funext fun p => parameter_eq h rfl method p
  unfold routes route
  simp only [hparameters]

/-- What is collected corresponds.  That the tables correspond in all declarations matters only
where routes are not filtered. -/
theorem forall₂_collected (apis : options.apis = options'.apis)
    (declared : options.apis = none → Forall₂ R table.declarations other.declarations)
    {routes routes' : List Route} (types : routeTypes routes = routeTypes routes') :
    Forall₂ R (collected options table routes) (collected options' other routes') := by
  have hfound : Forall₂ R (Reach.fromTypes table (routeTypes routes))
      (Reach.fromTypes other (routeTypes routes')) :=
    types ▸ h.forall₂_fromTypes (routeTypes routes)
  unfold collected
  rw [← apis]
  cases ha : options.apis with
  | some entries => exact hfound
  | none => exact h.forall₂_andOthers (declared ha) hfound

end Assembly

end ApiStubs
