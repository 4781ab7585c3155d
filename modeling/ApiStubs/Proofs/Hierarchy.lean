import ApiStubs.Declaration.Order
import Mathlib.Logic.Relation

/-!
# The hierarchy of classes

A class extends the class that the table knows under the name of its superclass.  Nothing rules
cycles out: a hierarchy is a graph in which every class has at most one edge, and a walk along the
edges either ends or enters a cycle.

`Walk` says what a chain of superclasses is, clause by clause of the walk that finds it; what the
rest of the library needs of chains is read off `Walk` by induction.  The main facts are

* `chain_pairwise`: every class of a chain inherits from those behind it;
* `names_chain_nodup`: no name comes twice;
* `chain_closed`: the chain holds the superclass of each of its classes at which the walk does not
  stop.
-/

namespace ApiStubs

open Relation

/-- `Extends table c p`: the superclass of `c` has a name that the table knows as the class `p`. -/
inductive Extends (table : DeclarationTable) (c p : Class) : Prop
  | intro (t : TypeExpr) : c.superclass = some t → table.find? t.name = some (.ofClass p) →
      Extends table c p

/-- `Inherits table c d`: going from superclass to superclass leads from `c` to `d`, in no step or
in several. -/
abbrev Inherits (table : DeclarationTable) : Class → Class → Prop :=
  ReflTransGen (Extends table)

/-- `Descends table c d`: going from superclass to superclass leads from `c` to `d` in one step or
more, so that `d` is an ancestor of `c`. -/
abbrev Descends (table : DeclarationTable) : Class → Class → Prop :=
  TransGen (Extends table)

/-- A name finds nothing but declarations of this name. -/
def DeclarationTable.Named (table : DeclarationTable) : Prop :=
  ∀ n d, table.find? n = some d → d.name = n

/-- `table.Holds c`: the name of the class `c` finds `c` itself. -/
def DeclarationTable.Holds (table : DeclarationTable) (c : Class) : Prop :=
  table.find? c.name = some (.ofClass c)

namespace Class

variable {table : DeclarationTable} {stop : List String}

theorem findClass?_eq_some_iff {n : String} {c : Class} :
    table.findClass? n = some c ↔ table.find? n = some (.ofClass c) := by
  unfold DeclarationTable.findClass?
  cases hf : table.find? n with
  | none => simp
  | some d => cases d <;> simp [Declaration.class?]

theorem parent?_eq_some_iff {c p : Class} : c.parent? table = some p ↔ Extends table c p := by
  unfold parent?
  constructor
  · intro h
    obtain ⟨t, ht, hp⟩ := Option.bind_eq_some_iff.mp h
    exact ⟨t, ht, findClass?_eq_some_iff.mp hp⟩
  · rintro ⟨t, ht, hp⟩
    rw [ht]
    exact findClass?_eq_some_iff.mpr hp

/-- A class extends one class at most. -/
theorem extends_unique {c p q : Class} (hp : Extends table c p) (hq : Extends table c q) :
    p = q := by
  have h := (parent?_eq_some_iff.mpr hp).symm.trans (parent?_eq_some_iff.mpr hq)
  exact Option.some.inj h

theorem extends_holds (named : table.Named) {c p : Class} (h : Extends table c p) :
    table.Holds p := by
  obtain ⟨t, _, hp⟩ := h
  have hn : p.name = t.name := named t.name (.ofClass p) hp
  unfold DeclarationTable.Holds
  rw [hn]
  exact hp

/-- A table holds one class of a name at most. -/
theorem holds_unique {c d : Class} (hc : table.Holds c) (hd : table.Holds d)
    (h : c.name = d.name) : c = d := by
  unfold DeclarationTable.Holds at hc hd
  rw [h] at hc
  have hs := hc.symm.trans hd
  exact Declaration.ofClass.inj (Option.some.inj hs)

/-- Classes that a table holds are known by their names. -/
theorem eq_of_names_eq {classes others : List Class} (hc : ∀ c ∈ classes, table.Holds c)
    (ho : ∀ c ∈ others, table.Holds c) (h : names classes = names others) : classes = others := by
  have found : ∀ {held : List Class}, (∀ c ∈ held, table.Holds c) →
      held.map (fun c => some (.ofClass c)) = (names held).map table.find? := by
    intro held hheld
    rw [names, List.map_map]
    exact List.map_congr_left fun c hc => (hheld c hc).symm
  refine (List.map_inj_right fun _ _ e => Declaration.ofClass.inj (Option.some.inj e)).mp ?_
  rw [found hc, found ho, h]

theorem holds_of_inherits (named : table.Named) {c d : Class} (hc : table.Holds c)
    (h : Inherits table c d) : table.Holds d := by
  cases h with
  | refl => exact hc
  | tail _ hd => exact extends_holds named hd

/-! ## Walks -/

/-- `Walk table stop visited c rest`: from `c` the walk goes on through `rest`, where `stop` are the
names at which it ends and `visited` those to which it does not return. -/
inductive Walk (table : DeclarationTable) (stop : List String) :
    List String → Class → List Class → Prop
  | stopped {visited : List String} {c : Class} : c.name ∈ stop → Walk table stop visited c []
  | top {visited : List String} {c : Class} : c.name ∉ stop → (∀ p, ¬ Extends table c p) →
      Walk table stop visited c []
  | cycle {visited : List String} {c p : Class} : c.name ∉ stop → Extends table c p →
      p.name ∈ visited → Walk table stop visited c []
  | up {visited : List String} {c p : Class} {rest : List Class} : c.name ∉ stop →
      Extends table c p → p.name ∉ visited → Walk table stop (p.name :: visited) p rest →
      Walk table stop visited c (p :: rest)

theorem walk_ancestors (visited : List String) (c : Class) :
    Walk table stop visited c (c.ancestors table stop visited) := by
  fun_induction c.ancestors table stop visited with
  | case1 visited c hs => exact .stopped (by simpa using hs)
  | case2 visited c hs hp =>
      refine .top (by simpa using hs) ?_
      intro p hx
      have := hp.symm.trans (parent?_eq_some_iff.mpr hx)
      exact absurd this (by simp)
  | case3 visited c hs p hp hv =>
      exact .cycle (by simpa using hs) (parent?_eq_some_iff.mp hp) hv
  | case4 visited c hs p hp hv ih =>
      exact .up (by simpa using hs) (parent?_eq_some_iff.mp hp) hv ih

theorem walk_inherits {visited : List String} {c : Class} {rest : List Class}
    (h : Walk table stop visited c rest) : ∀ x ∈ rest, Descends table c x := by
  induction h with
  | stopped _ => exact fun x hx => absurd hx List.not_mem_nil
  | top _ _ => exact fun x hx => absurd hx List.not_mem_nil
  | cycle _ _ _ => exact fun x hx => absurd hx List.not_mem_nil
  | up _ hp _ _ ih =>
      intro x hx
      rcases List.mem_cons.mp hx with rfl | hx
      · exact .single hp
      · exact .head hp (ih x hx)

theorem walk_pairwise {visited : List String} {c : Class} {rest : List Class}
    (h : Walk table stop visited c rest) : (c :: rest).Pairwise (Descends table) := by
  induction h with
  | stopped _ => exact List.pairwise_singleton _ _
  | top _ _ => exact List.pairwise_singleton _ _
  | cycle _ _ _ => exact List.pairwise_singleton _ _
  | up hs hp hv hw ih =>
      exact List.pairwise_cons.mpr ⟨walk_inherits (.up hs hp hv hw), ih⟩

theorem walk_new {visited : List String} {c : Class} {rest : List Class}
    (h : Walk table stop visited c rest) : ∀ x ∈ rest, x.name ∉ visited := by
  induction h with
  | stopped _ => exact fun x hx => absurd hx List.not_mem_nil
  | top _ _ => exact fun x hx => absurd hx List.not_mem_nil
  | cycle _ _ _ => exact fun x hx => absurd hx List.not_mem_nil
  | up _ _ hv _ ih =>
      intro x hx
      rcases List.mem_cons.mp hx with rfl | hx
      · exact hv
      · exact fun hm => ih x hx (List.mem_cons_of_mem _ hm)

theorem walk_nodup {visited : List String} {c : Class} {rest : List Class}
    (h : Walk table stop visited c rest) : (names rest).Nodup := by
  induction h with
  | stopped _ => exact List.nodup_nil
  | top _ _ => exact List.nodup_nil
  | cycle _ _ _ => exact List.nodup_nil
  | @up visited _ p rest _ _ _ hw ih =>
      refine List.nodup_cons.mpr ⟨?_, ih⟩
      intro hm
      obtain ⟨x, hx, hn⟩ := List.mem_map.mp hm
      exact walk_new hw x hx (hn ▸ List.mem_cons_self)

/-- The walk leaves no superclass out but those at which it stops or to which it would return. -/
theorem walk_closed (named : table.Named) {visited : List String} {c : Class} {rest : List Class}
    (h : Walk table stop visited c rest) :
    ∀ y ∈ c :: rest, y.name ∉ stop → ∀ p, Extends table y p → p ∈ rest ∨ p.name ∈ visited := by
  induction h with
  | stopped hs =>
      intro y hy hn
      rw [List.mem_singleton.mp hy] at hn
      exact absurd hs hn
  | top _ ht =>
      intro y hy _ p hp
      rw [List.mem_singleton.mp hy] at hp
      exact absurd hp (ht p)
  | cycle _ hq hv =>
      intro y hy _ p hp
      rw [List.mem_singleton.mp hy] at hp
      rw [extends_unique hp hq]
      exact Or.inr hv
  | up _ hq _ _ ih =>
      intro y hy hn p hp
      rcases List.mem_cons.mp hy with rfl | hy
      · rw [extends_unique hp hq]
        exact Or.inl List.mem_cons_self
      · rcases ih y hy hn p hp with h | h
        · exact Or.inl (List.mem_cons_of_mem _ h)
        · rcases List.mem_cons.mp h with h | h
          · rw [holds_unique (extends_holds named hp) (extends_holds named hq) h]
            exact Or.inl List.mem_cons_self
          · exact Or.inr h

/-! ## Chains -/

theorem mem_chain_self (c : Class) : c ∈ c.chain table stop :=
  List.mem_cons_self

theorem chain_pairwise (c : Class) : (c.chain table stop).Pairwise (Descends table) :=
  walk_pairwise (walk_ancestors [c.name] c)

theorem inherits_of_mem_chain {c x : Class} (h : x ∈ c.chain table stop) :
    Inherits table c x := by
  rcases List.mem_cons.mp h with rfl | h
  · exact .refl
  · exact (walk_inherits (walk_ancestors [c.name] c) x h).to_reflTransGen

theorem names_chain_nodup (c : Class) : (names (c.chain table stop)).Nodup := by
  have hw : Walk table stop [c.name] c (c.ancestors table stop [c.name]) := walk_ancestors _ c
  refine List.nodup_cons.mpr ⟨?_, walk_nodup hw⟩
  intro hm
  obtain ⟨x, hx, hn⟩ := List.mem_map.mp hm
  exact walk_new hw x hx (List.mem_singleton.mpr hn)

theorem chain_closed (named : table.Named) {c : Class} (hc : table.Holds c) :
    ∀ y ∈ c.chain table stop, y.name ∉ stop → ∀ p, Extends table y p →
      p ∈ c.chain table stop := by
  intro y hy hn p hp
  rcases walk_closed named (walk_ancestors [c.name] c) y hy hn p hp with h | h
  · exact List.mem_cons_of_mem _ h
  · rw [holds_unique (extends_holds named hp) hc (List.mem_singleton.mp h)]
    exact mem_chain_self c

/-- A chain that no class stops holds all that its class inherits from. -/
theorem mem_chain_of_inherits (named : table.Named) {c d : Class} (hc : table.Holds c)
    (hd : Inherits table c d) : d ∈ c.chain table [] := by
  induction hd with
  | refl => exact mem_chain_self c
  | tail _ hp ih => exact chain_closed named hc _ ih List.not_mem_nil _ hp

/-- A class is not its own ancestor if the chain of its superclass does not come to its name. -/
theorem not_descends_self (named : table.Named) {c : Class}
    (h : ∀ p ∈ c.parent? table, c.name ∉ names (p.chain table [])) : ¬ Descends table c c := by
  intro hcc
  obtain ⟨p, hp, hpc⟩ := TransGen.head'_iff.mp hcc
  have hmem := mem_chain_of_inherits named (extends_holds named hp) hpc
  exact h p (parent?_eq_some_iff.mpr hp) (List.mem_map_of_mem hmem)

end Class

end ApiStubs
