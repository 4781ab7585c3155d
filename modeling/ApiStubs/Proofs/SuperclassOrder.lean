import ApiStubs.Proofs.Table
import Mathlib.Data.List.Nodup

/-!
# Superclasses come first

`Class.inOrder` puts a list of classes, with the superclasses they need, in an order in which no
class comes before one of its ancestors.  `inOrder_superclasses_first` states this in full: no name
comes twice, the classes are those that are listed or inherited from, and an ancestor comes strictly
before every class to which it does not lead back.

The order is built chain by chain, and a walk stops at the first class that is there already.  What
makes this right is the invariant `Settled`: the classes that are there are closed under
superclasses, so nothing lies behind the point at which a walk stops.
-/

namespace ApiStubs.Class

open Relation

variable {table : DeclarationTable}

/-- What holds of the classes put in order so far. -/
structure Settled (table : DeclarationTable) (done : List Class) : Prop where
  held : ∀ c ∈ done, table.Holds c
  nodup : (names done).Nodup
  closed : ∀ c ∈ done, ∀ p, Extends table c p → p ∈ done
  /-- An ancestor comes later only where the two lie on a cycle. -/
  sorted : done.Pairwise fun a b => Descends table a b → Inherits table b a

theorem settled_nil : Settled table [] where
  held := fun _ h => absurd h List.not_mem_nil
  nodup := List.nodup_nil
  closed := fun _ h => absurd h List.not_mem_nil
  sorted := .nil

namespace Settled

variable {done : List Class}

theorem closed_inherits (h : Settled table done) {c d : Class} (hc : c ∈ done)
    (hd : Inherits table c d) : d ∈ done := by
  induction hd with
  | refl => exact hc
  | tail _ hp ih => exact h.closed _ ih _ hp

/-- A class is there as soon as its name is. -/
theorem mem_of_name (h : Settled table done) {c : Class} (hc : table.Holds c)
    (hn : c.name ∈ names done) : c ∈ done := by
  obtain ⟨d, hd, hdn⟩ := List.mem_map.mp hn
  rw [← holds_unique (h.held d hd) hc hdn]
  exact hd

end Settled

/-! ## Adding a chain -/

/-- The classes whose names are not there yet. -/
def fresh (done classes : List Class) : List Class :=
  classes.filter fun c => !(names done).contains c.name

theorem mem_fresh {done classes : List Class} {c : Class} :
    c ∈ fresh done classes ↔ c ∈ classes ∧ c.name ∉ names done := by
  simp [fresh]

theorem fresh_cons_of_mem {done rest : List Class} {c : Class} (h : c.name ∈ names done) :
    fresh done (c :: rest) = fresh done rest := by
  simp [fresh, h]

theorem fresh_cons_of_not_mem {done rest : List Class} {c : Class} (h : c.name ∉ names done) :
    fresh done (c :: rest) = c :: fresh done rest := by
  simp [fresh, h]

/-- A class of another name changes nothing in what is fresh. -/
theorem fresh_append_singleton {done rest : List Class} {c : Class} (h : c.name ∉ names rest) :
    fresh (done ++ [c]) rest = fresh done rest := by
  refine List.filter_congr ?_
  intro x hx
  have hne : x.name ≠ c.name := fun e => h (e ▸ List.mem_map_of_mem hx)
  simp [names, hne]

theorem foldl_addNew {classes : List Class} :
    ∀ {done : List Class}, (names classes).Nodup →
      classes.foldl addNew done = done ++ fresh done classes := by
  induction classes with
  | nil => intro done _; exact (List.append_nil done).symm
  | cons c rest ih =>
      intro done hn
      obtain ⟨hc, hr⟩ := List.nodup_cons.mp hn
      rw [List.foldl_cons, ih hr]
      by_cases h : c.name ∈ names done
      · have hd : addNew done c = done := by simp [addNew, h]
        rw [hd, fresh_cons_of_mem h]
      · have hd : addNew done c = done ++ [c] := by simp [addNew, h]
        rw [hd, fresh_append_singleton hc, fresh_cons_of_not_mem h, List.append_assoc,
          List.singleton_append]

theorem addChain_of_mem {done : List Class} {c : Class} (h : c.name ∈ names done) :
    addChain table done c = done := by
  simp [addChain, h]

theorem names_reverse_chain_nodup (stop : List String) (c : Class) :
    (names (c.chain table stop).reverse).Nodup := by
  rw [names, List.map_reverse]
  exact List.nodup_reverse.mpr (names_chain_nodup c)

theorem addChain_of_not_mem {done : List Class} {c : Class} (h : c.name ∉ names done) :
    addChain table done c = done ++ fresh done (c.chain table (names done)).reverse := by
  rw [← foldl_addNew (names_reverse_chain_nodup (names done) c)]
  simp [addChain, h]

/-- The chain of a held class consists of held classes. -/
theorem holds_of_mem_chain (named : table.Named) {stop : List String} {c x : Class}
    (hc : table.Holds c) (hx : x ∈ c.chain table stop) : table.Holds x :=
  holds_of_inherits named hc (inherits_of_mem_chain hx)

section Step

variable {done : List Class} {c : Class}

/-- The classes of the chain are there afterwards, the class at which the walk stops being there
already. -/
theorem mem_append_fresh_chain (named : table.Named) (h : Settled table done)
    (hc : table.Holds c) {x : Class} :
    x ∈ done ++ fresh done (c.chain table (names done)).reverse ↔
      x ∈ done ∨ x ∈ c.chain table (names done) := by
  rw [List.mem_append, mem_fresh, List.mem_reverse]
  constructor
  · rintro (hx | ⟨hx, _⟩)
    · exact Or.inl hx
    · exact Or.inr hx
  · rintro (hx | hx)
    · exact Or.inl hx
    · by_cases hn : x.name ∈ names done
      · exact Or.inl (h.mem_of_name (holds_of_mem_chain named hc hx) hn)
      · exact Or.inr ⟨hx, hn⟩

/-- Along the reversed chain an ancestor comes later only on a cycle: what comes later is what
inherits. -/
theorem reverse_chain_sorted (stop : List String) :
    (c.chain table stop).reverse.Pairwise fun a b => Descends table a b → Inherits table b a := by
  refine List.pairwise_reverse.mpr ((chain_pairwise c).imp ?_)
  intro a b hab _
  exact hab.to_reflTransGen

theorem settled_append_fresh_chain (named : table.Named) (h : Settled table done)
    (hc : table.Holds c) :
    Settled table (done ++ fresh done (c.chain table (names done)).reverse) where
  held := by
    intro x hx
    rcases (mem_append_fresh_chain named h hc).mp hx with hx | hx
    · exact h.held x hx
    · exact holds_of_mem_chain named hc hx
  nodup := by
    have hsub : (fresh done (c.chain table (names done)).reverse).Sublist
        (c.chain table (names done)).reverse := List.filter_sublist
    have hnew : (names (fresh done (c.chain table (names done)).reverse)).Nodup :=
      (hsub.map _).nodup (names_reverse_chain_nodup (names done) c)
    rw [names, List.map_append]
    refine List.nodup_append.mpr ⟨h.nodup, hnew, ?_⟩
    intro a ha b hb e
    obtain ⟨y, hy, hyn⟩ := List.mem_map.mp hb
    exact (mem_fresh.mp hy).2 (hyn ▸ e ▸ ha)
  closed := by
    intro x hx p hp
    refine (mem_append_fresh_chain named h hc).mpr ?_
    rcases (mem_append_fresh_chain named h hc).mp hx with hx | hx
    · exact Or.inl (h.closed x hx p hp)
    · by_cases hn : x.name ∈ names done
      · exact Or.inl (h.closed x (h.mem_of_name (holds_of_mem_chain named hc hx) hn) p hp)
      · exact Or.inr (chain_closed named hc x hx hn p hp)
  sorted := by
    refine List.pairwise_append.mpr
      ⟨h.sorted, (reverse_chain_sorted _).sublist List.filter_sublist, ?_⟩
    -- No class of `done` descends from one that is not in `done`.
    intro a ha b hb hab
    have hbd := h.closed_inherits ha hab.to_reflTransGen
    exact absurd (List.mem_map_of_mem hbd) (mem_fresh.mp hb).2

theorem settled_addChain (named : table.Named) (h : Settled table done) (hc : table.Holds c) :
    Settled table (addChain table done c) := by
  by_cases hn : c.name ∈ names done
  · rw [addChain_of_mem hn]
    exact h
  · rw [addChain_of_not_mem hn]
    exact settled_append_fresh_chain named h hc

theorem mem_addChain_self (named : table.Named) (h : Settled table done) (hc : table.Holds c) :
    c ∈ addChain table done c := by
  by_cases hn : c.name ∈ names done
  · rw [addChain_of_mem hn]
    exact h.mem_of_name hc hn
  · rw [addChain_of_not_mem hn]
    exact (mem_append_fresh_chain named h hc).mpr (Or.inr (mem_chain_self c))

theorem mem_addChain_iff (named : table.Named) (h : Settled table done) (hc : table.Holds c)
    {d : Class} : d ∈ addChain table done c ↔ d ∈ done ∨ Inherits table c d := by
  constructor
  · by_cases hn : c.name ∈ names done
    · rw [addChain_of_mem hn]
      exact Or.inl
    · rw [addChain_of_not_mem hn, mem_append_fresh_chain named h hc]
      exact Or.imp_right inherits_of_mem_chain
  · rintro (hd | hd)
    · by_cases hn : c.name ∈ names done
      · rw [addChain_of_mem hn]
        exact hd
      · rw [addChain_of_not_mem hn]
        exact List.mem_append_left _ hd
    · exact (settled_addChain named h hc).closed_inherits (mem_addChain_self named h hc) hd

end Step

/-! ## The whole order -/

theorem settled_foldl (named : table.Named) {classes : List Class} :
    ∀ {done : List Class}, Settled table done → (∀ c ∈ classes, table.Holds c) →
      Settled table (classes.foldl (addChain table) done) := by
  induction classes with
  | nil => exact fun h _ => h
  | cons c rest ih =>
      intro done h hl
      exact ih (settled_addChain named h (hl c List.mem_cons_self))
        (fun x hx => hl x (List.mem_cons_of_mem _ hx))

theorem mem_foldl_iff (named : table.Named) {classes : List Class} {d : Class} :
    ∀ {done : List Class}, Settled table done → (∀ c ∈ classes, table.Holds c) →
      (d ∈ classes.foldl (addChain table) done ↔
        d ∈ done ∨ ∃ c ∈ classes, Inherits table c d) := by
  induction classes with
  | nil => intro done _ _; simp
  | cons c rest ih =>
      intro done h hl
      have hc : table.Holds c := hl c List.mem_cons_self
      rw [List.foldl_cons, ih (settled_addChain named h hc)
        (fun x hx => hl x (List.mem_cons_of_mem _ hx)), mem_addChain_iff named h hc, or_assoc]
      simp only [List.exists_mem_cons_iff]

theorem settled_inOrder (named : table.Named) {classes : List Class}
    (listed : ∀ c ∈ classes, table.Holds c) : Settled table (inOrder table classes) :=
  settled_foldl named settled_nil listed

theorem mem_inOrder_iff (named : table.Named) {classes : List Class}
    (listed : ∀ c ∈ classes, table.Holds c) {d : Class} :
    d ∈ inOrder table classes ↔ ∃ c ∈ classes, Inherits table c d := by
  rw [inOrder, mem_foldl_iff named settled_nil listed]
  simp

/-- Of two members of a list one stands before the other. -/
theorem sublist_or_sublist {α : Type} {a b : α} {l : List α} (ha : a ∈ l) (hb : b ∈ l)
    (hne : a ≠ b) : List.Sublist [a, b] l ∨ List.Sublist [b, a] l := by
  induction l with
  | nil => exact absurd ha List.not_mem_nil
  | cons x rest ih =>
      rcases List.mem_cons.mp ha with rfl | har
      · have hbr := (List.mem_cons.mp hb).resolve_left (Ne.symm hne)
        exact Or.inl (.cons_cons _ (List.singleton_sublist.mpr hbr))
      · rcases List.mem_cons.mp hb with rfl | hbr
        · exact Or.inr (.cons_cons _ (List.singleton_sublist.mpr har))
        · exact (ih har hbr).imp (.cons _) (.cons _)

/-- An ancestor that does not lead back stands before its descendant. -/
theorem Settled.ancestor_first {done : List Class} (h : Settled table done) {c d : Class}
    (hc : c ∈ done) (hd : Descends table c d) (back : ¬ Inherits table d c) :
    List.Sublist [d, c] done := by
  have hmem : d ∈ done := h.closed_inherits hc hd.to_reflTransGen
  have hne : d ≠ c := fun e => back (e ▸ .refl)
  rcases sublist_or_sublist hmem hc hne with hs | hs
  · exact hs
  · have := List.pairwise_iff_forall_sublist.mp h.sorted hs hd
    exact absurd this back

/-- Let a table find under a name only what has this name, and let classes of the table be listed in
any order, with or without repetitions and cycles.  Then the order has no name twice; it consists of
the classes that are listed or that a listed one inherits from; and each ancestor of a class stands
strictly before it unless it leads back to the class.  In a hierarchy without cycles none leads
back. -/
theorem inOrder_superclasses_first (named : table.Named) {classes : List Class}
    (listed : ∀ c ∈ classes, table.Holds c) :
    (names (inOrder table classes)).Nodup ∧
    (∀ d, d ∈ inOrder table classes ↔ ∃ c ∈ classes, Inherits table c d) ∧
    (∀ c ∈ inOrder table classes, ∀ d, Descends table c d → ¬ Inherits table d c →
      List.Sublist [d, c] (inOrder table classes)) ∧
    ((∀ c, ¬ Descends table c c) → ∀ c ∈ inOrder table classes, ∀ d, Descends table c d →
      List.Sublist [d, c] (inOrder table classes)) := by
  have hs := settled_inOrder named listed
  refine ⟨hs.nodup, fun d => mem_inOrder_iff named listed,
    fun c hc d hd back => hs.ancestor_first hc hd back, ?_⟩
  intro acyclic c hc d hd
  exact hs.ancestor_first hc hd fun hb => acyclic c (hd.trans_left hb)

/-- A class of which only the name and the superclass matter. -/
def bare (name : String) (superclass : Option String) : Class where
  name := name
  typeParameters := []
  superclass := superclass.map (.named · [])
  members := []
  description := ""
  annotations := []
  simpleName := name

/-- A class below a cycle, listed twice with a class of the cycle between. -/
theorem inOrder_below_cycle :
    let a := bare "a" (some "b")
    let b := bare "b" (some "c")
    let c := bare "c" (some "b")
    let table := DeclarationTable.ofList [.ofClass a, .ofClass b, .ofClass c]
    table.Named ∧ (∀ x ∈ [a, b, a], table.Holds x) ∧
      names (inOrder table [a, b, a]) = ["c", "b", "a"] ∧
      List.Sublist [b, a] (inOrder table [a, b, a]) := by
  intro a b c table
  have named : table.Named := (DeclarationTable.keyed_ofList _).named
  have hab : Extends table a b := ⟨.named "b" [], rfl, rfl⟩
  have hbc : Extends table b c := ⟨.named "c" [], rfl, rfl⟩
  have hcb : Extends table c b := ⟨.named "b" [], rfl, rfl⟩
  have listed : ∀ x ∈ [a, b, a], table.Holds x := by
    intro x hx
    simp only [List.mem_cons, List.not_mem_nil, or_false] at hx
    rcases hx with rfl | rfl | rfl <;> rfl
  have back : ¬ Inherits table b a := by
    intro h
    have cycle : ∀ d, Inherits table b d → d = b ∨ d = c := by
      intro d hd
      induction hd with
      | refl => exact Or.inl rfl
      | tail _ he ih =>
          rcases ih with rfl | rfl
          · exact Or.inr (extends_unique he hbc)
          · exact Or.inl (extends_unique he hcb)
    rcases cycle a h with e | e
    · exact absurd (congrArg (·.name) e) (by decide)
    · exact absurd (congrArg (·.name) e) (by decide)
  obtain ⟨_, members, first, _⟩ := inOrder_superclasses_first named listed
  have ha : a ∈ inOrder table [a, b, a] := (members a).mpr ⟨a, List.mem_cons_self, .refl⟩
  exact ⟨named, listed, by decide +kernel, first a ha b (.single hab) back⟩

end ApiStubs.Class
