import ApiStubs.Proofs.SuperclassOrder

/-!
# Walks that stop early

`Class.inOrder` ends every walk at the first class that is in order already.  `Class.inOrderInFull`
is the same without this: it walks every chain to its end and only then skips what is there.  On
almost every input the two visit different classes, and they give the same order
(`inOrder_eq_inFull`).  A walk that stops early is the first part of the full one, and what the full
one has besides is inherited from a class at which the other stopped (`fullWalk_split`).  All this
is there, since the classes in order are closed under superclasses (`Settled`).

An order in which no class is its own ancestor is left alone by ordering it again.
-/

namespace ApiStubs.Class

open Relation

variable {table : DeclarationTable}

/-- Classes and the superclasses they need, found by walking every chain in full: of the classes on
the chains, each from its outermost class inward, the first one of every name. -/
def inOrderInFull (table : DeclarationTable) (classes : List Class) : List Class :=
  (classes.flatMap fun c => (c.chain table []).reverse).foldl addNew []

/-! ## The full walk goes on where another one stops -/

/-- A full walk goes on exactly where the other one stops at a name of `stop`. -/
theorem fullWalk_split {stop visited : List String} {c : Class} {rest full : List Class}
    (h : Walk table stop visited c rest) (hfull : Walk table [] visited c full) :
    ∃ more, full = rest ++ more ∧
      ∀ x ∈ more, ∃ y ∈ c :: rest, y.name ∈ stop ∧ Inherits table y x := by
  induction h generalizing full with
  | @stopped visited c hs =>
      refine ⟨full, rfl, fun x hx => ⟨c, List.mem_singleton_self c, hs, ?_⟩⟩
      exact (walk_inherits hfull x hx).to_reflTransGen
  | top _ ht =>
      cases hfull with
      | stopped hn => exact absurd hn List.not_mem_nil
      | top _ _ => exact ⟨[], rfl, fun x hx => absurd hx List.not_mem_nil⟩
      | cycle _ hp _ => exact absurd hp (ht _)
      | up _ hp _ _ => exact absurd hp (ht _)
  | cycle _ hp hv =>
      cases hfull with
      | stopped hn => exact absurd hn List.not_mem_nil
      | top _ ht => exact absurd hp (ht _)
      | cycle _ _ _ => exact ⟨[], rfl, fun x hx => absurd hx List.not_mem_nil⟩
      | up _ hq hn _ => exact absurd (extends_unique hp hq ▸ hv) hn
  | @up visited c p rest _ hp hv _ ih =>
      cases hfull with
      | stopped hn => exact absurd hn List.not_mem_nil
      | top _ ht => exact absurd hp (ht _)
      | cycle _ hq hn => exact absurd (extends_unique hq hp ▸ hn) hv
      | up _ hq _ hw =>
          cases extends_unique hp hq
          obtain ⟨more, rfl, hmore⟩ := ih hw
          refine ⟨more, rfl, fun x hx => ?_⟩
          obtain ⟨y, hy, hstop, hyx⟩ := hmore x hx
          exact ⟨y, List.mem_cons_of_mem _ hy, hstop, hyx⟩

theorem chain_split (table : DeclarationTable) (stop : List String) (c : Class) :
    ∃ more, c.chain table [] = c.chain table stop ++ more ∧
      ∀ x ∈ more, ∃ y ∈ c.chain table stop, y.name ∈ stop ∧ Inherits table y x := by
  have hwalk : Walk table stop [c.name] c (c.ancestors table stop [c.name]) :=
    walk_ancestors [c.name] c
  obtain ⟨more, hfull, hmore⟩ := fullWalk_split hwalk (walk_ancestors [c.name] c)
  exact ⟨more, congrArg (c :: ·) hfull, hmore⟩

/-! ## Chains in full -/

section Step

variable {done : List Class} {c : Class}

theorem fresh_eq_nil {classes : List Class} (h : ∀ x ∈ classes, x ∈ done) :
    fresh done classes = [] := by
  refine List.filter_eq_nil_iff.mpr fun x hx => ?_
  have hn : x.name ∈ names done := List.mem_map_of_mem (h x hx)
  simpa using hn

theorem fresh_append (done classes others : List Class) :
    fresh done (classes ++ others) = fresh done classes ++ fresh done others :=
  List.filter_append classes others

/-- Of a chain in full nothing is new but what the walk up to the first class of `done` finds. -/
theorem fresh_reverse_chain (named : table.Named) (h : Settled table done)
    (hc : table.Holds c) :
    fresh done (c.chain table []).reverse =
      fresh done (c.chain table (names done)).reverse := by
  obtain ⟨more, hchain, hmore⟩ := chain_split table (names done) c
  have hold : ∀ x ∈ more.reverse, x ∈ done := by
    intro x hx
    obtain ⟨y, hy, hstop, hyx⟩ := hmore x (List.mem_reverse.mp hx)
    have hyd : y ∈ done := h.mem_of_name (holds_of_mem_chain named hc hy) hstop
    exact h.closed_inherits hyd hyx
  rw [hchain, List.reverse_append, fresh_append, fresh_eq_nil hold, List.nil_append]

theorem addChain_eq_foldl (named : table.Named) (h : Settled table done) (hc : table.Holds c) :
    addChain table done c = (c.chain table []).reverse.foldl addNew done := by
  rw [foldl_addNew (names_reverse_chain_nodup [] c)]
  by_cases hn : c.name ∈ names done
  · have hcd : c ∈ done := h.mem_of_name hc hn
    have hold : ∀ x ∈ (c.chain table []).reverse, x ∈ done := fun x hx =>
      h.closed_inherits hcd (inherits_of_mem_chain (List.mem_reverse.mp hx))
    rw [addChain_of_mem hn, fresh_eq_nil hold, List.append_nil]
  · rw [addChain_of_not_mem hn, fresh_reverse_chain named h hc]

end Step

theorem foldl_addChain_eq (named : table.Named) {classes : List Class} :
    ∀ {done : List Class}, Settled table done → (∀ c ∈ classes, table.Holds c) →
      classes.foldl (addChain table) done =
        (classes.flatMap fun c => (c.chain table []).reverse).foldl addNew done := by
  induction classes with
  | nil => exact fun _ _ => rfl
  | cons c rest ih =>
      intro done h hl
      have hc : table.Holds c := hl c List.mem_cons_self
      rw [List.foldl_cons, List.flatMap_cons, List.foldl_append,
        ← addChain_eq_foldl named h hc]
      exact ih (settled_addChain named h hc) fun x hx => hl x (List.mem_cons_of_mem _ hx)

/-! ## Ordering what is in order -/

section Again

variable {before rest : List Class} {c : Class}

/-- Without cycles, what a class inherits from stands before it. -/
theorem Settled.mem_before (h : Settled table (before ++ c :: rest))
    (acyclic : ¬ Descends table c c) {d : Class} (hd : Descends table c d) : d ∈ before := by
  have hmem : d ∈ before ++ c :: rest :=
    h.closed_inherits (List.mem_append_right _ List.mem_cons_self) hd.to_reflTransGen
  rcases List.mem_append.mp hmem with hmem | hmem
  · exact hmem
  · rcases List.mem_cons.mp hmem with rfl | hmem
    · exact absurd hd acyclic
    · -- Behind the class an ancestor would have to lead back to it.
      have hsorted := (List.pairwise_cons.mp (List.pairwise_append.mp h.sorted).2.1).1
      exact absurd (hd.trans_left (hsorted d hmem hd)) acyclic

/-- The next class of an order without cycles is added, and nothing else is. -/
theorem Settled.addChain_next (h : Settled table (before ++ c :: rest))
    (acyclic : ¬ Descends table c c) : addChain table before c = before ++ [c] := by
  have hnew : c.name ∉ names before := by
    intro hn
    have hnodup := h.nodup
    rw [names, List.map_append] at hnodup
    exact (List.nodup_append.mp hnodup).2.2 _ hn _ List.mem_cons_self rfl
  have hold : ∀ x ∈ (c.ancestors table (names before) [c.name]).reverse, x ∈ before :=
    fun x hx => h.mem_before acyclic
      (walk_inherits (walk_ancestors _ c) x (List.mem_reverse.mp hx))
  rw [addChain_of_not_mem hnew, chain, List.reverse_cons, fresh_append, fresh_eq_nil hold,
    List.nil_append, fresh_cons_of_not_mem hnew]
  rfl

end Again

theorem Settled.foldl_addChain {order : List Class} (h : Settled table order)
    (acyclic : ∀ c ∈ order, ¬ Descends table c c) {rest : List Class} :
    ∀ {before : List Class}, before ++ rest = order →
      rest.foldl (addChain table) before = order := by
  induction rest with
  | nil =>
      intro before horder
      rw [List.foldl_nil, ← horder, List.append_nil]
  | cons c rest ih =>
      rintro before rfl
      have hc : ¬ Descends table c c :=
        acyclic c (List.mem_append_right _ List.mem_cons_self)
      rw [List.foldl_cons, h.addChain_next hc]
      exact ih (List.append_assoc before [c] rest)

/-- Let a table find under a name only what has this name, and let classes of the table be listed in
any order, with or without repetitions and cycles.  Then stopping walks early makes no difference to
the order; and if no class in it is its own ancestor, ordering it again leaves it as it is. -/
theorem inOrder_eq_inFull (named : table.Named) {classes : List Class}
    (listed : ∀ c ∈ classes, table.Holds c) :
    inOrder table classes = inOrderInFull table classes ∧
    ((∀ c ∈ inOrder table classes, ¬ Descends table c c) →
      inOrder table (inOrder table classes) = inOrder table classes) := by
  refine ⟨foldl_addChain_eq named settled_nil listed, fun acyclic => ?_⟩
  exact (settled_inOrder named listed).foldl_addChain acyclic (List.nil_append _)

/-- Two branches that meet: the walk from `d` stops at `b`, and in full it goes on to `c`. -/
theorem inOrder_eq_inFull_branches :
    let a := bare "a" (some "b")
    let b := bare "b" (some "c")
    let c := bare "c" none
    let d := bare "d" (some "b")
    let table := DeclarationTable.ofList [.ofClass a, .ofClass b, .ofClass c, .ofClass d]
    table.Named ∧ (∀ x ∈ [a, d, b], table.Holds x) ∧
      (∀ x ∈ inOrder table [a, d, b], ¬ Descends table x x) ∧
      names (d.chain table ["c", "b", "a"]) = ["d", "b"] ∧
      names (d.chain table []) = ["d", "b", "c"] ∧
      names (inOrderInFull table [a, d, b]) = ["c", "b", "a", "d"] ∧
      inOrder table [a, d, b] = inOrderInFull table [a, d, b] ∧
      inOrder table (inOrder table [a, d, b]) = inOrder table [a, d, b] := by
  intro a b c d table
  have named : table.Named := (DeclarationTable.keyed_ofList _).named
  have listed : ∀ x ∈ [a, d, b], table.Holds x := by
    intro x hx
    simp only [List.mem_cons, List.not_mem_nil, or_false] at hx
    rcases hx with rfl | rfl | rfl <;> rfl
  have acyclic : ∀ x ∈ inOrder table [a, d, b], ¬ Descends table x x := by
    have test : ∀ x ∈ inOrder table [a, d, b], ∀ p ∈ x.parent? table,
        x.name ∉ names (p.chain table []) := by decide +kernel
    exact fun x hx => not_descends_self named (test x hx)
  obtain ⟨full, again⟩ := inOrder_eq_inFull named listed
  exact ⟨named, listed, acyclic, by decide +kernel, by decide +kernel, by decide +kernel, full,
    again acyclic⟩

end ApiStubs.Class
