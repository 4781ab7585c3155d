import ApiStubs.Proofs.FullWalks

/-!
# How far the given order is kept

Two classes that have nothing to do with each other need not keep the order in which they are
listed: a class comes early where another one, listed before it, inherits from it.
`inOrder_stable` states that nothing else disturbs the order.  Behind a listed class stand all
classes that are listed later and that no class listed up to there inherits from.  If nothing has
brought the listed class before its turn, no other class stands behind it.

The order grows at its end (`isPrefix_inOrder_take`), and a class that is new is the last one of what
its turn brings (`addChain_eq_concat`); both hold whether or not the hierarchy has cycles.
-/

namespace ApiStubs.Class

open Relation

variable {table : DeclarationTable}

/-! ## Growing at the end -/

theorem isPrefix_addChain (done : List Class) (c : Class) : done <+: addChain table done c := by
  by_cases h : c.name ∈ names done
  · exact ⟨[], by rw [List.append_nil, addChain_of_mem h]⟩
  · exact ⟨_, (addChain_of_not_mem h).symm⟩

theorem isPrefix_foldl_addChain (classes : List Class) :
    ∀ done : List Class, done <+: classes.foldl (addChain table) done := by
  induction classes with
  | nil => exact fun done => List.prefix_refl done
  | cons c rest ih => exact fun done => (isPrefix_addChain done c).trans (ih _)

/-- The order of the first classes is where the order of all of them starts. -/
theorem isPrefix_inOrder_take (classes : List Class) (n : Nat) :
    inOrder table (classes.take n) <+: inOrder table classes := by
  have hsplit : inOrder table classes =
      (classes.drop n).foldl (addChain table) (inOrder table (classes.take n)) := by
    unfold inOrder
    rw [← List.foldl_append, List.take_append_drop]
  rw [hsplit]
  exact isPrefix_foldl_addChain _ _

/-- A new class comes last, behind those of its chain that are new as well. -/
theorem addChain_eq_concat (table : DeclarationTable) {done : List Class} {c : Class}
    (new : c.name ∉ names done) :
    ∃ before, addChain table done c = before ++ [c] := by
  have hlast : fresh done [c] = [c] := fresh_cons_of_not_mem new
  refine ⟨done ++ fresh done (c.ancestors table (names done) [c.name]).reverse, ?_⟩
  rw [addChain_of_not_mem new, chain, List.reverse_cons, fresh_append, hlast, List.append_assoc]

/-! ## Before and behind -/

section Prefix

variable {α : Type} {front l : List α} {a b : α}

theorem sublist_of_isPrefix (h : front <+: l) (ha : a ∈ front) (hb : b ∈ l) (hnot : b ∉ front) :
    List.Sublist [a, b] l := by
  obtain ⟨back, rfl⟩ := h
  have hback : b ∈ back := (List.mem_append.mp hb).resolve_left hnot
  exact (List.singleton_sublist.mpr ha).append (List.singleton_sublist.mpr hback)

/-- What stands before an element of a prefix belongs to the prefix itself. -/
theorem mem_of_sublist_of_isPrefix (nodup : l.Nodup) (h : front <+: l)
    (hab : List.Sublist [a, b] l) (hb : b ∈ front) : a ∈ front := by
  obtain ⟨back, rfl⟩ := h
  obtain ⟨_, _, hdisjoint⟩ := List.nodup_append.mp nodup
  have hpairs : (front ++ back).Pairwise fun x y => y ∈ front → x ∈ front := by
    refine List.pairwise_append.mpr ⟨?_, ?_, fun x hx _ _ _ => hx⟩
    · exact List.pairwise_of_forall_mem_list fun x hx _ _ _ => hx
    · exact List.pairwise_of_forall_mem_list fun _ _ y hy hfront =>
        absurd rfl (hdisjoint y hfront y hy)
  exact List.pairwise_iff_forall_sublist.mp hpairs hab hb

end Prefix

section Position

variable {classes : List Class} {i : Nat} {x y : Class}

theorem mem_take_of_getElem? (hx : classes[i]? = some x) : x ∈ classes.take (i + 1) := by
  rw [List.take_add_one, hx]
  exact List.mem_append_right _ (List.mem_singleton_self x)

theorem mem_inOrder_take_iff (named : table.Named) (listed : ∀ c ∈ classes, table.Holds c)
    (n : Nat) : y ∈ inOrder table (classes.take n) ↔ ∃ c ∈ classes.take n, Inherits table c y :=
  mem_inOrder_iff named fun c hc => listed c (List.mem_of_mem_take hc)

/-- Behind a listed class stands whatever no class listed up to there inherits from. -/
theorem sublist_of_not_inherits (named : table.Named) (listed : ∀ c ∈ classes, table.Holds c)
    (hx : classes[i]? = some x) (hy : y ∈ inOrder table classes)
    (free : ∀ c ∈ classes.take (i + 1), ¬ Inherits table c y) :
    List.Sublist [x, y] (inOrder table classes) := by
  refine sublist_of_isPrefix (isPrefix_inOrder_take classes (i + 1)) ?_ hy ?_
  · exact (mem_inOrder_take_iff named listed _).mpr ⟨x, mem_take_of_getElem? hx, .refl⟩
  · intro hmem
    obtain ⟨c, hc, hcy⟩ := (mem_inOrder_take_iff named listed _).mp hmem
    exact free c hc hcy

/-- Behind a class that is new at its position stands nothing else. -/
theorem not_inherits_of_sublist (named : table.Named) (listed : ∀ c ∈ classes, table.Holds c)
    (hx : classes[i]? = some x) (new : ∀ c ∈ classes.take i, ¬ Inherits table c x) (hne : y ≠ x)
    (h : List.Sublist [x, y] (inOrder table classes)) :
    ∀ c ∈ classes.take (i + 1), ¬ Inherits table c y := by
  intro c hc hcy
  have hnew : x.name ∉ names (inOrder table (classes.take i)) := by
    intro hn
    have hs : Settled table (inOrder table (classes.take i)) :=
      settled_inOrder named fun d hd => listed d (List.mem_of_mem_take hd)
    have hmem := hs.mem_of_name (listed x (List.mem_of_getElem? hx)) hn
    obtain ⟨d, hd, hdx⟩ := (mem_inOrder_take_iff named listed i).mp hmem
    exact new d hd hdx
  obtain ⟨before, hbefore⟩ := addChain_eq_concat table hnew
  have hturn : inOrder table (classes.take (i + 1)) = before ++ [x] := by
    rw [← hbefore, List.take_add_one, hx]
    unfold inOrder
    rw [List.foldl_append]
    rfl
  have hnodup : (inOrder table classes).Nodup := (settled_inOrder named listed).nodup.of_map _
  have hfront : before ++ [x] <+: inOrder table classes := hturn ▸ isPrefix_inOrder_take classes _
  -- What brought `y` put it before `x`, which stands there only once.
  have hy : y ∈ before ++ [x] := hturn ▸ (mem_inOrder_take_iff named listed _).mpr ⟨c, hc, hcy⟩
  have hybefore : y ∈ before :=
    (List.mem_append.mp hy).resolve_right fun hm => hne (List.mem_singleton.mp hm)
  have hxbefore : x ∈ before :=
    mem_of_sublist_of_isPrefix hnodup ((List.prefix_append _ _).trans hfront) h hybefore
  obtain ⟨_, _, hdisjoint⟩ := List.nodup_append.mp (hfront.sublist.nodup hnodup)
  exact hdisjoint x hxbefore x (List.mem_singleton_self x) rfl

/-- Let a table find under a name only what has this name, and let classes of the table be listed in
any order, with or without repetitions and cycles.  Then a class listed at some position stands
before each class that is listed only later, unless this is an ancestor of a class listed at the
position or before.  If the class is new at its position, being neither listed nor inherited from
before, then the other classes behind it are exactly those that no class listed up to the position
is or inherits from. -/
theorem inOrder_stable (named : table.Named) (listed : ∀ c ∈ classes, table.Holds c)
    (hx : classes[i]? = some x) :
    (∀ y ∈ classes, y ∉ classes.take (i + 1) →
      (∀ c ∈ classes.take (i + 1), ¬ Descends table c y) →
      List.Sublist [x, y] (inOrder table classes)) ∧
    ((∀ c ∈ classes.take i, ¬ Inherits table c x) → ∀ y ∈ inOrder table classes, y ≠ x →
      (List.Sublist [x, y] (inOrder table classes) ↔
        ∀ c ∈ classes.take (i + 1), ¬ Inherits table c y)) := by
  constructor
  · intro y hy later free
    refine sublist_of_not_inherits named listed hx ?_ ?_
    · exact (mem_inOrder_iff named listed).mpr ⟨y, hy, .refl⟩
    · intro c hc hcy
      rcases reflTransGen_iff_eq_or_transGen.mp hcy with rfl | hcy
      · exact later hc
      · exact free c hc hcy
  · intro new y hy hne
    exact ⟨not_inherits_of_sublist named listed hx new hne,
      sublist_of_not_inherits named listed hx hy⟩

/-- A class does not inherit from what its chain does not come to. -/
theorem not_inherits_of_chain (named : table.Named) (hx : table.Holds x)
    (h : y.name ∉ names (x.chain table [])) : ¬ Inherits table x y :=
  fun hxy => h (List.mem_map_of_mem (mem_chain_of_inherits named hx hxy))

/-- A class of a cycle, listed again behind a class that extends `top`, and `own`, which nothing
extends.  Behind the cycle, and behind its repetition, `own` keeps its place; `top` does not stand
behind `low`, though it is listed last. -/
theorem inOrder_stable_repeated :
    let a := bare "a" (some "b")
    let b := bare "b" (some "a")
    let low := bare "low" (some "top")
    let top := bare "top" none
    let own := bare "own" none
    let table := DeclarationTable.ofList
      [.ofClass a, .ofClass b, .ofClass low, .ofClass top, .ofClass own]
    let classes := [a, low, a, own, top]
    table.Named ∧ (∀ c ∈ classes, table.Holds c) ∧ classes[2]? = some a ∧
      own ∈ classes ∧ own ∉ classes.take 3 ∧ (∀ c ∈ classes.take 3, ¬ Descends table c own) ∧
      names (inOrder table classes) = ["b", "a", "top", "low", "own"] ∧
      List.Sublist [a, own] (inOrder table classes) ∧
      classes[1]? = some low ∧ (∀ c ∈ classes.take 1, ¬ Inherits table c low) ∧
      ¬ List.Sublist [low, top] (inOrder table classes) := by
  intro a b low top own table classes
  have named : table.Named := (DeclarationTable.keyed_ofList _).named
  have listed : ∀ c ∈ classes, table.Holds c := by
    intro c hc
    simp only [classes, List.mem_cons, List.not_mem_nil, or_false] at hc
    rcases hc with rfl | rfl | rfl | rfl | rfl <;> rfl
  have later : own ∉ classes.take 3 := by
    have hnames : own.name ∉ names (classes.take 3) := by decide
    exact fun h => hnames (List.mem_map_of_mem h)
  have free : ∀ c ∈ classes.take 3, ¬ Descends table c own := by
    have test : ∀ c ∈ classes.take 3, own.name ∉ names (c.chain table []) := by decide +kernel
    intro c hc h
    exact not_inherits_of_chain named (listed c (List.mem_of_mem_take hc)) (test c hc)
      h.to_reflTransGen
  have own_listed : own ∈ classes := by simp [classes]
  have new : ∀ c ∈ classes.take 1, ¬ Inherits table c low := by
    have test : ∀ c ∈ classes.take 1, low.name ∉ names (c.chain table []) := by decide +kernel
    intro c hc
    exact not_inherits_of_chain named (listed c (List.mem_of_mem_take hc)) (test c hc)
  have brought : Inherits table low top := .single ⟨.named "top" [], rfl, rfl⟩
  have top_mem : top ∈ inOrder table classes :=
    (mem_inOrder_iff named listed).mpr ⟨low, by simp [classes], brought⟩
  have top_ne : top ≠ low := fun e => absurd (congrArg (·.name) e) (by decide)
  obtain ⟨kept, _⟩ := inOrder_stable named listed (i := 2) (x := a) rfl
  obtain ⟨_, behind⟩ := inOrder_stable named listed (i := 1) (x := low) rfl
  refine ⟨named, listed, rfl, own_listed, later, free, by decide +kernel,
    kept own own_listed later free, rfl, new, fun h => ?_⟩
  exact (behind new top top_mem top_ne).mp h low (by simp [classes]) brought

end Position

end ApiStubs.Class
