import ApiStubs.Proofs.Hierarchy
import Mathlib.Data.List.Chain

/-!
# The chain of a class

The chain of a class is found by a climb, a loop which keeps the chain, the names on it and the
class that it has come to.  `Climb.step` is one turn of the loop, with its tests in their order.
Nothing else is known of the table: it may find a class under another name than its own, and under
the name of the class where the climb starts it may find another class or none.

A turn takes one name off those that the table knows and the climb has not met, so that there are no
more turns than the table has entries (`Class.length_le_of_walk`), whatever circles there are.
Where the climb ends, it has the chain (`Climb.exists_runs_of_walk`).

What a chain is can be said without a loop (`Class.IsChainOf`): where it starts, that each class
extends the next one, that no name comes twice, and that there is a reason to end where it does and
not before.  This leaves one list (`Class.walk_iff`, read from right to left); so that
`Climb.finds_chain` also says that the climb neither loses an ancestor nor meets one again.
-/

namespace ApiStubs

/-- `Ends table stop visited x`: a climb that has met the names `visited` ends at `x`. -/
inductive Ends (table : DeclarationTable) (stop visited : List String) (x : Class) : Prop
  | top : x.superclass = none → Ends table stop visited x
  | stopped : x.name ∈ stop → Ends table stop visited x
  | unknown (t : TypeExpr) : x.superclass = some t →
      (∀ p, table.find? t.name ≠ some (.ofClass p)) → Ends table stop visited x
  | cycle (p : Class) : Extends table x p → p.name ∈ visited → Ends table stop visited x

theorem Ends.mono {table : DeclarationTable} {stop visited visited' : List String} {x : Class}
    (h : visited ⊆ visited') (ends : Ends table stop visited x) : Ends table stop visited' x := by
  cases ends with
  | top ht => exact .top ht
  | stopped hs => exact .stopped hs
  | unknown t ht hp => exact .unknown t ht hp
  | cycle p hp hv => exact .cycle p hp (h hv)

/-! ## The climb -/

/-- The state of a climb: the chain so far, the names on it, and its last class. -/
structure Climb where
  chain : List Class
  visited : List String
  current : Class

namespace Climb

/-- The climb that has not left its class. -/
def start (c : Class) : Climb :=
  ⟨[c], [c.name], c⟩

/-- One turn: on to the superclass of the last class.  The climb ends if that class has no
superclass or a name of `stop`, if the table knows no class by the name of the superclass, or if the
class that it knows has a name on the chain. -/
def step (table : DeclarationTable) (stop : List String) (s : Climb) : Option Climb :=
  match s.current.superclass with
  | none => none
  | some t =>
    if s.current.name ∈ stop then none
    else match table.findClass? t.name with
      | none => none
      | some p =>
        if p.name ∈ s.visited then none
        else some ⟨s.chain ++ [p], p.name :: s.visited, p⟩

/-- `Runs table stop n s s'`: in `n` turns the climb gets from `s` to `s'`. -/
inductive Runs (table : DeclarationTable) (stop : List String) : Nat → Climb → Climb → Prop
  | stay {s : Climb} : Runs table stop 0 s s
  | turn {n : Nat} {s next s' : Climb} : s.step table stop = some next →
      Runs table stop n next s' → Runs table stop (n + 1) s s'

variable {table : DeclarationTable} {stop : List String} {s : Climb}

theorem step_of_extends {p : Class} (passed : s.current.name ∉ stop)
    (extended : Extends table s.current p) (new : p.name ∉ s.visited) :
    s.step table stop = some ⟨s.chain ++ [p], p.name :: s.visited, p⟩ := by
  obtain ⟨t, ht, hp⟩ := extended
  have hfind : table.findClass? t.name = some p := Class.findClass?_eq_some_iff.mpr hp
  simp only [step, ht, if_neg passed, hfind, if_neg new]

theorem step_eq_none_iff : s.step table stop = none ↔ Ends table stop s.visited s.current := by
  constructor
  · intro h
    unfold step at h
    split at h
    · exact .top ‹_›
    · rename_i t ht
      split at h
      · exact .stopped ‹_›
      · split at h
        · rename_i hfind
          refine .unknown t ht fun p hp => ?_
          exact absurd (hfind.symm.trans (Class.findClass?_eq_some_iff.mpr hp)) (by simp)
        · rename_i p hfind
          split at h
          · exact .cycle p ⟨t, ht, Class.findClass?_eq_some_iff.mp hfind⟩ ‹_›
          · cases h
  · intro ends
    unfold step
    cases ends with
    | top ht => rw [ht]
    | stopped hs =>
        split
        · rfl
        · rw [if_pos hs]
    | unknown t ht hp =>
        have hfind : table.findClass? t.name = none :=
          Option.eq_none_iff_forall_ne_some.mpr fun p h => hp p (Class.findClass?_eq_some_iff.mp h)
        simp only [ht, hfind, ite_self]
    | cycle p hp hv =>
        obtain ⟨t, ht, hp⟩ := hp
        have hfind : table.findClass? t.name = some p := Class.findClass?_eq_some_iff.mpr hp
        simp only [ht, hfind, if_pos hv, ite_self]

end Climb

namespace Class

variable {table : DeclarationTable} {stop : List String}

/-! ## Walks, clause by clause -/

theorem walk_isChain {visited : List String} {c : Class} {rest : List Class}
    (h : Walk table stop visited c rest) : (c :: rest).IsChain (Extends table) := by
  induction h with
  | stopped _ => exact .singleton _
  | top _ _ => exact .singleton _
  | cycle _ _ _ => exact .singleton _
  | up _ hp _ _ ih => exact ih.cons_cons hp

theorem walk_passed {visited : List String} {c : Class} {rest : List Class}
    (h : Walk table stop visited c rest) : ∀ x ∈ (c :: rest).dropLast, x.name ∉ stop := by
  induction h with
  | stopped _ => exact fun _ hx => absurd hx List.not_mem_nil
  | top _ _ => exact fun _ hx => absurd hx List.not_mem_nil
  | cycle _ _ _ => exact fun _ hx => absurd hx List.not_mem_nil
  | up hs _ _ _ ih => exact List.forall_mem_cons.mpr ⟨hs, ih⟩

theorem walk_ends {visited : List String} {c : Class} {rest : List Class}
    (h : Walk table stop visited c rest) :
    ∀ x ∈ (c :: rest).getLast?, Ends table stop (Class.names rest ++ visited) x := by
  induction h with
  | stopped hs =>
      rintro x ⟨⟩
      exact .stopped hs
  | @top _ c _ ht =>
      rintro x ⟨⟩
      cases hsuper : c.superclass with
      | none => exact .top hsuper
      | some t => exact .unknown t hsuper fun p hp => ht p ⟨t, hsuper, hp⟩
  | cycle _ hp hv =>
      rintro x ⟨⟩
      exact .cycle _ hp hv
  | up _ _ _ _ ih =>
      intro x hx
      refine (ih x (by simpa using hx)).mono ?_
      simp [Class.names]

/-- The clauses leave one way to go on from a class. -/
theorem walk_iff {visited : List String} {c : Class} {rest : List Class} :
    Walk table stop visited c rest ↔
      (c :: rest).IsChain (Extends table) ∧ (Class.names rest).Nodup ∧
      (∀ x ∈ rest, x.name ∉ visited) ∧ (∀ x ∈ (c :: rest).dropLast, x.name ∉ stop) ∧
      ∀ x ∈ (c :: rest).getLast?, Ends table stop (Class.names rest ++ visited) x := by
  constructor
  · exact fun h => ⟨walk_isChain h, walk_nodup h, walk_new h, walk_passed h, walk_ends h⟩
  · rintro ⟨linked, nodup, new, passed, ends⟩
    induction rest generalizing visited c with
    | nil =>
        by_cases hs : c.name ∈ stop
        · exact .stopped hs
        · cases ends c rfl with
          | top ht =>
              refine .top hs fun p hp => ?_
              obtain ⟨t, hsuper, _⟩ := hp
              exact absurd (ht.symm.trans hsuper) (by simp)
          | stopped h => exact absurd h hs
          | unknown t ht hnone =>
              refine .top hs fun p hp => ?_
              obtain ⟨u, hsuper, hfind⟩ := hp
              cases ht.symm.trans hsuper
              exact hnone p hfind
          | cycle p hp hv => exact .cycle hs hp hv
    | cons p rest ih =>
        obtain ⟨hp, linked⟩ := List.isChain_cons_cons.mp linked
        obtain ⟨hfresh, nodup⟩ := List.nodup_cons.mp nodup
        obtain ⟨hnew, new⟩ := List.forall_mem_cons.mp new
        obtain ⟨hs, passed⟩ := List.forall_mem_cons.mp passed
        refine .up hs hp hnew (ih linked nodup ?_ passed ?_)
        · intro x hx hmem
          rcases List.mem_cons.mp hmem with e | hmem
          · exact hfresh (List.mem_map.mpr ⟨x, hx, e⟩)
          · exact new x hx hmem
        · intro x hx
          refine (ends x (by simpa using hx)).mono ?_
          simp [Class.names]

theorem walk_unique {visited : List String} {c : Class} {rest rest' : List Class}
    (h : Walk table stop visited c rest) (h' : Walk table stop visited c rest') : rest = rest' := by
  induction h generalizing rest' with
  | stopped hs =>
      cases h' with
      | stopped _ => rfl
      | top _ _ => rfl
      | cycle _ _ _ => rfl
      | up hs' _ _ _ => exact absurd hs hs'
  | top _ ht =>
      cases h' with
      | stopped _ => rfl
      | top _ _ => rfl
      | cycle _ _ _ => rfl
      | up _ hp _ _ => exact absurd hp (ht _)
  | cycle _ hp hv =>
      cases h' with
      | stopped _ => rfl
      | top _ _ => rfl
      | cycle _ _ _ => rfl
      | up _ hp' hv' _ => exact absurd (extends_unique hp hp' ▸ hv) hv'
  | up hs hp hv _ ih =>
      cases h' with
      | stopped hs' => exact absurd hs' hs
      | top _ ht => exact absurd hp (ht _)
      | cycle _ hp' hv' => exact absurd (extends_unique hp' hp ▸ hv') hv
      | up _ hp' _ hw =>
          cases extends_unique hp hp'
          rw [ih hw]

end Class

/-! ## How long a climb takes -/

theorem DeclarationTable.unvisited_le_length (table : DeclarationTable) (visited : List String) :
    table.unvisited (fun _ => 1) visited ≤ table.entries.length := by
  have hall : ∀ entries : List (String × Declaration),
      weightOf (fun _ => 1) (fun _ => true) entries = entries.length := by
    intro entries
    induction entries with
    | nil => rfl
    | cons entry rest ih =>
        rw [weightOf_cons, ih, List.length_cons, if_pos rfl, Nat.add_comm]
  rw [← hall]
  exact weightOf_mono _ (fun _ _ => rfl) _

/-- Every class that a walk goes on to takes its name off those not visited. -/
theorem Class.length_le_of_walk {table : DeclarationTable} {stop visited : List String} {c : Class}
    {rest : List Class} (h : Walk table stop visited c rest) :
    rest.length ≤ table.unvisited (fun _ => 1) visited := by
  induction h with
  | stopped _ => exact Nat.zero_le _
  | top _ _ => exact Nat.zero_le _
  | cycle _ _ _ => exact Nat.zero_le _
  | up _ hp hv _ ih =>
      obtain ⟨t, _, hfind⟩ := hp
      have hle := DeclarationTable.unvisited_add_le (fun _ => 1) hfind hv
      rw [List.length_cons]
      exact (Nat.add_le_add_right ih 1).trans hle

/-- The climb goes where the walk does, and no further. -/
theorem Climb.exists_runs_of_walk {table : DeclarationTable} {stop visited : List String}
    {c : Class} {rest : List Class} (h : Class.Walk table stop visited c rest)
    (front : List Class) : ∃ s, Runs table stop rest.length ⟨front, visited, c⟩ s ∧
      s.step table stop = none ∧ s.chain = front ++ rest := by
  have stays : ∀ {visited : List String} {c : Class} (front : List Class),
      Ends table stop visited c → ∃ s, Runs table stop 0 ⟨front, visited, c⟩ s ∧
        s.step table stop = none ∧ s.chain = front ++ [] :=
    fun front ends => ⟨_, .stay, step_eq_none_iff.mpr ends, (List.append_nil front).symm⟩
  induction h generalizing front with
  | stopped hs => exact stays front (.stopped hs)
  | top hs ht => exact stays front (Class.walk_ends (.top hs ht) _ rfl)
  | cycle _ hp hv => exact stays front (.cycle _ hp hv)
  | @up visited c p rest hs hp hv _ ih =>
      obtain ⟨s, runs, ended, hchain⟩ := ih (front ++ [p])
      refine ⟨s, .turn (step_of_extends hs hp hv) runs, ended, ?_⟩
      rw [hchain, List.append_assoc, List.singleton_append]

/-! ## Chains -/

/-- `IsChainOf table stop c l`: the classes `l` are a chain of `c`, which names of `stop` end. -/
structure Class.IsChainOf (table : DeclarationTable) (stop : List String) (c : Class)
    (l : List Class) : Prop where
  /-- the chain starts with its class -/
  first : l.head? = some c
  /-- each further class is what the name of the superclass finds of the one before it -/
  linked : l.IsChain (Extends table)
  /-- no name occurs twice -/
  once : (Class.names l).Nodup
  /-- only the last class may have a name of `stop` -/
  passed : ∀ x ∈ l.dropLast, x.name ∉ stop
  /-- the last class has no superclass or a name of `stop`, or its superclass is no known class or
  has a name on the chain -/
  maximal : ∀ x ∈ l.getLast?, Ends table stop (Class.names l) x

theorem Class.isChainOf_iff {table : DeclarationTable} {stop : List String} {c : Class}
    {l : List Class} :
    IsChainOf table stop c l ↔ ∃ rest, l = c :: rest ∧ Walk table stop [c.name] c rest := by
  have hmem : ∀ {rest : List Class}, c.name ∉ Class.names rest ↔ ∀ x ∈ rest, x.name ∉ [c.name] := by
    intro rest
    simp [Class.names, eq_comm]
  constructor
  · rintro ⟨first, linked, once, passed, maximal⟩
    obtain ⟨rest, rfl⟩ := List.head?_eq_some_iff.mp first
    obtain ⟨hfresh, once⟩ := List.nodup_cons.mp once
    refine ⟨rest, rfl, walk_iff.mpr ⟨linked, once, hmem.mp hfresh, passed, fun x hx => ?_⟩⟩
    refine (maximal x hx).mono ?_
    simp [Class.names]
  · rintro ⟨rest, rfl, h⟩
    obtain ⟨linked, once, new, passed, ends⟩ := walk_iff.mp h
    refine ⟨rfl, linked, List.nodup_cons.mpr ⟨hmem.mpr new, once⟩, passed, fun x hx => ?_⟩
    refine (ends x hx).mono ?_
    simp [Class.names]

/-- The climb from a class ends, after no more turns than the table has entries, with the chain of
the class, and no other list of classes is a chain of it. -/
theorem Climb.finds_chain (table : DeclarationTable) (stop : List String) (c : Class) :
    (∃ turns ≤ table.entries.length, ∃ s, Runs table stop turns (.start c) s ∧
      s.step table stop = none ∧ s.chain = c.chain table stop) ∧
    ∀ l, Class.IsChainOf table stop c l ↔ l = c.chain table stop := by
  have hwalk : Class.Walk table stop [c.name] c (c.ancestors table stop [c.name]) :=
    Class.walk_ancestors _ c
  constructor
  · obtain ⟨s, runs, ended, hchain⟩ := exists_runs_of_walk hwalk [c]
    exact ⟨_, (Class.length_le_of_walk hwalk).trans (table.unvisited_le_length _), s, runs, ended,
      hchain⟩
  · intro l
    rw [Class.isChainOf_iff]
    constructor
    · rintro ⟨rest, rfl, h⟩
      rw [Class.walk_unique h hwalk]
      rfl
    · rintro rfl
      exact ⟨_, rfl, hwalk⟩

end ApiStubs
