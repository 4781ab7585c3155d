import ApiStubs.Declaration.Reach
import ApiStubs.Proofs.Table

/-!
# What types lead to

`Reaches table t d` says that the type `t` leads to the declaration `d`: by naming it, through an
argument, or through what a declaration that it names mentions.  `mem_fromTypes_iff` states that the
walk finds exactly the declarations to which the types it starts from lead.

One half is an induction along the walk.  For the other half the walk is turned into a property of
what it leaves behind: the types it was given are `Covered` by what has been found, and so are those
that the declarations found on the way mention.
-/

namespace ApiStubs

/-- `Reaches table t d`: the type `t` leads to the declaration `d`. -/
inductive Reaches (table : DeclarationTable) : TypeExpr → Declaration → Prop
  | names {t : TypeExpr} {d : Declaration} : t.declaration? table = some d → Reaches table t d
  | argument {t a : TypeExpr} {d : Declaration} : a ∈ t.args → Reaches table a d →
      Reaches table t d
  | reference {t r : TypeExpr} {d e : Declaration} : t.declaration? table = some d →
      r ∈ d.references → Reaches table r e → Reaches table t e

/-- `table.Knows d`: the name of the declaration `d` finds `d` itself. -/
def DeclarationTable.Knows (table : DeclarationTable) (d : Declaration) : Prop :=
  table.find? d.name = some d

namespace DeclarationTable

variable {table : DeclarationTable}

theorem find?_of_declaration? {t : TypeExpr} {d : Declaration}
    (h : t.declaration? table = some d) : ∃ n, table.find? n = some d := by
  cases t with
  | wildcard => exact absurd h (by simp [TypeExpr.declaration?])
  | var _ => exact absurd h (by simp [TypeExpr.declaration?])
  | named n _ => exact ⟨n, h⟩

theorem Named.knows (named : table.Named) {n : String} {d : Declaration}
    (h : table.find? n = some d) : table.Knows d := by
  unfold Knows
  rw [named n d h]
  exact h

theorem Knows.unique {d e : Declaration} (hd : table.Knows d) (he : table.Knows e)
    (h : d.name = e.name) : d = e := by
  unfold Knows at hd he
  rw [h] at hd
  exact Option.some.inj (hd.symm.trans he)

theorem Named.knows_of_reaches (named : table.Named) {t : TypeExpr} {d : Declaration}
    (h : Reaches table t d) : table.Knows d := by
  induction h with
  | names h =>
      obtain ⟨n, hn⟩ := find?_of_declaration? h
      exact named.knows hn
  | argument _ _ ih => exact ih
  | reference _ _ _ ih => exact ih

theorem Keyed.find?_of_mem (h : table.Keyed) {n : String} {d : Declaration}
    (hm : (n, d) ∈ table.entries) : table.find? n = some d := by
  obtain ⟨_, nodup⟩ := h
  unfold find?
  generalize table.entries = entries at nodup hm
  induction entries with
  | nil => exact absurd hm List.not_mem_nil
  | cons entry rest ih =>
      have hn : entry.1 ∉ rest.map (·.1) := (List.nodup_cons.mp nodup).1
      rcases List.mem_cons.mp hm with rfl | hm
      · exact List.lookup_cons_self
      · have hmem : n ∈ rest.map (·.1) := List.mem_map.mpr ⟨(n, d), hm, rfl⟩
        have hne : (n == entry.1) = false := beq_false_of_ne fun e => hn (e ▸ hmem)
        rw [List.lookup_cons, hne]
        exact ih (List.nodup_cons.mp nodup).2 hm

theorem Keyed.mem_declarations_iff (h : table.Keyed) {d : Declaration} :
    d ∈ table.declarations ↔ table.Knows d := by
  constructor
  · intro hd
    obtain ⟨entry, he, hed⟩ := List.mem_map.mp hd
    have hk := h.key entry he
    have hm : (d.name, d) ∈ table.entries := by
      rw [← hed, ← hk]
      exact he
    exact h.find?_of_mem hm
  · intro hd
    exact List.mem_map.mpr ⟨(d.name, d), mem_of_find? hd, rfl⟩

end DeclarationTable

namespace Reach

variable {table : DeclarationTable}

/-! ## Along the walk -/

theorem new?_eq_some_iff {found : List Declaration} {t : TypeExpr} {d : Declaration} :
    new? table found t = some d ↔ t.declaration? table = some d ∧ d.name ∉ names found := by
  unfold new?
  cases ht : t.declaration? table with
  | none => simp
  | some e =>
      by_cases he : e.name ∈ names found
      · simp only [he, if_true, Option.some.injEq]
        constructor
        · exact fun h => absurd h (by simp)
        · rintro ⟨rfl, h⟩
          exact absurd he h
      · simp only [he, if_false, Option.some.injEq]
        constructor
        · rintro rfl
          exact ⟨rfl, he⟩
        · exact fun h => h.1

theorem name_mem_of_new?_eq_none {found : List Declaration} {t : TypeExpr} {d : Declaration}
    (h : new? table found t = none) (hd : t.declaration? table = some d) :
    d.name ∈ names found := by
  by_cases hn : d.name ∈ names found
  · exact hn
  · have hs := h.symm.trans (new?_eq_some_iff.mpr ⟨hd, hn⟩)
    exact absurd hs (by simp)

theorem walk_of_new {found : List Declaration} {t : TypeExpr} {d : Declaration}
    {pending : List TypeExpr} (h : new? table found t = some d) :
    walk table found (t :: pending) =
      walk table (d :: found) (t.args ++ d.references ++ pending) := by
  rw [walk]
  split
  · rename_i e he
    rw [Option.some.inj (h.symm.trans he)]
  · rename_i he
    exact absurd (h.symm.trans he) (by simp)

theorem walk_of_not_new {found : List Declaration} {t : TypeExpr} {pending : List TypeExpr}
    (h : new? table found t = none) :
    walk table found (t :: pending) = walk table found (t.args ++ pending) := by
  rw [walk]
  split
  · rename_i e he
    exact absurd (h.symm.trans he) (by simp)
  · rfl

theorem mem_walk_of_mem {found : List Declaration} {pending : List TypeExpr} {x : Declaration}
    (h : x ∈ found) : x ∈ walk table found pending := by
  fun_induction walk table found pending with
  | case1 => exact h
  | case2 found t pending d _ ih => exact ih (List.mem_cons_of_mem _ h)
  | case3 found t pending _ ih => exact ih h

theorem reaches_of_mem_walk {found : List Declaration} {pending : List TypeExpr}
    {x : Declaration} (h : x ∈ walk table found pending) :
    x ∈ found ∨ ∃ t ∈ pending, Reaches table t x := by
  fun_induction walk table found pending with
  | case1 => exact Or.inl h
  | case2 found t pending d hnew ih =>
      have hd := (new?_eq_some_iff.mp hnew).1
      rcases ih h with hx | ⟨s, hs, hx⟩
      · rcases List.mem_cons.mp hx with rfl | hx
        · exact Or.inr ⟨t, List.mem_cons_self, .names hd⟩
        · exact Or.inl hx
      · rcases List.mem_append.mp hs with hs | hs
        · rcases List.mem_append.mp hs with hs | hs
          · exact Or.inr ⟨t, List.mem_cons_self, .argument hs hx⟩
          · exact Or.inr ⟨t, List.mem_cons_self, .reference hd hs hx⟩
        · exact Or.inr ⟨s, List.mem_cons_of_mem _ hs, hx⟩
  | case3 found t pending _ ih =>
      rcases ih h with hx | ⟨s, hs, hx⟩
      · exact Or.inl hx
      · rcases List.mem_append.mp hs with hs | hs
        · exact Or.inr ⟨t, List.mem_cons_self, .argument hs hx⟩
        · exact Or.inr ⟨s, List.mem_cons_of_mem _ hs, hx⟩

/-! ## What the walk leaves behind -/

/-- `Covered table found t`: what `t` and the types inside it name has been found. -/
inductive Covered (table : DeclarationTable) (found : List Declaration) : TypeExpr → Prop
  | intro {t : TypeExpr} : (∀ d, t.declaration? table = some d → d ∈ found) →
      (∀ a ∈ t.args, Covered table found a) → Covered table found t

theorem walk_covers (named : table.Named) {found : List Declaration} {pending : List TypeExpr}
    (known : ∀ d ∈ found, table.Knows d) :
    (∀ t ∈ pending, Covered table (walk table found pending) t) ∧
    ∀ d ∈ walk table found pending, d ∈ found ∨
      ∀ r ∈ d.references, Covered table (walk table found pending) r := by
  fun_induction walk table found pending with
  | case1 found =>
      exact ⟨fun t ht => absurd ht List.not_mem_nil, fun d hd => Or.inl hd⟩
  | case2 found t pending d hnew ih =>
      have hd := (new?_eq_some_iff.mp hnew).1
      have known' : ∀ x ∈ d :: found, table.Knows x := by
        intro x hx
        rcases List.mem_cons.mp hx with rfl | hx
        · exact named.knows_of_reaches (.names hd)
        · exact known x hx
      obtain ⟨cover, rest⟩ := ih known'
      have hargs : ∀ a ∈ t.args, Covered table _ a := fun a ha =>
        cover a (List.mem_append_left _ (List.mem_append_left _ ha))
      have hrefs : ∀ r ∈ d.references, Covered table _ r := fun r hr =>
        cover r (List.mem_append_left _ (List.mem_append_right _ hr))
      constructor
      · intro s hs
        rcases List.mem_cons.mp hs with rfl | hs
        · refine .intro (fun e he => ?_) hargs
          rw [← Option.some.inj (hd.symm.trans he)]
          exact mem_walk_of_mem List.mem_cons_self
        · exact cover s (List.mem_append_right _ hs)
      · intro x hx
        rcases rest x hx with hx | hx
        · rcases List.mem_cons.mp hx with rfl | hx
          · exact Or.inr hrefs
          · exact Or.inl hx
        · exact Or.inr hx
  | case3 found t pending hnone ih =>
      obtain ⟨cover, rest⟩ := ih known
      refine ⟨?_, rest⟩
      intro s hs
      rcases List.mem_cons.mp hs with rfl | hs
      · refine .intro (fun e he => ?_) (fun a ha => cover a (List.mem_append_left _ ha))
        -- A declaration of this name was found before, and the table has only one.
        obtain ⟨x, hx, hn⟩ := List.mem_map.mp (name_mem_of_new?_eq_none hnone he)
        have hxe := (known x hx).unique (named.knows_of_reaches (.names he)) hn
        exact mem_walk_of_mem (hxe ▸ hx)
      · exact cover s (List.mem_append_right _ hs)

/-- What has been found holds all to which a covered type leads, if what it mentions is covered as
well. -/
theorem mem_of_covered {found : List Declaration}
    (closed : ∀ d ∈ found, ∀ r ∈ d.references, Covered table found r) {t : TypeExpr}
    {d : Declaration} (h : Reaches table t d) (ht : Covered table found t) : d ∈ found := by
  induction h with
  | names hd =>
      cases ht with
      | intro hn _ => exact hn _ hd
  | argument ha _ ih =>
      cases ht with
      | intro _ hargs => exact ih (hargs _ ha)
  | reference hd hr _ ih =>
      cases ht with
      | intro hn _ => exact ih (closed _ (hn _ hd) _ hr)

/-- The walk finds exactly the declarations to which the types lead. -/
theorem mem_fromTypes_iff (named : table.Named) {types : List TypeExpr} {d : Declaration} :
    d ∈ fromTypes table types ↔ ∃ t ∈ types, Reaches table t d := by
  unfold fromTypes
  rw [List.mem_reverse]
  constructor
  · intro h
    exact (reaches_of_mem_walk h).resolve_left List.not_mem_nil
  · rintro ⟨t, ht, h⟩
    have known : ∀ x ∈ ([] : List Declaration), table.Knows x :=
      fun x hx => absurd hx List.not_mem_nil
    obtain ⟨cover, rest⟩ := walk_covers named known
    refine mem_of_covered (fun x hx => ?_) h (cover t ht)
    exact (rest x hx).resolve_left List.not_mem_nil

/-- What a type reaches includes what is reached from what it reaches. -/
theorem reaches_references {t r : TypeExpr} {d e : Declaration} (h : Reaches table t d)
    (hr : r ∈ d.references) (he : Reaches table r e) : Reaches table t e := by
  induction h with
  | names hd => exact .reference hd hr he
  | argument ha _ ih => exact .argument ha (ih hr)
  | reference hd hs _ ih => exact .reference hd hs (ih hr)

/-- With the others behind them, the declarations found are all that the table knows. -/
theorem mem_andOthers_iff (keyed : table.Keyed) {types : List TypeExpr} {d : Declaration} :
    d ∈ andOthers table (fromTypes table types) ↔ table.Knows d := by
  have known : ∀ x ∈ fromTypes table types, table.Knows x := by
    intro x hx
    obtain ⟨t, _, h⟩ := (mem_fromTypes_iff keyed.named).mp hx
    exact keyed.named.knows_of_reaches h
  unfold andOthers
  rw [List.mem_append, List.mem_filter, keyed.mem_declarations_iff]
  constructor
  · rintro (h | ⟨h, _⟩)
    · exact known d h
    · exact h
  · intro h
    by_cases hn : d.name ∈ names (fromTypes table types)
    · obtain ⟨x, hx, hxn⟩ := List.mem_map.mp hn
      exact Or.inl ((known x hx).unique h hxn ▸ hx)
    · exact Or.inr ⟨h, by simpa using hn⟩

end Reach

end ApiStubs
