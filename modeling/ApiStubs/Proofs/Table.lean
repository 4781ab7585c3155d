import ApiStubs.Proofs.Hierarchy

/-!
# Tables of declarations

A table made of a list of declarations finds under a name exactly the declaration of this name that
it holds: `keyed_ofList` is what later statements about such tables rest on.
-/

namespace ApiStubs.DeclarationTable

/-- Every declaration stands under its own name, and under no name there are two. -/
structure Keyed (table : DeclarationTable) : Prop where
  key : ∀ entry ∈ table.entries, entry.1 = entry.2.name
  nodup : (table.entries.map (·.1)).Nodup

theorem find?_eq_none_iff {table : DeclarationTable} {n : String} :
    table.find? n = none ↔ n ∉ table.entries.map (·.1) := by
  unfold find?
  rw [List.lookup_eq_none_iff, List.mem_map]
  constructor
  · rintro h ⟨entry, he, rfl⟩
    simpa using h entry he
  · intro h entry he
    have hne : n ≠ entry.1 := fun e => h ⟨entry, he, e.symm⟩
    simpa using hne

theorem keyed_empty : Keyed empty where
  key := fun _ h => absurd h List.not_mem_nil
  nodup := List.nodup_nil

theorem keyed_add {table : DeclarationTable} (h : table.Keyed) (d : Declaration) :
    (table.add d).Keyed := by
  unfold add
  split
  · exact h
  · rename_i hn
    have hnew : d.name ∉ table.entries.map (·.1) := by
      rw [← find?_eq_none_iff]
      simpa using hn
    constructor
    · intro entry he
      rcases List.mem_append.mp he with he | he
      · exact h.key entry he
      · rw [List.mem_singleton.mp he]
    · rw [List.map_append]
      refine List.nodup_append.mpr ⟨h.nodup, List.pairwise_singleton _ _, ?_⟩
      intro a ha b hb e
      have hb : b = d.name := List.mem_singleton.mp hb
      exact hnew (hb ▸ e ▸ ha)

theorem keyed_ofList (declarations : List Declaration) : (ofList declarations).Keyed := by
  suffices h : ∀ table : DeclarationTable, table.Keyed → (declarations.foldl add table).Keyed from
    h empty keyed_empty
  induction declarations with
  | nil => exact fun _ h => h
  | cons d rest ih => exact fun table h => ih _ (keyed_add h d)

theorem Keyed.named {table : DeclarationTable} (h : table.Keyed) : table.Named :=
  fun n d hd => (h.key (n, d) (mem_of_find? hd)).symm

end ApiStubs.DeclarationTable
