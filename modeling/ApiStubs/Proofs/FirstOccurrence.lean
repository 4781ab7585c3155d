import ApiStubs.Grouping
import Mathlib.Data.List.Nodup
import Mathlib.Data.List.Induction

/-!
# First occurrences

`l.eraseDups` keeps of equal elements the first one.  `groupBy_eq` describes grouping by it, without
the groups that are there halfway: there is a group for each key, in the order in which the keys
occur first, and it holds the items of its key in the order in which they were given.
-/

namespace ApiStubs

section Elements

variable {α : Type} [BEq α] [LawfulBEq α] {l : List α} {a : α}

theorem eraseDups_concat_of_mem (h : a ∈ l) : (l ++ [a]).eraseDups = l.eraseDups := by
  rw [List.eraseDups_append]
  simp [List.removeAll, h]

theorem eraseDups_concat_of_not_mem (h : a ∉ l) :
    (l ++ [a]).eraseDups = l.eraseDups ++ [a] := by
  rw [List.eraseDups_append]
  simp [List.removeAll, h, List.eraseDups_cons]

theorem nodup_eraseDups (l : List α) : l.eraseDups.Nodup := by
  induction l using List.reverseRecOn with
  | nil => exact List.nodup_nil
  | append_singleton l a ih =>
      by_cases h : a ∈ l
      · rw [eraseDups_concat_of_mem h]
        exact ih
      · rw [eraseDups_concat_of_not_mem h]
        refine List.nodup_append.mpr ⟨ih, List.pairwise_singleton _ _, ?_⟩
        intro b hb c hc e
        rw [e, List.mem_singleton.mp hc] at hb
        exact h (List.mem_eraseDups.mp hb)

end Elements

/-! ## Groups -/

section Groups

variable {α : Type} {keys : List String} {items : String → List α} {key : String}

theorem addToGroup_of_mem (nodup : keys.Nodup) (h : key ∈ keys) (x : α) :
    addToGroup key x (keys.map fun k => (k, items k)) =
      keys.map fun k => (k, if k = key then items k ++ [x] else items k) := by
  induction keys with
  | nil => exact absurd h List.not_mem_nil
  | cons k rest ih =>
      obtain ⟨hk, hrest⟩ := List.nodup_cons.mp nodup
      by_cases he : k = key
      · -- The other groups stay, since the key does not come again.
        have hother : ∀ j ∈ rest, j ≠ key := fun j hj e => hk (he ▸ e ▸ hj)
        simp only [List.map_cons, addToGroup, he, if_true]
        congr 1
        refine List.map_congr_left fun j hj => ?_
        rw [if_neg (hother j hj)]
      · have hmem : key ∈ rest := (List.mem_cons.mp h).resolve_left (Ne.symm he)
        simp only [List.map_cons, addToGroup, he, if_false]
        rw [ih hrest hmem]

theorem addToGroup_of_not_mem (h : key ∉ keys) (x : α) :
    addToGroup key x (keys.map fun k => (k, items k)) =
      keys.map (fun k => (k, items k)) ++ [(key, [x])] := by
  induction keys with
  | nil => rfl
  | cons k rest ih =>
      obtain ⟨hk, hrest⟩ := List.ne_and_not_mem_of_not_mem_cons h
      simp only [List.map_cons, addToGroup, hk.symm, if_false]
      rw [ih hrest, List.cons_append]

theorem groupBy_concat (key : α → String) (l : List α) (x : α) :
    groupBy key (l ++ [x]) = addToGroup (key x) x (groupBy key l) := by
  unfold groupBy
  rw [List.foldl_append, List.foldl_cons, List.foldl_nil]

theorem groupBy_eq (key : α → String) (l : List α) :
    groupBy key l = (l.map key).eraseDups.map fun k => (k, l.filter fun x => key x = k) := by
  induction l using List.reverseRecOn with
  | nil => rfl
  | append_singleton l x ih =>
      have hfilter : ∀ k, (l ++ [x]).filter (fun y => key y = k) =
          if k = key x then l.filter (fun y => key y = k) ++ [x]
          else l.filter (fun y => key y = k) := by
        intro k
        by_cases h : k = key x
        · simp [h]
        · simp [h, Ne.symm h]
      rw [groupBy_concat, ih, List.map_append, List.map_singleton]
      simp only [hfilter]
      by_cases h : key x ∈ l.map key
      · rw [eraseDups_concat_of_mem h,
          addToGroup_of_mem (nodup_eraseDups _) (List.mem_eraseDups.mpr h)]
      · have hnone : l.filter (fun y => key y = key x) = [] := by
          refine List.filter_eq_nil_iff.mpr fun y hy e => h ?_
          exact List.mem_map.mpr ⟨y, hy, of_decide_eq_true e⟩
        have hold : ∀ k ∈ (l.map key).eraseDups, k ≠ key x :=
          fun k hk e => h (e ▸ List.mem_eraseDups.mp hk)
        rw [eraseDups_concat_of_not_mem h,
          addToGroup_of_not_mem fun hm => h (List.mem_eraseDups.mp hm), List.map_append,
          List.map_singleton, if_pos rfl, hnone, List.nil_append]
        congr 1
        refine List.map_congr_left fun k hk => ?_
        rw [if_neg (hold k hk)]

/-- Items may be changed after they are grouped if the change keeps their keys. -/
theorem groupBy_map {β : Type} (key : β → String) (f : α → β) (l : List α) :
    groupBy key (l.map f) =
      (groupBy (fun x => key (f x)) l).map fun g => (g.1, g.2.map f) := by
  rw [groupBy_eq, groupBy_eq, List.map_map, List.map_map]
  refine List.map_congr_left fun k _ => ?_
  show (k, _) = (k, _)
  rw [List.filter_map]
  rfl

theorem addToGroup_perm (key : String) (x : α) (groups : List (String × List α)) :
    ((addToGroup key x groups).flatMap (·.2)).Perm (groups.flatMap (·.2) ++ [x]) := by
  induction groups with
  | nil => exact .refl _
  | cons first rest ih =>
      obtain ⟨k, items⟩ := first
      unfold addToGroup
      split
      · rw [List.flatMap_cons, List.flatMap_cons, List.append_assoc, List.append_assoc]
        exact List.perm_append_comm.append_left items
      · rw [List.flatMap_cons, List.flatMap_cons, List.append_assoc]
        exact ih.append_left items

/-- Grouping neither loses items nor makes any up. -/
theorem groupBy_perm (key : α → String) (l : List α) :
    ((groupBy key l).flatMap (·.2)).Perm l := by
  induction l using List.reverseRecOn with
  | nil => exact .refl _
  | append_singleton l x ih =>
      rw [groupBy_concat]
      exact (addToGroup_perm (key x) x _).trans (ih.append_right [x])

end Groups

end ApiStubs
