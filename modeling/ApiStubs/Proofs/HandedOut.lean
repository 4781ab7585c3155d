import ApiStubs.Namer
import Mathlib.Data.List.Nodup
import Mathlib.Data.List.Perm.Subperm

/-!
# No name is handed out twice

A name that is taken gets a number, and some number always makes it free: more numbers are tried
than there are names taken, and different numbers make different names.  So one step takes a name
that was free (`take_not_mem`), a run keeps the names taken distinct (`nodup_taken_takeAll`), and
the names that a new namer hands out are pairwise distinct (`nodup_takeAll`), whatever is asked for
and whatever stands in front of the numbers.
-/

namespace ApiStubs

section Zip

variable {α β γ δ : Type} {f : α → β → γ} {as : List α} {bs : List β}

theorem map_zipWith_left {g : γ → δ} {k : α → δ} (h : ∀ a b, g (f a b) = k a)
    (length : bs.length = as.length) : (List.zipWith f as bs).map g = as.map k := by
  induction as generalizing bs with
  | nil => rfl
  | cons a rest ih =>
      cases bs with
      | nil => exact absurd length (Nat.succ_ne_zero _).symm
      | cons b others =>
          rw [List.zipWith_cons_cons, List.map_cons, List.map_cons, h, ih (Nat.succ.inj length)]

theorem map_zipWith_right {g : γ → β} (h : ∀ a b, g (f a b) = b)
    (length : bs.length = as.length) : (List.zipWith f as bs).map g = bs := by
  induction as generalizing bs with
  | nil => exact (List.eq_nil_of_length_eq_zero length).symm
  | cons a rest ih =>
      cases bs with
      | nil => rfl
      | cons b others =>
          rw [List.zipWith_cons_cons, List.map_cons, h, ih (Nat.succ.inj length)]

end Zip

namespace Namer

theorem numbered_injective (namer : Namer) (name : String) :
    Function.Injective (namer.numbered name) := by
  intro m n h
  have h : toString m = toString n := (String.append_right_inj _).mp h
  -- The digits of a number read back as it.
  have hdigits := congrArg (fun s => Nat.ofDigitChars 10 s.toList 0) h
  simpa [Nat.toString_eq_repr, Nat.toList_repr] using hdigits

/-- Among one more numbers than there are names taken, one makes the name free. -/
theorem exists_free (namer : Namer) (name : String) (start : Nat) :
    ∃ n ∈ List.range' start (namer.taken.length + 1), namer.numbered name n ∉ namer.taken := by
  by_contra hnone
  -- Otherwise all variants would be taken, and there are too many of them.
  have hall : (List.range' start (namer.taken.length + 1)).map (namer.numbered name) ⊆
      namer.taken := by
    intro variant hv
    obtain ⟨n, hn, rfl⟩ := List.mem_map.mp hv
    by_contra hfree
    exact hnone ⟨n, hn, hfree⟩
  have hnodup : ((List.range' start (namer.taken.length + 1)).map (namer.numbered name)).Nodup :=
    (List.nodup_range' 1).map (namer.numbered_injective name)
  have hle := (List.subperm_of_subset hnodup hall).length_le
  rw [List.length_map, List.length_range'] at hle
  omega

/-- The search for a free number finds one. -/
theorem find?_freeNumber (namer : Namer) (name : String) (start : Nat) :
    (List.range' (start + 1) (namer.taken.length + 1)).find? (fun n =>
      !namer.taken.contains (namer.numbered name n)) = some (namer.freeNumber name start) := by
  obtain ⟨n, hn, hfree⟩ := namer.exists_free name (start + 1)
  unfold freeNumber
  cases hf : (List.range' (start + 1) (namer.taken.length + 1)).find? fun n =>
      !namer.taken.contains (namer.numbered name n) with
  | none => exact absurd (List.find?_eq_none.mp hf n hn) (by simpa using hfree)
  | some m => rfl

theorem numbered_freeNumber_not_mem (namer : Namer) (name : String) (start : Nat) :
    namer.numbered name (namer.freeNumber name start) ∉ namer.taken := by
  simpa using List.find?_some (namer.find?_freeNumber name start)

/-! ## One step -/

theorem take_not_mem (namer : Namer) (name : String) : (namer.take name).1 ∉ namer.taken := by
  unfold take
  split
  · exact namer.numbered_freeNumber_not_mem name _
  · rename_i h
    simpa using h

theorem taken_take (namer : Namer) (name : String) :
    (namer.take name).2.taken = (namer.take name).1 :: namer.taken := by
  unfold take
  split
  · rfl
  · rfl

theorem separator_take (namer : Namer) (name : String) :
    (namer.take name).2.separator = namer.separator := by
  unfold take
  split
  · rfl
  · rfl

theorem nodup_taken_take {namer : Namer} (h : namer.taken.Nodup) (name : String) :
    (namer.take name).2.taken.Nodup := by
  rw [taken_take]
  exact List.nodup_cons.mpr ⟨namer.take_not_mem name, h⟩

/-! ## Runs -/

theorem takeAll_cons (namer : Namer) (name : String) (rest : List String) :
    namer.takeAll (name :: rest) =
      ((namer.take name).1 :: ((namer.take name).2.takeAll rest).1,
        ((namer.take name).2.takeAll rest).2) :=
  rfl

theorem takeAll_append (namer : Namer) (names others : List String) :
    namer.takeAll (names ++ others) =
      ((namer.takeAll names).1 ++ ((namer.takeAll names).2.takeAll others).1,
        ((namer.takeAll names).2.takeAll others).2) := by
  induction names generalizing namer with
  | nil => rfl
  | cons name rest ih => rw [List.cons_append, takeAll_cons, ih, takeAll_cons, List.cons_append]

theorem length_takeAll (namer : Namer) (names : List String) :
    (namer.takeAll names).1.length = names.length := by
  induction names generalizing namer with
  | nil => rfl
  | cons name rest ih => rw [takeAll_cons, List.length_cons, List.length_cons, ih]

theorem nodup_taken_takeAll {namer : Namer} (h : namer.taken.Nodup) (names : List String) :
    (namer.takeAll names).2.taken.Nodup := by
  induction names generalizing namer with
  | nil => exact h
  | cons name rest ih => exact ih (nodup_taken_take h name)

theorem separator_takeAll (namer : Namer) (names : List String) :
    (namer.takeAll names).2.separator = namer.separator := by
  induction names generalizing namer with
  | nil => rfl
  | cons name rest ih => rw [takeAll_cons, ih, separator_take]

/-- What is taken after a run is what was taken before and what the run handed out. -/
theorem taken_takeAll (namer : Namer) (names : List String) :
    (namer.takeAll names).2.taken = (namer.takeAll names).1.reverse ++ namer.taken := by
  induction names generalizing namer with
  | nil => rfl
  | cons name rest ih =>
      rw [takeAll_cons, ih, taken_take, List.reverse_cons, List.append_assoc, List.singleton_append]

theorem nodup_takeAll (separator : String) (names : List String) :
    ((new separator).takeAll names).1.Nodup := by
  have h : ((new separator).takeAll names).2.taken.Nodup := nodup_taken_takeAll List.nodup_nil names
  rw [taken_takeAll] at h
  exact List.nodup_reverse.mp (List.nodup_append.mp h).1

theorem take_of_not_mem {namer : Namer} {name : String} (h : name ∉ namer.taken) :
    (namer.take name).1 = name := by
  unfold take
  rw [if_neg (by simpa using h)]

/-- Distinct names that are all free are handed out as they are. -/
theorem takeAll_of_nodup {namer : Namer} {names : List String} (nodup : names.Nodup)
    (free : ∀ n ∈ names, n ∉ namer.taken) : (namer.takeAll names).1 = names := by
  induction names generalizing namer with
  | nil => rfl
  | cons name rest ih =>
      have hname : (namer.take name).1 = name :=
        take_of_not_mem (free name List.mem_cons_self)
      have hfree : ∀ n ∈ rest, n ∉ (namer.take name).2.taken := by
        intro n hn hmem
        rw [taken_take, hname] at hmem
        rcases List.mem_cons.mp hmem with rfl | hmem
        · exact (List.nodup_cons.mp nodup).1 hn
        · exact free n (List.mem_cons_of_mem _ hn) hmem
      rw [takeAll_cons, hname, ih (List.nodup_cons.mp nodup).2 hfree]

/-! ## Things with the names handed out to them -/

section Named

variable {α γ δ : Type} {f : α → String → γ} {key : α → String} (namer : Namer) (items : List α)

/-- Names that are handed out to things leave nothing out. -/
theorem map_named_left {g : γ → δ} {k : α → δ} (h : ∀ a n, g (f a n) = k a) :
    (List.zipWith f items (namer.takeAll (items.map key)).1).map g = items.map k :=
  map_zipWith_left h (by rw [length_takeAll, List.length_map])

theorem map_named_right {g : γ → String} (h : ∀ a n, g (f a n) = n) :
    (List.zipWith f items (namer.takeAll (items.map key)).1).map g =
      (namer.takeAll (items.map key)).1 :=
  map_zipWith_right h (by rw [length_takeAll, List.length_map])

end Named

end Namer

end ApiStubs
