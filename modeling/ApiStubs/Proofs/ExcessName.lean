import ApiStubs.Proofs.FirstFree
import ApiStubs.Proofs.Identifiers

/-!
# One name more

Two namers are asked for the same names, one of which has handed out one name more.  Where the
excess name is what the other one would hand out next for some name (`Excess`), this shows in two
ways only: when that name is asked for again, and when the excess name itself is.  In both cases the
name asked for gets another variant than without the excess, and this variant is the excess from
then on (`Excess.take_of_hit`).  All other names are given as they are without it
(`Excess.take_of_miss`).

It matters that a variant belongs to one name only, whose number does not run into the name
(`Separates`).
-/

namespace ApiStubs.Namer

/-- No variant belongs to two names. -/
def Separates (separator : String) : Prop :=
  ∀ (name other : String) (m n : Nat),
    name ++ separator ++ toString m = other ++ separator ++ toString n → name = other

/-! ## What is first free -/

section

variable {separator : String} {taken others : List String} {name : String}

theorem firstFree_of_not_mem (h : name ∉ taken) : firstFree separator taken name = name :=
  if_neg h

theorem exists_firstFree_eq (h : name ∈ taken) :
    ∃ n : Nat, firstFree separator taken name = name ++ separator ++ toString n :=
  ⟨_, if_pos h⟩

theorem firstFree_not_mem : firstFree separator taken name ∉ taken := by
  unfold firstFree
  split
  · exact (Nat.find_spec (exists_number separator taken name)).2
  · assumption

/-- What is first free for a name depends on the name and its variants. -/
theorem firstFree_congr (hname : name ∈ taken ↔ name ∈ others)
    (hvariants : ∀ n : Nat, name ++ separator ++ toString n ∈ taken ↔
      name ++ separator ++ toString n ∈ others) :
    firstFree separator taken name = firstFree separator others name := by
  have hfind : Nat.find (exists_number separator taken name) =
      Nat.find (exists_number separator others name) :=
    Nat.find_congr' fun {n} => and_congr_right fun _ => not_congr (hvariants n)
  simp only [firstFree, hname, hfind]

theorem firstFree_cons_of_ne {other : String} (h : name ∈ taken)
    (hne : other ≠ firstFree separator taken name) :
    firstFree separator (other :: taken) name = firstFree separator taken name := by
  have hfind : Nat.find (exists_number separator (other :: taken) name) =
      Nat.find (exists_number separator taken name) := by
    obtain ⟨hone, hfree⟩ := Nat.find_spec (exists_number separator taken name)
    refine (Nat.find_eq_iff _).mpr ⟨⟨hone, ?_⟩, ?_⟩
    · rw [firstFree, if_pos h] at hne
      exact List.not_mem_cons_of_ne_of_not_mem hne.symm hfree
    · rintro n hn ⟨hone, hfree⟩
      exact Nat.find_min _ hn ⟨hone, fun hmem => hfree (List.mem_cons_of_mem _ hmem)⟩
  rw [firstFree, firstFree, if_pos h, if_pos (List.mem_cons_of_mem _ h), hfind]

end

/-! ## Two namers -/

/-- `Excess separator more less base excess`: the namers have this separator, and `more` has taken
what `less` has and the name `excess` besides, which `less` would hand out next for `base`. -/
structure Excess (separator : String) (more less : Namer) (base excess : String) : Prop where
  separators : more.separator = separator ∧ less.separator = separator
  exhausted : more.Exhausted ∧ less.Exhausted
  taken : ∀ x, x ∈ more.taken ↔ x = excess ∨ x ∈ less.taken
  base_mem : base ∈ less.taken
  next : firstFree separator less.taken base = excess

namespace Excess

variable {separator : String} {more less : Namer} {base excess : String}

theorem take_more (h : Excess separator more less base excess) (name : String) :
    (more.take name).1 = firstFree separator more.taken name := by
  rw [take_eq_firstFree h.exhausted.1, h.separators.1]

theorem take_less (h : Excess separator more less base excess) (name : String) :
    (less.take name).1 = firstFree separator less.taken name := by
  rw [take_eq_firstFree h.exhausted.2, h.separators.2]

theorem separators_take (h : Excess separator more less base excess) (name : String) :
    (more.take name).2.separator = separator ∧ (less.take name).2.separator = separator := by
  rw [separator_take, separator_take]
  exact h.separators

theorem exhausted_take (h : Excess separator more less base excess) (name : String) :
    (more.take name).2.Exhausted ∧ (less.take name).2.Exhausted :=
  ⟨h.exhausted.1.take name, h.exhausted.2.take name⟩

theorem excess_mem (h : Excess separator more less base excess) : excess ∈ more.taken :=
  (h.taken excess).mpr (.inl rfl)

theorem excess_not_mem (h : Excess separator more less base excess) : excess ∉ less.taken :=
  h.next ▸ firstFree_not_mem

/-- A name that is neither the base nor the excess is given as it is without the excess. -/
theorem take_of_miss (h : Excess separator more less base excess) (separates : Separates separator)
    {name : String} (hbase : name ≠ base) (hexcess : name ≠ excess) :
    (more.take name).1 = (less.take name).1 ∧
      Excess separator (more.take name).2 (less.take name).2 base excess := by
  have hsame : (more.take name).1 = (less.take name).1 := by
    rw [h.take_more, h.take_less]
    refine firstFree_congr ((h.taken name).trans (or_iff_right hexcess)) fun n => ?_
    refine (h.taken _).trans (or_iff_right fun hvariant => hbase ?_)
    obtain ⟨m, hm⟩ : ∃ m : Nat, firstFree separator less.taken base =
        base ++ separator ++ toString m := exists_firstFree_eq h.base_mem
    exact separates name base n m (hvariant.trans (h.next.symm.trans hm))
  have hnew : (less.take name).1 ≠ excess := by
    intro he
    exact more.take_not_mem name (hsame.trans he ▸ h.excess_mem)
  refine ⟨hsame, h.separators_take name, h.exhausted_take name, fun x => ?_, ?_, ?_⟩
  · rw [taken_take, taken_take, List.mem_cons, List.mem_cons, hsame, h.taken]
    exact or_left_comm
  · rw [taken_take]
    exact List.mem_cons_of_mem _ h.base_mem
  · rw [taken_take, firstFree_cons_of_ne h.base_mem (h.next ▸ hnew), h.next]

/-- Asked for the base or for the excess, the namers give different names, and the one that the
former gives is the excess from then on. -/
theorem take_of_hit (h : Excess separator more less base excess) {name : String}
    (hit : name = base ∨ name = excess) :
    (more.take name).1 ≠ (less.take name).1 ∧
      Excess separator (more.take name).2 (less.take name).2 name (more.take name).1 := by
  have hless : (less.take name).1 = excess := by
    rw [h.take_less]
    rcases hit with rfl | rfl
    · exact h.next
    · exact firstFree_of_not_mem h.excess_not_mem
  have hmore : ∀ x, x ∈ (less.take name).2.taken ↔ x ∈ more.taken := by
    intro x
    rw [taken_take, hless, List.mem_cons, h.taken]
  refine ⟨fun he => ?_, h.separators_take name, h.exhausted_take name, fun x => ?_, ?_, ?_⟩
  · exact more.take_not_mem name (he.trans hless ▸ h.excess_mem)
  · rw [taken_take, List.mem_cons, hmore]
  · rcases hit with rfl | rfl
    · exact (hmore _).mpr ((h.taken _).mpr (.inr h.base_mem))
    · exact (hmore _).mpr h.excess_mem
  · rw [h.take_more]
    exact firstFree_congr (hmore name) fun n => hmore _

end Excess

theorem Exhausted.takeAll {namer : Namer} (h : namer.Exhausted) (names : List String) :
    (namer.takeAll names).2.Exhausted := by
  induction names generalizing namer with
  | nil => exact h
  | cons name rest ih => exact ih (h.take name)

/-- What a namer hands out for a name that is taken is its excess over the namer before. -/
theorem excess_take {namer : Namer} (exhausted : namer.Exhausted) {name : String}
    (h : name ∈ namer.taken) :
    Excess namer.separator (namer.take name).2 namer name (namer.take name).1 where
  separators := ⟨namer.separator_take name, rfl⟩
  exhausted := ⟨exhausted.take name, exhausted⟩
  taken := by
    intro x
    rw [taken_take, List.mem_cons]
  base_mem := h
  next := (take_eq_firstFree exhausted name).symm

end ApiStubs.Namer

/-! ## Separators of targets -/

namespace ApiStubs

theorem Namer.separates_of_singleton {s : Char} (hs : s.isDigit = false) :
    Separates (String.singleton s) := by
  intro name other m n h
  have hdigits : ∀ (k : Nat), ∀ c ∈ (toString k).toList.reverse, c.isDigit = true := by
    intro k c hc
    exact isDigit_of_mem_toString (List.mem_reverse.mp hc)
  have hname : ∀ (base : String) (k : Nat),
      (base ++ String.singleton s ++ toString k).toList.reverse.dropWhile Char.isDigit =
        s :: base.toList.reverse := by
    intro base k
    have hlist : (base ++ String.singleton s ++ toString k).toList.reverse =
        (toString k).toList.reverse ++ s :: base.toList.reverse := by
      simp [String.toList_append]
    rw [hlist, List.dropWhile_append_of_pos (hdigits k), List.dropWhile_cons_of_neg (by simp [hs])]
  have hreverse := (hname name m).symm.trans ((congrArg
    (fun s => s.toList.reverse.dropWhile Char.isDigit) h).trans (hname other n))
  exact String.toList_injective (List.reverse_injective (List.cons.inj hreverse).2)

theorem Target.separates (target : Target) : Namer.Separates target.separator := by
  cases target with
  | ts => exact Namer.separates_of_singleton (s := '$') (by decide)
  | oc => exact Namer.separates_of_singleton (s := '_') (by decide)
  | raw => exact Namer.separates_of_singleton (s := '$') (by decide)

end ApiStubs
