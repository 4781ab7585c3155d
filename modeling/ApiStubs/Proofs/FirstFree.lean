import ApiStubs.Proofs.HandedOut
import Mathlib.Data.Nat.Find

/-!
# The first free name

Handing names out needs no more than the names handed out before: a name that is free stays as it
is, and another one gets the least number from one on that makes it free (`firstFree`).  A namer
remembers besides, for every name, the number up to which it has looked, and never looks at smaller
ones again.  `takeAll_eq_handOut` says that this gives the same names.

Two facts carry the proof.  Numbers up to the one remembered are taken, for all names at once
(`Exhausted`), so that it does no harm to leave them out.  And the search goes from candidate to
candidate, one number after the other, until it comes to a free one (`Tries`); it always does
(`tries_take`), since numbers make different names and finitely many are taken.
-/

namespace ApiStubs.Namer

/-! ## Names by themselves -/

theorem exists_number (separator : String) (taken : List String) (name : String) :
    ∃ n, 1 ≤ n ∧ name ++ separator ++ toString n ∉ taken := by
  obtain ⟨n, hn, hfree⟩ := exists_free ⟨separator, taken, []⟩ name 1
  exact ⟨n, (List.mem_range'_1.mp hn).1, hfree⟩

/-- The name itself if it is free, and otherwise the name with the least number from one on that
makes it free. -/
def firstFree (separator : String) (taken : List String) (name : String) : String :=
  if name ∈ taken then name ++ separator ++ toString (Nat.find (exists_number separator taken name))
  else name

/-- Hands out several names in order, knowing only which names are taken. -/
def handOut (separator : String) (taken : List String) : List String → List String
  | [] => []
  | name :: rest =>
    firstFree separator taken name ::
      handOut separator (firstFree separator taken name :: taken) rest

/-! ## The search -/

/-- `Tries namer name count candidate n given`: the search for a free name that has come to
`candidate`, with `count` as the last number tried, ends with the name `given` and the number `n`.  A
candidate that is taken gives way to the name with the next number. -/
inductive Tries (namer : Namer) (name : String) : Nat → String → Nat → String → Prop
  | free {count : Nat} {candidate : String} : candidate ∉ namer.taken →
      Tries namer name count candidate count candidate
  | taken {count n : Nat} {candidate given : String} : candidate ∈ namer.taken →
      Tries namer name (count + 1) (namer.numbered name (count + 1)) n given →
      Tries namer name count candidate n given

variable {namer : Namer} {name : String}

theorem lt_freeNumber (namer : Namer) (name : String) (start : Nat) :
    start < namer.freeNumber name start := by
  have hmem := (List.find?_range'_eq_some.mp (namer.find?_freeNumber name start)).2.1
  exact (List.mem_range'_1.mp hmem).1

theorem numbered_mem_of_lt_freeNumber {start n : Nat} (hstart : start < n)
    (h : n < namer.freeNumber name start) : namer.numbered name n ∈ namer.taken := by
  have hleast := (List.find?_range'_eq_some.mp (namer.find?_freeNumber name start)).2.2
  simpa using hleast n hstart h

/-- Where all numbers below one are taken, the search comes to it. -/
theorem tries_numbered {count steps : Nat} {candidate : String} (hc : candidate ∈ namer.taken)
    (hbelow : ∀ n, count < n → n ≤ count + steps → namer.numbered name n ∈ namer.taken)
    (hfree : namer.numbered name (count + steps + 1) ∉ namer.taken) :
    Tries namer name count candidate (count + steps + 1)
      (namer.numbered name (count + steps + 1)) := by
  induction steps generalizing count candidate with
  | zero => exact .taken hc (.free hfree)
  | succ steps ih =>
      have hnext : count + (steps + 1) = count + 1 + steps := by omega
      rw [hnext] at hbelow hfree ⊢
      refine .taken hc (ih (hbelow (count + 1) (by omega) (by omega)) ?_ hfree)
      exact fun n hn hle => hbelow n (by omega) hle

/-! ## One step -/

theorem take_of_mem (h : name ∈ namer.taken) :
    (namer.take name).1 = namer.numbered name (namer.freeNumber name (namer.counter name)) ∧
      (namer.take name).2.counters =
        (name, namer.freeNumber name (namer.counter name)) :: namer.counters := by
  unfold take
  rw [if_pos (by simpa using h)]
  exact ⟨rfl, rfl⟩

theorem counters_take_of_not_mem (h : name ∉ namer.taken) :
    (namer.take name).2.counters = namer.counters := by
  unfold take
  rw [if_neg (by simpa using h)]

theorem counter_take_of_mem (h : name ∈ namer.taken) :
    (namer.take name).2.counter name = namer.freeNumber name (namer.counter name) := by
  rw [counter, (take_of_mem h).2, List.lookup_cons_self, Option.getD_some]

theorem counter_take_of_not_mem (h : name ∉ namer.taken) (other : String) :
    (namer.take name).2.counter other = namer.counter other := by
  rw [counter, counters_take_of_not_mem h, counter]

/-- The numbers of other names are left alone. -/
theorem counter_take_of_ne {other : String} (hne : other ≠ name) :
    (namer.take name).2.counter other = namer.counter other := by
  by_cases h : name ∈ namer.taken
  · have hb : (other == name) = false := by simpa using hne
    rw [counter, (take_of_mem h).2, List.lookup_cons, hb]
    rfl
  · exact counter_take_of_not_mem h other

/-- A name is handed out at the end of the search, which goes on from the number remembered. -/
theorem tries_take (namer : Namer) (name : String) :
    Tries namer name (namer.counter name) name
      ((namer.take name).2.counter name) (namer.take name).1 := by
  by_cases h : name ∈ namer.taken
  · rw [counter_take_of_mem h, (take_of_mem h).1]
    have hfree := namer.numbered_freeNumber_not_mem name (namer.counter name)
    obtain ⟨steps, hsteps⟩ := Nat.exists_eq_add_of_lt (namer.lt_freeNumber name (namer.counter name))
    have hbelow : ∀ n, namer.counter name < n → n ≤ namer.counter name + steps →
        namer.numbered name n ∈ namer.taken :=
      fun n hn hle => numbered_mem_of_lt_freeNumber hn (by omega)
    rw [hsteps] at hfree ⊢
    exact tries_numbered h hbelow hfree
  · rw [counter_take_of_not_mem h, take_of_not_mem h]
    exact .free h

/-! ## What is remembered -/

/-- Of every name the numbers up to the one remembered are taken. -/
def Exhausted (namer : Namer) : Prop :=
  ∀ name n, 1 ≤ n → n ≤ namer.counter name → namer.numbered name n ∈ namer.taken

theorem exhausted_new (separator : String) : (new separator).Exhausted := by
  intro name n hn hle
  exact absurd (Nat.le_trans hn hle) (Nat.not_succ_le_zero 0)

theorem Exhausted.take (h : namer.Exhausted) (name : String) : (namer.take name).2.Exhausted := by
  intro other n hn hle
  have hnumbered : (namer.take name).2.numbered other n = namer.numbered other n := by
    rw [numbered, separator_take, numbered]
  rw [hnumbered, taken_take]
  by_cases hold : n ≤ namer.counter other
  · exact List.mem_cons_of_mem _ (h other n hn hold)
  · -- The number is new, so it was passed over or handed out in this step.
    have hother : other = name := by
      by_contra hne
      exact hold (counter_take_of_ne hne ▸ hle)
    subst hother
    by_cases hmem : other ∈ namer.taken
    · rw [counter_take_of_mem hmem] at hle
      rcases Nat.lt_or_eq_of_le hle with hlt | heq
      · exact List.mem_cons_of_mem _ (numbered_mem_of_lt_freeNumber (by omega) hlt)
      · rw [(take_of_mem hmem).1, heq]
        exact List.mem_cons_self
    · exact absurd (counter_take_of_not_mem hmem other ▸ hle) hold

/-- Numbers left out by the search are taken, so that it finds the least one that is free. -/
theorem take_eq_firstFree (h : namer.Exhausted) (name : String) :
    (namer.take name).1 = firstFree namer.separator namer.taken name := by
  unfold firstFree
  by_cases hmem : name ∈ namer.taken
  · rw [if_pos hmem, (take_of_mem hmem).1]
    have hlt := namer.lt_freeNumber name (namer.counter name)
    have hfind : Nat.find (exists_number namer.separator namer.taken name) =
        namer.freeNumber name (namer.counter name) := by
      refine (Nat.find_eq_iff _).mpr ⟨⟨by omega, namer.numbered_freeNumber_not_mem name _⟩, ?_⟩
      rintro n hn ⟨hone, hfree⟩
      by_cases hold : n ≤ namer.counter name
      · exact hfree (h name n hone hold)
      · exact hfree (numbered_mem_of_lt_freeNumber (by omega) hn)
    rw [hfind, numbered]
  · rw [if_neg hmem, take_of_not_mem hmem]

/-! ## Runs -/

theorem takeAll_eq_handOut_of_exhausted (names : List String) :
    ∀ {namer : Namer}, namer.Exhausted →
      (namer.takeAll names).1 = handOut namer.separator namer.taken names := by
  induction names with
  | nil => exact fun _ => rfl
  | cons name rest ih =>
      intro namer h
      rw [takeAll_cons, handOut, ih (h.take name), take_eq_firstFree h, separator_take,
        taken_take, take_eq_firstFree h]

/-- Whatever stands in front of the numbers and whatever is asked for, a namer hands out the names
that are first free, and so no name twice.  At every call the search comes to its end, which is the
name that is handed out. -/
theorem takeAll_eq_handOut (separator : String) (names : List String) :
    ((new separator).takeAll names).1 = handOut separator [] names ∧
    ((new separator).takeAll names).1.Nodup ∧
    ∀ earlier name later, names = earlier ++ name :: later →
      let namer := ((new separator).takeAll earlier).2
      namer.taken = ((new separator).takeAll earlier).1.reverse ∧
      Tries namer name (namer.counter name) name ((namer.take name).2.counter name)
        (namer.take name).1 ∧
      ((new separator).takeAll names).1[earlier.length]? = some (namer.take name).1 := by
  refine ⟨takeAll_eq_handOut_of_exhausted names (exhausted_new separator),
    nodup_takeAll separator names, ?_⟩
  rintro earlier name later rfl
  refine ⟨?_, tries_take _ name, ?_⟩
  · rw [taken_takeAll]
    exact List.append_nil _
  · rw [takeAll_append, takeAll_cons, List.getElem?_append_right (by rw [length_takeAll]),
      length_takeAll, Nat.sub_self]
    rfl

/-- With nothing in front of numbers, the name `a1` is in the way of the first repetition of `a`:
the search goes on to the number two. -/
theorem handOut_past_number :
    let names := ["a", "a1", "a", "a1", "a"]
    let namer := ((new "").takeAll ["a", "a1"]).2
    names = ["a", "a1"] ++ "a" :: ["a1", "a"] ∧
      handOut "" [] names = ["a", "a1", "a2", "a11", "a3"] ∧ namer.taken = ["a1", "a"] ∧
      Tries namer "a" 0 "a" 2 "a2" := by
  intro names namer
  obtain ⟨same, _, calls⟩ := takeAll_eq_handOut "" names
  have split : names = ["a", "a1"] ++ "a" :: ["a1", "a"] := rfl
  obtain ⟨taken, tries, _⟩ := calls ["a", "a1"] "a" ["a1", "a"] split
  have hnames : ((new "").takeAll names).1 = ["a", "a1", "a2", "a11", "a3"] := by decide +kernel
  have hstart : namer.counter "a" = 0 := by decide +kernel
  have hcount : (namer.take "a").2.counter "a" = 2 := by decide +kernel
  have hgiven : (namer.take "a").1 = "a2" := by decide +kernel
  refine ⟨split, same ▸ hnames, taken.trans (by decide +kernel), ?_⟩
  rw [hstart, hcount, hgiven] at tries
  exact tries

end ApiStubs.Namer
