import ApiStubs.Declaration.Table

/-!
# Superclasses before subclasses

The chain of superclasses of a class, and the order of declarations in which every superclass that
the table knows comes before the classes that extend it.  A chain ends where a superclass is
missing, unknown, no class, or on the chain already, so that cycles do no harm.
-/

namespace ApiStubs

def Class.parent? (table : DeclarationTable) (c : Class) : Option Class :=
  c.superclass.bind fun t => table.findClass? t.name

namespace DeclarationTable

/-- The total weight of the entries of which a condition holds. -/
def weightOf {α : Type} (weight : α → Nat) (p : α → Bool) (l : List α) : Nat :=
  (l.filter p).foldr (fun a total => weight a + total) 0

/-- What a walk has left to visit: the total weight of the declarations whose names are not among
those visited. -/
def unvisited (table : DeclarationTable) (weight : Declaration → Nat) (visited : List String) :
    Nat :=
  weightOf (fun entry => weight entry.2) (fun entry => !visited.contains entry.2.name)
    table.entries

/-- A name that a table holds is in its entries. -/
theorem mem_of_find? {table : DeclarationTable} {name : String} {d : Declaration}
    (h : table.find? name = some d) : (name, d) ∈ table.entries := by
  unfold find? at h
  generalize table.entries = entries at h
  induction entries with
  | nil => simp at h
  | cons entry rest ih =>
    obtain ⟨key, e⟩ := entry
    by_cases hk : name = key
    · subst hk
      simp at h
      simp [h]
    · have hb : (name == key) = false := by simp [hk]
      rw [List.lookup_cons, hb] at h
      exact List.mem_cons_of_mem _ (ih h)

/-- The first element counts if the condition holds of it. -/
theorem weightOf_cons {α : Type} (weight : α → Nat) (p : α → Bool) (a : α) (l : List α) :
    weightOf weight p (a :: l) = (if p a then weight a else 0) + weightOf weight p l := by
  cases h : p a <;> simp [weightOf, h]

/-- The stronger of two conditions leaves no more weight. -/
theorem weightOf_mono {α : Type} (weight : α → Nat) {p q : α → Bool}
    (stronger : ∀ x, p x → q x) (l : List α) : weightOf weight p l ≤ weightOf weight q l := by
  induction l with
  | nil => exact Nat.le_refl _
  | cons a rest ih =>
    rw [weightOf_cons, weightOf_cons]
    cases hp : p a with
    | false => simp; omega
    | true => simp [stronger a hp]; exact ih

/-- The stronger of two conditions leaves out the weight of an element of which the weaker alone
holds. -/
theorem weightOf_add_le {α : Type} (weight : α → Nat) {p q : α → Bool}
    (stronger : ∀ x, p x → q x) {a : α} {l : List α} (mem : a ∈ l) (weak : q a)
    (not_strong : ¬ p a) : weightOf weight p l + weight a ≤ weightOf weight q l := by
  induction l with
  | nil => simp at mem
  | cons b rest ih =>
    rw [weightOf_cons, weightOf_cons]
    rcases List.mem_cons.1 mem with rfl | h
    · have le := weightOf_mono weight stronger rest
      simp only [weak, not_strong]
      simp
      omega
    · have le := ih h
      have head : (if p b then weight b else 0) ≤ if q b then weight b else 0 := by
        cases hp : p b with
        | false => simp
        | true => simp [stronger b hp]
      omega

/-- Visiting a declaration of the table that was not visited before takes its weight off what is
left. -/
theorem unvisited_add_le {table : DeclarationTable} (weight : Declaration → Nat) {name : String}
    {d : Declaration} {visited : List String} (found : table.find? name = some d)
    (new : d.name ∉ visited) :
    table.unvisited weight (d.name :: visited) + weight d ≤ table.unvisited weight visited := by
  have stronger : ∀ entry : String × Declaration,
      !(d.name :: visited).contains entry.2.name → !visited.contains entry.2.name := by
    intro entry h
    simp at h ⊢
    exact h.2
  exact weightOf_add_le (fun entry => weight entry.2) stronger (mem_of_find? found)
    (by simpa using new) (by simp)

/-- The class that a class extends is a declaration of the table. -/
theorem find?_of_parent? {table : DeclarationTable} {c p : Class} (h : c.parent? table = some p) :
    ∃ name, table.find? name = some (.ofClass p) := by
  unfold Class.parent? findClass? at h
  cases hs : c.superclass with
  | none => simp [hs] at h
  | some t =>
    rw [hs] at h
    simp only [Option.bind_some] at h
    refine ⟨t.name, ?_⟩
    cases hf : table.find? t.name with
    | none => simp [hf] at h
    | some d =>
      cases d with
      | ofClass c' =>
        simp [hf, Declaration.class?] at h
        rw [h]
      | ofEnum e => simp [hf, Declaration.class?] at h

end DeclarationTable

/-- The superclasses of a class from the nearest outward, as far as the walk goes: not past a class
of `stop`, and not to a class of `visited`. -/
def Class.ancestors (table : DeclarationTable) (stop visited : List String) (c : Class) :
    List Class :=
  if stop.contains c.name then []
  else match _found : c.parent? table with
    | none => []
    | some p =>
      if _new : p.name ∈ visited then []
      else p :: p.ancestors table stop (p.name :: visited)
termination_by table.unvisited (fun _ => 1) visited
decreasing_by
  obtain ⟨_, found⟩ := DeclarationTable.find?_of_parent? _found
  exact DeclarationTable.unvisited_add_le (fun _ => 1) found _new

/-- The chain of a class: itself and its superclasses from the nearest outward. -/
def Class.chain (table : DeclarationTable) (stop : List String) (c : Class) : List Class :=
  c :: c.ancestors table stop [c.name]

def Class.names (classes : List Class) : List String :=
  classes.map (·.name)

/-- The classes with one more behind them, unless its name is there already. -/
def Class.addNew (done : List Class) (c : Class) : List Class :=
  if (Class.names done).contains c.name then done else done ++ [c]

/-- The classes with a class and those of its chain that are not among them behind them, the
outermost first.  The walk stops at the first class that is there already. -/
def Class.addChain (table : DeclarationTable) (done : List Class) (c : Class) : List Class :=
  if (Class.names done).contains c.name then done
  else (c.chain table (Class.names done)).reverse.foldl Class.addNew done

/-- Classes and the superclasses they need, every superclass before its subclasses and otherwise in
the given order. -/
def Class.inOrder (table : DeclarationTable) (classes : List Class) : List Class :=
  classes.foldl (Class.addChain table) []

end ApiStubs
