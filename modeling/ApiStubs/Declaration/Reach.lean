import ApiStubs.Declaration.Order

/-!
# Reachable declarations

The declarations that types lead to, through their arguments and through the superclasses and
members of the classes they name, in order of discovery.  A declaration is recorded where it is
first met, before what lies behind it.
-/

namespace ApiStubs

/-- The types that a declaration mentions: of a class its superclass and the types of its members,
in that order. -/
def Declaration.references : Declaration → List TypeExpr
  | ofClass c => c.superclass.toList ++ c.members.filterMap (·.type)
  | ofEnum _ => []

/-- The sizes of types put one after the other add up. -/
theorem TypeExpr.sizeAll_append (as bs : List TypeExpr) :
    sizeAll (as ++ bs) = sizeAll as + sizeAll bs := by
  induction as with
  | nil => simp [sizeAll]
  | cons a rest ih => simp [sizeAll, ih, Nat.add_assoc]

/-- A type is larger than its arguments together. -/
theorem TypeExpr.sizeAll_args_lt (t : TypeExpr) : sizeAll t.args < t.size := by
  cases t <;> simp [args, size, sizeAll]

namespace Reach

def names (found : List Declaration) : List String :=
  found.map (·.name)

/-- The declaration that a type names, if it is not among those found. -/
def new? (table : DeclarationTable) (found : List Declaration) (t : TypeExpr) :
    Option Declaration :=
  match t.declaration? table with
  | some d => if d.name ∈ names found then none else some d
  | none => none

/-- A new declaration is one of the table and was not found before. -/
theorem of_new? {table : DeclarationTable} {found : List Declaration} {t : TypeExpr}
    {d : Declaration} (h : new? table found t = some d) :
    (∃ name, table.find? name = some d) ∧ d.name ∉ names found := by
  unfold new? at h
  split at h
  · next e hd =>
    split at h
    · simp at h
    · next hn =>
      cases h
      cases t with
      | wildcard => simp [TypeExpr.declaration?] at hd
      | var _ => simp [TypeExpr.declaration?] at hd
      | named n _ => exact ⟨⟨n, hd⟩, hn⟩
  · simp at h

/-- What recording a declaration brings: the types that it mentions, and one for itself. -/
def load (d : Declaration) : Nat :=
  TypeExpr.sizeAll d.references + 1

/-- Goes through the pending types, the next one first.  What has been found comes last one
first. -/
def walk (table : DeclarationTable) (found : List Declaration) : List TypeExpr → List Declaration
  | [] => found
  | t :: pending =>
    match _new : new? table found t with
    | some d => walk table (d :: found) (t.args ++ d.references ++ pending)
    | none => walk table found (t.args ++ pending)
termination_by pending => table.unvisited load (names found) + TypeExpr.sizeAll pending
decreasing_by
  · obtain ⟨⟨_, known⟩, new⟩ := of_new? _new
    have left := DeclarationTable.unvisited_add_le load known new
    have args := t.sizeAll_args_lt
    simp only [load, names, List.map_cons, TypeExpr.sizeAll_append, TypeExpr.sizeAll] at left ⊢
    omega
  · have args := t.sizeAll_args_lt
    simp only [TypeExpr.sizeAll_append, TypeExpr.sizeAll]
    omega

/-- The declarations that types lead to, in order of discovery. -/
def fromTypes (table : DeclarationTable) (types : List TypeExpr) : List Declaration :=
  (walk table [] types).reverse

/-- Declarations followed by those of the table that are not among them. -/
def andOthers (table : DeclarationTable) (found : List Declaration) : List Declaration :=
  found ++ table.declarations.filter fun d => !(names found).contains d.name

end Reach

end ApiStubs
