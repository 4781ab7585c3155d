import ApiStubs.Declaration.Basic

/-!
# Declaration tables

The declarations that a build knows, by name and in the order of their declaration.  The first
declaration of a name stays.
-/

namespace ApiStubs

/-- A finite table of declarations. -/
structure DeclarationTable where
  entries : List (String × Declaration)

namespace DeclarationTable

def empty : DeclarationTable := ⟨[]⟩

def find? (table : DeclarationTable) (name : String) : Option Declaration :=
  table.entries.lookup name

/-- The class of a name; none also if the name is that of an enum. -/
def findClass? (table : DeclarationTable) (name : String) : Option Class :=
  (table.find? name).bind Declaration.class?

/-- The table with one more declaration, unless its name is taken. -/
def add (table : DeclarationTable) (d : Declaration) : DeclarationTable :=
  if (table.find? d.name).isSome then table else ⟨table.entries ++ [(d.name, d)]⟩

/-- The table of a list of declarations, of which the first of a name stays. -/
def ofList (declarations : List Declaration) : DeclarationTable :=
  declarations.foldl add empty

/-- The table without the given names. -/
def hide (table : DeclarationTable) (names : List String) : DeclarationTable :=
  ⟨table.entries.filter fun entry => !names.contains entry.1⟩

def declarations (table : DeclarationTable) : List Declaration :=
  table.entries.map (·.2)

end DeclarationTable

/-- The declaration that a type names.  A variable names none, whatever declarations there are. -/
def TypeExpr.declaration? (table : DeclarationTable) : TypeExpr → Option Declaration
  | .wildcard => none
  | .var _ => none
  | .named n _ => table.find? n

end ApiStubs
