import ApiStubs.Resolved

/-!
# Auxiliary type names

Some types are written by a name that the output has to define itself.  The registry collects the
names that are used, each once and in the order of first use.
-/

namespace ApiStubs

/-- The auxiliary names, with their definitions, in the order of their first use. -/
structure AliasRegistry where
  entries : List (String × String)

namespace AliasRegistry

def empty : AliasRegistry := ⟨[]⟩

def get? (registry : AliasRegistry) (name : String) : Option String :=
  registry.entries.lookup name

def contains (registry : AliasRegistry) (name : String) : Bool :=
  (registry.get? name).isSome

def names (registry : AliasRegistry) : List String :=
  registry.entries.map (·.1)

/-- The registry with a name; a name that is there keeps its definition. -/
def register (registry : AliasRegistry) (name definition : String) : AliasRegistry :=
  if registry.contains name then registry
  else ⟨registry.entries ++ [(name, definition)]⟩

end AliasRegistry

/-- A name that the output may have to define. -/
inductive Alias where
  | bigDecimal | bigInteger | multipartFile | long | optional
deriving DecidableEq

namespace Alias

def name : Alias → String
  | bigDecimal => "BigDecimal"
  | bigInteger => "BigInteger"
  | multipartFile => "MultipartFile"
  | long => "Long"
  | optional => "Optional<T>"

/-- The type that the name stands for. -/
def definition : Alias → String
  | bigDecimal => "string | number"
  | bigInteger => "string | number"
  | multipartFile => "Blob | File | string"
  | long => "string | number"
  | optional => "T | null"

/-- The name by which a special type goes. -/
def ofSpecial : SpecialType → Alias
  | .decimal => bigDecimal
  | .bigInteger => bigInteger
  | .fileUpload => multipartFile
  | .wideInteger => long

end Alias

def AliasRegistry.registerAll (registry : AliasRegistry) (aliases : List Alias) : AliasRegistry :=
  aliases.foldl (fun r a => r.register a.name a.definition) registry

namespace Resolved

mutual

/-- The auxiliary names in the written form of a type, from left to right. -/
def aliases : Resolved → List Alias
  | unknown => []
  | void => []
  | var _ => []
  | special type => [Alias.ofSpecial type]
  | primitive _ => []
  | map none value => aliases value
  | map (some key) value => aliases key ++ aliases value
  | list item => aliases item
  | optional content => .optional :: aliases content
  | tuple items => aliasesOfAll items
  | ofClass _ args => aliasesOfAll args
  | ofEnum _ => []

def aliasesOfAll : List Resolved → List Alias
  | [] => []
  | t :: rest => aliases t ++ aliasesOfAll rest

end

end Resolved

end ApiStubs
