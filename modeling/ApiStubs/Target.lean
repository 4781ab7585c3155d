import ApiStubs.Json.Value

/-!
# Targets

The forms of output: TypeScript modules, Objective-C interfaces, and the resolved model itself.
-/

namespace ApiStubs

/-- A form of output. -/
inductive Target where
  | ts | oc | raw
deriving DecidableEq

namespace Target

def name : Target → String
  | ts => "ts"
  | oc => "oc"
  | raw => "raw"

def names : List String := [oc.name, raw.name, ts.name]

def ofName? (s : String) : Option Target :=
  [ts, oc, raw].find? (·.name = s)

def ofJson? (v : Json.Value) : Option Target :=
  v.string?.bind ofName?

/-- What stands between a repeated name and its number. -/
def separator : Target → String
  | ts => "$"
  | oc => "_"
  | raw => "$"

/-- What the stubs import their runtime from where nothing else is given. -/
def runtime : Target → String
  | ts => "@huolala-tech/nad-runtime"
  | oc => "NadRuntime.h"
  | raw => ""

/-- The words that name no module or parameter. -/
def reserved : Target → List String
  | ts =>
    ["break", "case", "catch", "class", "const", "continue", "debugger", "default", "delete",
     "do", "else", "enum", "export", "extends", "false", "finally", "for", "function", "if",
     "import", "in", "instanceof", "new", "null", "return", "super", "switch", "this", "throw",
     "true", "try", "typeof", "var", "void", "while", "with", "yield", "let", "static",
     "implements", "interface", "package", "private", "protected", "public", "await", "settings"]
  | oc =>
    ["auto", "break", "case", "char", "const", "continue", "default", "do", "double", "else",
     "enum", "extern", "float", "for", "goto", "if", "inline", "int", "long", "register",
     "return", "short", "signed", "sizeof", "static", "struct", "switch", "typedef", "union",
     "unsigned", "void", "volatile", "while", "id", "self", "super", "nil", "Nil", "YES", "NO",
     "BOOL", "SEL", "IMP", "Class", "Protocol", "in", "out", "inout", "bycopy", "byref",
     "oneway", "class", "description", "hash", "copy", "new", "alloc", "init", "retain",
     "release", "autorelease", "settings"]
  | raw => []

end Target

end ApiStubs
