import ApiStubs.Declaration.Basic
import ApiStubs.Json.Display
import ApiStubs.Text.BackslashEscaped
import ApiStubs.Text.HexEscaped

/-!
# Literals

Values as generated code writes them: in TypeScript texts are quoted and all else stays bare, in
Objective-C everything is the text of a string object unless it stands bare.
-/

namespace ApiStubs.Literal

/-- The literal of a value; of null, an array or an object there is none. -/
def ofJson? : Json.Value → Option Literal
  | .string s => some (text s)
  | .int n => some (int n)
  | .float x => some (float x)
  | .bool b => some (bool b)
  | _ => none

def toJson : Literal → Json.Value
  | text s => .string s
  | int n => .int n
  | float x => .float x
  | bool b => .bool b

/-- The text of a literal without quotes. -/
def bare (l : Literal) : String :=
  l.toJson.text

def inTs : Literal → String
  | text s => Text.singleQuoted s
  | int n => toString n
  | float x => Json.floatText x
  | bool b => if b then "true" else "false"

/-- A literal of Objective-C that is a string object. -/
def inOc (l : Literal) : String :=
  Text.objectQuoted l.bare

end ApiStubs.Literal
