import ApiStubs.Json.Value
import ApiStubs.Number.Layout
import ApiStubs.Text.Quoted

/-!
# Values shown to a reader

The text of a value in messages, memos and literals: a string by itself, but quoted where it
stands inside another value.
-/

namespace ApiStubs.Json

/-- Floating-point numbers are positional for decimal exponents from -4 to 15, and a scientific
exponent has two digits at least. -/
def displayLayout : Number.Layout :=
  ⟨(-4, 15), 2, "inf"⟩

def floatText (x : Number.Binary64) : String :=
  String.ofList (displayLayout.text x)

namespace Value

mutual

/-- The text of a value inside another one. -/
def quotedText : Value → String
  | null => "None"
  | bool b => if b then "True" else "False"
  | int n => toString n
  | float x => floatText x
  | string s => Text.quoted s
  | array items => "[" ++ ", ".intercalate (quotedItems items) ++ "]"
  | object fields => "\x7b" ++ ", ".intercalate (quotedFields fields) ++ "\x7d"

def quotedItems : List Value → List String
  | [] => []
  | v :: rest => v.quotedText :: quotedItems rest

def quotedFields : List (String × Value) → List String
  | [] => []
  | (key, v) :: rest => (Text.quoted key ++ ": " ++ v.quotedText) :: quotedFields rest

end

def text : Value → String
  | string s => s
  | v => v.quotedText

end Value

end ApiStubs.Json
