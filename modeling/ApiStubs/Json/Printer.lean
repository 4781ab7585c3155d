import ApiStubs.Json.Value
import ApiStubs.Number.Layout
import ApiStubs.Text.Hex

/-!
# Printing JSON

A value as an indented JSON text: one item or field a line, two spaces deeper than its bracket,
and an empty array or object on one line.  Every character stands for itself except the double
quote, the backslash and the control characters below the space.
-/

namespace ApiStubs.Json

/-- Floating-point numbers are positional for decimal exponents from -4 to 15, and a scientific
exponent has two digits at least. -/
def numeralLayout : Number.Layout :=
  ⟨(-4, 15), 2, "Infinity"⟩

namespace Printer

def escape (c : Char) : List Char :=
  if c = '\"' then ['\\', '\"']
  else if c = '\\' then ['\\', '\\']
  else if c = '\n' then ['\\', 'n']
  else if c = '\r' then ['\\', 'r']
  else if c = '\t' then ['\\', 't']
  else if c = '\x08' then ['\\', 'b']
  else if c = '\x0c' then ['\\', 'f']
  else if c.toNat < 0x20 then '\\' :: 'u' :: Text.Hex.fixed 4 c.toNat
  else [c]

def string (s : String) : List Char :=
  '\"' :: s.toList.flatMap escape ++ ['\"']

/-- A line break and the indentation of the line after it. -/
def newline (depth : Nat) : List Char :=
  '\n' :: List.replicate (2 * depth) ' '

mutual

/-- The text of a value whose brackets stand at a depth. -/
def value (depth : Nat) : Value → List Char
  | .null => "null".toList
  | .bool b => if b then "true".toList else "false".toList
  | .int n => (toString n).toList
  | .float x => numeralLayout.text x
  | .string s => string s
  | .array [] => ['[', ']']
  | .array (v :: rest) =>
    '[' :: newline (depth + 1) ++ value (depth + 1) v ++ items (depth + 1) rest ++
      newline depth ++ [']']
  | .object [] => ['\x7b', '\x7d']
  | .object ((key, v) :: rest) =>
    '\x7b' :: newline (depth + 1) ++ string key ++ ':' :: ' ' :: value (depth + 1) v ++
      fields (depth + 1) rest ++ newline depth ++ ['\x7d']

def items (depth : Nat) : List Value → List Char
  | [] => []
  | v :: rest => ',' :: newline depth ++ value depth v ++ items depth rest

def fields (depth : Nat) : List (String × Value) → List Char
  | [] => []
  | (key, v) :: rest =>
    ',' :: newline depth ++ string key ++ ':' :: ' ' :: value depth v ++ fields depth rest

end

end Printer

def Value.print (v : Value) : String :=
  String.ofList (Printer.value 0 v)

end ApiStubs.Json
