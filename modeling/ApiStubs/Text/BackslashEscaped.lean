/-!
# String object literals

A text as a literal between `@"` and `"`, in which a backslash and a double quote follow a
backslash and the two characters of line breaks are written `\r` and `\n`.
-/

namespace ApiStubs.Text.BackslashEscaped

/-- One character of the body of the literal. -/
def escape (c : Char) : List Char :=
  if c = '\\' then ['\\', '\\']
  else if c = '\"' then ['\\', '\"']
  else if c = '\r' then ['\\', 'r']
  else if c = '\n' then ['\\', 'n']
  else [c]

/-- The body of the literal. -/
def encode (cs : List Char) : List Char :=
  cs.flatMap escape

/-- The character that an escape letter stands for. -/
def meaning? (c : Char) : Option Char :=
  if c = '\\' || c = '\"' then some c
  else if c = 'r' then some '\r'
  else if c = 'n' then some '\n'
  else none

/-- The text whose body this is; none if a quote is bare or an escape is none of the four. -/
def decode : List Char → Option (List Char)
  | [] => some []
  | '\\' :: c :: rest =>
    match meaning? c with
    | some d => (decode rest).map (d :: ·)
    | none => none
  | c :: rest => if c = '\\' || c = '\"' then none else (decode rest).map (c :: ·)

end ApiStubs.Text.BackslashEscaped

namespace ApiStubs.Text

/-- The text as a string object literal. -/
def objectQuoted (s : String) : String :=
  String.ofList ('@' :: '\"' :: BackslashEscaped.encode s.toList ++ ['\"'])

end ApiStubs.Text
