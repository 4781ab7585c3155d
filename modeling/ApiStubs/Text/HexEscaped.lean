import ApiStubs.Text.Hex

/-!
# Single-quoted literals

A text as a literal between single quotes, in which a quote, a backslash and the two characters of
line breaks are written as `\xNN`.  Nothing that could end the literal stands in its body, and
reading the escapes back gives the text.
-/

namespace ApiStubs.Text.HexEscaped

/-- The characters that cannot stand in the body of the literal. -/
def needsEscape (c : Char) : Bool :=
  c = '\'' || c = '\\' || c = '\r' || c = '\n'

/-- One character of the body. -/
def escape (c : Char) : List Char :=
  if needsEscape c then '\\' :: 'x' :: Hex.fixed 2 c.toNat else [c]

/-- The body of the literal. -/
def encode (cs : List Char) : List Char :=
  cs.flatMap escape

/-- The text whose body this is; none if a backslash does not start a `\xNN`. -/
def decode : List Char → Option (List Char)
  | [] => some []
  | '\\' :: 'x' :: h :: l :: rest =>
    match Hex.value? h, Hex.value? l with
    | some high, some low => (decode rest).map (Char.ofNat (16 * high + low) :: ·)
    | _, _ => none
  | c :: rest => if c = '\\' then none else (decode rest).map (c :: ·)

end ApiStubs.Text.HexEscaped

namespace ApiStubs.Text

def singleQuoted (s : String) : String :=
  String.ofList ('\'' :: HexEscaped.encode s.toList ++ ['\''])

end ApiStubs.Text
