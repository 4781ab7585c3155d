import ApiStubs.Text.Hex
import ApiStubs.Text.Printable

/-!
# Quoted texts

A text shown to a reader stands between quotes and keeps to printable characters.  The quotes are
single ones, unless the text holds a single quote and no double one.
-/

namespace ApiStubs.Text.Quoted

/-- The quote that goes around a text. -/
def mark (cs : List Char) : Char :=
  if cs.contains '\'' && !cs.contains '\"' then '\"' else '\''

/-- The escape of a character that is not printable: the shortest of `\xNN`, `\uNNNN` and
`\UNNNNNNNN` that holds its code point. -/
def codeEscape (c : Char) : List Char :=
  if c.toNat < 0x100 then '\\' :: 'x' :: Hex.fixed 2 c.toNat
  else if c.toNat < 0x10000 then '\\' :: 'u' :: Hex.fixed 4 c.toNat
  else '\\' :: 'U' :: Hex.fixed 8 c.toNat

def escape (quote c : Char) : List Char :=
  if c = quote || c = '\\' then ['\\', c]
  else if c = '\n' then ['\\', 'n']
  else if c = '\r' then ['\\', 'r']
  else if c = '\t' then ['\\', 't']
  else if isPrintable c then [c]
  else codeEscape c

def encode (cs : List Char) : List Char :=
  mark cs :: cs.flatMap (escape (mark cs)) ++ [mark cs]

end ApiStubs.Text.Quoted

namespace ApiStubs.Text

/-- The text between quotes, with escapes for what is not printable. -/
def quoted (s : String) : String :=
  String.ofList (Quoted.encode s.toList)

end ApiStubs.Text
