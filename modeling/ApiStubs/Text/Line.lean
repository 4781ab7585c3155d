/-!
# Lines

A text is cut into lines at each line break.  There are three spellings of a break, CR LF, CR and
LF, and the first is one break and not two, so cutting is not a homomorphism: a CR that ends one
half of a text and an LF that starts the other belong together.
-/

namespace ApiStubs.Text

/-- The lines of a text whose first line starts with the characters of `line`, last one first. -/
def linesFrom (line : List Char) : List Char → List (List Char)
  | [] => [line.reverse]
  | '\r' :: '\n' :: rest => line.reverse :: linesFrom [] rest
  | '\r' :: rest => line.reverse :: linesFrom [] rest
  | '\n' :: rest => line.reverse :: linesFrom [] rest
  | c :: rest => linesFrom (c :: line) rest

/-- The lines of a text, one more than it has breaks. -/
def splitLines (cs : List Char) : List (List Char) :=
  linesFrom [] cs

/-- The lines of a text as texts of their own. -/
def lines (s : String) : List String :=
  (splitLines s.toList).map String.ofList

/-- The text on one line: every break becomes a space. -/
def onOneLine (cs : List Char) : List Char :=
  [' '].intercalate (splitLines cs)

end ApiStubs.Text
