import ApiStubs.Json.Value
import ApiStubs.Text.Blank
import ApiStubs.Text.Line

/-!
# The line writer

Text grows line by line under a stack of margins: a block pushes the indent unit and a comment the
text that continues it, so that comments inside blocks line up by themselves.  A line that shows
nothing is written as the margin without the blanks at its end, and no stored line holds a line
break unless an amendment puts one there.
-/

namespace ApiStubs

/-- The three texts of a comment: the line that opens it, the margin of its lines, and the line
that closes it. -/
structure CommentStyle where
  opening : String
  margin : String
  closing : String

/-- What stays the same while text is written. -/
structure WriterStyle where
  indentUnit : String
  comment : CommentStyle

/-- Two spaces for a block, and documentation comments. -/
def WriterStyle.standard : WriterStyle :=
  ⟨"  ", ⟨"/**", " * ", " */"⟩⟩

/-- The text written so far and the margins under which it goes on, the outermost first. -/
structure Writer where
  style : WriterStyle
  margins : List String
  lines : Array String

namespace Writer

/-- The writer before the first line. -/
def new (style : WriterStyle) : Writer := ⟨style, [], #[]⟩

def depth (w : Writer) : Nat := w.margins.length

def last? (w : Writer) : Option String := w.lines.back?

/-- A line under a margin. -/
def indent (margin line : List Char) : List Char :=
  if Text.isBlankText line then Text.trimEnd margin else margin ++ line

/-- The lines of a text under a margin. -/
def indentLines (margin : String) (text : String) : List String :=
  (Text.splitLines text.toList).map fun line => String.ofList (indent margin.toList line)

/-- The writer after a text, which takes one line more than it has line breaks. -/
def writeText (w : Writer) (text : String) : Writer :=
  { w with lines := w.lines ++ (indentLines (String.join w.margins) text).toArray }

/-- The writer under one more margin. -/
def push (w : Writer) (margin : String) : Writer :=
  { w with margins := w.margins ++ [margin] }

/-- The writer without the innermost margin. -/
def pop (w : Writer) : Writer :=
  { w with margins := w.margins.dropLast }

def text (w : Writer) : String :=
  "\n".intercalate w.lines.toList

end Writer

end ApiStubs
