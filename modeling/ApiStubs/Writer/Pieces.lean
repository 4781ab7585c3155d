import ApiStubs.Writer.Op

/-!
# Pieces of generated files

The operations that generated files are made of.
-/

namespace ApiStubs.WriteOp

/-- Writes texts, one after the other. -/
def texts (ss : List String) : WriteOp :=
  write (ss.map .text)

def text (s : String) : WriteOp :=
  texts [s]

/-- Writes a comment, unless its text is empty. -/
def note (s : String) : List WriteOp :=
  if s.isEmpty then [] else [comment [text s]]

def memoText (memo : String) : String :=
  String.ofList (Text.onOneLine (Text.trim memo.toList))

/-- Puts a memo behind the last line, unless it is empty. -/
def memo (s : String) : List WriteOp :=
  if s.isEmpty then [] else [amend fun line => some (line ++ " // " ++ memoText s)]

end ApiStubs.WriteOp
