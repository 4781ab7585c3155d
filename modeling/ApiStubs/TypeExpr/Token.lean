import ApiStubs.Text.Blank

/-!
# Tokens of type expressions

The written form of a type consists of names and the marks `<`, `>`, `,`, `?` and `[]`.  Blanks
only separate names, and a square bracket that is not part of `[]` does the same.
-/

namespace ApiStubs.TypeExpr

/-- A token of a type expression. -/
inductive Token where
  | less | greater | comma | question | brackets
  | word (s : String)
deriving DecidableEq

namespace Token

def text : Token → String
  | less => "<"
  | greater => ">"
  | comma => ","
  | question => "?"
  | brackets => "[]"
  | word s => s

def ofMark? (c : Char) : Option Token :=
  if c = '<' then some less
  else if c = '>' then some greater
  else if c = ',' then some comma
  else if c = '?' then some question
  else none

/-- Whether a character ends a name without being a token. -/
def isGap (c : Char) : Bool :=
  Text.isBlank c || c = '[' || c = ']'

/-- The name that a run of characters forms, given last one first. -/
def flush (word : List Char) : List Token :=
  if word.isEmpty then [] else [.word (String.ofList word.reverse)]

/-- The tokens of a text whose first name starts with the characters of `word`, last one first. -/
def scanFrom (word : List Char) : List Char → List Token
  | [] => flush word
  | '[' :: ']' :: rest => flush word ++ brackets :: scanFrom [] rest
  | c :: rest =>
    if isGap c then flush word ++ scanFrom [] rest
    else match ofMark? c with
      | some token => flush word ++ token :: scanFrom [] rest
      | none => scanFrom (c :: word) rest

def scan (cs : List Char) : List Token :=
  scanFrom [] cs

end Token

end ApiStubs.TypeExpr
