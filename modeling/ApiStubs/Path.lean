import ApiStubs.Text.Split

/-!
# Paths

Paths of files as settings and arguments write them.  Repeated slashes, single dots and a slash at
the end say nothing and are dropped; two dots stay, since what they mean depends on the files.
-/

namespace ApiStubs

/-- A path: its root, which is empty for a relative one, and its parts. -/
structure Path where
  root : String
  parts : List String
deriving DecidableEq

namespace Path

/-- The root of a text: exactly two slashes at the start are a root of their own. -/
def rootOf : List Char → String
  | '/' :: '/' :: '/' :: _ => "/"
  | '/' :: '/' :: _ => "//"
  | '/' :: _ => "/"
  | _ => ""

def ofString (s : String) : Path :=
  let parts := (Text.splitAtEach '/' s.toList).map String.ofList
  ⟨rootOf s.toList, parts.filter fun p => p ≠ "" && p ≠ "."⟩

def text (p : Path) : String :=
  if p.root = "" && p.parts.isEmpty then "." else p.root ++ "/".intercalate p.parts

def join (directory p : Path) : Path :=
  if p.root = "" then ⟨directory.root, directory.parts ++ p.parts⟩ else p

/-- The directory of a path; that of a root is itself. -/
def parent (p : Path) : Path :=
  ⟨p.root, p.parts.dropLast⟩

end Path

end ApiStubs
