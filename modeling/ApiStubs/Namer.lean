/-!
# Distinct names

Names handed out one after the other so that none comes twice.  A name that is taken gets a
separator and the least number that makes it free.
-/

namespace ApiStubs

/-- What has been handed out, and for a name the number that its last repetition got. -/
structure Namer where
  separator : String
  taken : List String
  counters : List (String × Nat)

namespace Namer

def new (separator : String) : Namer := ⟨separator, [], []⟩

def numbered (namer : Namer) (name : String) (n : Nat) : String :=
  name ++ namer.separator ++ toString n

/-- The number that the last repetition of a name got, and zero before its first. -/
def counter (namer : Namer) (name : String) : Nat :=
  (namer.counters.lookup name).getD 0

/-- The least number above `start` that makes a name free.  Among one more candidates than there
are names taken one is always free. -/
def freeNumber (namer : Namer) (name : String) (start : Nat) : Nat :=
  ((List.range' (start + 1) (namer.taken.length + 1)).find? fun n =>
    !namer.taken.contains (namer.numbered name n)).getD (start + namer.taken.length + 1)

/-- Hands out a name, or the next free variant of it. -/
def take (namer : Namer) (name : String) : String × Namer :=
  if namer.taken.contains name then
    let n := namer.freeNumber name (namer.counter name)
    let variant := namer.numbered name n
    (variant, ⟨namer.separator, variant :: namer.taken, (name, n) :: namer.counters⟩)
  else
    (name, { namer with taken := name :: namer.taken })

def takeAll (namer : Namer) : List String → List String × Namer
  | [] => ([], namer)
  | name :: rest =>
    let (first, namer) := namer.take name
    let (others, namer) := namer.takeAll rest
    (first :: others, namer)

end Namer

end ApiStubs
