/-!
# Grouping

Items collected by a key.  Groups come in the order in which their keys first appear, and the items
of a group in the order in which they were given.
-/

namespace ApiStubs

variable {α : Type}

def addToGroup (key : String) (item : α) : List (String × List α) → List (String × List α)
  | [] => [(key, [item])]
  | (k, items) :: rest =>
    if k = key then (k, items ++ [item]) :: rest else (k, items) :: addToGroup key item rest

def groupBy (key : α → String) (items : List α) : List (String × List α) :=
  items.foldl (fun groups item => addToGroup (key item) item groups) []

end ApiStubs
