import ApiStubs.Json.Value
import ApiStubs.Text.LetterCase

/-!
# Annotation records

The framework annotations attached to routes, parameters and declarations: a type and a bag of
attributes.  Records that are not well formed are left out, and an attribute whose value has the
wrong shape counts as missing.
-/

namespace ApiStubs

structure AnnotationRecord where
  type : String
  attributes : List (String × Json.Value)

namespace AnnotationRecord

/-- The record that a value describes: an object with a type. -/
def ofJson? (v : Json.Value) : Option AnnotationRecord :=
  match v.field? "type" with
  | some (.string type) =>
    match v.field? "attributes" with
    | some (.object attributes) => some ⟨type, attributes⟩
    | _ => some ⟨type, []⟩
  | _ => none

/-- The well-formed records of a list; none of any other value. -/
def listOfJson (v : Option Json.Value) : List AnnotationRecord :=
  (v.getD .null).items.filterMap ofJson?

def attribute? (record : AnnotationRecord) (name : String) : Option Json.Value :=
  record.attributes.lookup name

def find? (type : String) (records : List AnnotationRecord) : Option AnnotationRecord :=
  records.find? (·.type = type)

/-- The text of an attribute that is a string or a list that starts with one; an empty text counts
as missing. -/
def textOf? : Json.Value → Option String
  | .string s => if s.isEmpty then none else some s
  | .array (.string s :: _) => if s.isEmpty then none else some s
  | _ => none

def text? (record : AnnotationRecord) (name : String) : Option String :=
  (record.attribute? name).bind textOf?

/-- The truth value of an attribute that is one or spells one in any letter case. -/
def flagOf? : Json.Value → Option Bool
  | .bool b => some b
  | .string s =>
    let word := Text.toAsciiLower s
    if word = "true" then some true else if word = "false" then some false else none
  | _ => none

def flag? (record : AnnotationRecord) (name : String) : Option Bool :=
  (record.attribute? name).bind flagOf?

end AnnotationRecord

end ApiStubs
