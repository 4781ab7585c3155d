import ApiStubs.Annotations.Record

/-!
# Request mappings

The annotations that expose a route: they give its method, pattern and content type.
-/

namespace ApiStubs

/-- What a mapping annotation says. -/
structure RequestMapping where
  method : Option String
  pattern : String
  consumes : Option String

namespace RequestMapping

/-- The mapping annotations in order of preference, with the method that each stands for. -/
def rules : List (String × Option String) :=
  [("org.springframework.web.bind.annotation.GetMapping", some "GET"),
   ("org.springframework.web.bind.annotation.PostMapping", some "POST"),
   ("org.springframework.web.bind.annotation.PutMapping", some "PUT"),
   ("org.springframework.web.bind.annotation.DeleteMapping", some "DELETE"),
   ("org.springframework.web.bind.annotation.PatchMapping", some "PATCH"),
   ("org.springframework.web.bind.annotation.RequestMapping", none)]

/-- The method in upper case and without what qualifies it. -/
def normalMethod (method : String) : String :=
  Text.toUpper (String.ofList (method.toList.reverse.takeWhile (· ≠ '.')).reverse)

/-- The mapping that a record holds, if its type stands for `method`. -/
def ofRecord (method : Option String) (record : AnnotationRecord) : RequestMapping where
  method := method.or ((record.text? "method").map normalMethod)
  pattern := ((record.text? "path").or (record.text? "value")).getD ""
  consumes := record.text? "consumes"

/-- The mapping of the first rule whose annotation is there. -/
def ofRecords? (records : List AnnotationRecord) : Option RequestMapping :=
  rules.findSome? fun rule => (AnnotationRecord.find? rule.1 records).map (ofRecord rule.2)

end RequestMapping

end ApiStubs
