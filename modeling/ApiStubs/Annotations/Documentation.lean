import ApiStubs.Annotations.Record

/-!
# Documentation and constraint annotations

What annotations say about the thing they stand on, apart from how requests reach it: its
description, and whether its value may be null.
-/

namespace ApiStubs

/-- The annotation types and attributes that hold a description, in order of preference. -/
def descriptionRules : List (String × String) :=
  [("io.swagger.annotations.ApiOperation", "value"),
   ("io.swagger.v3.oas.annotations.Operation", "summary"),
   ("io.swagger.v3.oas.annotations.Operation", "description"),
   ("io.swagger.annotations.ApiParam", "value"),
   ("io.swagger.v3.oas.annotations.Parameter", "description"),
   ("io.swagger.annotations.ApiModel", "description"),
   ("io.swagger.annotations.ApiModel", "value"),
   ("io.swagger.annotations.ApiModelProperty", "value"),
   ("io.swagger.v3.oas.annotations.media.Schema", "description"),
   ("io.swagger.v3.oas.annotations.media.Schema", "title")]

/-- The annotation types that forbid null. -/
def notNullTypes : List String :=
  ["javax.validation.constraints.NotNull",
   "javax.validation.constraints.NotEmpty",
   "javax.validation.constraints.NotBlank",
   "jakarta.validation.constraints.NotNull",
   "jakarta.validation.constraints.NotEmpty",
   "jakarta.validation.constraints.NotBlank",
   "org.springframework.lang.NonNull",
   "lombok.NonNull"]

namespace AnnotationRecord

/-- The description that annotations hold, by the first rule that finds one; else empty. -/
def documentation (records : List AnnotationRecord) : String :=
  (descriptionRules.findSome? fun rule =>
    (find? rule.1 records).bind (·.text? rule.2)).getD ""

/-- The description of a thing: the one given with it, else the one that its annotations hold. -/
def description (records : List AnnotationRecord) (explicit : Option Json.Value) : String :=
  match explicit with
  | some (.string s) => if s.isEmpty then documentation records else s
  | _ => documentation records

def forbidsNull (records : List AnnotationRecord) : Bool :=
  records.any fun record => notNullTypes.contains record.type

end AnnotationRecord

end ApiStubs
