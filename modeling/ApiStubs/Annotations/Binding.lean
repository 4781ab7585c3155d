import ApiStubs.Annotations.Record
import ApiStubs.Declaration.Table
import ApiStubs.Route

/-!
# Parameter bindings

How a parameter is bound to the request: by its first binding annotation in the order of the rules,
else by the policy of its method for single values or for structured ones.
-/

namespace ApiStubs

/-- The families of binding annotations. -/
inductive BindingKind where
  | query | path | body | form | cookie | header | part
deriving DecidableEq

/-- How the value of a parameter of each family is attached. -/
def BindingKind.actionKind : BindingKind → ActionKind
  | query => .query
  | path => .path
  | body => .body
  | form => .form
  | cookie => .cookie
  | header => .header
  | part => .file

/-- The binding of a parameter. -/
structure Binding where
  kind : BindingKind
  key : String
  required : Bool
  defaultValue : Option String

/-- The bindings of parameters without a binding annotation: for a method, the one of single
values and the one of structured values. -/
structure BindingPolicy where
  entries : List (String × BindingKind × BindingKind)

namespace BindingPolicy

/-- Single values go to the query and structured ones to the form. -/
def fallback : BindingKind × BindingKind := (.query, .form)

/-- The policy where none is given. -/
def standard : BindingPolicy :=
  ⟨["GET", "HEAD", "DELETE", "OPTIONS", "POST", "PUT", "PATCH"].map (·, fallback)⟩

/-- The entry of a method in any letter case. -/
def ofMethod (policy : BindingPolicy) (method : String) : BindingKind × BindingKind :=
  (policy.entries.lookup (Text.toUpper method)).getD fallback

end BindingPolicy

/-- Whether a type is that of a single request value. -/
def TypeExpr.isScalar (table : DeclarationTable) (t : TypeExpr) : Bool :=
  t.kind.isNumeric || t.kind = .text || t.kind = .bool || t.kind = .fileUpload ||
    (t.kind = .declared && ((t.declaration? table).bind Declaration.enum?).isSome)

namespace Binding

/-- The binding annotations in order of preference. -/
def rules : List (String × BindingKind) :=
  [("org.springframework.web.bind.annotation.RequestParam", .query),
   ("org.springframework.web.bind.annotation.PathVariable", .path),
   ("org.springframework.web.bind.annotation.RequestBody", .body),
   ("org.springframework.web.bind.annotation.ModelAttribute", .form),
   ("org.springframework.web.bind.annotation.CookieValue", .cookie),
   ("org.springframework.web.bind.annotation.RequestHeader", .header),
   ("org.springframework.web.bind.annotation.RequestPart", .part)]

/-- The default value that stands for having none. -/
def noDefault : String :=
  "\n\t\t\n\t\t\n\uE000\uE001\uE002\n\t\t\t\t\n"

/-- The default value of a record, if it holds one. -/
def defaultOf? (record : AnnotationRecord) : Option String :=
  match record.attribute? "defaultValue" with
  | some (.string s) => if s = noDefault then none else some s
  | _ => none

def ofRecord (name : String) (kind : BindingKind) (record : AnnotationRecord) : Binding where
  kind := kind
  key := ((record.text? "name").or (record.text? "value")).getD name
  required := (record.flag? "required").getD true
  defaultValue := if kind = .query then defaultOf? record else none

/-- The binding of the first rule whose annotation is there. -/
def ofRecords? (name : String) (records : List AnnotationRecord) : Option Binding :=
  rules.findSome? fun rule =>
    (AnnotationRecord.find? rule.1 records).map (ofRecord name rule.2)

def ofPolicy (policy : BindingPolicy) (table : DeclarationTable) (method name : String)
    (type : Option TypeExpr) : Binding where
  kind :=
    let entry := policy.ofMethod method
    if type.any (·.isScalar table) then entry.1 else entry.2
  key := name
  required := false
  defaultValue := none

/-- How the value of a bound parameter is attached: as its family says, but a file that is bound
to the query is attached as a file. -/
def actionKind (binding : Binding) (type : Option TypeExpr) : ActionKind :=
  if binding.kind.actionKind = .query && type.any (·.kind = .fileUpload) then .file
  else binding.kind.actionKind

def action (binding : Binding) (type : Option TypeExpr) : Action :=
  let kind := binding.actionKind type
  ⟨kind, if kind.isNamed then some binding.key else none⟩

end Binding

end ApiStubs
