import ApiStubs.Proofs.Decoding

/-!
# What a graph lacks

`offences raw` lists the fields that a value lacks as a graph: the routes, and the names of records,
in the order of the lists and within a record its own name before the names inside it.  It says
nothing of how a graph is decoded.  `fault?_decode` states that decoding fails with the first of
these fields, and succeeds if there is none.
-/

namespace ApiStubs.Graph

open Json (Value)

/-- The field that a record lacks if it is no object, or has as its name no text that is not
empty. -/
def unnamed (path : String) (v : Value) : List String :=
  match v.field? "name" with
  | some (.string s) => if s = "" then [path ++ ".name"] else []
  | _ => [path ++ ".name"]

/-- The fields that the items of a list lack. -/
def lacking (offences : Nat → Value → List String) (items : List Value) : List String :=
  items.zipIdx.flatMap fun item => offences item.2 item.1

/-- The fields that a record lacks: its own name, and the names of the items of a list in it. -/
def unnamedWithin (path key : String) (v : Value) : List String :=
  unnamed path v ++
    lacking (fun j => unnamed (path ++ "." ++ element key j)) (v.itemsOf key)

/-- The fields that a value lacks as a graph. -/
def offences (raw : Value) : List String :=
  (if (raw.itemsOf "routes").isEmpty then ["routes"] else []) ++
    (lacking (fun i => unnamedWithin (element "classes" i) "members") (raw.itemsOf "classes") ++
      (lacking (fun i => unnamedWithin (element "enums" i) "constants") (raw.itemsOf "enums") ++
        lacking (fun i => unnamed (element "routes" i)) (raw.itemsOf "routes")))

/-! ## The first fault -/

/-- The field with which decoding fails. -/
def fault? {α : Type} : Except Missing α → Option String
  | .ok _ => none
  | .error m => some m.field

variable {α β : Type}

theorem fault?_eq (x : Except Missing α) : fault? x = (error? x).map (·.field) := by
  cases x with
  | error m => rfl
  | ok a => rfl

/-- The faults of two steps, one after the other. -/
theorem fault?_bind {x : Except Missing α} {f : α → Except Missing β} {first rest : List String}
    (hx : fault? x = first.head?) (hf : ∀ a, x = .ok a → fault? (f a) = rest.head?) :
    fault? (x >>= f) = (first ++ rest).head? := by
  rw [fault?_eq] at hx ⊢
  exact error?_bind hx fun a ha => fault?_eq (f a) ▸ hf a ha

theorem fault?_ok (a : α) : fault? (.ok a) = ([] : List String).head? := rfl

theorem fault?_name {missing : Missing} {path : String} (h : missing.field = path ++ ".name")
    (v : Value) : fault? (name missing v) = (unnamed path v).head? := by
  have hnone : fault? (.error missing : Except Missing String) = some (path ++ ".name") :=
    congrArg some h
  unfold name Value.text? unnamed
  cases v.field? "name" with
  | none => exact hnone
  | some w =>
      cases w with
      | string s =>
          by_cases he : s = ""
          · simp [he, hnone]
          · simp [he, fault?]
      | _ => exact hnone

/-- Decoding a list fails with what its first faulty item lacks. -/
theorem fault?_decodeAll {decode : Nat → Value → Except Missing α}
    {offences : Nat → Value → List String}
    (h : ∀ i v, fault? (decode i v) = (offences i v).head?) (items : List Value) :
    fault? (decodeAll decode 0 items) = (lacking offences items).head? := by
  suffices hs : ∀ i, fault? (decodeAll decode i items) =
      ((items.zipIdx i).flatMap fun item => offences item.2 item.1).head? from hs 0
  induction items with
  | nil => exact fun _ => rfl
  | cons v rest ih =>
      intro i
      rw [List.zipIdx_cons, List.flatMap_cons]
      refine fault?_bind (h i v) fun first _ => ?_
      rw [← List.append_nil (List.flatMap _ _)]
      exact fault?_bind (ih (i + 1)) fun others _ => fault?_ok _

/-! ## Records -/

theorem element_dot (path key : String) (i : Nat) :
    path ++ element ("." ++ key) i ++ ".name" = path ++ "." ++ element key i ++ ".name" := by
  simp [element, String.append_assoc]

section Records

variable {missing : Missing} {path : String} (h : missing.field = path ++ ".name")

include h

/-- A record of which only the name must be there. -/
theorem fault?_named (v : Value) (f : String → α) :
    fault? (name missing v >>= fun n => .ok (f n)) = (unnamed path v).head? := by
  rw [← List.append_nil (unnamed _ _)]
  exact fault?_bind (fault?_name h v) fun _ _ => fault?_ok _

/-- A record of which the name must be there, and the names of the items of a list in it. -/
theorem fault?_namedWithin {key : String} {decode : Nat → Value → Except Missing α}
    (hd : ∀ j w, fault? (decode j w) = (unnamed (path ++ "." ++ element key j) w).head?)
    (v : Value) (f : String → List α → β) :
    fault? (name missing v >>= fun n =>
        decodeAll decode 0 (v.itemsOf key) >>= fun items => .ok (f n items)) =
      (unnamedWithin path key v).head? := by
  refine fault?_bind (fault?_name h v) fun name _ => ?_
  rw [← List.append_nil (lacking _ _)]
  exact fault?_bind (fault?_decodeAll hd _) fun _ _ => fault?_ok _

end Records

theorem fault?_decodeClass (i : Nat) (v : Value) :
    fault? (decodeClass i v) = (unnamedWithin (element "classes" i) "members" v).head? := by
  refine fault?_namedWithin rfl (fun j w => ?_) v _
  have hfield : (Missing.memberName i j).field =
      element "classes" i ++ "." ++ element "members" j ++ ".name" :=
    element_dot (element "classes" i) "members" j
  exact fault?_named hfield w _

theorem fault?_decodeEnum (i : Nat) (v : Value) :
    fault? (decodeEnum i v) = (unnamedWithin (element "enums" i) "constants" v).head? := by
  refine fault?_namedWithin rfl (fun j w => ?_) v _
  have hfield : (Missing.constantName i j).field =
      element "enums" i ++ "." ++ element "constants" j ++ ".name" :=
    element_dot (element "enums" i) "constants" j
  exact fault?_named hfield w _

theorem fault?_decodeRoute (i : Nat) (v : Value) :
    fault? (decodeRoute i v) = (unnamed (element "routes" i) v).head? :=
  fault?_named rfl v _

/-! ## Graphs -/

theorem fault?_routeValues (raw : Value) :
    fault? (routeValues raw) =
      (if (raw.itemsOf "routes").isEmpty then ["routes"] else []).head? := by
  cases raw with
  | object fields =>
      show fault? (if _ then _ else _) = _
      split
      · rfl
      · rfl
  | _ => rfl

/-- Decoding fails with the first field that is missing. -/
theorem fault?_decode (raw : Value) : fault? (decode raw) = (offences raw).head? := by
  refine fault?_bind (fault?_routeValues raw) fun routes hroutes => ?_
  refine fault?_bind (fault?_decodeAll fault?_decodeClass _) fun classes _ => ?_
  refine fault?_bind (fault?_decodeAll fault?_decodeEnum _) fun enums _ => ?_
  rw [← List.append_nil (lacking _ _), ← (routeValues_eq_ok_iff.mp hroutes).2]
  exact fault?_bind (fault?_decodeAll fault?_decodeRoute _) fun _ _ => fault?_ok _

end ApiStubs.Graph
