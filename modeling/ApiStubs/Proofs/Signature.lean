import ApiStubs.Proofs.HandedOut
import ApiStubs.Signature

/-!
# The parameters of a stub

A stub has a parameter for each one that callers of its route pass, in their order, and no two of
them have the same identifier.
-/

namespace ApiStubs

theorem map_fst_arrange {α : Type} (isRequired : α → Bool) (parameters : List α) :
    (arrange isRequired parameters).map (·.1) = parameters := by
  unfold arrange
  induction parameters with
  | nil => rfl
  | cons p rest ih => exact congrArg (p :: ·) ih

namespace Route

variable (target : Target) (route : Route)

theorem length_identifiers : (route.identifiers target).length = route.exposed.length := by
  unfold identifiers
  rw [Namer.length_takeAll, List.length_map]

theorem nodup_identifiers : (route.identifiers target).Nodup :=
  Namer.nodup_takeAll target.separator _

theorem length_arranged :
    (arrange (·.required) route.exposed).length = (route.identifiers target).length := by
  have h := congrArg List.length (map_fst_arrange (·.required) route.exposed)
  rw [List.length_map] at h
  rw [h, length_identifiers]

theorem map_identifier_arguments :
    (route.arguments target).map (·.identifier) = route.identifiers target := by
  have h : (route.arguments target).map (·.identifier) = (route.identifiers target).map id :=
    map_zipWith_left (fun _ _ => rfl) (route.length_arranged target)
  rw [h, List.map_id]

theorem map_arranged_arguments : (route.arguments target).map (fun a => (a.parameter, a.mode)) =
    arrange (·.required) route.exposed :=
  map_zipWith_right (fun _ _ => rfl) (route.length_arranged target)

theorem map_parameter_arguments : (route.arguments target).map (·.parameter) = route.exposed := by
  rw [← map_fst_arrange (·.required) route.exposed, ← route.map_arranged_arguments target,
    List.map_map]
  rfl

end Route

end ApiStubs
