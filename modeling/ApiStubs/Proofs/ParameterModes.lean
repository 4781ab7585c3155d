import ApiStubs.Proofs.Identifiers
import ApiStubs.Ts.Printer

/-!
# Modes of parameters

The modes of parameters are found from the last parameter to the first, with a flag that says
whether a required one follows.  Read from the front, a parameter may be left out exactly if neither
it nor one behind it is required (`getElem?_arrange`).

`Allowed` says what a signature demands of modes, whoever chose them.  The modes found are allowed
(`allowed_arrange`), and what any allowed modes leave out they leave out as well
(`Allowed.optional_of_optional`), so that no choice leaves more parameters out.

In TypeScript a parameter that may be left out has a `?` behind its identifier.  `isOmittable` reads
this off the written parameter, which does not depend on what its type looks like, since an
identifier has no `?` in it.  `Ts.most_parameters_omittable` states all of this of what is written.
-/

namespace ApiStubs

open List (Forall₂)

/-! ## The mode of one parameter -/

namespace ParameterMode

variable {follows isRequired : Bool}

theorem before_eq_required_iff : before follows isRequired = .required ↔ isRequired = true := by
  cases follows <;> cases isRequired <;> decide

theorem before_eq_nullable_iff :
    before follows isRequired = .nullable ↔ isRequired = false ∧ follows = true := by
  cases follows <;> cases isRequired <;> decide

theorem before_eq_optional_iff :
    before follows isRequired = .optional ↔ isRequired = false ∧ follows = false := by
  cases follows <;> cases isRequired <;> decide

end ParameterMode

section Arranged

variable {α : Type} {isRequired : α → Bool} {parameters : List α}

theorem snd_arrangeWith (parameters : List α) :
    (arrangeWith isRequired parameters).2 = parameters.any isRequired := by
  induction parameters with
  | nil => rfl
  | cons p rest ih => exact congrArg (isRequired p || ·) ih

theorem arrange_cons (p : α) (rest : List α) :
    arrange isRequired (p :: rest) =
      (p, .before (rest.any isRequired) (isRequired p)) :: arrange isRequired rest := by
  rw [← snd_arrangeWith]
  rfl

theorem getElem?_arrange (parameters : List α) (i : Nat) :
    (arrange isRequired parameters)[i]? = parameters[i]?.map fun p =>
      (p, .before ((parameters.drop (i + 1)).any isRequired) (isRequired p)) := by
  induction parameters generalizing i with
  | nil => rfl
  | cons p rest ih =>
      rw [arrange_cons]
      cases i with
      | zero => rfl
      | succ i => exact ih i

/-- The mode of a parameter by what stands behind it. -/
theorem mode_iff {i : Nat} {p : α} {mode : ParameterMode}
    (h : (arrange isRequired parameters)[i]? = some (p, mode)) :
    (mode = .required ↔ isRequired p) ∧
    (mode = .nullable ↔ ¬ isRequired p ∧ ∃ q ∈ parameters.drop (i + 1), isRequired q) ∧
    (mode = .optional ↔ ¬ isRequired p ∧ ∀ q ∈ parameters.drop (i + 1), ¬ isRequired q) := by
  rw [getElem?_arrange] at h
  obtain ⟨q, _, hq⟩ := Option.map_eq_some_iff.mp h
  obtain ⟨rfl, rfl⟩ := Prod.mk.inj hq
  rw [Bool.not_eq_true, ← List.any_eq_true, ← List.any_eq_false]
  exact ⟨ParameterMode.before_eq_required_iff, ParameterMode.before_eq_nullable_iff,
    ParameterMode.before_eq_optional_iff⟩

/-! ## Modes that a signature may have -/

/-- `Allowed isRequired parameters modes`: the modes keep required parameters required, and behind a
parameter that may be left out there are only such. -/
structure Allowed (isRequired : α → Bool) (parameters : List α) (modes : List ParameterMode) :
    Prop where
  required : Forall₂ (fun p mode => isRequired p → mode = .required) parameters modes
  last : modes.Pairwise fun mode mode' => mode = .optional → mode' = .optional

/-- Where nothing is required everything may be left out. -/
theorem eq_optional_of_mem_arrange (none : parameters.any isRequired = false) :
    ∀ mode ∈ (arrange isRequired parameters).map (·.2), mode = .optional := by
  induction parameters with
  | nil => exact fun _ h => absurd h List.not_mem_nil
  | cons p rest ih =>
      rw [List.any_cons, Bool.or_eq_false_iff] at none
      intro mode hmode
      rw [arrange_cons, List.map_cons] at hmode
      rcases List.mem_cons.mp hmode with rfl | hmode
      · exact ParameterMode.before_eq_optional_iff.mpr none
      · exact ih none.2 mode hmode

theorem allowed_arrange (isRequired : α → Bool) (parameters : List α) :
    Allowed isRequired parameters ((arrange isRequired parameters).map (·.2)) := by
  induction parameters with
  | nil => exact ⟨.nil, .nil⟩
  | cons p rest ih =>
      rw [arrange_cons, List.map_cons]
      refine ⟨.cons ParameterMode.before_eq_required_iff.mpr ih.required, ?_⟩
      refine List.pairwise_cons.mpr ⟨fun mode hmode hfirst => ?_, ih.last⟩
      exact eq_optional_of_mem_arrange (ParameterMode.before_eq_optional_iff.mp hfirst).2 mode hmode

namespace Allowed

/-- Behind a parameter that allowed modes leave out nothing is required. -/
theorem any_eq_false {mode : ParameterMode} {p : α} {modes : List ParameterMode}
    (h : Allowed isRequired (p :: parameters) (mode :: modes)) (hmode : mode = .optional) :
    parameters.any isRequired = false := by
  refine List.any_eq_false.mpr fun q hq hrequired => ?_
  obtain ⟨mode', hmem, hkept⟩ :=
    exists_left_of_forall₂ (List.forall₂_cons.mp h.required).2.flip hq
  have hoptional := (List.pairwise_cons.mp h.last).1 mode' hmem hmode
  exact absurd ((hkept hrequired).symm.trans hoptional) (by decide)

/-- What allowed modes leave out may be left out in the arrangement as well. -/
theorem optional_of_optional {modes : List ParameterMode}
    (h : Allowed isRequired parameters modes) :
    Forall₂ (fun mode mode' => mode = .optional → mode' = .optional) modes
      ((arrange isRequired parameters).map (·.2)) := by
  induction parameters generalizing modes with
  | nil =>
      cases h.required with
      | nil => exact .nil
  | cons p rest ih =>
      obtain ⟨required, last⟩ := h
      cases required with
      | @cons _ mode _ modes hp hrest =>
          rw [arrange_cons, List.map_cons]
          refine .cons (fun hmode => ?_) (ih ⟨hrest, (List.pairwise_cons.mp last).2⟩)
          refine ParameterMode.before_eq_optional_iff.mpr
            ⟨?_, any_eq_false ⟨.cons hp hrest, last⟩ hmode⟩
          refine Bool.eq_false_iff.mpr fun hrequired => ?_
          exact absurd ((hp hrequired).symm.trans hmode) (by decide)

end Allowed

end Arranged

theorem countP_le_of_forall₂ {β γ : Type} {f : β → Bool} {g : γ → Bool} {bs : List β} {cs : List γ}
    (h : Forall₂ (fun b c => f b → g c) bs cs) : bs.countP f ≤ cs.countP g := by
  induction h with
  | nil => exact Nat.le_refl _
  | @cons b c _ _ hbc _ ih =>
      rw [List.countP_cons, List.countP_cons]
      by_cases hb : f b = true
      · rw [if_pos hb, if_pos (hbc hb)]
        omega
      · rw [if_neg hb]
        omega

/-! ## Written parameters -/

namespace Ts

open Text.Identifier (isPart)

/-- Whether a written parameter may be left out: a `?` stands behind its identifier. -/
def isOmittable (text : String) : Bool :=
  (text.toList.dropWhile isPart).head? = some '?'

/-- What stands right behind the identifier decides. -/
theorem isOmittable_of_identifier {text identifier : String}
    (parts : ∀ c ∈ identifier.toList, isPart c = true) (mark : Char) (rest : List Char)
    (hmark : isPart mark = false)
    (htext : text.toList = identifier.toList ++ mark :: rest) :
    isOmittable text = decide (mark = '?') := by
  unfold isOmittable
  rw [htext, List.dropWhile_append_of_pos parts, List.dropWhile_cons_of_neg (by simp [hmark])]
  simp

theorem isOmittable_text {p : StubParameter} (h : ∀ c ∈ p.identifier.toList, isPart c = true) :
    isOmittable p.text = decide (p.mode = .optional) := by
  unfold StubParameter.text
  cases p.mode with
  | required =>
      refine isOmittable_of_identifier h ':' (' ' :: (typeText p.type).toList) (by decide) ?_
      rw [String.toList_append, String.toList_append, List.append_assoc]
      rfl
  | nullable =>
      refine isOmittable_of_identifier h ':'
        (' ' :: (typeText p.type).toList ++ " | null".toList) (by decide) ?_
      rw [String.toList_append, String.toList_append, String.toList_append, List.append_assoc,
        List.append_assoc]
      rfl
  | optional =>
      refine isOmittable_of_identifier h '?'
        (':' :: ' ' :: (typeText p.type).toList) (by decide) ?_
      rw [String.toList_append, String.toList_append, List.append_assoc]
      rfl

variable (table : DeclarationTable) (route : Route)

theorem map_isOmittable_parameters :
    ((Stub.ofRoute table route).parameters.map StubParameter.text).map isOmittable =
      ((arrange (·.required) route.exposed).map (·.2)).map fun mode =>
        decide (mode = .optional) := by
  rw [← route.map_arranged_arguments .ts, List.map_map, List.map_map, List.map_map]
  unfold Stub.ofRoute
  rw [List.map_map]
  refine List.map_congr_left fun a ha => ?_
  exact isOmittable_text (Route.isPart_of_mem_identifier ha)

theorem isOmittable_settings : isOmittable settingsParameter = true := by
  decide

/-- Behind a written parameter that may be left out all may, up to the settings. -/
theorem pairwise_isOmittable {shown : List String} {modes : List ParameterMode}
    (hshown : shown.map isOmittable = modes.map fun mode => decide (mode = .optional))
    (last : modes.Pairwise fun mode mode' => mode = .optional → mode' = .optional) :
    (shown ++ [settingsParameter]).Pairwise fun s s' => isOmittable s → isOmittable s' := by
  have hpairs : (shown.map isOmittable).Pairwise fun b b' => b = true → b' = true := by
    rw [hshown, List.pairwise_map]
    simpa using last
  refine List.pairwise_append.mpr
    ⟨List.pairwise_map.mp hpairs, List.pairwise_singleton _ _, ?_⟩
  intro _ _ s' hs' _
  rw [List.mem_singleton.mp hs']
  exact isOmittable_settings

theorem count_optional_le {shown : List String} {modes chosen : List ParameterMode}
    (hshown : shown.map isOmittable = modes.map fun mode => decide (mode = .optional))
    (h : Forall₂ (fun mode mode' => mode = .optional → mode' = .optional) chosen modes) :
    chosen.count .optional ≤ shown.countP isOmittable := by
  have hcount : shown.countP isOmittable = modes.countP fun mode => decide (mode = .optional) := by
    have hsame := congrArg (List.countP id) hshown
    rwa [List.countP_map, List.countP_map] at hsame
  rw [hcount, List.count]
  exact countP_le_of_forall₂ (h.imp fun mode mode' himp => by simpa using himp)

/-- Parameters are arranged as they are, each with the mode that it has by the parameters behind it.
A stub is written with one parameter for each one that callers pass, in this arrangement, and with
the settings behind them.  No parameter that may be left out stands before one that may not; and
the modes are such that no others which a signature may have leave out more. -/
theorem most_parameters_omittable (parameters : List Parameter) :
    ((arrange (·.required) parameters).map (·.1) = parameters ∧
      ∀ i p mode, (arrange (·.required) parameters)[i]? = some (p, mode) →
        (mode = .required ↔ p.required) ∧
        (mode = .nullable ↔ ¬ p.required ∧ ∃ q ∈ parameters.drop (i + 1), q.required) ∧
        (mode = .optional ↔ ¬ p.required ∧ ∀ q ∈ parameters.drop (i + 1), ¬ q.required)) ∧
    ∃ shown : List String,
      (Stub.ofRoute table route).parameterList = shown ++ [settingsParameter] ∧
      shown.map isOmittable = ((arrange (·.required) route.exposed).map (·.2)).map (fun mode =>
        decide (mode = .optional)) ∧
      isOmittable settingsParameter ∧
      (shown ++ [settingsParameter]).Pairwise (fun s s' => isOmittable s → isOmittable s') ∧
      Allowed (·.required) route.exposed ((arrange (·.required) route.exposed).map (·.2)) ∧
      ∀ modes, Allowed (·.required) route.exposed modes →
        modes.count .optional ≤ shown.countP isOmittable := by
  refine ⟨⟨map_fst_arrange _ parameters, fun i p mode h => mode_iff h⟩, ?_⟩
  have allowed := allowed_arrange (·.required) route.exposed
  have hshown := map_isOmittable_parameters table route
  refine ⟨_, rfl, hshown, isOmittable_settings, pairwise_isOmittable hshown allowed.last, allowed,
    fun modes h => ?_⟩
  exact count_optional_le hshown h.optional_of_optional

/-- A stub for which callers pass a filter, a page and a limit, but not the locale. -/
def listing : Route where
  bean := "Loader"
  name := "list"
  uniqueName := "list"
  method := "GET"
  pattern := "/"
  mapped := true
  contentType := none
  description := ""
  returnType := none
  parameters :=
    [⟨"filter", none, false, some ⟨.query, some "filter"⟩, ""⟩,
     ⟨"page", none, true, some ⟨.query, some "page"⟩, ""⟩,
     ⟨"locale", none, false, none, ""⟩,
     ⟨"limit", none, false, some ⟨.query, some "limit"⟩, ""⟩]

/-- The page is required, so that only what stands behind it may be left out. -/
theorem most_parameters_omittable_listing :
    (Stub.ofRoute .empty listing).parameterList =
      ["filter: unknown | null", "page: unknown", "limit?: unknown",
       "settings?: Partial<Settings>"] ∧
    Allowed (·.required) listing.exposed [.nullable, .required, .nullable] ∧
    [ParameterMode.nullable, .required, .nullable].count .optional ≤
      ["filter: unknown | null", "page: unknown", "limit?: unknown"].countP isOmittable ∧
    (arrange (·.required) listing.exposed)[0]? = some (listing.parameters[0], .nullable) ∧
    ¬ listing.parameters[0].required ∧ ∃ q ∈ listing.exposed.drop 1, q.required := by
  have hlist : (Stub.ofRoute .empty listing).parameterList =
      ["filter: unknown | null", "page: unknown", "limit?: unknown"] ++ [settingsParameter] := by
    decide +kernel
  have chosen : Allowed (·.required) listing.exposed [.nullable, .required, .nullable] := by
    refine ⟨?_, by decide⟩
    exact .cons nofun (.cons (fun _ => rfl) (.cons nofun .nil))
  have filter : (arrange (·.required) listing.exposed)[0]? =
      some (listing.parameters[0], .nullable) := rfl
  obtain ⟨⟨_, mode_iff⟩, shown, hparameters, _, _, _, _, most⟩ :=
    most_parameters_omittable .empty listing listing.exposed
  have hshown : shown = ["filter: unknown | null", "page: unknown", "limit?: unknown"] :=
    List.append_cancel_right (hparameters.symm.trans hlist)
  obtain ⟨_, nullable_iff, _⟩ := mode_iff 0 _ _ filter
  exact ⟨hlist, chosen, hshown ▸ most _ chosen, filter, nullable_iff.mp rfl⟩

end Ts

end ApiStubs
