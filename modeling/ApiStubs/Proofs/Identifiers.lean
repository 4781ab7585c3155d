import ApiStubs.Proofs.Assembled
import ApiStubs.Proofs.Signature
import Mathlib

/-!
# Identifiers and names handed out

What a name looks like that has gone through repair, camel case and a namer.  A namer gives a name
back as it is or with a separator and a number behind it (`Variant`), so that a name keeps the start
that it had and gets no characters but those of the separator and digits.

The identifier of a module does not start with a capital, whatever the bean is called
(`not_startsUpper_identifier`).  In upper camel case, where no number was added, it is the name of
the module with its first letter in upper case (`upperCamel_moduleIdentifier`), and this can be
undone (`uncapitalize_capitalize`).
-/

namespace ApiStubs

theorem exists_left_of_forall₂ {α β : Type} {R : α → β → Prop} {as : List α} {bs : List β}
    (h : List.Forall₂ R as bs) {b : β} (hb : b ∈ bs) : ∃ a ∈ as, R a b := by
  induction h with
  | nil => exact absurd hb List.not_mem_nil
  | @cons a _ as _ hab _ ih =>
      rcases List.mem_cons.mp hb with rfl | hb
      · exact ⟨a, List.mem_cons_self, hab⟩
      · obtain ⟨a, ha, h⟩ := ih hb
        exact ⟨a, List.mem_cons_of_mem _ ha, h⟩

theorem exists_right_of_forall₂ {α β : Type} {R : α → β → Prop} {as : List α} {bs : List β}
    (h : List.Forall₂ R as bs) {a : α} (ha : a ∈ as) : ∃ b ∈ bs, R a b :=
  exists_left_of_forall₂ (R := flip R) h.flip ha

theorem exists_forall₂ {α β : Type} {R : α → β → Prop} {as : List α}
    (h : ∀ a ∈ as, ∃ b, R a b) : ∃ bs, List.Forall₂ R as bs := by
  induction as with
  | nil => exact ⟨[], .nil⟩
  | cons a rest ih =>
      obtain ⟨ha, hrest⟩ := List.forall_mem_cons.mp h
      obtain ⟨b, hb⟩ := ha
      obtain ⟨bs, hbs⟩ := ih hrest
      exact ⟨b :: bs, .cons hb hbs⟩

/-! ## Variants of a name -/

/-- `Variant separator name given`: asked for `name`, a namer may hand out `given`. -/
def Variant (separator name given : String) : Prop :=
  given = name ∨ ∃ n : Nat, given = name ++ separator ++ toString n

theorem isDigit_of_mem_toString {n : Nat} {c : Char} (h : c ∈ (toString n).toList) :
    c.isDigit = true := by
  rw [Nat.toString_eq_repr, Nat.toList_repr] at h
  exact Nat.isDigit_of_mem_toDigits (by decide) (by decide) h

namespace Variant

variable {separator name given : String}

/-- A variant is the name with something behind it that is made of the separator and digits. -/
theorem exists_append (h : Variant separator name given) : ∃ rest : String,
    given = name ++ rest ∧ ∀ c ∈ rest.toList, c ∈ separator.toList ∨ c.isDigit = true := by
  rcases h with rfl | ⟨n, rfl⟩
  · exact ⟨"", String.append_empty.symm, fun c hc => absurd hc List.not_mem_nil⟩
  · refine ⟨separator ++ toString n, String.append_assoc, ?_⟩
    intro c hc
    rw [String.toList_append] at hc
    exact (List.mem_append.mp hc).imp id isDigit_of_mem_toString

end Variant

namespace Namer

theorem variant_take (namer : Namer) (name : String) :
    Variant namer.separator name (namer.take name).1 := by
  simp only [take]
  split
  · exact Or.inr ⟨_, rfl⟩
  · exact Or.inl rfl

theorem forall₂_variant_takeAll (namer : Namer) (names : List String) :
    List.Forall₂ (Variant namer.separator) names (namer.takeAll names).1 := by
  induction names generalizing namer with
  | nil => exact .nil
  | cons name rest ih =>
      have hrest := ih (namer.take name).2
      rw [separator_take] at hrest
      exact .cons (namer.variant_take name) hrest

theorem exists_variant_of_mem_takeAll {namer : Namer} {names : List String} {given : String}
    (h : given ∈ (namer.takeAll names).1) :
    ∃ name ∈ names, Variant namer.separator name given :=
  exists_left_of_forall₂ (namer.forall₂_variant_takeAll names) h

/-- What is given a name by a namer has a variant of the one asked for. -/
theorem exists_variant_of_mem_named {α γ : Type} {f : α → String → γ} {key : α → String}
    {namer : Namer} {items : List α} {x : γ}
    (h : x ∈ List.zipWith f items (namer.takeAll (items.map key)).1) :
    ∃ a ∈ items, ∃ given, Variant namer.separator (key a) given ∧ x = f a given := by
  have hvariants := namer.forall₂_variant_takeAll (items.map key)
  generalize (namer.takeAll (items.map key)).1 = names at h hvariants
  induction items generalizing names with
  | nil => exact absurd h List.not_mem_nil
  | cons a rest ih =>
      cases hvariants with
      | cons hfirst hothers =>
          rcases List.mem_cons.mp h with rfl | h
          · exact ⟨a, List.mem_cons_self, _, hfirst, rfl⟩
          · obtain ⟨b, hb, given, hv, hx⟩ := ih _ h hothers
            exact ⟨b, List.mem_cons_of_mem _ hb, given, hv, hx⟩

end Namer

/-! ## Words and camel case -/

namespace Text.Identifier

theorem toLower_eq {c : Char} (h : c.isLower = true ∨ c.isDigit = true) : c.toLower = c := by
  refine Char.toLower_eq_of_not_isUpper ?_
  cases h with
  | inl h => exact Char.not_isUpper_of_isLower h
  | inr h =>
      revert h
      simp only [Char.isUpper, Char.isDigit, UInt32.le_iff_toNat_le, Bool.and_eq_true,
        decide_eq_true_eq]
      exact fun h hupper => absurd (hupper.1.trans h.2) (by decide)

theorem toUpper_eq_of_isDigit {c : Char} (h : c.isDigit = true) : c.toUpper = c := by
  refine Char.toUpper_eq_of_not_isLower ?_
  revert h
  simp only [Char.isLower, Char.isDigit, UInt32.le_iff_toNat_le, Bool.and_eq_true,
    decide_eq_true_eq]
  exact fun h hlower => absurd (hlower.1.trans h.2) (by decide)

theorem isLower_or_isDigit_toLower {c : Char} (h : c.isAlphanum = true) :
    c.toLower.isLower = true ∨ c.toLower.isDigit = true := by
  rw [Char.isAlphanum, Bool.or_eq_true] at h
  cases h with
  | inl h => exact Or.inl ((Char.isLower_toLower_eq_isAlpha c).trans h)
  | inr h =>
      rw [toLower_eq (Or.inr h)]
      exact Or.inr h

theorem isAlphanum_toUpper {c : Char} (h : c.isAlphanum = true) :
    c.toUpper.isAlphanum = true := by
  rw [Char.isAlphanum, Bool.or_eq_true] at h ⊢
  cases h with
  | inl h => exact Or.inl ((Char.isAlpha_toUpper_eq_isAlpha c).trans h)
  | inr h =>
      rw [toUpper_eq_of_isDigit h]
      exact Or.inr h

theorem toLower_toUpper {c : Char} (h : c.isLower = true ∨ c.isDigit = true) :
    c.toUpper.toLower = c :=
  (Char.toLower_toUpper_eq_toLower c).trans (toLower_eq h)

theorem isAlphanum_of_low {c : Char} (h : c.isLower = true ∨ c.isDigit = true) :
    c.isAlphanum = true := by
  simp only [Char.isAlphanum, Char.isAlpha, Bool.or_eq_true]
  exact h.imp Or.inr id

/-- The text starts with a small letter or a digit. -/
def IsLow (cs : List Char) : Prop :=
  ∃ c rest, cs = c :: rest ∧ (c.isLower = true ∨ c.isDigit = true)

/-- All characters are letters or digits. -/
def IsWord (cs : List Char) : Prop :=
  ∀ c ∈ cs, c.isAlphanum = true

theorem mem_wordsFrom {word cs w : List Char} (hword : IsWord word) (h : w ∈ wordsFrom word cs) :
    w ≠ [] ∧ IsWord w := by
  have hreverse : ∀ {word : List Char}, IsWord word → word.isEmpty = false →
      word.reverse ≠ [] ∧ IsWord word.reverse := by
    intro word hw hne
    refine ⟨fun e => ?_, fun c hc => hw c (List.mem_reverse.mp hc)⟩
    rw [List.reverse_eq_nil_iff.mp e] at hne
    exact absurd hne (by decide)
  fun_induction wordsFrom word cs with
  | case1 word hempty => exact absurd h List.not_mem_nil
  | case2 word hne => exact List.mem_singleton.mp h ▸ hreverse hword (by simpa using hne)
  | case3 word c rest hc ih => exact ih (List.forall_mem_cons.mpr ⟨hc, hword⟩) h
  | case4 word c rest hc hempty ih => exact ih (fun _ h => absurd h List.not_mem_nil) h
  | case5 word c rest hc hne ih =>
      rcases List.mem_cons.mp h with rfl | h
      · exact hreverse hword (by simpa using hne)
      · exact ih (fun _ h => absurd h List.not_mem_nil) h

/-- A text of letters and digits is one word. -/
theorem wordsFrom_of_isWord {word cs : List Char} (h : IsWord cs) (hne : word ++ cs ≠ []) :
    wordsFrom word cs = [word.reverse ++ cs] := by
  induction cs generalizing word with
  | nil =>
      have hword : word.isEmpty = false := by
        cases word with
        | nil => exact absurd rfl hne
        | cons _ _ => rfl
      simp [wordsFrom, hword]
  | cons c rest ih =>
      obtain ⟨hc, hrest⟩ := List.forall_mem_cons.mp h
      rw [wordsFrom, if_pos hc, ih hrest (List.cons_ne_nil _ _), List.reverse_cons,
        List.append_assoc, List.singleton_append]

theorem words_of_isWord {cs : List Char} (h : IsWord cs) (hne : cs ≠ []) : words cs = [cs] :=
  @wordsFrom_of_isWord [] cs h hne

/-- A `_` is no part of a word. -/
theorem words_underscore (cs : List Char) : words ('_' :: cs) = words cs := by
  rw [words, wordsFrom, if_neg (by decide), if_pos (by rfl), words]

theorem isWord_capitalize {w : List Char} (h : IsWord w) : IsWord (capitalize w) := by
  cases w with
  | nil => exact h
  | cons c rest =>
      obtain ⟨hc, hrest⟩ := List.forall_mem_cons.mp h
      exact List.forall_mem_cons.mpr ⟨isAlphanum_toUpper hc, hrest⟩

/-- Lower camel case has letters and digits only, and starts low. -/
theorem lowerCamelChars_spec (cs : List Char) :
    IsWord (lowerCamelChars cs) ∧ (lowerCamelChars cs ≠ [] → IsLow (lowerCamelChars cs)) := by
  have hwords : ∀ w ∈ words cs, w ≠ [] ∧ IsWord w :=
    fun w hw => mem_wordsFrom (fun _ h => absurd h List.not_mem_nil) hw
  simp only [lowerCamelChars]
  cases hw : words cs with
  | nil => exact ⟨fun _ h => absurd h List.not_mem_nil, fun h => absurd rfl h⟩
  | cons first rest =>
      rw [hw] at hwords
      obtain ⟨⟨hne, hfirst⟩, hrest⟩ := List.forall_mem_cons.mp hwords
      cases first with
      | nil => exact absurd rfl hne
      | cons c more =>
          obtain ⟨hc, hmore⟩ := List.forall_mem_cons.mp hfirst
          have hlow := isLower_or_isDigit_toLower hc
          refine ⟨List.forall_mem_append.mpr ⟨?_, ?_⟩, fun _ => ⟨_, _, rfl, hlow⟩⟩
          · exact List.forall_mem_cons.mpr ⟨isAlphanum_of_low hlow, hmore⟩
          · intro d hd
            obtain ⟨w, hwm, hd⟩ := List.mem_flatMap.mp hd
            exact isWord_capitalize (hrest w hwm).2 d hd

theorem lowerCamelChars_of_words {cs w : List Char} (h : words cs = [w]) :
    lowerCamelChars cs = uncapitalize w := by
  simp only [lowerCamelChars, h, List.flatMap_nil, List.append_nil]

theorem moduleName_spec (bean : String) :
    IsWord (moduleName bean).toList ∧ IsLow (moduleName bean).toList := by
  simp only [moduleName]
  split
  · have hword : "unknownModule".toList.all (·.isAlphanum) = true := by rfl
    exact ⟨List.all_eq_true.mp hword, 'u', _, rfl, by decide⟩
  · rename_i hne
    obtain ⟨hword, hlow⟩ := lowerCamelChars_spec (simpleName bean).toList
    have hlist : (lowerCamel (simpleName bean)).toList =
        lowerCamelChars (simpleName bean).toList := String.toList_ofList
    rw [hlist]
    refine ⟨hword, hlow fun e => hne ?_⟩
    rw [lowerCamel, e]
    rfl

/-- A text that starts low is found again behind the capital. -/
theorem uncapitalize_capitalize {cs : List Char} (h : IsLow cs) :
    uncapitalize (capitalize cs) = cs := by
  obtain ⟨c, rest, rfl, hc⟩ := h
  exact congrArg (· :: rest) (toLower_toUpper hc)

theorem uncapitalize_eq {cs : List Char} (h : IsLow cs) : uncapitalize cs = cs := by
  obtain ⟨c, rest, rfl, hc⟩ := h
  exact congrArg (· :: rest) (toLower_eq hc)

def startsUpper (s : String) : Bool :=
  s.toList.head?.any (·.isUpper)

/-! ## Repaired names -/

theorem isPart_of_isAlphanum {c : Char} (h : c.isAlphanum = true) : isPart c = true := by
  simp [isPart, h]

theorem toList_repair (reserved : List String) (name : String) :
    (repair reserved name).toList = name.toList.map (fun c => if isPart c then c else '_') ∨
      (repair reserved name).toList =
        '_' :: name.toList.map (fun c => if isPart c then c else '_') := by
  simp only [repair]
  split
  · exact Or.inr String.toList_ofList
  · exact Or.inl String.toList_ofList

theorem isPart_of_mem_repair {reserved : List String} {name : String} {c : Char}
    (h : c ∈ (repair reserved name).toList) : isPart c = true := by
  have hmapped : ∀ d ∈ name.toList.map (fun c => if isPart c then c else '_'),
      isPart d = true := by
    intro d hd
    obtain ⟨e, _, rfl⟩ := List.mem_map.mp hd
    by_cases he : isPart e = true
    · rwa [if_pos he]
    · rw [if_neg he]
      decide
  rcases toList_repair reserved name with e | e
  · exact hmapped c (e ▸ h)
  · rw [e] at h
    rcases List.mem_cons.mp h with rfl | h
    · decide
    · exact hmapped c h

/-- A word is repaired at most by a `_` in front. -/
theorem toList_repair_of_isWord {reserved : List String} {name : String}
    (h : IsWord name.toList) :
    (repair reserved name).toList = name.toList ∨
      (repair reserved name).toList = '_' :: name.toList := by
  have hmap : name.toList.map (fun c => if isPart c then c else '_') = name.toList := by
    refine (List.map_congr_left fun c hc => ?_).trans (List.map_id _)
    simp [isPart_of_isAlphanum (h c hc)]
  rw [← hmap]
  have hrepair := toList_repair reserved name
  rwa [hmap] at hrepair ⊢

end Text.Identifier

/-! ## Identifiers of modules -/

namespace Assembly

open Text.Identifier

theorem toList_moduleIdentifier (reserved : List String) (bean : String) :
    (moduleIdentifier reserved bean).toList = (moduleName bean).toList ∨
      (moduleIdentifier reserved bean).toList = '_' :: (moduleName bean).toList :=
  toList_repair_of_isWord (moduleName_spec bean).1

theorem upperCamel_moduleIdentifier (reserved : List String) (bean : String) :
    upperCamel (moduleIdentifier reserved bean) =
      String.ofList (capitalize (moduleName bean).toList) := by
  obtain ⟨hword, hlow⟩ := moduleName_spec bean
  have hne : (moduleName bean).toList ≠ [] := by
    obtain ⟨c, rest, e, _⟩ := hlow
    rw [e]
    exact List.cons_ne_nil _ _
  have hword : words (moduleName bean).toList = [(moduleName bean).toList] :=
    words_of_isWord hword hne
  have hwords : words (moduleIdentifier reserved bean).toList = [(moduleName bean).toList] := by
    rcases toList_moduleIdentifier reserved bean with e | e
    · rw [e, hword]
    · rw [e, words_underscore, hword]
  rw [upperCamel, lowerCamelChars_of_words hwords, uncapitalize_eq hlow]

variable {options : ModelOptions} {routes : List Route} {m : Module}

theorem module_spec (h : m ∈ modules options routes) :
    m.displayName = simpleName m.name ∧
      Variant options.separator (moduleIdentifier options.reserved m.name) m.identifier := by
  obtain ⟨g, _, given, hvariant, rfl⟩ := Namer.exists_variant_of_mem_named h
  exact ⟨rfl, hvariant⟩

theorem isPart_of_mem_identifier (hseparator : ∀ c ∈ options.separator.toList, isPart c = true)
    (h : m ∈ modules options routes) : ∀ c ∈ m.identifier.toList, isPart c = true := by
  obtain ⟨rest, e, hrest⟩ := (module_spec h).2.exists_append
  rw [e, String.toList_append]
  refine List.forall_mem_append.mpr ⟨fun c hc => isPart_of_mem_repair hc, ?_⟩
  intro c hc
  rcases hrest c hc with hc | hc
  · exact hseparator c hc
  · exact isPart_of_isAlphanum (isAlphanum_of_low (Or.inr hc))

theorem not_startsUpper_moduleIdentifier (reserved : List String) (bean : String) :
    ∃ c rest, (moduleIdentifier reserved bean).toList = c :: rest ∧ c.isUpper = false := by
  obtain ⟨c, rest, hlist, hc⟩ := (moduleName_spec bean).2
  have hlow : c.isUpper = false := by
    rw [← toLower_eq hc]
    exact Char.isUpper_toLower_eq_false c
  rcases toList_moduleIdentifier reserved bean with e | e
  · exact ⟨c, rest, e.trans hlist, hlow⟩
  · exact ⟨'_', _, e, by decide⟩

theorem not_startsUpper_identifier (h : m ∈ modules options routes) :
    startsUpper m.identifier = false := by
  obtain ⟨more, e, _⟩ := (module_spec h).2.exists_append
  obtain ⟨c, rest, hlist, hc⟩ := not_startsUpper_moduleIdentifier options.reserved m.name
  rw [startsUpper, e, String.toList_append, hlist]
  exact hc

/-- Modules that wish for different identifiers get these. -/
theorem identifiers_of_nodup
    (nodup : ((modules options routes).map fun m =>
      moduleIdentifier options.reserved m.name).Nodup) :
    (modules options routes).map (·.identifier) =
      (modules options routes).map fun m => moduleIdentifier options.reserved m.name := by
  have hwished : (modules options routes).map (fun m => moduleIdentifier options.reserved m.name) =
      (groupBy (·.bean) routes).map fun g => moduleIdentifier options.reserved g.1 :=
    Namer.map_named_left _ _ fun _ _ => rfl
  have hgiven : (modules options routes).map (·.identifier) =
      ((Namer.new options.separator).takeAll ((groupBy (·.bean) routes).map fun g =>
        moduleIdentifier options.reserved g.1)).1 :=
    Namer.map_named_right _ _ fun _ _ => rfl
  rw [hwished] at nodup ⊢
  rw [hgiven]
  exact Namer.takeAll_of_nodup nodup fun _ _ => List.not_mem_nil

end Assembly

/-! ## Identifiers of parameters -/

section Parts

open Text.Identifier

theorem Target.isPart_of_mem_separator (target : Target) :
    ∀ c ∈ target.separator.toList, isPart c = true := by
  refine List.all_eq_true.mp ?_
  cases target with
  | _ => rfl

theorem Variant.isPart {separator name given : String} (h : Variant separator name given)
    (hseparator : ∀ c ∈ separator.toList, isPart c = true) :
    ∃ rest : String, given = name ++ rest ∧ ∀ c ∈ rest.toList, isPart c = true := by
  obtain ⟨rest, e, hrest⟩ := h.exists_append
  refine ⟨rest, e, fun c hc => ?_⟩
  rcases hrest c hc with hc | hc
  · exact hseparator c hc
  · exact Text.Identifier.isPart_of_isAlphanum (Text.Identifier.isAlphanum_of_low (Or.inr hc))

theorem Route.isPart_of_mem_identifier {target : Target} {route : Route} {a : Argument}
    (h : a ∈ route.arguments target) : ∀ c ∈ a.identifier.toList, isPart c = true := by
  have hmem : a.identifier ∈ route.identifiers target := by
    rw [← route.map_identifier_arguments target]
    exact List.mem_map_of_mem h
  obtain ⟨name, hname, hvariant⟩ := Namer.exists_variant_of_mem_takeAll hmem
  obtain ⟨p, _, rfl⟩ := List.mem_map.mp hname
  obtain ⟨rest, e, hrest⟩ := hvariant.isPart target.isPart_of_mem_separator
  rw [e, String.toList_append]
  exact List.forall_mem_append.mpr ⟨fun c hc => Text.Identifier.isPart_of_mem_repair hc, hrest⟩

end Parts

end ApiStubs
