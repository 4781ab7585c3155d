import ApiStubs.Proofs.Reachability
import ApiStubs.Resolved

/-!
# What resolving a type consults

Resolving a type does not look at all of it.  Of a map it looks at the key only if that is a proper
one, of a list at the first argument, of a class at as many arguments as the class has type
parameters.  `Enters` says which arguments a type is resolved by, and `LooksUp` which declarations
are looked at on the way: that of a declared name, and that of a declared name in the place of a
map's key, which is looked at to see whether it is an enum.  `Consults` puts the two together.

Two facts say that this is all there is.  Every part of a resolved type is unknown or the meaning of
a type that was entered (`within_ofType`), and where declarations that are not consulted are hidden,
the meaning stays the same (`ofType_hide`).
-/

namespace ApiStubs

open Relation

/-- `Enters table t a`: the type `t` is resolved by resolving its argument `a`, among others. -/
inductive Enters (table : DeclarationTable) : TypeExpr → TypeExpr → Prop
  | key {n : String} {k : TypeExpr} {rest : List TypeExpr} : TypeKind.ofName n = .map →
      k.isKey table = true → Enters table (.named n (k :: rest)) k
  | value {n : String} {k v : TypeExpr} {rest : List TypeExpr} : TypeKind.ofName n = .map →
      Enters table (.named n (k :: v :: rest)) v
  | item {n : String} {a : TypeExpr} {rest : List TypeExpr} : TypeKind.ofName n = .list →
      Enters table (.named n (a :: rest)) a
  | content {n : String} {a : TypeExpr} {rest : List TypeExpr} : TypeKind.ofName n = .wrapper →
      Enters table (.named n (a :: rest)) a
  | component {n : String} {a : TypeExpr} {args : List TypeExpr} : TypeKind.ofName n = .tuple →
      a ∈ args → Enters table (.named n args) a
  | argument {n : String} {c : Class} {a : TypeExpr} {args : List TypeExpr} :
      TypeKind.ofName n = .declared → table.find? n = some (.ofClass c) →
      a ∈ args.take c.typeParameters.length → Enters table (.named n args) a

/-- `LooksUp table t d`: resolving the type `t` looks at the declaration `d`, apart from what its
arguments are resolved by. -/
inductive LooksUp (table : DeclarationTable) : TypeExpr → Declaration → Prop
  | name {n : String} {args : List TypeExpr} {d : Declaration} : TypeKind.ofName n = .declared →
      table.find? n = some d → LooksUp table (.named n args) d
  | key {n : String} {k : TypeExpr} {rest : List TypeExpr} {d : Declaration} :
      TypeKind.ofName n = .map → k.kind = .declared → k.declaration? table = some d →
      LooksUp table (.named n (k :: rest)) d

/-- `Consults table t d`: resolving the type `t` looks at the declaration `d`, at any depth. -/
def Consults (table : DeclarationTable) (t : TypeExpr) (d : Declaration) : Prop :=
  ∃ a, ReflTransGen (Enters table) t a ∧ LooksUp table a d

variable {table : DeclarationTable}

theorem Enters.mem_args {t a : TypeExpr} (h : Enters table t a) : a ∈ t.args := by
  cases h with
  | key _ _ => exact List.mem_cons_self
  | value _ => exact List.mem_cons_of_mem _ List.mem_cons_self
  | item _ => exact List.mem_cons_self
  | content _ => exact List.mem_cons_self
  | component _ ha => exact ha
  | argument _ _ ha => exact List.mem_of_mem_take ha

theorem Consults.here {t : TypeExpr} {d : Declaration} (h : LooksUp table t d) :
    Consults table t d :=
  ⟨t, .refl, h⟩

theorem Consults.inside {t a : TypeExpr} {d : Declaration} (h : Enters table t a)
    (hd : Consults table a d) : Consults table t d := by
  obtain ⟨b, hb, hd⟩ := hd
  exact ⟨b, .head h hb, hd⟩

theorem LooksUp.reaches {t : TypeExpr} {d : Declaration} (h : LooksUp table t d) :
    Reaches table t d := by
  cases h with
  | name _ hd => exact .names hd
  | key _ _ hd => exact .argument List.mem_cons_self (.names hd)

/-- A type leads to what resolving it consults. -/
theorem Consults.reaches {t : TypeExpr} {d : Declaration} (h : Consults table t d) :
    Reaches table t d := by
  obtain ⟨a, ha, hd⟩ := h
  induction ha using ReflTransGen.head_induction_on with
  | refl => exact hd.reaches
  | head hb _ ih => exact .argument hb.mem_args ih

namespace Resolved

/-! ## Parts of a resolved type -/

/-- The types right inside a type. -/
def parts : Resolved → List Resolved
  | map key value => key.toList ++ [value]
  | list item => [item]
  | optional content => [content]
  | tuple items => items
  | ofClass _ args => args
  | _ => []

/-- `Within r w`: the type `r` is `w` or stands inside it. -/
inductive Within : Resolved → Resolved → Prop
  | self {r : Resolved} : Within r r
  | part {r s w : Resolved} : s ∈ w.parts → Within r s → Within r w

theorem ofTypes_eq_map : ∀ ts : List TypeExpr, ofTypes table ts = ts.map (ofType table)
  | [] => by simp [ofTypes]
  | t :: rest => by simp [ofTypes, ofTypes_eq_map rest]

theorem length_fit (count : Nat) (args : List Resolved) : (fit count args).length = count := by
  unfold fit
  rw [List.length_append, List.length_take, List.length_replicate]
  omega

theorem mem_fit {count : Nat} {args : List Resolved} {r : Resolved} (h : r ∈ fit count args) :
    r = unknown ∨ r ∈ args.take count := by
  rcases List.mem_append.mp h with h | h
  · exact Or.inr h
  · exact Or.inl (List.eq_of_mem_replicate h)

/-- What stands right inside the meaning of a type. -/
theorem mem_parts_ofType {t : TypeExpr} {r : Resolved} (h : r ∈ (ofType table t).parts) :
    r = unknown ∨ ∃ a, Enters table t a ∧ r = ofType table a := by
  match t with
  | .wildcard => exact absurd h (by simp [ofType, parts])
  | .var _ => exact absurd h (by simp [ofType, parts])
  | .named n args =>
      rw [ofType, ofTypes_eq_map] at h
      unfold ofNamed at h
      cases hn : TypeKind.ofName n with
      | map =>
          rw [hn] at h
          cases args with
          | nil => exact Or.inl (by simpa [ofMap, parts] using h)
          | cons k rest =>
              rcases List.mem_append.mp h with h | h
              · by_cases hk : k.isKey table = true
                · exact Or.inr ⟨k, .key hn hk, by simpa [hk] using h⟩
                · exact absurd h (by simp [hk])
              · cases rest with
                | nil => exact Or.inl (by simpa using h)
                | cons v rest => exact Or.inr ⟨v, .value hn, by simpa using h⟩
      | list =>
          rw [hn] at h
          cases args with
          | nil => exact Or.inl (by simpa [parts] using h)
          | cons a rest => exact Or.inr ⟨a, .item hn, by simpa [parts] using h⟩
      | wrapper =>
          rw [hn] at h
          cases args with
          | nil => exact absurd h (by simp [parts])
          | cons a rest => exact Or.inr ⟨a, .content hn, by simpa [parts] using h⟩
      | tuple =>
          rw [hn] at h
          obtain ⟨a, ha, hr⟩ := List.mem_map.mp h
          exact Or.inr ⟨a, .component hn ha, hr.symm⟩
      | declared =>
          rw [hn] at h
          unfold ofDeclared at h
          cases hd : table.find? n with
          | none => exact absurd h (by simp [hd, parts])
          | some d =>
              rw [hd] at h
              cases d with
              | ofEnum e => exact absurd h (by simp [parts])
              | ofClass c =>
                  rcases mem_fit h with h | h
                  · exact Or.inl h
                  · rw [← List.map_take] at h
                    obtain ⟨a, ha, hr⟩ := List.mem_map.mp h
                    exact Or.inr ⟨a, .argument hn hd ha, hr.symm⟩
      | _ => exact absurd h (by simp [hn, parts])

/-- What stands inside the meaning of a type, at any depth. -/
theorem within_ofType {t : TypeExpr} {r : Resolved} (h : Within r (ofType table t)) :
    r = unknown ∨ ∃ a, ReflTransGen (Enters table) t a ∧ r = ofType table a := by
  generalize hw : ofType table t = w at h
  induction h generalizing t with
  | self => exact Or.inr ⟨t, .refl, hw.symm⟩
  | part hs hr ih =>
      rw [← hw] at hs
      rcases mem_parts_ofType hs with hu | ⟨a, ha, hsa⟩
      · rw [hu] at hr
        cases hr with
        | self => exact Or.inl rfl
        | part hs _ => exact absurd hs List.not_mem_nil
      · rcases ih hsa.symm with hr | ⟨b, hb, hr⟩
        · exact Or.inl hr
        · exact Or.inr ⟨b, .head ha hb, hr⟩

/-- The declaration that a resolved type is made of. -/
def declaration? : Resolved → Option Declaration
  | ofClass c _ => some (.ofClass c)
  | ofEnum e => some (.ofEnum e)
  | _ => none

/-- A type means a declaration only if that is looked up. -/
theorem looksUp_of_ofType {t : TypeExpr} {d : Declaration}
    (h : (ofType table t).declaration? = some d) : LooksUp table t d := by
  match t with
  | .wildcard => exact absurd h (by simp [ofType, declaration?])
  | .var _ => exact absurd h (by simp [ofType, declaration?])
  | .named n args =>
      rw [ofType] at h
      unfold ofNamed at h
      cases hn : TypeKind.ofName n with
      | wrapper =>
          rw [hn] at h
          cases hm : ofTypes table args with
          | nil => exact absurd h (by simp [hm, declaration?])
          | cons _ _ => exact absurd h (by simp [hm, declaration?])
      | declared =>
          rw [hn] at h
          unfold ofDeclared at h
          cases hd : table.find? n with
          | none => exact absurd h (by simp [hd, declaration?])
          | some e =>
              rw [hd] at h
              cases e with
              | ofClass c => exact .name hn (hd.trans h)
              | ofEnum e => exact .name hn (hd.trans h)
      | _ => exact absurd h (by simp [hn, ofMap, declaration?])

/-- The meaning of a type has as many arguments as the class that it names has type parameters. -/
theorem length_of_ofType_eq_ofClass {t : TypeExpr} {c : Class} {args : List Resolved}
    (h : ofType table t = ofClass c args) : args.length = c.typeParameters.length := by
  have hl : LooksUp table t (.ofClass c) := looksUp_of_ofType (by rw [h, declaration?])
  cases hl with
  | name hn hd =>
      rw [ofType, ofNamed.eq_def, hn] at h
      have h : ofDeclared table _ _ = ofClass c args := h
      rw [ofDeclared, hd] at h
      rw [← (ofClass.inj h).2, length_fit]
  | key hn _ _ =>
      rw [ofType, ofNamed.eq_def, hn] at h
      exact absurd h (by simp [ofMap])

/-! ## Hiding what is not consulted -/

end Resolved

namespace DeclarationTable

theorem find?_hide (names : List String) {n : String} (h : n ∉ names) :
    (table.hide names).find? n = table.find? n := by
  unfold hide find?
  generalize table.entries = entries
  induction entries with
  | nil => rfl
  | cons entry rest ih =>
      by_cases he : entry.1 ∈ names
      · have hne : (n == entry.1) = false := beq_false_of_ne fun e => h (e ▸ he)
        rw [List.filter_cons_of_neg (by simpa using he), List.lookup_cons, hne, ih]
      · rw [List.filter_cons_of_pos (by simpa using he), List.lookup_cons, List.lookup_cons, ih]

theorem find?_hide_eq_none (names : List String) {n : String} (h : table.find? n = none) :
    (table.hide names).find? n = none := by
  unfold hide find? at *
  rw [List.lookup_eq_none_iff] at h ⊢
  exact fun entry he => h entry ((List.mem_filter.mp he).1)

end DeclarationTable

namespace TypeExpr

theorem declaration?_hide (named : table.Named) {names : List String} {t : TypeExpr}
    (h : ∀ d, t.declaration? table = some d → d.name ∉ names) :
    t.declaration? (table.hide names) = t.declaration? table := by
  match t with
  | .wildcard => rfl
  | .var _ => rfl
  | .named n _ =>
      show (table.hide names).find? n = table.find? n
      cases hd : table.find? n with
      | none => exact DeclarationTable.find?_hide_eq_none names hd
      | some d =>
          have hn : n ∉ names := by
            rw [← named n d hd]
            exact h d hd
          rw [DeclarationTable.find?_hide names hn, hd]

theorem isKey_hide (named : table.Named) {names : List String} {k : TypeExpr}
    (h : ∀ d, k.kind = .declared → k.declaration? table = some d → d.name ∉ names) :
    k.isKey (table.hide names) = k.isKey table := by
  unfold isKey
  by_cases hk : k.kind = .declared
  · rw [declaration?_hide named fun d => h d hk]
  · simp [hk]

end TypeExpr

namespace Resolved

section Hide

variable {names : List String} {n : String} {args : List TypeExpr}

/-- One step of the resolver: if the types that it enters keep their meanings and what it looks up
stays in the table, then the meaning of the whole stays. -/
theorem ofNamed_hide (named : table.Named)
    (entered : ∀ a, Enters table (.named n args) a →
      ofType (table.hide names) a = ofType table a)
    (looked : ∀ d, LooksUp table (.named n args) d → d.name ∉ names) :
    ofNamed (table.hide names) n args (args.map (ofType (table.hide names))) =
      ofNamed table n args (args.map (ofType table)) := by
  unfold ofNamed
  cases hn : TypeKind.ofName n with
  | map =>
      cases args with
      | nil => rfl
      | cons k rest =>
          have hk : k.isKey (table.hide names) = k.isKey table :=
            TypeExpr.isKey_hide named fun d hk hd => looked d (.key hn hk hd)
          show ofMap _ (some k) _ = ofMap _ (some k) _
          unfold ofMap
          rw [Option.any_some, Option.any_some, hk]
          congr 1
          · split
            · rename_i hkey
              simp [entered k (.key hn hkey)]
            · rfl
          · cases rest with
            | nil => rfl
            | cons v rest => simp [entered v (.value hn)]
  | list =>
      cases args with
      | nil => rfl
      | cons a rest => simp [entered a (.item hn)]
  | wrapper =>
      cases args with
      | nil => rfl
      | cons a rest => simp [entered a (.content hn)]
  | tuple =>
      have hmap : args.map (ofType (table.hide names)) = args.map (ofType table) :=
        List.map_congr_left fun a ha => entered a (.component hn ha)
      rw [hmap]
  | declared =>
      show ofDeclared (table.hide names) n _ = ofDeclared table n _
      have hfind : (table.hide names).find? n = table.find? n :=
        TypeExpr.declaration?_hide named (t := .named n args) fun d hd => looked d (.name hn hd)
      unfold ofDeclared
      rw [hfind]
      cases hd : table.find? n with
      | none => rfl
      | some d =>
          cases d with
          | ofEnum e => rfl
          | ofClass c =>
              have htake : (args.map (ofType (table.hide names))).take c.typeParameters.length =
                  (args.map (ofType table)).take c.typeParameters.length := by
                rw [← List.map_take, ← List.map_take]
                exact List.map_congr_left fun a ha => entered a (.argument hn hd ha)
              show ofClass c (fit _ _) = ofClass c (fit _ _)
              unfold fit
              rw [htake, List.length_map, List.length_map]
  | _ => rfl

mutual

/-- A type keeps its meaning when declarations are hidden that resolving it does not consult. -/
theorem ofType_hide (named : table.Named) : ∀ t : TypeExpr,
    (∀ d, Consults table t d → d.name ∉ names) →
      ofType (table.hide names) t = ofType table t
  | .wildcard, _ => by simp [ofType]
  | .var _, _ => by simp [ofType]
  | .named n args, h => by
      have entered : ∀ a, Enters table (.named n args) a →
          ofType (table.hide names) a = ofType table a := by
        intro a ha
        exact ofType_hideAll named args a ha.mem_args fun d hd => h d (.inside ha hd)
      have looked : ∀ d, LooksUp table (.named n args) d → d.name ∉ names :=
        fun d hd => h d (.here hd)
      rw [ofType, ofType, ofTypes_eq_map, ofTypes_eq_map]
      exact ofNamed_hide named entered looked

theorem ofType_hideAll (named : table.Named) : ∀ ts : List TypeExpr, ∀ t ∈ ts,
    (∀ d, Consults table t d → d.name ∉ names) →
      ofType (table.hide names) t = ofType table t
  | [], _, ht, _ => absurd ht List.not_mem_nil
  | u :: rest, t, ht, h => by
      rcases List.mem_cons.mp ht with htu | ht
      · rw [htu] at h ⊢
        exact ofType_hide named u h
      · exact ofType_hideAll named rest t ht h

end

end Hide

end Resolved

end ApiStubs
