import ApiStubs.Proofs.Consulted
import ApiStubs.Proofs.FirstOccurrence
import ApiStubs.Resolver
import Mathlib.Data.List.Infix

/-!
# What a resolver registers

A resolver in one pass does the same as resolving a type to its meaning, writing the meaning, and
registering its auxiliary names afterwards (`writes_write`).  What it writes therefore never depends
on what is registered.

The pass is looked at as a whole by `Writes`: a text, and names that are registered in order.  The
two grammars differ in what they write and register for a meaning, and `Fits` is all that the
induction over the type needs to know of them.
-/

namespace ApiStubs

/-! ## Registries -/

namespace AliasRegistry

variable {registry : AliasRegistry}

theorem contains_iff {name : String} : registry.contains name = true ↔ name ∈ registry.names := by
  unfold contains get? names
  generalize registry.entries = entries
  induction entries with
  | nil => simp
  | cons entry rest ih =>
      by_cases h : name = entry.1
      · simp [h]
      · have hne : (name == entry.1) = false := beq_false_of_ne h
        rw [List.lookup_cons, hne, List.map_cons, List.mem_cons]
        simp [ih, h]

/-- What is registered keeps its place and its definition. -/
theorem prefix_register (registry : AliasRegistry) (name definition : String) :
    registry.entries <+: (registry.register name definition).entries := by
  unfold register
  split
  · exact List.prefix_rfl
  · exact List.prefix_append _ _

theorem registerAll_append (registry : AliasRegistry) (names others : List Alias) :
    registry.registerAll (names ++ others) = (registry.registerAll names).registerAll others :=
  List.foldl_append

theorem prefix_registerAll (registry : AliasRegistry) (names : List Alias) :
    registry.entries <+: (registry.registerAll names).entries := by
  induction names generalizing registry with
  | nil => exact List.prefix_rfl
  | cons a rest ih => exact (registry.prefix_register a.name a.definition).trans (ih _)

end AliasRegistry

namespace Alias

/-- The name with its definition. -/
def entry (a : Alias) : String × String :=
  (a.name, a.definition)

theorem name_injective : Function.Injective name := by
  intro a b h
  cases a <;> cases b <;> first | rfl | exact absurd h (by decide)

end Alias

/-- Registering from nothing lists each name at its first use. -/
theorem AliasRegistry.entries_registerAll_empty (names : List Alias) :
    (empty.registerAll names).entries = names.eraseDups.map Alias.entry := by
  -- From the end, since only the last name can be told from all that came before.
  induction names using List.reverseRecOn with
  | nil => rfl
  | append_singleton names a ih =>
      have hnames : (empty.registerAll names).names = names.eraseDups.map Alias.name := by
        unfold AliasRegistry.names
        rw [ih, List.map_map]
        rfl
      have hmem : a.name ∈ (empty.registerAll names).names ↔ a ∈ names := by
        rw [hnames, List.mem_map_of_injective Alias.name_injective, List.mem_eraseDups]
      rw [registerAll_append]
      show ((empty.registerAll names).register a.name a.definition).entries = _
      unfold register
      by_cases h : a ∈ names
      · rw [if_pos (contains_iff.mpr (hmem.mpr h)), eraseDups_concat_of_mem h, ih]
      · rw [if_neg fun hc => h (hmem.mp (contains_iff.mp hc)), eraseDups_concat_of_not_mem h,
          List.map_append, ← ih]
        rfl

/-! ## Steps -/

/-- `Writes run result names`: whatever is registered before, `run` gives `result` and registers
`names` in order. -/
def Writes {α : Type} (run : Registering α) (result : α) (names : List Alias) : Prop :=
  ∀ registry : AliasRegistry, run.run registry = (result, registry.registerAll names)

section Steps

variable {α β : Type} {run : Registering α} {a : α} {names : List Alias}

theorem writes_pure (a : α) : Writes (pure a) a [] :=
  fun _ => rfl

theorem writes_name (a : Alias) : Writes (Registering.name a) a.name [a] :=
  fun _ => rfl

theorem Writes.bind (h : Writes run a names) {next : α → Registering β} {b : β}
    {others : List Alias} (hn : Writes (next a) b others) :
    Writes (run >>= next) b (names ++ others) := by
  intro registry
  rw [StateT.run_bind, h registry, AliasRegistry.registerAll_append]
  exact hn _

/-- What follows registers nothing. -/
theorem Writes.map (h : Writes run a names) (f : α → β) :
    Writes (run >>= fun x => pure (f x)) (f a) names := by
  rw [← List.append_nil names]
  exact h.bind (writes_pure (f a))

theorem writes_mapM {ι : Type} {f : ι → Registering α} {result : ι → α}
    {names : ι → List Alias} {items : List ι}
    (h : ∀ i ∈ items, Writes (f i) (result i) (names i)) :
    Writes (items.mapM f) (items.map result) (items.flatMap names) := by
  induction items with
  | nil => exact writes_pure []
  | cons i rest ih =>
      have hrest := ih fun j hj => h j (List.mem_cons_of_mem _ hj)
      rw [List.mapM_cons]
      exact (h i List.mem_cons_self).bind (hrest.map _)

end Steps

/-! ## Grammars -/

namespace Resolved

theorem fit_zero (args : List Resolved) : fit 0 args = [] := by
  simp [fit]

theorem fit_succ (count : Nat) (args : List Resolved) :
    fit (count + 1) args = args.head?.getD unknown :: fit count args.tail := by
  cases args with
  | nil => simp [fit, List.replicate_succ]
  | cons a rest => simp [fit]

end Resolved

namespace TypeGrammar

open Resolved

/-- `g.Fits text names`: the grammar `g` writes a meaning as `text` says, and with the auxiliary
names that `names` lists. -/
structure Fits (g : TypeGrammar) (text : Bool → Resolved → String)
    (names : Resolved → List Alias) : Prop where
  unknown (nested : Bool) : Writes (pure g.unknown) (text nested .unknown) (names .unknown)
  void (nested : Bool) : Writes (pure (g.void nested)) (text nested .void) (names .void)
  var (nested : Bool) (n : String) : Writes (pure n) (text nested (.var n)) (names (.var n))
  special (nested : Bool) (type : SpecialType) :
    Writes (g.writeSpecial type) (text nested (.special type)) (names (.special type))
  primitive (nested : Bool) (type : PrimitiveType) :
    Writes (pure (g.primitive type)) (text nested (.primitive type)) (names (.primitive type))
  ofEnum (nested : Bool) (e : Enum) :
    Writes (pure (g.ofEnum e)) (text nested (.ofEnum e)) (names (.ofEnum e))
  text_keyless (nested : Bool) (value : Resolved) :
    text nested (.map none value) = g.map g.propertyKey (text true value)
  names_keyless (value : Resolved) : names (.map none value) = names value
  text_map (nested : Bool) (key value : Resolved) :
    text nested (.map (some key) value) = g.map (text true key) (text true value)
  names_map (key value : Resolved) : names (.map (some key) value) = names key ++ names value
  text_list (nested : Bool) (item : Resolved) :
    text nested (.list item) = g.list (text true item)
  names_list (item : Resolved) : names (.list item) = names item
  text_optional (nested : Bool) (content : Resolved) :
    text nested (.optional content) = g.optional (text true content)
  names_optional (content : Resolved) :
    names (.optional content) = g.optionalName.toList ++ names content
  text_tuple (nested : Bool) (items : List Resolved) :
    text nested (.tuple items) = g.tuple (items.map (text true))
  names_tuple (items : List Resolved) : names (.tuple items) = items.flatMap names
  text_ofClass (nested : Bool) (c : Class) (args : List Resolved) :
    text nested (.ofClass c args) = g.ofClass c (args.map (text true))
  names_ofClass (c : Class) (args : List Resolved) :
    names (.ofClass c args) = args.flatMap names

variable {g : TypeGrammar} {text : Bool → Resolved → String} {names : Resolved → List Alias}
  {table : DeclarationTable}

theorem writes_nameOptional (g : TypeGrammar) :
    Writes g.nameOptional () g.optionalName.toList := by
  unfold nameOptional
  cases g.optionalName with
  | none => exact writes_pure ()
  | some a => exact (writes_name a).map fun _ => ()

/-- What writes arguments and registers their names, one by one. -/
def WritesEach (table : DeclarationTable) (text : Bool → Resolved → String)
    (names : Resolved → List Alias) : List (Registering String) → List TypeExpr → Prop :=
  List.Forall₂ fun run t => Writes run (text true (ofType table t)) (names (ofType table t))

section Named

variable (fits : g.Fits text names) {writes : List (Registering String)} {args : List TypeExpr}

include fits

theorem writes_writeFirst (h : WritesEach table text names writes args) :
    Writes (g.writeFirst writes) (text true ((args.map (ofType table)).head?.getD .unknown))
      (names ((args.map (ofType table)).head?.getD .unknown)) := by
  cases h with
  | nil => exact fits.unknown true
  | cons hfirst _ => exact hfirst

theorem writes_writeFit (count : Nat) (h : WritesEach table text names writes args) :
    Writes (g.writeFit count writes) ((fit count (args.map (ofType table))).map (text true))
      ((fit count (args.map (ofType table))).flatMap names) := by
  induction count generalizing writes args with
  | zero =>
      rw [fit_zero]
      exact writes_pure []
  | succ count ih =>
      have htail : WritesEach table text names writes.tail args.tail := by
        cases h with
        | nil => exact .nil
        | cons _ hrest => exact hrest
      rw [fit_succ, ← List.map_tail]
      exact (writes_writeFirst fits h).bind ((ih htail).map _)

theorem writes_writeMap (nested : Bool) (h : WritesEach table text names writes args) :
    Writes (g.writeMap table args.head? writes)
      (text nested (ofMap table args.head? (args.map (ofType table))))
      (names (ofMap table args.head? (args.map (ofType table)))) := by
  unfold writeMap ofMap
  cases h with
  | nil =>
      rw [List.map_nil, List.head?_nil, List.getElem?_nil]
      show Writes (pure g.propertyKey >>= fun key => pure g.unknown >>= fun value => _)
        (text nested (.map none .unknown)) (names (.map none .unknown))
      rw [fits.text_keyless, fits.names_keyless]
      exact (writes_pure _).bind ((fits.unknown true).map _)
  | @cons run k rest others hkey hrest =>
      have hvalue := writes_writeFirst fits hrest
      rw [List.head?_eq_getElem?] at hvalue
      by_cases hk : k.isKey table = true
      · simp only [List.head?_cons, Option.any_some, hk, if_true, List.map_cons,
          List.getElem?_cons_zero, List.getElem?_cons_succ, List.tail_cons]
        rw [fits.text_map, fits.names_map]
        exact hkey.bind (hvalue.map _)
      · -- What would write the key is dropped, and what it would register with it.
        simp only [List.head?_cons, Option.any_some, hk, List.map_cons, List.getElem?_cons_succ,
          List.tail_cons]
        rw [if_neg (by simp), if_neg (by simp), fits.text_keyless, fits.names_keyless]
        exact (writes_pure _).bind (hvalue.map _)

omit fits in
theorem writes_mapM_id (h : WritesEach table text names writes args) :
    Writes (writes.mapM id) ((args.map (ofType table)).map (text true))
      ((args.map (ofType table)).flatMap names) := by
  induction h with
  | nil => exact writes_pure []
  | cons hfirst _ ih =>
      rw [List.mapM_cons]
      exact hfirst.bind (ih.map _)

theorem writes_writeDeclared (nested : Bool) (n : String)
    (h : WritesEach table text names writes args) :
    Writes (g.writeDeclared table n writes)
      (text nested (ofDeclared table n (args.map (ofType table))))
      (names (ofDeclared table n (args.map (ofType table)))) := by
  unfold writeDeclared ofDeclared
  cases table.find? n with
  | none => exact fits.unknown nested
  | some d =>
      cases d with
      | ofEnum e => exact fits.ofEnum nested e
      | ofClass c =>
          show Writes (g.writeFit _ _ >>= _) (text nested (.ofClass c _)) (names (.ofClass c _))
          rw [fits.text_ofClass, fits.names_ofClass]
          exact (writes_writeFit fits _ h).map _

/-- One step of the resolver, given what its arguments write and register. -/
theorem writes_writeNamed (nested : Bool) (n : String)
    (h : WritesEach table text names writes args) :
    Writes (g.writeNamed table nested n args writes)
      (text nested (ofNamed table n args (args.map (ofType table))))
      (names (ofNamed table n args (args.map (ofType table)))) := by
  unfold writeNamed ofNamed
  cases TypeKind.ofName n with
  | decimal => exact fits.special nested .decimal
  | bigInteger => exact fits.special nested .bigInteger
  | fileUpload => exact fits.special nested .fileUpload
  | wideInteger => exact fits.special nested .wideInteger
  | number => exact fits.primitive nested .number
  | text => exact fits.primitive nested .text
  | bool => exact fits.primitive nested .bool
  | void => exact fits.void nested
  | map => exact writes_writeMap fits nested h
  | list =>
      rw [fits.text_list, fits.names_list]
      exact (writes_writeFirst fits h).map _
  | wrapper =>
      cases h with
      | nil => exact fits.unknown nested
      | cons hfirst _ =>
          show Writes (g.nameOptional >>= fun _ => _) (text nested (.optional _))
            (names (.optional _))
          rw [fits.text_optional, fits.names_optional]
          exact (writes_nameOptional g).bind (hfirst.map _)
  | tuple =>
      rw [fits.text_tuple, fits.names_tuple]
      exact (writes_mapM_id h).map _
  | unknown => exact fits.unknown nested
  | declared => exact writes_writeDeclared fits nested n h

end Named

mutual

theorem writes_write (fits : g.Fits text names) : ∀ (t : TypeExpr) (nested : Bool),
    Writes (g.write table nested t) (text nested (ofType table t)) (names (ofType table t))
  | .wildcard, nested => by
      rw [write, ofType]
      exact fits.unknown nested
  | .var n, nested => by
      rw [write, ofType]
      exact fits.var nested n
  | .named n args, nested => by
      rw [write, ofType, ofTypes_eq_map]
      exact writes_writeNamed fits nested n (writesEach_writeAll fits args)

theorem writesEach_writeAll (fits : g.Fits text names) : ∀ ts : List TypeExpr,
    WritesEach table text names (g.writeAll table ts) ts
  | [] => by
      rw [writeAll]
      exact .nil
  | t :: rest => by
      rw [writeAll]
      exact .cons (writes_write fits t true) (writesEach_writeAll fits rest)

end

theorem writes_write? (fits : g.Fits text names) (nested : Bool) (t : Option TypeExpr) :
    Writes (g.write? table nested t) (text nested (ofType? table t))
      (names (ofType? table t)) := by
  cases t with
  | none => exact fits.unknown nested
  | some t => exact writes_write fits t nested

end TypeGrammar

/-! ## The two targets -/

theorem Resolved.aliasesOfAll_eq_flatMap : ∀ ws : List Resolved,
    aliasesOfAll ws = ws.flatMap aliases
  | [] => rfl
  | w :: rest => congrArg (aliases w ++ ·) (aliasesOfAll_eq_flatMap rest)

theorem Ts.typeTexts_eq_map : ∀ ws : List Resolved, typeTexts ws = ws.map typeText
  | [] => rfl
  | w :: rest => congrArg (typeText w :: ·) (typeTexts_eq_map rest)

theorem Oc.typeTexts_eq_map : ∀ ws : List Resolved, typeTexts ws = ws.map (typeText true)
  | [] => rfl
  | w :: rest => congrArg (typeText true w :: ·) (typeTexts_eq_map rest)

theorem Ts.typeText_keyless (value : Resolved) :
    typeText (.map none value) = grammar.map grammar.propertyKey (typeText value) := by
  have hopening : "Record<PropertyKey, " = "Record<" ++ "PropertyKey" ++ ", " := by decide
  show "Record<PropertyKey, " ++ typeText value ++ ">" = _
  rw [hopening]
  rfl

theorem Oc.typeText_keyless (nested : Bool) (value : Resolved) :
    typeText nested (.map none value) = grammar.map grammar.propertyKey (typeText true value) := by
  have hopening : "NSDictionary<id<NSCopying>, " = "NSDictionary<" ++ "id<NSCopying>" ++ ", " := by
    decide
  show "NSDictionary<id<NSCopying>, " ++ typeText true value ++ ">*" = _
  rw [hopening]
  rfl

theorem Ts.grammar_fits : grammar.Fits (fun _ => typeText) Resolved.aliases where
  unknown _ := writes_pure _
  void _ := writes_pure _
  var _ _ := writes_pure _
  special _ type := writes_name (Alias.ofSpecial type)
  primitive _ _ := writes_pure _
  ofEnum _ _ := writes_pure _
  text_keyless _ value := typeText_keyless value
  names_keyless _ := rfl
  text_map _ _ _ := rfl
  names_map _ _ := rfl
  text_list _ _ := rfl
  names_list _ := rfl
  text_optional _ _ := rfl
  names_optional _ := rfl
  text_tuple _ items := congrArg grammar.tuple (typeTexts_eq_map items)
  names_tuple items := Resolved.aliasesOfAll_eq_flatMap items
  text_ofClass _ c args := congrArg (grammar.ofClass c) (typeTexts_eq_map args)
  names_ofClass _ args := Resolved.aliasesOfAll_eq_flatMap args

theorem Oc.grammar_fits : grammar.Fits typeText (fun _ => []) where
  unknown _ := writes_pure _
  void _ := writes_pure _
  var _ _ := writes_pure _
  special _ _ := writes_pure _
  primitive _ _ := writes_pure _
  ofEnum _ _ := writes_pure _
  text_keyless nested value := typeText_keyless nested value
  names_keyless _ := rfl
  text_map _ _ _ := rfl
  names_map _ _ := rfl
  text_list _ _ := rfl
  names_list _ := rfl
  text_optional _ _ := rfl
  names_optional _ := rfl
  text_tuple _ _ := rfl
  names_tuple _ := by simp
  text_ofClass _ c args := congrArg (grammar.ofClass c) (typeTexts_eq_map args)
  names_ofClass _ _ := by simp

end ApiStubs
