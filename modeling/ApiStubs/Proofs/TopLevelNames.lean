import ApiStubs.Proofs.AliasUses
import ApiStubs.Proofs.Headers
import ApiStubs.Proofs.Identifiers
import ApiStubs.Proofs.Modules
import ApiStubs.Proofs.Samples

/-!
# Names at the top of a TypeScript file

The statements at the top of a file bind names from five sources: what every file imports and its
constant for the base address, modules, classes, enums, and auxiliary types.  Each source keeps its
own names apart.  Modules do not meet imports or auxiliary types either, since their identifiers do
not start with a capital and those names do; and classes and enums share one namer.  Nothing keeps
the names of classes and enums from those of the other sources, so that names are bound once exactly
if the input happens to avoid them (`Ts.bound_once_iff`), and a class of the name of an import is
bound a second time (`Ts.settings_bound_twice`).
-/

namespace ApiStubs

namespace Alias

/-- The type parameters of the name where it is defined. -/
def parameters : Alias → List String
  | optional => ["T"]
  | _ => []

theorem name_eq (a : Alias) : a.name = a.symbol ++ parameterList a.parameters := by
  cases a with
  | optional => rfl
  | _ => rfl

theorem symbol_injective : Function.Injective symbol := by
  intro a b h
  refine name_injective ?_
  cases a with
  | optional =>
      cases b with
      | optional => rfl
      | _ => exact absurd h (by decide)
  | _ =>
      cases b with
      | optional => exact absurd h (by decide)
      | _ => exact h

end Alias

namespace Ts

open Text.Identifier (startsUpper)

/-! ## Statements -/

/-- Whether a text is a statement that binds a name. -/
def isStatement (s : String) : Bool :=
  ["import ", "const ", "export "].any fun keyword => keyword.toList.isPrefixOf s.toList

@[simp] theorem isStatement_empty : isStatement "" = false := by
  decide

@[simp] theorem isStatement_brace : isStatement "\x7d" = false := by
  decide

@[simp] theorem isStatement_brace_semicolon : isStatement "\x7d;" = false := by
  decide

theorem isStatement_append {s : String} (h : isStatement s = true) (t : String) :
    isStatement (s ++ t) = true := by
  obtain ⟨keyword, hk, hs⟩ := List.any_eq_true.mp h
  refine List.any_eq_true.mpr ⟨keyword, hk, ?_⟩
  rw [ List.isPrefixOf_iff_prefix] at hs ⊢
  rw [String.toList_append]
  exact hs.trans (List.prefix_append _ _)

theorem isStatement_header {opening : String} (opens : isStatement opening = true) (name : String)
    (parameters : List String) (closing : String) :
    isStatement (Header.mk opening name parameters closing).text = true :=
  isStatement_append (isStatement_append (isStatement_append opens _) _) _

/-- The statements among the texts that operations write themselves. -/
def statementsOf (ops : List WriteOp) : List String :=
  (ops.flatMap WriteOp.ownTexts).filter isStatement

def Document.statements (document : Document) : List String :=
  statementsOf document.ops

theorem statementsOf_append (ops others : List WriteOp) :
    statementsOf (ops ++ others) = statementsOf ops ++ statementsOf others := by
  rw [statementsOf, List.flatMap_append, List.filter_append]
  rfl

theorem statementsOf_flatMap {α : Type} {f : α → List WriteOp} {header : α → Header}
    (h : ∀ a, statementsOf (f a) = [(header a).text]) (as : List α) :
    statementsOf (as.flatMap f) = (as.map header).map Header.text := by
  induction as with
  | nil => rfl
  | cons a rest ih =>
      rw [List.flatMap_cons, statementsOf_append, h, ih]
      rfl

/-! ## Headers -/

def moduleHeader (m : Module) : Header :=
  ⟨"export const ", m.identifier, [], " = \x7b"⟩

/-- What a type that extends another one says of it. -/
def extension : Option Resolved → String
  | some type => " extends " ++ typeText type
  | none => ""

def TypeBody.header (c : Class) : TypeBody → Header
  | sameAs type =>
    ⟨"export type ", c.simpleName, c.typeParameters, " = " ++ typeText type ++ ";"⟩
  | record parent fields =>
    ⟨"export interface ", c.simpleName, c.typeParameters,
      extension parent ++ if fields.isEmpty then " \x7b\x7d" else " \x7b"⟩

def classHeader (table : DeclarationTable) (c : Class) : Header :=
  (TypeBody.ofClass table c).header c

def enumHeader (e : Enum) : Header :=
  ⟨"export enum ", e.simpleName, [], " \x7b"⟩

def aliasHeader (a : Alias) : Header :=
  ⟨"export type ", a.symbol, a.parameters, " = " ++ a.definition ++ ";"⟩

/-- The imports of every file, and its constant for the base address. -/
def Document.preamble (document : Document) : List Header :=
  [⟨"import \x7b ", "NadInvoker", [], " \x7d from " ++ document.runtime.inTs ++ ";"⟩,
   ⟨"import type \x7b ", "Settings", [], " \x7d from " ++ document.runtime.inTs ++ ";"⟩,
   ⟨"const ", "BASE", [], " = " ++ document.base.inTs ++ ";"⟩]

def Document.usedAliases (document : Document) : List Alias :=
  (Resolved.aliasesOfAll document.mentioned).eraseDups

def headers (document : Document) (model : Model) : List Header :=
  document.preamble ++ model.modules.map moduleHeader ++
    model.classes.map (classHeader model.table) ++ model.enums.map enumHeader ++
    document.usedAliases.map aliasHeader

theorem statementsOf_module (table : DeclarationTable) (m : Module) :
    statementsOf (ModuleObject.ofModule table m).ops = [(moduleHeader m).text] := by
  have hs : isStatement (moduleHeader m).text = true := isStatement_header (by decide) _ _ _
  rw [moduleHeader, Header.text_plain] at hs ⊢
  simp [statementsOf, ModuleObject.ops, ModuleObject.ofModule, hs]

theorem statementsOf_sameAs (c : Class) (type : Resolved) :
    statementsOf ((TypeBody.sameAs type).ops c.head) =
      [(TypeBody.header c (.sameAs type)).text] := by
  have htext : "export type " ++ c.head ++ " = " ++ typeText type ++ ";" =
      (TypeBody.header c (.sameAs type)).text := by
    simp only [TypeBody.header, Header.text, Class.head_eq, String.append_assoc]
  have hs : isStatement (TypeBody.header c (.sameAs type)).text = true :=
    isStatement_header (by decide) _ _ _
  rw [TypeBody.ops, htext]
  simp [statementsOf, hs]

theorem interfaceHead_eq_extension (c : Class) (parent : Option Resolved) :
    interfaceHead c.head parent =
      c.simpleName ++ parameterList c.typeParameters ++ extension parent := by
  cases parent with
  | none => simp only [interfaceHead, extension, Class.head_eq, String.append_empty]
  | some type => simp only [interfaceHead, extension, Class.head_eq, String.append_assoc]

theorem statementsOf_record (c : Class) (parent : Option Resolved) (fields : List Field) :
    statementsOf ((TypeBody.record parent fields).ops c.head) =
      [(TypeBody.header c (.record parent fields)).text] := by
  have htext : (TypeBody.header c (.record parent fields)).text =
      "export interface " ++ interfaceHead c.head parent ++
        if fields.isEmpty then " \x7b\x7d" else " \x7b" := by
    simp only [TypeBody.header, Header.text, interfaceHead_eq_extension, String.append_assoc]
  have hs : isStatement (TypeBody.header c (.record parent fields)).text = true :=
    isStatement_header (by decide) _ _ _
  rw [htext] at hs ⊢
  cases fields with
  | nil =>
      rw [List.isEmpty_nil, if_pos rfl] at hs ⊢
      simp [statementsOf, TypeBody.ops, hs]
  | cons field rest =>
      rw [List.isEmpty_cons, if_neg Bool.false_ne_true] at hs ⊢
      simp [statementsOf, TypeBody.ops, hs]

theorem statementsOf_class (table : DeclarationTable) (c : Class) :
    statementsOf (TypeDefinition.ofClass table c).ops = [(classHeader table c).text] := by
  have hops : statementsOf (TypeDefinition.ofClass table c).ops =
      statementsOf ((TypeBody.ofClass table c).ops c.head) := rfl
  rw [hops, classHeader]
  cases TypeBody.ofClass table c with
  | sameAs type => exact statementsOf_sameAs c type
  | record parent fields => exact statementsOf_record c parent fields

theorem statementsOf_enum (e : Enum) : statementsOf (enumOps e) = [(enumHeader e).text] := by
  have hs : isStatement (enumHeader e).text = true := isStatement_header (by decide) _ _ _
  rw [enumHeader, Header.text_plain] at hs ⊢
  simp [statementsOf, enumOps, hs]

theorem statementsOf_alias (a : Alias) :
    statementsOf [aliasOps a.name a.definition] = [(aliasHeader a).text] := by
  have hs : isStatement (aliasHeader a).text = true := isStatement_header (by decide) _ _ _
  have htext : "export type " ++ a.name ++ " = " ++ a.definition ++ ";" = (aliasHeader a).text := by
    simp only [Alias.name_eq a, aliasHeader, Header.text, String.append_assoc]
  simp [statementsOf, aliasOps, htext, hs]

theorem preamble_texts (document : Document) :
    document.preamble.map Header.text =
      ["import \x7b NadInvoker \x7d from " ++ document.runtime.inTs ++ ";",
       "import type \x7b Settings \x7d from " ++ document.runtime.inTs ++ ";",
       "const BASE = " ++ document.base.inTs ++ ";"] := by
  have hinvoker : "import \x7b NadInvoker \x7d from " =
      "import \x7b " ++ "NadInvoker" ++ " \x7d from " := by decide
  have hsettings : "import type \x7b Settings \x7d from " =
      "import type \x7b " ++ "Settings" ++ " \x7d from " := by decide
  have hbase : "const BASE = " = "const " ++ "BASE" ++ " = " := by decide
  rw [hinvoker, hsettings, hbase]
  simp only [Document.preamble, List.map_cons, List.map_nil, Header.text_plain, String.append_assoc]

theorem statementsOf_headLines (document : Document) :
    statementsOf [.texts document.headLines] = document.preamble.map Header.text := by
  have hbanner : (if document.hasBanner then
      ["/* This file is generated by typed-client-gen, do not edit manually. */",
       "/* eslint-disable */",
       ""]
     else []).filter isStatement = [] := by
    cases document.hasBanner with
    | true => decide
    | false => rfl
  have hlines : document.preamble.map Header.text =
      (document.preamble.map Header.text).filter isStatement := by
    refine (List.filter_eq_self.mpr fun s hs => ?_).symm
    obtain ⟨h, hh, rfl⟩ := List.mem_map.mp hs
    simp only [Document.preamble, List.mem_cons, List.not_mem_nil, or_false] at hh
    rcases hh with rfl | rfl | rfl
    all_goals exact isStatement_header (by decide) _ _ _
  rw [hlines, preamble_texts, statementsOf, List.flatMap_singleton, WriteOp.ownTexts_texts,
    Document.headLines, List.filter_append, hbanner]
  simp only [List.filter_cons, isStatement_empty, List.nil_append, Bool.false_eq_true, if_false]

/-- The statements at the top of a file are headers, one for each name that the file binds. -/
theorem statements_eq {hasBanner : Bool} {runtime base : Literal} {model : Model}
    {document : Document} (content : document = .ofModel hasBanner runtime base model) :
    document.statements = (headers document model).map Header.text := by
  have haliases : document.aliases.entries.map (fun entry => aliasOps entry.1 entry.2) =
      document.usedAliases.flatMap fun a => [aliasOps a.name a.definition] := by
    rw [Document.aliases, AliasRegistry.entries_registerAll_empty, List.map_map,
      ← List.map_eq_flatMap]
    rfl
  have hops : document.ops = [.texts document.headLines] ++
      document.modules.flatMap ModuleObject.ops ++ document.types.flatMap TypeDefinition.ops ++
      document.enums.flatMap enumOps ++
      document.aliases.entries.map (fun entry => aliasOps entry.1 entry.2) := rfl
  rw [Document.statements, hops, haliases, modules_eq content, types_eq content, enums_eq content,
    List.flatMap_map, List.flatMap_map]
  simp only [statementsOf_append, statementsOf_headLines,
    statementsOf_flatMap (statementsOf_module model.table),
    statementsOf_flatMap (statementsOf_class model.table), statementsOf_flatMap statementsOf_enum,
    statementsOf_flatMap statementsOf_alias, headers, List.map_append]

/-! ## The names of the sources -/

theorem startsUpper_symbol (a : Alias) : startsUpper a.symbol = true := by
  cases a with
  | _ => decide

/-- The names of which the input knows nothing are apart from each other and from modules. -/
theorem nodup_names_given {options : ModelOptions} {routes : List Route} {aliases : List Alias}
    (nodup : aliases.Nodup) :
    (["NadInvoker", "Settings", "BASE"] ++ ((Assembly.modules options routes).map (·.identifier) ++
      aliases.map Alias.symbol)).Nodup := by
  have hmodule : ∀ n ∈ (Assembly.modules options routes).map (·.identifier),
      startsUpper n = false := by
    intro n hn
    obtain ⟨m, hm, rfl⟩ := List.mem_map.mp hn
    exact Assembly.not_startsUpper_identifier hm
  have hpreamble : ∀ n ∈ ["NadInvoker", "Settings", "BASE"], startsUpper n = true := by decide
  have hapart : ∀ n ∈ ["NadInvoker", "Settings", "BASE"], ∀ a : Alias, n ≠ a.symbol := by
    intro n hn a
    simp only [List.mem_cons, List.not_mem_nil, or_false] at hn
    rcases hn with rfl | rfl | rfl
    all_goals
      cases a with
      | _ => decide
  refine List.nodup_append.mpr ⟨by decide, List.nodup_append.mpr
    ⟨Assembly.nodup_identifiers_modules, nodup.map Alias.symbol_injective, ?_⟩, ?_⟩
  · intro n hn m hm e
    obtain ⟨a, _, rfl⟩ := List.mem_map.mp hm
    exact absurd (e ▸ hmodule n hn) (by simp [startsUpper_symbol])
  · intro n hn m hm e
    rcases List.mem_append.mp hm with hm | hm
    · exact absurd (e ▸ hmodule m hm) (by simp [hpreamble n hn])
    · obtain ⟨a, _, rfl⟩ := List.mem_map.mp hm
      exact hapart n hn a e

theorem names_headers (document : Document) (model : Model) :
    (headers document model).map (·.name) =
      ["NadInvoker", "Settings", "BASE"] ++ model.modules.map (·.identifier) ++
        model.declaredNames ++ document.usedAliases.map Alias.symbol := by
  have hclass : ∀ c, (classHeader model.table c).name = c.simpleName := by
    intro c
    rw [classHeader]
    cases TypeBody.ofClass model.table c with
    | _ => rfl
  have hclasses : (model.classes.map (classHeader model.table)).map (·.name) =
      model.classes.map (·.simpleName) := by
    rw [List.map_map]
    exact List.map_congr_left fun c _ => hclass c
  have hmodules : (model.modules.map moduleHeader).map (·.name) =
      model.modules.map (·.identifier) := List.map_map
  have henums : (model.enums.map enumHeader).map (·.name) = model.enums.map (·.simpleName) :=
    List.map_map
  have haliases : (document.usedAliases.map aliasHeader).map (·.name) =
      document.usedAliases.map Alias.symbol := List.map_map
  simp only [headers, List.map_append, hmodules, hclasses, henums, haliases, Model.declaredNames,
    List.append_assoc]
  rfl

/-- Names put in between others. -/
theorem nodup_insert_iff {front middle names back : List String}
    (given : (front ++ (middle ++ back)).Nodup) (nodup : names.Nodup) :
    (front ++ middle ++ names ++ back).Nodup ↔
      ∀ n ∈ names, n ∉ front ∧ n ∉ middle ∧ n ∉ back := by
  have hperm : (front ++ middle ++ names ++ back).Perm (names ++ (front ++ (middle ++ back))) := by
    rw [← List.append_assoc front, ← List.append_assoc names]
    exact List.perm_append_comm.append_right back
  rw [hperm.nodup_iff, List.nodup_append]
  constructor
  · rintro ⟨_, _, apart⟩ n hn
    have hfree : n ∉ front ++ (middle ++ back) := fun h => apart n hn n h rfl
    simpa only [List.mem_append, not_or] using hfree
  · intro apart
    refine ⟨nodup, given, ?_⟩
    rintro n hn _ hm rfl
    obtain ⟨hfront, hmiddle, hback⟩ := apart n hn
    simp [hfront, hmiddle, hback] at hm

/-! ## Files -/

/-- The statements at the top of a file bind a name each.  They bind no name twice exactly if no
class or enum that is put out has the name of an import, of the constant for the base address, of a
module or of an auxiliary type that the file defines; other names do not meet. -/
theorem bound_once_iff {base raw : Json.Value} {options : BuildOptions} {result : BuildResult}
    (built : build (.string Target.ts.name) base raw options = .ok result) :
    ∃ model document, Writes base raw options result model document ∧
      document.statements = (headers document model).map Header.text ∧
      (((headers document model).map (·.name)).Nodup ↔
        ∀ n ∈ model.declaredNames, n ∉ ["NadInvoker", "Settings", "BASE"] ∧
          n ∉ model.modules.map (·.identifier) ∧
          n ∉ document.usedAliases.map Alias.symbol) := by
  obtain ⟨model, document, writes⟩ := exists_writes built
  refine ⟨model, document, writes, statements_eq writes.content, ?_⟩
  obtain ⟨graph, _, rfl⟩ := Model.ofJson_eq_ok_iff.mp writes.assembled
  have hgiven : (["NadInvoker", "Settings", "BASE"] ++
      ((Model.assemble (Build.modelOptions .ts options) graph).modules.map (·.identifier) ++
        document.usedAliases.map Alias.symbol)).Nodup :=
    nodup_names_given (nodup_eraseDups _)
  rw [names_headers]
  exact nodup_insert_iff hgiven Model.nodup_simpleNames_emitted

/-- A graph with one class, which the one route returns. -/
def settingsGraph (className : String) : Graph :=
  .sample [.sample className []] [] (some (.named className []))

/-- What the file for such a graph binds. -/
def settingsNames (className : String) : List String :=
  let model := Model.assemble (Build.modelOptions .ts (.ofTexts true none none none))
    (settingsGraph className)
  (headers (.ofModel false (.text Target.ts.runtime) (.text "") model) model).map (·.name)

theorem writes_settings {className : String}
    (decoded : Graph.decode (settingsGraph className).sampleJson = .ok (settingsGraph className))
    {result : BuildResult} {model : Model} {document : Document}
    (writes : Writes (.string "") (settingsGraph className).sampleJson
      (.ofTexts true none none none) result model document) :
    (headers document model).map (·.name) = settingsNames className := by
  rw [writes.document_eq, Model.eq_assemble_of_decode decoded writes.assembled]
  rfl

/-- A class with a name of its own. -/
theorem bound_once_order : ∃ result,
    build (.string Target.ts.name) (.string "") (settingsGraph "app.Order").sampleJson
      (.ofTexts true none none none) = .ok result ∧
    ∃ model document, Writes (.string "") (settingsGraph "app.Order").sampleJson
      (.ofTexts true none none none) result model document ∧
      (headers document model).map (·.name) =
        ["NadInvoker", "Settings", "BASE", "loader", "Order"] ∧
      ∀ n ∈ model.declaredNames, n ∉ ["NadInvoker", "Settings", "BASE"] ∧
        n ∉ model.modules.map (·.identifier) ∧ n ∉ document.usedAliases.map Alias.symbol := by
  have decoded : Graph.decode (settingsGraph "app.Order").sampleJson =
      .ok (settingsGraph "app.Order") := by rfl
  obtain ⟨result, built⟩ := build_ok_of_decode decoded .ts "" true
  obtain ⟨model, document, writes, _, once⟩ := bound_once_iff built
  have hnames : (headers document model).map (·.name) =
      ["NadInvoker", "Settings", "BASE", "loader", "Order"] := by
    rw [writes_settings decoded writes]
    decide +kernel
  refine ⟨result, built, model, document, writes, hnames, once.mp ?_⟩
  rw [hnames]
  decide

/-- A class that goes by the name of an import. -/
theorem settings_bound_twice : ∃ result,
    build (.string Target.ts.name) (.string "") (settingsGraph "app.Settings").sampleJson
      (.ofTexts true none none none) = .ok result ∧
    ∃ model document, Writes (.string "") (settingsGraph "app.Settings").sampleJson
      (.ofTexts true none none none) result model document ∧
      (headers document model).map (·.name) =
        ["NadInvoker", "Settings", "BASE", "loader", "Settings"] ∧
      document.statements = (headers document model).map Header.text ∧
      ¬ ((headers document model).map (·.name)).Nodup := by
  have decoded : Graph.decode (settingsGraph "app.Settings").sampleJson =
      .ok (settingsGraph "app.Settings") := by rfl
  obtain ⟨result, built⟩ := build_ok_of_decode decoded .ts "" true
  obtain ⟨model, document, writes⟩ := exists_writes built
  have hnames : (headers document model).map (·.name) =
      ["NadInvoker", "Settings", "BASE", "loader", "Settings"] := by
    rw [writes_settings decoded writes]
    decide +kernel
  refine ⟨result, built, model, document, writes, hnames, statements_eq writes.content, ?_⟩
  rw [hnames]
  decide

end Ts

end ApiStubs
