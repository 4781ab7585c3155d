import ApiStubs.Proofs.GlobalNames
import ApiStubs.Proofs.PrintedJson
import ApiStubs.Proofs.Samples

/-!
# Value types of enums

What the values of an enum are in transit is asked in four places: when its record is decoded, when
a constant gets its literal, when a reference to the enum is written, and when the enum itself is.
Constants carry any values at all, so that the first two have to agree on truth values, null, arrays
and objects, and on enums without constants; the last two look at the answer of the first.

The value type is a conjunction over the constants (`ValueType.ofConstants_eq_iff`), and therefore
depends on nothing but which constants there are (`ValueType.ofConstants_congr`).  In Objective-C a
reference is a boxed number exactly if the enum is written as an integer type, and then its
constants are numbers without quotes.

A finite number is written as a numeral that reads as it, an infinite one as the word `inf`, which
is no numeral and means nothing in Objective-C (`Literal.writtenBare_bare`).  So an enum of numbers
has a numeral for every constant exactly if all its values are finite (`Oc.isIntegerType_iff`), and
`infinite_level_no_numeral` is an enum of which one is not.
-/

namespace ApiStubs

open Json (Value)

/-! ## Literals that are numbers -/

namespace Literal

def IsNumber : Literal → Prop
  | int _ => True
  | float _ => True
  | _ => False

/-- All but the infinite numbers. -/
def IsFinite : Literal → Prop
  | float x => x.isInfinite = false
  | _ => True

/-- The number that a numeral writes; none for a text that is no numeral. -/
def number? (s : String) : Option Literal :=
  (Json.Numeral.read? s.toList).bind ofJson?

/-- How a number is written without quotes: as a numeral if it is finite, else as no numeral. -/
structure WrittenBare (l : Literal) (s : String) : Prop where
  isNumber : l.IsNumber
  finite : l.IsFinite → number? s = some l
  infinite : ¬ l.IsFinite → number? s = none

theorem WrittenBare.number?_eq_some_iff {l : Literal} {s : String} (h : l.WrittenBare s) :
    number? s = some l ↔ l.IsFinite := by
  refine ⟨fun hread => ?_, h.finite⟩
  by_contra hinfinite
  rw [h.infinite hinfinite] at hread
  exact absurd hread (by simp)

theorem number?_of_read? {s : String} {v : Value} (h : Json.Numeral.read? s.toList = some v) :
    number? s = ofJson? v := by
  rw [number?, h, Option.bind_some]

theorem number?_infinite (negative : Bool) :
    number? (float (.infinity negative)).bare = none := by
  have hread : (Json.Numeral.read? (float (.infinity negative)).bare.toList).isNone := by
    cases negative with
    | _ => decide +kernel
  rw [number?, Option.isNone_iff_eq_none.mp hread, Option.bind_none]

theorem writtenBare_bare {l : Literal} (h : l.IsNumber) : l.WrittenBare l.bare where
  isNumber := h
  finite hfinite := by
    cases l with
    | text s => cases h
    | bool b => cases h
    | int n => exact number?_of_read? (Json.Numeral.read?_toString n)
    | float x =>
        have hread := Json.Numeral.read?_text Json.displayLayout hfinite
        refine number?_of_read? (v := .float x) ?_
        show Json.Numeral.read? (String.ofList _).toList = _
        rw [String.toList_ofList, hread]
  infinite hinfinite := by
    cases l with
    | text s => cases h
    | bool b => cases h
    | int n => exact absurd trivial hinfinite
    | float x =>
        rw [Json.Reader.eq_infinity (Bool.eq_true_of_not_eq_false hinfinite)]
        exact number?_infinite x.negative

end Literal

/-! ## Value types -/

theorem Constant.valueType_eq_number_iff {c : Constant} :
    c.valueType = .number ↔ c.value.IsNumber := by
  rw [valueType, value]
  cases c.raw <;> simp [Literal.IsNumber]

theorem Constant.valueType_eq_string_iff {c : Constant} :
    c.valueType = .string ↔ ∃ s, c.raw = .string s := by
  rw [valueType]
  cases c.raw <;> simp

namespace ValueType

/-- Constants are of a known type exactly if there are some, and each one is. -/
theorem ofConstants_eq_iff {kind : ValueType} (known : kind ≠ .unknown) {cs : List Constant} :
    ofConstants cs = kind ↔ cs ≠ [] ∧ ∀ c ∈ cs, c.valueType = kind := by
  cases cs with
  | nil => exact ⟨fun h => absurd h.symm known, fun h => absurd rfl h.1⟩
  | cons c rest =>
      rw [ofConstants, List.forall_mem_cons]
      by_cases hall : rest.all (·.valueType = c.valueType) = true
      · rw [if_pos hall]
        have hrest : ∀ d ∈ rest, d.valueType = c.valueType := by simpa using hall
        constructor
        · rintro rfl
          exact ⟨by simp, rfl, hrest⟩
        · exact fun h => h.2.1
      · rw [if_neg hall]
        constructor
        · exact fun h => absurd h.symm known
        · rintro ⟨_, rfl, hrest⟩
          exact absurd (by simpa using hrest) hall

/-- Which constants there are decides, and neither their order nor how often they occur. -/
theorem ofConstants_congr {cs ds : List Constant} (same : ∀ c, c ∈ cs ↔ c ∈ ds) :
    ofConstants cs = ofConstants ds := by
  have hknown : ∀ kind, kind ≠ .unknown → (ofConstants cs = kind ↔ ofConstants ds = kind) := by
    intro kind known
    have hnil : cs = [] ↔ ds = [] := by
      simp only [List.eq_nil_iff_forall_not_mem, same]
    rw [ofConstants_eq_iff known, ofConstants_eq_iff known, ne_eq, ne_eq, hnil]
    simp only [same]
  by_cases hcs : ofConstants cs = .unknown
  · by_cases hds : ofConstants ds = .unknown
    · rw [hcs, hds]
    · exact (hknown _ hds).mpr rfl
  · exact ((hknown _ hcs).mp rfl).symm

end ValueType

/-! ## Decoded enums -/

namespace Graph

theorem decodeConstant_of_decodeConstant {missing missing' : Missing} {v : Value} {c : Constant}
    (h : decodeConstant missing v = .ok c) : decodeConstant missing' v = .ok c := by
  obtain ⟨n, hn, h⟩ := bind_eq_ok.mp h
  exact bind_eq_ok.mpr ⟨n, name_of_name hn, h⟩

def Describes (v : Value) (c : Constant) : Prop :=
  ∀ missing, decodeConstant missing v = .ok c

theorem decodeEnum_eq_ok_iff {i : Nat} {v : Value} {record : EnumRecord} :
    decodeEnum i v = .ok record ↔ ∃ n cs, v.text? "name" = some n ∧
      List.Forall₂ Describes (v.itemsOf "constants") cs ∧
      record = ⟨n, cs, .ofConstants cs, description v, annotations v⟩ := by
  have steady : Steady fun j => decodeConstant (.constantName i j) :=
    fun _ _ _ _ => decodeConstant_of_decodeConstant
  have hconstants : ∀ cs, decodeAll (fun j => decodeConstant (.constantName i j)) 0
      (v.itemsOf "constants") = .ok cs ↔ List.Forall₂ Describes (v.itemsOf "constants") cs := by
    intro cs
    rw [decodeAll_eq_ok_iff steady]
    constructor
    · exact fun h => h.imp fun _ _ hc _ => decodeConstant_of_decodeConstant hc
    · exact fun h => h.imp fun _ _ hc => hc _
  constructor
  · intro h
    obtain ⟨n, hn, h⟩ := bind_eq_ok.mp h
    obtain ⟨cs, hcs, h⟩ := bind_eq_ok.mp h
    exact ⟨n, cs, name_eq_ok_iff.mp hn, (hconstants cs).mp hcs, (Except.ok.inj h).symm⟩
  · rintro ⟨n, cs, hn, hcs, rfl⟩
    exact bind_eq_ok.mpr ⟨n, name_eq_ok_iff.mpr hn,
      bind_eq_ok.mpr ⟨cs, (hconstants cs).mpr hcs, rfl⟩⟩

theorem Describes.eq {v : Value} {c d : Constant} (hc : Describes v c) (hd : Describes v d) :
    c = d :=
  Except.ok.inj ((hc (.constantName 0 0)).symm.trans (hd _))

theorem mem_iff_of_describes {vs : List Value} {cs : List Constant}
    (h : List.Forall₂ Describes vs cs) {c : Constant} : c ∈ cs ↔ ∃ v ∈ vs, Describes v c := by
  constructor
  · exact exists_left_of_forall₂ h
  · rintro ⟨v, hv, hc⟩
    obtain ⟨d, hd, hvd⟩ := exists_right_of_forall₂ h hv
    rw [hc.eq hvd]
    exact hd

/-- A record with the same constants, in any order and any number of times, is decoded to an enum of
the same value type. -/
theorem exists_decodeEnum_of_same {i : Nat} {v : Value} {record : EnumRecord}
    (decoded : decodeEnum i v = .ok record) {w : Value} {n : String}
    (named : w.text? "name" = some n)
    (same : ∀ item, item ∈ w.itemsOf "constants" ↔ item ∈ v.itemsOf "constants") (j : Nat) :
    ∃ record', decodeEnum j w = .ok record' ∧ record'.valueType = record.valueType := by
  obtain ⟨_, cs, _, hcs, rfl⟩ := decodeEnum_eq_ok_iff.mp decoded
  obtain ⟨ds, hds⟩ : ∃ ds, List.Forall₂ Describes (w.itemsOf "constants") ds := by
    refine exists_forall₂ fun item hitem => ?_
    have hv : item ∈ v.itemsOf "constants" := (same item).mp hitem
    obtain ⟨c, _, hc⟩ := exists_right_of_forall₂ hcs hv
    exact ⟨c, hc⟩
  refine ⟨_, decodeEnum_eq_ok_iff.mpr ⟨n, ds, named, hds, rfl⟩, ?_⟩
  refine ValueType.ofConstants_congr fun c => ?_
  simp only [mem_iff_of_describes hds, mem_iff_of_describes hcs, same]

end Graph

/-- What the value type of an enum says of its constants. -/
structure EnumRecord.Typed (record : EnumRecord) : Prop where
  number : record.valueType = .number ↔
    record.constants ≠ [] ∧ ∀ c ∈ record.constants, c.value.IsNumber
  string : record.valueType = .string ↔
    record.constants ≠ [] ∧ ∀ c ∈ record.constants, ∃ s, c.raw = .string s

theorem Graph.typed_of_decodeEnum {i : Nat} {v : Value} {record : EnumRecord}
    (decoded : decodeEnum i v = .ok record) : record.Typed := by
  obtain ⟨_, cs, _, _, rfl⟩ := decodeEnum_eq_ok_iff.mp decoded
  have hknown : ValueType.number ≠ .unknown ∧ ValueType.string ≠ .unknown := by decide
  constructor
  · simp only [ValueType.ofConstants_eq_iff hknown.1, Constant.valueType_eq_number_iff]
  · simp only [ValueType.ofConstants_eq_iff hknown.2, Constant.valueType_eq_string_iff]

/-! ## Enums as they are written -/

namespace Oc

open Resolved (ofType)

def enumTexts (e : Enum) : List String :=
  (enumOps e).flatMap WriteOp.codeTexts

def integerHeader (name : String) : Header :=
  ⟨"typedef NS_ENUM(NSInteger, ", name, [], ") \x7b"⟩

def constantLine (e : Enum) (c : Constant) (number : String) : String :=
  constantName e.simpleName c.name ++ " = " ++ number ++ ","

/-- The enum is an integer type that sets its constants to these texts. -/
structure SetsTo (e : Enum) (numbers : List String) : Prop where
  texts : enumTexts e = (integerHeader e.simpleName).text ::
    (List.zipWith (constantLine e) e.constants numbers ++ ["\x7d;", ""])
  length : numbers.length = e.constants.length

/-- The enum is an integer type, in which every constant is set to a numeral that reads as its
value. -/
def IsIntegerType (e : Enum) : Prop :=
  ∃ numbers, SetsTo e numbers ∧
    List.Forall₂ (fun c number => Literal.number? number = some c.value) e.constants numbers

theorem enumTexts_of_number {e : Enum} (h : e.valueType = .number) :
    enumTexts e = (integerHeader e.simpleName).text ::
      (e.constants.map (fun c => (constantHeader e c).text) ++ ["\x7d;", ""]) := by
  have hconstants := WriteOp.codeTexts_flatMap (codeTexts_numberConstant h) e.constants
  rw [List.map_map] at hconstants
  rw [enumTexts, enumOps, if_pos h, List.flatMap_append, WriteOp.codeTexts_note, integerHeader,
    Header.text_plain]
  simp only [List.flatMap_cons, List.flatMap_nil, List.nil_append, List.append_nil,
    WriteOp.codeTexts_text, WriteOp.codeTexts_block, WriteOp.codeTexts_texts, hconstants,
    List.singleton_append]
  rfl

theorem head?_enumTexts_of_not_number {e : Enum} (h : e.valueType ≠ .number) :
    (enumTexts e).head? =
      some ("typedef NSString *" ++ e.simpleName ++ " NS_STRING_ENUM;") := by
  rw [enumTexts, enumOps, if_neg h, List.flatMap_append, WriteOp.codeTexts_note]
  simp

theorem head?_enumTexts_eq_iff {e : Enum} :
    (enumTexts e).head? = some (integerHeader e.simpleName).text ↔ e.valueType = .number := by
  by_cases h : e.valueType = .number
  · rw [enumTexts_of_number h, List.head?_cons]
    exact iff_of_true rfl h
  · refine iff_of_false ?_ h
    rw [head?_enumTexts_of_not_number h, integerHeader, Header.text_plain, Option.some_inj,
      ← String.toList_inj]
    simp [String.toList_append]

theorem setsTo_bare {e : Enum} (h : e.valueType = .number) :
    SetsTo e (e.constants.map (·.value.bare)) where
  texts := by
    rw [enumTexts_of_number h, List.zipWith_map_right, List.zipWith_self]
    simp only [constantHeader, constantLine, if_pos h, Header.text_plain, String.empty_append,
      String.append_assoc]
  length := List.length_map _

theorem eq_of_constantLine_eq {e : Enum} {c : Constant} {number number' : String}
    (h : constantLine e c number = constantLine e c number') : number = number' := by
  have hlist := congrArg String.toList h
  simp only [constantLine, String.toList_append, List.append_assoc, List.append_cancel_left_eq,
    List.append_cancel_right_eq] at hlist
  exact String.toList_inj.mp hlist

theorem eq_of_zipWith_constantLine_eq {e : Enum} {cs : List Constant} :
    ∀ {numbers numbers' : List String}, numbers.length = cs.length →
      numbers'.length = cs.length →
      List.zipWith (constantLine e) cs numbers = List.zipWith (constantLine e) cs numbers' →
      numbers = numbers' := by
  induction cs with
  | nil =>
      intro numbers numbers' hlength hlength' _
      rw [List.eq_nil_of_length_eq_zero hlength, List.eq_nil_of_length_eq_zero hlength']
  | cons c cs ih =>
      intro numbers numbers' hlength hlength' h
      cases numbers with
      | nil => exact absurd hlength (by simp)
      | cons number numbers =>
        cases numbers' with
        | nil => exact absurd hlength' (by simp)
        | cons number' numbers' =>
          obtain ⟨hline, hlines⟩ := List.cons.inj h
          rw [eq_of_constantLine_eq hline,
            ih (Nat.succ.inj hlength) (Nat.succ.inj hlength') hlines]

/-- The lines of an enum show what its constants are set to. -/
theorem SetsTo.unique {e : Enum} {numbers numbers' : List String} (h : SetsTo e numbers)
    (h' : SetsTo e numbers') : numbers = numbers' := by
  have hlines := (List.cons.inj (h.texts.symm.trans h'.texts)).2
  exact eq_of_zipWith_constantLine_eq h.length h'.length (List.append_cancel_right hlines)

theorem isIntegerType_iff {e : Enum} (h : e.valueType = .number)
    (numbers : ∀ c ∈ e.constants, c.value.IsNumber) :
    IsIntegerType e ↔ ∀ c ∈ e.constants, c.value.IsFinite := by
  have hwritten : IsIntegerType e ↔
      ∀ c ∈ e.constants, Literal.number? c.value.bare = some c.value := by
    constructor
    · rintro ⟨texts, sets, hread⟩
      rw [sets.unique (setsTo_bare h), List.forall₂_map_right_iff, List.forall₂_same] at hread
      exact hread
    · intro hread
      refine ⟨_, setsTo_bare h, ?_⟩
      rw [List.forall₂_map_right_iff, List.forall₂_same]
      exact hread
  rw [hwritten]
  exact forall₂_congr fun c hc =>
    (Literal.writtenBare_bare (numbers c hc)).number?_eq_some_iff

/-- What a declared name means that is the name of an enum. -/
theorem ofType_of_declared {table : DeclarationTable} {t : TypeExpr} {e : Enum}
    (kind : t.kind = .declared) (names : t.declaration? table = some (.ofEnum e)) :
    ofType table t = .ofEnum e := by
  cases t with
  | wildcard => cases names
  | var n => cases names
  | named n args =>
      have hfind : table.find? n = some (.ofEnum e) := names
      have hkind : TypeKind.ofName n = .declared := kind
      rw [ofType, Resolved.ofNamed.eq_def, hkind]
      simp only [Resolved.ofDeclared, hfind]

theorem typeText_ofEnum_eq_iff {e : Enum} (own : e.simpleName ≠ "NSNumber*") (nested : Bool) :
    typeText nested (.ofEnum e) = "NSNumber*" ↔ e.valueType = .number := by
  show (if e.valueType = .number then "NSNumber*" else e.simpleName) = "NSNumber*" ↔ _
  by_cases h : e.valueType = .number
  · rw [if_pos h]
    exact iff_of_true rfl h
  · rw [if_neg h]
    exact iff_of_false own h

/-- Objective-C takes an enum for numbers where it is declared and where it is mentioned, or at
neither place.  Where it does, every constant is set to its number, and all of them to numerals
exactly if no number is infinite. -/
structure TakenAlike (e : Enum) : Prop where
  reference : e.simpleName ≠ "NSNumber*" → ∀ table t, t.kind = .declared →
    t.declaration? table = some (.ofEnum e) → ∀ nested,
      (typeText nested (ofType table t) = "NSNumber*" ↔
        (enumTexts e).head? = some ((integerHeader e.simpleName).text))
  numbers : (enumTexts e).head? = some ((integerHeader e.simpleName).text) →
    ∃ numbers, SetsTo e numbers ∧
      List.Forall₂ (fun c number => c.value.WrittenBare number) e.constants numbers
  numerals : (enumTexts e).head? = some ((integerHeader e.simpleName).text) →
    (IsIntegerType e ↔ ∀ c ∈ e.constants, c.value.IsFinite)

theorem takenAlike_of_typed {e : Enum} (typed : e.Typed) : TakenAlike e where
  reference own table t kind names nested := by
    rw [ofType_of_declared kind names, typeText_ofEnum_eq_iff own, head?_enumTexts_eq_iff]
  numbers h := by
    have hnumber := head?_enumTexts_eq_iff.mp h
    have all := (typed.number.mp hnumber).2
    refine ⟨_, setsTo_bare hnumber, ?_⟩
    rw [List.forall₂_map_right_iff, List.forall₂_same]
    exact fun c hc => Literal.writtenBare_bare (all c hc)
  numerals h := by
    have hnumber := head?_enumTexts_eq_iff.mp h
    exact isIntegerType_iff hnumber (typed.number.mp hnumber).2

/-- An enum that is put out stands in the file. -/
theorem enumTexts_infix {hasBanner : Bool} {runtime base : String} {model : Model} {e : Enum}
    (h : e ∈ model.enums) :
    enumTexts e <:+: (Document.ofModel hasBanner runtime base model).codeTexts := by
  have hops : ∀ document : Document, document.enums.flatMap enumOps <:+: document.ops := by
    intro document
    have hdocument : document.ops = [.texts document.headLines] ++
        document.enums.flatMap enumOps ++
        (document.interfaces.flatMap Interface.interfaceOps ++
          document.modules.flatMap ModuleClass.interfaceOps ++
          document.interfaces.flatMap Interface.implementationOps ++
          document.modules.flatMap ModuleClass.implementationOps) := by
      rw [Document.ops, List.singleton_append]
      simp only [List.append_assoc]
    rw [hdocument]
    exact List.infix_append _ _ _
  exact WriteOp.codeTexts_infix (hops _) h

end Oc

/-! ## All enums of a graph -/

/-- All enums of a graph, and so all that a model knows or puts out, are of the value type that
their constants have in common: numbers exactly if there are constants and all their literals are
numbers, strings exactly if there are constants and all their values are strings.  Constants in
another order or number make no difference.  In Objective-C references to an enum agree with the way
in which it is written in the file, whatever the simple name, unless this is the text of the
reference itself.  An enum that is written as an integer type has a numeral for each of its
constants exactly if all their values are finite. -/
theorem value_types_agree {raw : Value} {graph : Graph} (decoded : Graph.decode raw = .ok graph) :
    (∀ options e, (Model.assemble options graph).table.Knows (.ofEnum e) →
      e.toEnumRecord ∈ graph.enums) ∧
    (∀ options, ∀ e ∈ (Model.assemble options graph).enums,
      (Model.assemble options graph).table.Knows (.ofEnum e) ∧
      ∀ hasBanner runtime base, Oc.enumTexts e <:+:
        (Oc.Document.ofModel hasBanner runtime base (.assemble options graph)).codeTexts) ∧
    ∀ e : Enum, e.toEnumRecord ∈ graph.enums →
      e.Typed ∧
      (∃ v ∈ raw.itemsOf "enums", Graph.decodeEnum 0 v = .ok e.toEnumRecord ∧
        ∀ i w n, w.text? "name" = some n →
          (∀ item, item ∈ w.itemsOf "constants" ↔ item ∈ v.itemsOf "constants") →
          ∃ record, Graph.decodeEnum i w = .ok record ∧ record.valueType = e.valueType) ∧
      Oc.TakenAlike e := by
  obtain ⟨_, _, henums, _⟩ := Graph.decode_eq_ok_iff.mp decoded
  refine ⟨?_, ?_, ?_⟩
  · intro options e known
    exact Assembly.enumRecord_mem_of_find? known
  · intro options e he
    exact ⟨Model.knows_of_mem_collected (Model.mem_enums_iff.mp he),
      fun _ _ _ => Oc.enumTexts_infix he⟩
  · intro e he
    obtain ⟨v, hv, hrecord⟩ := exists_left_of_forall₂ henums he
    have typed := Graph.typed_of_decodeEnum hrecord
    refine ⟨typed, ⟨v, hv, hrecord, fun i w n named same => ?_⟩, Oc.takenAlike_of_typed typed⟩
    exact Graph.exists_decodeEnum_of_same hrecord named same i

/-- An enum whose constants have these names and values. -/
def scaleEnum (simpleName : String) (constants : List (String × Value)) : Enum where
  toEnumRecord := .sample ("app." ++ simpleName) constants
  simpleName

def scalesGraph (enums : List Enum) : Graph :=
  .sample [] (enums.map (·.toEnumRecord)) none

def levelEnum : Enum :=
  scaleEnum "Level" [("HIGH", .int 3), ("LOW", .float (.ofDecimal true ⟨15, -1⟩))]

/-- An enum whose first literal is a name. -/
def toggleEnum : Enum :=
  scaleEnum "Toggle" [("ON", .bool true), ("OFF", .int 0)]

theorem value_types_agree_scales :
    let graph := scalesGraph [levelEnum, toggleEnum]
    let table := (graph.sampleModel .oc).table
    Graph.decode graph.sampleJson = .ok graph ∧
    levelEnum.valueType = .number ∧ toggleEnum.valueType ≠ .number ∧
    Oc.IsIntegerType levelEnum ∧
    Oc.typeText true (.ofType table (.named "app.Level" [])) = "NSNumber*" ∧
    Oc.typeText true (.ofType table (.named "app.Toggle" [])) ≠ "NSNumber*" := by
  have decoded : Graph.decode (scalesGraph [levelEnum, toggleEnum]).sampleJson =
      .ok (scalesGraph [levelEnum, toggleEnum]) := by rfl
  obtain ⟨records, _, agree⟩ := value_types_agree decoded
  have known : ((scalesGraph [levelEnum, toggleEnum]).sampleModel .oc).table.Knows
      (.ofEnum levelEnum) := by rfl
  have known' : ((scalesGraph [levelEnum, toggleEnum]).sampleModel .oc).table.Knows
      (.ofEnum toggleEnum) := by rfl
  obtain ⟨typed, _, taken⟩ := agree levelEnum (records _ _ known)
  obtain ⟨typed', _, taken'⟩ := agree toggleEnum (records _ _ known')
  have hnumber : levelEnum.valueType = .number := by
    refine typed.number.mpr ⟨by simp [levelEnum, scaleEnum, EnumRecord.sample], ?_⟩
    simp [levelEnum, scaleEnum, EnumRecord.sample, Constant.value, Literal.IsNumber]
  have hmixed : toggleEnum.valueType ≠ .number := by
    intro h
    simpa [toggleEnum, scaleEnum, EnumRecord.sample, Constant.value, Literal.IsNumber] using
      (typed'.number.mp h).2
  have hhead := Oc.head?_enumTexts_eq_iff.mpr hnumber
  have finite : ∀ c ∈ levelEnum.constants, c.value.IsFinite := by
    have hlow : (Number.Binary64.ofDecimal true ⟨15, -1⟩).isInfinite = false := by
      decide +kernel
    simp [levelEnum, scaleEnum, EnumRecord.sample, Constant.value, Literal.IsFinite, hlow]
  refine ⟨decoded, hnumber, hmixed, (taken.numerals hhead).mpr finite, ?_, ?_⟩
  · exact (taken.reference (by decide) _ (.named "app.Level" []) (by decide +kernel) known
      true).mpr hhead
  · intro h
    have hhead' := (taken'.reference (by decide) _ (.named "app.Toggle" []) (by decide +kernel)
      known' true).mp h
    exact hmixed (Oc.head?_enumTexts_eq_iff.mp hhead')

def unboundedEnum : Enum :=
  scaleEnum "Level" [("MAX", .float (.infinity false))]

/-- References to the enum are boxed numbers, but its constant is set to a word that is no
numeral. -/
theorem infinite_level_no_numeral : ∃ result,
    build (.string Target.oc.name) (.string "") (scalesGraph [unboundedEnum]).sampleJson
      (.ofTexts true none none none) = .ok result ∧
    ["typedef NS_ENUM(NSInteger, Level) \x7b", "  LevelMax = inf,", "\x7d;"] <:+:
      result.writer.lines.toList ∧
    Literal.number? "inf" = none ∧
    (∀ c ∈ unboundedEnum.constants, c.value.IsNumber) ∧ unboundedEnum.simpleName ≠ "NSNumber*" ∧
    Oc.typeText false (.ofType ((scalesGraph [unboundedEnum]).sampleModel .oc).table
      (.named "app.Level" [])) = "NSNumber*" ∧
    (Oc.enumTexts unboundedEnum).head? =
      some (Oc.integerHeader unboundedEnum.simpleName).text ∧
    ¬ Oc.IsIntegerType unboundedEnum := by
  have decoded : Graph.decode (scalesGraph [unboundedEnum]).sampleJson =
      .ok (scalesGraph [unboundedEnum]) := by rfl
  obtain ⟨result, built⟩ := build_ok_of_decode decoded .oc "" true
  obtain ⟨model, document, writes⟩ := Oc.exists_writes built
  have hcontent := writes.content
  cases Model.eq_assemble_of_decode decoded writes.assembled
  have hlines : ["typedef NS_ENUM(NSInteger, Level) \x7b", "  LevelMax = inf,", "\x7d;"] <:+:
      (WriteOp.runAll document.ops (.new .standard)).1.lines.toList := by
    rw [hcontent]
    decide +kernel
  rw [Build.runAll_of_write writes.written] at hlines
  have numbers : ∀ c ∈ unboundedEnum.constants, c.value.IsNumber := by
    simp [unboundedEnum, scaleEnum, EnumRecord.sample, Constant.value, Literal.IsNumber]
  have hnumber : unboundedEnum.valueType = .number := by rfl
  have known : ((scalesGraph [unboundedEnum]).sampleModel .oc).table.Knows
      (.ofEnum unboundedEnum) := by rfl
  have hreference : Oc.typeText false
      (.ofType ((scalesGraph [unboundedEnum]).sampleModel .oc).table (.named "app.Level" [])) =
      "NSNumber*" := by
    have kind : (TypeExpr.named "app.Level" []).kind = .declared := by decide +kernel
    rw [Oc.ofType_of_declared kind known]
    exact (Oc.typeText_ofEnum_eq_iff (by decide) false).mpr hnumber
  have hinfinite : (Number.Binary64.infinity false).isInfinite = true := by decide +kernel
  refine ⟨result, built, hlines, Literal.number?_infinite false, numbers, by decide, hreference,
    Oc.head?_enumTexts_eq_iff.mpr hnumber, fun numerals => ?_⟩
  have finite := (Oc.isIntegerType_iff hnumber numbers).mp numerals ⟨"MAX", _, "", ""⟩
    List.mem_cons_self
  exact absurd (hinfinite.symm.trans finite) (by decide)

end ApiStubs
