import ApiStubs.Proofs.Assembled
import ApiStubs.Proofs.Outcome
import ApiStubs.Proofs.PrintedLines
import ApiStubs.Proofs.RecordedModels

/-!
# The raw target keeps its document

The raw target writes the printed document and nothing else.  The writer that the text goes through
cuts it into lines at three kinds of break and empties the lines that show nothing, so that it is
the same text in the end only because of how values are printed: no break but a line feed stands in
the text, and every line shows something (`Writer.text_writeText_new`).

The code of the target is therefore the printed document, and reading it gives the document back,
which is the value that records the model (`build_raw_lossless`).
-/

namespace ApiStubs

/-- A text of which every line shows something goes through a new writer as it is. -/
theorem Writer.text_writeText_new (style : WriterStyle) {s : String} (h : Text.Shown s.toList) :
    ((new style).writeText s).text = s := by
  have hshows : (Text.splitLines s.toList).all (!Text.isBlankText ·) = true := by
    have hall := h.shows false []
    rw [List.append_nil] at hall
    rw [Text.splitLines, Text.all_linesFrom [] h.unbroken]
    exact hall
  have hkept : ∀ line ∈ Text.splitLines s.toList, indent [] line = line := by
    intro line hline
    have hline := List.all_eq_true.mp hshows line hline
    rw [indent, if_neg (by simpa using hline), List.nil_append]
  have hlines : indentLines (String.join []) s = (Text.splitLines s.toList).map String.ofList :=
    List.map_congr_left fun line hline => congrArg String.ofList (hkept line hline)
  have htext : ((new style).writeText s).text =
      "\n".intercalate ((Text.splitLines s.toList).map String.ofList) := by
    rw [← hlines, text, writeText]
    simp [new]
  have hjoined := Text.intercalate_linesFrom [] h.unbroken
  rw [htext, ← String.toList_inj, String.toList_intercalate, List.map_map]
  simpa [Text.splitLines] using hjoined

namespace Build

/-- The file of the raw target is the printed document. -/
theorem emit_raw (base : Json.Value) (options : BuildOptions) (model : Model) :
    ∃ result, emit .raw base options model = .ok result ∧
      result.code = (model.toJson base).print :=
  ⟨⟨(Writer.new .standard).writeText (model.toJson base).print, .empty⟩, rfl,
    Writer.text_writeText_new _ (model.toJson base).shown_print⟩

end Build

/-- Whenever the model can be assembled, the raw target succeeds.  Its code is a printed document,
with nothing that the writer changed, and reads as that document.  The document records the model:
the base address, the modules with their routes and parameters, the classes, and the enums with the
values of their constants, all in the order of the model. -/
theorem build_raw_lossless {raw : Json.Value} {options : BuildOptions} {model : Model}
    (assembled : Model.ofJson (Build.modelOptions .raw options) raw = .ok model) (base : String) :
    ∃ result document,
      build (.string Target.raw.name) (.string base) raw options = .ok result ∧
      model.Recorded (.string base) document ∧ document = model.toJson (.string base) ∧
      result.code = document.print ∧ Json.read? result.code = some document := by
  obtain ⟨result, emitted, hcode⟩ := Build.emit_raw (.string base) options model
  have recorded := (Model.recorded_iff (.string base) model _).mpr rfl
  refine ⟨result, _, ?_, recorded, rfl, hcode, ?_⟩
  · exact build_eq_ok_iff.mpr ⟨.raw, model, Target.ofJson?_eq_some_iff.mpr rfl, assembled, emitted⟩
  · rw [hcode]
    exact Json.read?_print _

/-- Values of constants: floating-point numbers down to the least one, whole numbers beyond their
range, and nested values with strings of blanks, controls and line separators. -/
def awkwardValues : List Json.Value :=
  [.float (.ofDecimal true ⟨1, -1⟩), .float ⟨false, ⟨1, by decide⟩⟩, .float (.infinity true),
   .int (-1208925819614629174706176), .null, .string "\"\\/", .array [.array [], .object []],
   .object [(" \r\n", .array [.string "\t\x00\u2028"])]]

/-- A graph with these constants, and with such strings elsewhere. -/
def awkwardJson : Json.Value :=
  .object
    [("classes", .array [.object
       [("name", .string "shop.Order"), ("description", .string "\r\r\n"),
        ("members", .array [.object [("name", .string "\"id\""), ("type", .string "long")]])]]),
     ("enums", .array [.object
       [("name", .string "shop.State"),
        ("constants", .array (awkwardValues.map fun v =>
          .object [("name", .string "\x7f"), ("value", v)]))]]),
     ("routes", .array [.object
       [("name", .string "find"), ("bean", .string "Shop"), ("returnType", .string "shop.Order"),
        ("parameters", .array
          [.object [("name", .string " \u0085 "), ("type", .string "int")]])]])]

/-- The document of such a graph has all of it, and is kept. -/
theorem build_raw_lossless_awkward : ∃ model,
    Model.ofJson (Build.modelOptions .raw .none) awkwardJson = .ok model ∧
    model.modules.length = 1 ∧ model.classes.length = 1 ∧
    (model.enums.flatMap (·.constants)).map (·.raw.print) =
      ["-0.1", "5e-324", "-Infinity", "-1208925819614629174706176", "null", "\"\\\"\\\\/\"",
       "[\n  [],\n  \x7b\x7d\n]",
       "\x7b\n  \" \\r\\n\": [\n    \"\\t\\u0000\u2028\"\n  ]\n\x7d"] ∧
    ∃ result document,
      build (.string Target.raw.name) (.string "\n \n") awkwardJson .none = .ok result ∧
      model.Recorded (.string "\n \n") document ∧ document = model.toJson (.string "\n \n") ∧
      result.code = document.print ∧ Json.read? result.code = some document := by
  have assembled := Model.ofJson_eq_ok_iff.mpr ⟨_, (rfl : Graph.decode awkwardJson = .ok _),
    (rfl : Model.assemble (Build.modelOptions .raw .none) _ = _)⟩
  exact ⟨_, assembled, by decide +kernel, by decide +kernel, by decide +kernel,
    build_raw_lossless assembled "\n \n"⟩

end ApiStubs
