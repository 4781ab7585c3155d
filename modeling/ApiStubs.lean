import ApiStubs.Alias
import ApiStubs.Annotations.Binding
import ApiStubs.Annotations.Documentation
import ApiStubs.Annotations.Mapping
import ApiStubs.Annotations.Record
import ApiStubs.Build
import ApiStubs.CommandLine.Arguments
import ApiStubs.CommandLine.Run
import ApiStubs.Declaration.Basic
import ApiStubs.Declaration.Order
import ApiStubs.Declaration.Reach
import ApiStubs.Declaration.Table
import ApiStubs.FileStore
import ApiStubs.Graph.Basic
import ApiStubs.Graph.Decode
import ApiStubs.Grouping
import ApiStubs.Json.Display
import ApiStubs.Json.Numeral
import ApiStubs.Json.Printer
import ApiStubs.Json.Reader
import ApiStubs.Json.Token
import ApiStubs.Json.Value
import ApiStubs.Literal
import ApiStubs.Main
import ApiStubs.Model.Assembly
import ApiStubs.Model.Basic
import ApiStubs.Model.Json
import ApiStubs.Namer
import ApiStubs.Number.Binary64
import ApiStubs.Number.Layout
import ApiStubs.Number.Shortest
import ApiStubs.Oc.Document
import ApiStubs.Oc.Printer
import ApiStubs.Oc.TypeText
import ApiStubs.Path
import ApiStubs.Proofs.AdmittedNames
import ApiStubs.Proofs.AliasUses
import ApiStubs.Proofs.AnnotationPosition
import ApiStubs.Proofs.Assembled
import ApiStubs.Proofs.ClosedOutput
import ApiStubs.Proofs.Comments
import ApiStubs.Proofs.Consulted
import ApiStubs.Proofs.Correspondence
import ApiStubs.Proofs.DeclarationOrder
import ApiStubs.Proofs.Decoding
import ApiStubs.Proofs.Descent
import ApiStubs.Proofs.DocumentationTexts
import ApiStubs.Proofs.ExcessName
import ApiStubs.Proofs.ExtendedTypes
import ApiStubs.Proofs.FirstFree
import ApiStubs.Proofs.FirstOccurrence
import ApiStubs.Proofs.Framing
import ApiStubs.Proofs.FullWalks
import ApiStubs.Proofs.GeneratedFiles
import ApiStubs.Proofs.GlobalNames
import ApiStubs.Proofs.HandedOut
import ApiStubs.Proofs.Headers
import ApiStubs.Proofs.Hierarchy
import ApiStubs.Proofs.Identifiers
import ApiStubs.Proofs.Indentation
import ApiStubs.Proofs.LineBreaks
import ApiStubs.Proofs.LiteralTexts
import ApiStubs.Proofs.MemberKeys
import ApiStubs.Proofs.Modules
import ApiStubs.Proofs.Nameless
import ApiStubs.Proofs.NestedTypes
import ApiStubs.Proofs.Numerals
import ApiStubs.Proofs.Offences
import ApiStubs.Proofs.Outcome
import ApiStubs.Proofs.ParameterBinding
import ApiStubs.Proofs.ParameterModes
import ApiStubs.Proofs.ParsedTypes
import ApiStubs.Proofs.Preorder
import ApiStubs.Proofs.PrintedJson
import ApiStubs.Proofs.PrintedLines
import ApiStubs.Proofs.PropertyNames
import ApiStubs.Proofs.PutOut
import ApiStubs.Proofs.RawOutput
import ApiStubs.Proofs.RecordedModels
import ApiStubs.Proofs.Reachability
import ApiStubs.Proofs.Registering
import ApiStubs.Proofs.RepeatedDeclarations
import ApiStubs.Proofs.Requests
import ApiStubs.Proofs.Rounding
import ApiStubs.Proofs.Samples
import ApiStubs.Proofs.Scanning
import ApiStubs.Proofs.SelectedRoutes
import ApiStubs.Proofs.SettingsFaults
import ApiStubs.Proofs.Signature
import ApiStubs.Proofs.Spelling
import ApiStubs.Proofs.SpellingParsed
import ApiStubs.Proofs.StableOrder
import ApiStubs.Proofs.StoredLines
import ApiStubs.Proofs.StubNames
import ApiStubs.Proofs.SuperclassChain
import ApiStubs.Proofs.SuperclassOrder
import ApiStubs.Proofs.Table
import ApiStubs.Proofs.TopLevelNames
import ApiStubs.Proofs.TypeVariables
import ApiStubs.Proofs.Unannotated
import ApiStubs.Proofs.UnbrokenTypes
import ApiStubs.Proofs.ValueTypes
import ApiStubs.Proofs.WrittenAlike
import ApiStubs.Resolved
import ApiStubs.Resolver
import ApiStubs.Route
import ApiStubs.Settings
import ApiStubs.Signature
import ApiStubs.Target
import ApiStubs.Text.BackslashEscaped
import ApiStubs.Text.Blank
import ApiStubs.Text.DecimalDigit
import ApiStubs.Text.Hex
import ApiStubs.Text.HexEscaped
import ApiStubs.Text.Identifier
import ApiStubs.Text.LetterCase
import ApiStubs.Text.Line
import ApiStubs.Text.Printable
import ApiStubs.Text.Quoted
import ApiStubs.Text.Split
import ApiStubs.Ts.Document
import ApiStubs.Ts.Printer
import ApiStubs.Ts.TypeText
import ApiStubs.TypeExpr.Basic
import ApiStubs.TypeExpr.Kind
import ApiStubs.TypeExpr.Parser
import ApiStubs.TypeExpr.Token
import ApiStubs.Url
import ApiStubs.Writer.Basic
import ApiStubs.Writer.Op
import ApiStubs.Writer.Pieces
