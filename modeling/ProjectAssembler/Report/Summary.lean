import ProjectAssembler.Compilation.Unit
import ProjectAssembler.Path.Lexical
import ProjectAssembler.Report.Json

/-!
# Reports on compilations

An overview of a compilation can be written for people or as JSON.

Main definitions: `CompilationSummary.lines` and `CompilationSummary.json`.
-/

namespace ProjectAssembler

namespace ParseOptions

/-- The word that a treatment of documentation is known by. -/
def documentationWord (options : ParseOptions) : String :=
  match options.documentation with
  | .kept => "parse"
  | .dropped => "none"

/-- The JSON form of options. -/
def json (options : ParseOptions) : JsonValue :=
  .record
    [("language_version", .text "latest"), ("documentation", .text options.documentationWord),
      ("kind", .text "regular"),
      ("preprocessor_symbols", .list (options.symbols.names.map .text))]

end ParseOptions

namespace CompilationSummary

/-- The JSON form of a list of paths. -/
def jsonPaths (paths : List Path) : JsonValue :=
  .list (paths.map fun path => .text path.text)

/-- The JSON form of an overview. -/
def json (summary : CompilationSummary) : JsonValue :=
  .record
    [("name", .text summary.name), ("options", summary.options.json),
      ("sources", jsonPaths summary.sources),
      ("generated_annotations", .boolean summary.generatedAnnotations),
      ("references", jsonPaths summary.references),
      ("serializable_types", .list (summary.serializableTypes.map .text))]

/-- A line that belongs to a heading. -/
def item (text : String) : String :=
  "    " ++ text

/-- A heading that counts what belongs to it. -/
def heading (count : Nat) (noun : String) : String :=
  "  " ++ toString count ++ " " ++ noun

/-- The lines of an overview.  Sources, as seen from a directory, and libraries are listed on
request. -/
def lines (directory : Path) (verbose : Bool) (summary : CompilationSummary) : List String :=
  ["Compilation " ++ summary.name, heading summary.sources.length "source file(s)"] ++
    (if verbose then
      summary.sources.map fun source => item (Path.relativeTo directory source).text
    else []) ++
    (if summary.generatedAnnotations then ["  + generated serialization attributes"] else []) ++
    [heading summary.references.length "reference(s)"] ++
    (if verbose then summary.references.map fun reference => item reference.text else []) ++
    [heading summary.serializableTypes.length "serializable type(s)"] ++
    summary.serializableTypes.map item

end CompilationSummary
end ProjectAssembler
