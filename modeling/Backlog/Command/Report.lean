import Backlog.View

/-!
# What a command prints

Every answer has two forms: a document for programs and a compact text for people. Both show the
same views. Failures are reported in both forms as well, with their code and a suggestion.

## Main statements

* `Report.viewText_eq` — a view starts with its name and a rule.
-/

namespace Backlog

/-- The form in which a command answers. -/
inductive OutputMode
  | human
  | json
  deriving DecidableEq, Repr

namespace Report

/-- A line of text. -/
def line (s : String) : String := s ++ "\n"

/-- Lines of text. -/
def lines (ls : List String) : String := String.join (ls.map line)

/-- The rule under a heading. -/
def rule : String := String.ofList (List.replicate 72 '-')

/-- A name and a value in columns. -/
def entry (name value : String) : String := Text.padRight 20 (name ++ ":") ++ " " ++ value

/-- A value as people read it: a text without quotes, everything else as a document. -/
def plain : Json → String
  | .string s => s
  | j => j.write

/-! ## Views -/

/-- The lines of a relationship: what it leads to, and the notes about it. -/
def relationshipLines (name : String) (r : Relationship) : List String :=
  (match r.data with
    | some d => [entry name (d.sort ++ " " ++ d.id)]
    | none => [])
  ++ (if r.notes.isEmpty then []
    else [entry name (" ".intercalate (r.notes.toList.map fun e => e.1 ++ "=" ++ plain e.2))])

/-- The lines of a view. -/
def viewLines (v : ResourceView) : List String :=
  [v.sort ++ " " ++ v.id, rule]
    ++ v.attributes.toList.map (fun e => entry e.1 (plain e.2))
    ++ v.relationships.toList.flatMap (fun e => relationshipLines e.1 e.2)

/-- The text of a view. -/
def viewText (v : ResourceView) : String := lines (viewLines v)

/-- The text of several views: a blank line stands behind each. -/
def viewsText (vs : List ResourceView) : String :=
  if vs.isEmpty then line "(none)" else String.join (vs.map fun v => viewText v ++ "\n")

/-- A view starts with its name and a rule. -/
theorem viewText_eq (v : ResourceView) :
    viewText v = lines ([v.sort ++ " " ++ v.id, rule]
      ++ (v.attributes.toList.map (fun e => entry e.1 (plain e.2))
        ++ v.relationships.toList.flatMap (fun e => relationshipLines e.1 e.2))) := by
  rw [viewText, viewLines, List.append_assoc]

/-! ## Lists -/

/-- A row of the table of items. -/
def row (id version state type title : String) : String :=
  Text.padRight 8 id ++ " " ++ Text.padRight 8 version ++ " " ++ Text.padRight 14 state ++ " "
    ++ Text.padRight 18 type ++ " " ++ title

/-- The row of a view. -/
def viewRow (v : ResourceView) : String :=
  let shown (name : String) : String := ((v.attributes.get? name).map plain).getD ""
  let type := ((v.relationships.get? "baseType").bind Relationship.data).map ResourceRef.id
  row v.id (shown "version") (shown SystemField.state) (type.getD "") (shown SystemField.title)

/-- The line of a link, if there is one. -/
def linkLines (name : String) (address : Option String) : List String :=
  match address with
  | some a => [entry name a]
  | none => []

/-- The text of a list. -/
def listText (d : ListDocument) : String :=
  lines ([row "ID" "VERSION" "STATE" "TYPE" "TITLE", rule]
    ++ d.data.map viewRow
    ++ ["", Text.natural d.total.toNat ++ " total"]
    ++ linkLines "prev" d.links.previous ++ linkLines "next" d.links.next
    ++ linkLines "last" d.links.last)

/-! ## Types -/

/-- The line of a declared field. -/
def definitionLine (d : FieldDefinition) : String :=
  "  " ++ Text.padRight 28 d.name ++ " " ++ d.kind.name ++ " "
    ++ (if d.required then "required" else "")

/-- The text of types: a blank line stands behind each. -/
def typesText (ts : List ItemType) : String :=
  String.join (ts.map fun t => lines ([t.name, rule] ++ t.fields.map definitionLine ++ [""]))

/-! ## Failures -/

/-- A failure as a command reports it. -/
structure Failure where
  message : String
  suggestion : Option String
  code : ErrorCode
  deriving DecidableEq, Repr

namespace Failure

/-- The report of a failure of the access layer. -/
def ofError (e : AccessError) : Failure := ⟨e.message, e.hint, e.code⟩

/-- The report of settings that do not load; the trace lists what was being done, outermost
first. -/
def ofConfig (trace : List String) : Failure :=
  let code := ErrorCode.configParseError
  ⟨code.summary ++ ": " ++ ": ".intercalate trace, code.hint, code⟩

/-- A report as a document. -/
def toJson (f : Failure) : Json :=
  .ofMap (.ofList ([("message", .string f.message), ("error_code", .string f.code.text)]
    ++ ResourceView.optional "suggestion" f.suggestion))

/-- The text of a report. -/
def text (mode : OutputMode) (f : Failure) : String :=
  match mode with
  | .json => line (Json.object [("error", f.toJson)]).pretty
  | .human =>
    lines (("error[" ++ f.code.text ++ "]: " ++ f.message)
      :: (match f.suggestion with
        | some s => ["  suggestion: " ++ s]
        | none => []))

end Failure

end Report

end Backlog
