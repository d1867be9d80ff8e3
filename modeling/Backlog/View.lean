import Backlog.Filter.Document
import Backlog.Iteration
import Backlog.Page
import Backlog.Text.Percent

/-!
# Views

A view shows a record as a resource: attributes, relationships to other resources, links, and
notes about it. Decorations run over a fresh view one after the other. A list document joins the
views of a page with the links around it.

## Main statements

* `ResourceView.get?_attributes_ofItem` — an item shows each of its fields, and its version;
* `ResourceView.decorate_append` — decorations run in their order.
-/

namespace Backlog

/-- The name of another resource. -/
structure ResourceRef where
  sort : String
  id : String
  deriving DecidableEq, Repr

/-- How a resource is related to others. -/
structure Relationship where
  data : Option ResourceRef
  links : SortedMap String String
  notes : SortedMap String Json
  deriving DecidableEq

namespace Relationship

/-- A relationship that says nothing. -/
def empty : Relationship := ⟨none, ∅, ∅⟩

/-- The relationship to one resource. -/
def leadingTo (sort id address : String) : Relationship :=
  ⟨some ⟨sort, id⟩, .ofList [("self", address)], ∅⟩

end Relationship

/-- A record as a resource. -/
structure ResourceView where
  sort : String
  id : String
  attributes : SortedMap String Json
  relationships : SortedMap String Relationship
  links : SortedMap String String
  notes : SortedMap String Json
  deriving DecidableEq

/-- A step that adds to the view of a record. -/
abbrev Decoration (ρ : Type) := ρ → ResourceView → ResourceView

namespace ResourceView

/-- Run decorations in their order. -/
def decorate {ρ : Type} (decorations : List (Decoration ρ)) (record : ρ) (v : ResourceView) :
    ResourceView :=
  decorations.foldl (fun v d => d record v) v

theorem decorate_append {ρ : Type} (ds es : List (Decoration ρ)) (record : ρ) (v : ResourceView) :
    decorate (ds ++ es) record v = decorate es record (decorate ds record v) := by
  simp [decorate]

/-! ## Work items -/

/-- The attributes of an item: its fields in their stored form, and its version. -/
def itemAttributes (item : WorkItem) : SortedMap String Json :=
  item.fieldsJson.insert "version" (.nat item.version)

/-- The relationships of an item: to its type, and to the iteration it is planned into. -/
def itemRelationships (api : ApiConfig) (item : WorkItem) : SortedMap String Relationship :=
  let base := SortedMap.ofList
    [("baseType",
      .leadingTo "workitemtypes" item.typeName (api.under ("workitemtypes/" ++ item.typeName)))]
  match item.field? SystemField.iteration with
  | some (.identifier id) =>
    base.insert "iteration" (.leadingTo "iterations" id (api.iterationsUrl ++ "/" ++ id))
  | _ => base

/-- The view of an item. -/
def ofItem (api : ApiConfig) (decorations : List (Decoration WorkItem)) (item : WorkItem) :
    ResourceView :=
  decorate decorations item
    { sort := "workitems"
      id := item.id.text
      attributes := itemAttributes item
      relationships := itemRelationships api item
      links := .ofList [("self", api.workItemsUrl ++ "/" ++ item.id.text)]
      notes := ∅ }

/-! ## Iterations -/

/-- The filter that finds what is planned into an iteration. -/
def plannedFilter (id : IterationId) : Filter :=
  .equals SystemField.iteration (.identifier id.text)

/-- An attribute that a record may lack. -/
def optional (name : String) (value : Option String) : List (String × Json) :=
  match value with
  | some s => [(name, .string s)]
  | none => []

/-- The attributes of an iteration. -/
def iterationAttributes (i : Iteration) : SortedMap String Json :=
  .ofList ([("name", .string i.name), ("state", .string i.state.name)]
    ++ optional "description" i.description
    ++ optional "start_at" (i.startAt.map Timestamp.text)
    ++ optional "end_at" (i.endAt.map Timestamp.text))

/-- The address of what is planned into an iteration. -/
def plannedAddress (api : ApiConfig) (id : IterationId) : String :=
  api.workItemsUrl ++ "?filter=" ++ Text.Percent.encode (plannedFilter id).text

/-- The relationships of an iteration: to its space, to what is planned into it, and to the
iteration it is part of. -/
def iterationRelationships (api : ApiConfig) (i : Iteration) : SortedMap String Relationship :=
  let base : SortedMap String Relationship := .ofList
    [("space", .leadingTo "spaces" i.space (api.under ("spaces/" ++ i.space))),
     ("workitems",
      { Relationship.empty with links := .ofList [("related", plannedAddress api i.id)] })]
  match i.parent with
  | some p =>
    base.insert "parent" (.leadingTo "iterations" p.text (api.iterationsUrl ++ "/" ++ p.text))
  | none => base

/-- The view of an iteration. -/
def ofIteration (api : ApiConfig) (decorations : List (Decoration Iteration)) (i : Iteration) :
    ResourceView :=
  decorate decorations i
    { sort := "iterations"
      id := i.id.text
      attributes := iterationAttributes i
      relationships := iterationRelationships api i
      links := .ofList [("self", api.iterationsUrl ++ "/" ++ i.id.text)]
      notes := ∅ }

/-- Note how many items are planned into an iteration; what is not counted counts as nothing. -/
def withCounts (counts : List (IterationId × IterationCounts)) : Decoration Iteration := fun i v =>
  let c := ((counts.find? fun e => e.1 = i.id).map Prod.snd).getD ⟨0, 0⟩
  let planned := (v.relationships.get? "workitems").getD .empty
  let noted := (planned.notes.insert "total" (.nat c.total)).insert "closed" (.nat c.closed)
  { v with relationships := v.relationships.insert "workitems" { planned with notes := noted } }

/-! ## Laws -/

/-- An item shows each of its fields, and its version. -/
theorem get?_attributes_ofItem (api : ApiConfig) (item : WorkItem) (name : String) :
    (ofItem api [] item).attributes.get? name =
      if name = "version" then some (.nat item.version)
      else (item.field? name).map FieldValue.toJson := by
  have h : (ofItem api [] item).attributes = itemAttributes item := rfl
  rw [h, itemAttributes, SortedMap.get?_insert, WorkItem.get?_fieldsJson]

end ResourceView

/-! ## Lists -/

/-- The records of a page, how many there are on all pages, and where the page is. -/
structure ItemPage where
  items : List WorkItem
  total : UInt64
  request : PageRequest
  window : PageWindow
  deriving DecidableEq

/-- A page as a document. -/
structure ListDocument where
  data : List ResourceView
  links : PageAddresses
  total : UInt64

/-- The document of a page. -/
def ListDocument.ofPage (api : ApiConfig) (decorations : List (Decoration WorkItem))
    (page : ItemPage) : ListDocument :=
  ⟨page.items.map (.ofItem api decorations), page.window.addresses api.workItemsUrl, page.total⟩

/-! ## Documents -/

/-- A member that is left out when a map is empty. -/
def unlessEmpty {α : Type} (name : String) (m : SortedMap String α) (f : α → Json) :
    List (String × Json) :=
  if m.isEmpty then [] else [(name, .ofMap (m.map fun _ a => f a))]

/-- A relationship as a document. -/
def Relationship.toJson (r : Relationship) : Json :=
  .object (
    (match r.data with
      | some d => [("data", .object [("type", .string d.sort), ("id", .string d.id)])]
      | none => [])
    ++ unlessEmpty "links" r.links .string
    ++ unlessEmpty "meta" r.notes fun j => j)

/-- A view as a document. -/
def ResourceView.toJson (v : ResourceView) : Json :=
  .object (
    [("type", .string v.sort), ("id", .string v.id), ("attributes", .ofMap v.attributes)]
    ++ unlessEmpty "relationships" v.relationships Relationship.toJson
    ++ [("links", .ofMap (v.links.map fun _ s => .string s))]
    ++ unlessEmpty "meta" v.notes fun j => j)

/-- The addresses around a page as a document. -/
def PageAddresses.toJson (a : PageAddresses) : Json :=
  .object (("first", .string a.first)
    :: (ResourceView.optional "prev" a.previous ++ ResourceView.optional "next" a.next
      ++ ResourceView.optional "last" a.last))

/-- A list as a document. -/
def ListDocument.toJson (d : ListDocument) : Json :=
  .object [("data", .array (d.data.map ResourceView.toJson)), ("links", d.links.toJson),
    ("meta", .object [("total_count", .nat d.total.toNat)])]

end Backlog
