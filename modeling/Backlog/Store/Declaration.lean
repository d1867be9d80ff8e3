import Backlog.Field.Kind
import Backlog.Json.Relaxed
import Backlog.Json.Tree
import Backlog.Store.Truth

/-!
# Declarations in documents

Whether the declarations of a type give a field a kind is asked of their document, part by part. A
part that is a text is read as a relaxed document of its own, and the question fails over one that
is none. What follows the part that answers is not read.

## Main statements

* `Declaration.declaredIn_ne_fault` — the question fails only over texts.
-/

namespace Backlog.Declaration

open Json (Tree Relaxed)

/-- The octets of a member of a declaration: those of a text, or those of a container as it is
written out. -/
def octetsOf? : Tree → Option (List Char)
  | .string l => some l.octets
  | .array items => (Tree.array items).written?
  | .object members => (Tree.object members).written?
  | _ => none

/-- Whether two members are the name of a field and of a kind. -/
def isOf (field : String) (kind : FieldKind) (name declared : Option (List Char)) : Bool :=
  name == some (Text.octets field.toList) && declared == some (Text.octets kind.name.toList)

/-- Whether a part of the declarations declares a field with a kind. A text among the parts is read
as a document of its own. -/
def declares (field : String) (kind : FieldKind) : Tree → Truth
  | .string l =>
    match Relaxed.read l.octets with
    | .malformed => .fault
    | .surplus => .no
    | .document r =>
      let member (name : String) := (r.member? name.toList).bind Relaxed.octets?
      .ofBool (isOf field kind (member "name") (member "kind"))
  | t =>
    let member (name : String) := (t.labelled? name.toList).bind octetsOf?
    .ofBool (isOf field kind (member "name") (member "kind"))

/-- Whether one of the parts declares a field with a kind. The parts after that one are not read. -/
def declaredIn (field : String) (kind : FieldKind) : List Tree → Truth
  | [] => .no
  | d :: rest =>
    match declares field kind d with
    | .yes => .yes
    | .fault => .fault
    | _ => declaredIn field kind rest

theorem declares_ne_fault (field : String) (kind : FieldKind) {d : Tree}
    (h : ∀ l, d ≠ .string l) : declares field kind d ≠ .fault := by
  unfold declares
  split
  · exact absurd rfl (h _)
  · exact Truth.ofBool_ne_fault _

theorem declaredIn_ne_fault (field : String) (kind : FieldKind) :
    ∀ {ds : List Tree}, (∀ d ∈ ds, ∀ l, d ≠ .string l) → declaredIn field kind ds ≠ .fault
  | [], _ => by simp [declaredIn]
  | d :: rest, h => by
    have hd := declares_ne_fault field kind (h d List.mem_cons_self)
    have hr := declaredIn_ne_fault field kind fun e he => h e (List.mem_cons_of_mem d he)
    unfold declaredIn
    split
    · simp
    · next hf => exact absurd hf hd
    · exact hr

end Backlog.Declaration
