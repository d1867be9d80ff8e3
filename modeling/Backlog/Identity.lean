import Backlog.Error
import Backlog.Text.Blank

/-!
# Identities

Whoever changes something is named: a word without blanks in it.

## Main statements

* `Identity.ofText_eq_ok_iff` — a text names someone exactly when it is one word between blanks.
-/

namespace Backlog

/-- The name of a caller. -/
structure Identity where
  name : String
  deriving DecidableEq, Repr

namespace Identity

/-- Why a text names nobody. -/
inductive Fault
  | empty
  | blanks (name : String)
  deriving DecidableEq, Repr

/-- The words for a fault. -/
def Fault.message : Fault → String
  | .empty => "empty identity"
  | .blanks name => "identity '" ++ name ++ "' must not contain whitespace"

/-- The failure that a fault is. -/
def Fault.toError (fault : Fault) : AccessError := .unauthorized fault.message

/-- The caller that a text names. -/
def ofText (s : String) : Except Fault Identity :=
  let name := Text.trim s
  if name.isEmpty then .error .empty
  else if name.toList.any Text.isBlank then .error (.blanks name)
  else .ok ⟨name⟩

/-- A text names someone exactly when it is one word between blanks. -/
theorem ofText_eq_ok_iff {s : String} {i : Identity} :
    ofText s = .ok i ↔
      i.name = Text.trim s ∧ i.name ≠ "" ∧ ∀ c ∈ i.name.toList, Text.isBlank c = false := by
  unfold ofText
  obtain ⟨name⟩ := i
  by_cases h : (Text.trim s).isEmpty = true
  · have h0 : Text.trim s = "" := by simpa using h
    simp [h0]
    intro h1 h2
    exact absurd h1 h2
  · by_cases h' : (Text.trim s).toList.any Text.isBlank = true
    · simp only [h, h']
      simp only [Bool.false_eq_true, if_false, if_true, reduceCtorEq, false_iff]
      rintro ⟨rfl, -, hall⟩
      rw [List.any_eq_true] at h'
      obtain ⟨c, hc, hb⟩ := h'
      rw [hall c hc] at hb
      exact Bool.noConfusion hb
    · simp only [h, h']
      have h0 : Text.trim s ≠ "" := by simpa using h
      simp only [Bool.not_eq_true] at h'
      rw [List.any_eq_false] at h'
      simp only [Bool.false_eq_true, if_false, Except.ok.injEq, mk.injEq]
      constructor
      · rintro rfl
        exact ⟨rfl, h0, fun c hc => by simpa using h' c hc⟩
      · rintro ⟨rfl, -, -⟩
        rfl

end Identity

end Backlog
