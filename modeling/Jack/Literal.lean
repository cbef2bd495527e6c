import Jack.Text.Quoted

/-! # Literals

A value as a caller spells it. Enumerations of the library are chosen by their
texts, and a refusal shows the spelling that named no member.
-/

namespace Jack

/-- A value given from outside. -/
inductive Literal where
  /-- The absent value. -/
  | null
  /-- A truth value. -/
  | bool (value : Bool)
  /-- A whole number. -/
  | int (value : Int)
  /-- A text. -/
  | text (value : String)
  deriving Repr, DecidableEq

namespace Literal

/-- How a literal is shown inside a message. -/
def shown : Literal → String
  | .null => "None"
  | .bool true => "True"
  | .bool false => "False"
  | .int n => toString n
  | .text t => quoted t

/-- The member of an enumeration whose text the literal is. -/
def member? {α : Type} (all : List α) (name : α → String) : Literal → Option α
  | .text t => all.find? (name · == t)
  | _ => none

section Member

variable {α : Type} {all : List α} {name : α → String} {literal : Literal}

theorem eq_of_member? {member : α} (h : literal.member? all name = some member) :
    literal = .text (name member) := by
  cases literal with
  | text value =>
      have found := List.find?_some h
      exact congrArg text (beq_iff_eq.mp found).symm
  | null | bool | int => cases h

/-- A literal without a member is the text of none. -/
theorem ne_of_member? (h : literal.member? all name = none) {member : α} (known : member ∈ all) :
    literal ≠ .text (name member) := by
  rintro rfl
  exact absurd (beq_self_eq_true (name member)) (List.find?_eq_none.mp h member known)

end Member

end Literal

end Jack
