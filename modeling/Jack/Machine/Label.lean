import Jack.Failure
import Jack.Machine.Instruction

/-! # Labels

Labels are numbered. All labels of one construct share a number, and every
construct of a kind takes the next one, so no two constructs share a label. Numbers are
written whatever their size; a host may refuse to write one of more than `maxDigits`
digits, as it refuses to read one, and that is left out.
-/

namespace Jack

/-- A source of numbered labels that start with one stem. -/
structure Numbering where
  stem : String
  /-- The number of the next construct. -/
  next : Nat
  deriving Repr, DecidableEq

namespace Numbering

/-- The label of a construct's part. -/
def label (stem tag : String) (id : Int) : String :=
  stem ++ "_" ++ tag ++ "_" ++ toString id

/-- A numbering that starts at zero. Only a text that is not empty can be its stem. -/
def ofLiteral : Literal → Except Failure Numbering
  | .text stem => if stem.isEmpty then .error .emptyStem else .ok ⟨stem, 0⟩
  | _ => .error .emptyStem

/-- What a numbering can be asked to do. -/
inductive Call where
  /-- Take a number. -/
  | nextId
  /-- The label of a part of a construct of any number. -/
  | label (tag : String) (id : Int)
  /-- Take a number, and the labels of that construct's parts. -/
  | newLabels (tags : List String)
  deriving Repr

/-- What a numbering answers. -/
inductive Answer where
  | number (id : Nat)
  | label (text : String)
  | labels (texts : List String)
  deriving Repr

/-- Carry out a call. -/
def perform (call : Call) (n : Numbering) : Answer × Numbering :=
  match call with
  | .nextId => (.number n.next, { n with next := n.next + 1 })
  | .label tag id => (.label (label n.stem tag id), n)
  | .newLabels tags =>
    (.labels (tags.map fun tag => label n.stem tag n.next), { n with next := n.next + 1 })

end Numbering

/-- A label of compiled code: a place in the branch or loop of the given number. -/
inductive Label where
  /-- Where a branch goes on if its condition fails. -/
  | branchNot (id : Nat)
  /-- Where both ways of a branch meet. -/
  | branchEnd (id : Nat)
  /-- Where a loop tests its condition. -/
  | loopStart (id : Nat)
  /-- Where a loop is over. -/
  | loopEnd (id : Nat)
  deriving Repr, DecidableEq

namespace Label

/-- The written form of a label. -/
def text : Label → String
  | .branchNot id => Numbering.label "IF" "GOTO_NOT" id
  | .branchEnd id => Numbering.label "IF" "GOTO_END" id
  | .loopStart id => Numbering.label "WHILE" "START" id
  | .loopEnd id => Numbering.label "WHILE" "END" id

end Label

/-- An instruction of compiled code. -/
abbrev Code := Instruction Label

namespace Code

/-- The written form of an instruction of compiled code. -/
def text (instruction : Code) : String :=
  (instruction.mapLabel Label.text).text

/-- The text of compiled code: one instruction a line. -/
def program (code : List Code) : String :=
  Instruction.program (code.map (Instruction.mapLabel Label.text))

end Code

end Jack
