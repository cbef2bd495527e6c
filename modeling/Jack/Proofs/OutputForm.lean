import Jack.CompiledClass
import Jack.Proofs.Operands

/-! # The form of the output

The text of compiled code has a line for each instruction, and each line has one of nine forms that
its first word tells apart. No name that gets into a line and no number ends it, so cutting the text
at line ends of any sort gives back the instructions.
-/

namespace Jack

open Jack.Tree

/-! ### Lines of a text -/

/-- Whether no character of a text ends a line. -/
def Unbroken (text : String) : Prop :=
  ∀ c ∈ text.toList, isLineEnd c = false

instance (text : String) : Decidable (Unbroken text) :=
  decidable_of_iff (text.toList.all fun c => !isLineEnd c) (by simp [Unbroken])

@[simp] theorem unbroken_append {text more : String} :
    Unbroken (text ++ more) ↔ Unbroken text ∧ Unbroken more := by
  rw [Unbroken, String.toList_append, List.forall_mem_append]
  rfl

theorem unbroken_of_isWordChar {text : String} (h : ∀ c ∈ text.toList, isWordChar c) :
    Unbroken text := by
  intro c inside
  have word := h c inside
  rw [isWordChar_eq, Bool.or_eq_true, isWordStart_iff, isDigit_iff] at word
  simp only [isLineEnd, Bool.or_eq_false_iff, Bool.and_eq_false_iff, decide_eq_false_iff_not,
    beq_eq_false_iff_ne]
  omega

theorem isWordChar_of_mem_toString {n : Nat} {c : Char} (h : c ∈ (toString n).toList) :
    isWordChar c := by
  have digit : c ∈ n.repr.toList := h
  rw [Nat.toList_repr] at digit
  rw [isWordChar_eq, Nat.isDigit_of_mem_toDigits (by decide) (by decide) digit, Bool.or_true]

theorem unbroken_toString (n : Nat) : Unbroken (toString n) :=
  unbroken_of_isWordChar fun _ inside => isWordChar_of_mem_toString inside

theorem linesFrom_cons {c : Char} (plain : isLineEnd c = false) (front rest : List Char) :
    linesFrom front (c :: rest) = linesFrom (c :: front) rest := by
  rw [linesFrom.eq_def]
  split
  · next same => cases same
  · next same =>
    cases same
    cases plain
  · next same =>
    cases same
    rw [plain, if_neg Bool.false_ne_true]

/-- A line is read up to the line feed behind it. -/
theorem linesFrom_append {row : List Char} (plain : ∀ c ∈ row, isLineEnd c = false)
    (front rest : List Char) :
    linesFrom front (row ++ '\n' :: rest) =
      String.ofList (front.reverse ++ row) :: linesFrom [] rest := by
  induction row generalizing front with
  | nil => simp [linesFrom, isLineEnd]
  | cons c row ih =>
      rw [List.forall_mem_cons] at plain
      rw [List.cons_append, linesFrom_cons plain.1, ih plain.2, List.reverse_cons,
        List.append_assoc, List.singleton_append]

theorem lines_join {written : List String} (h : ∀ line ∈ written, Unbroken line) :
    lines (String.join (written.map (· ++ "\n"))) = written := by
  induction written with
  | nil => rfl
  | cons line written ih =>
      rw [List.forall_mem_cons] at h
      rw [lines, List.map_cons, String.join_cons, String.toList_append, String.toList_append,
        List.append_assoc]
      refine (linesFrom_append h.1 [] _).trans ?_
      exact List.cons_eq_cons.mpr ⟨String.ofList_toList, ih h.2⟩

theorem intercalate_append (first : String) (rest : List String) :
    "\n".intercalate (first :: rest) ++ "\n" = String.join ((first :: rest).map (· ++ "\n")) := by
  induction rest generalizing first with
  | nil => simp [String.join_cons]
  | cons next rest ih =>
      rw [String.intercalate_cons_cons, List.map_cons, String.join_cons, ← ih next]
      simp only [String.append_assoc]

theorem Code.program_eq (code : List Code) :
    Code.program code = String.join ((code.map Code.text).map (· ++ "\n")) := by
  rw [Code.program, Instruction.program, List.map_map, List.map_map]
  rfl

/-! ### Forms of a line -/

/-- What a line of output can be. -/
inductive Form where
  | push | pop | arithmetic | label | goto | ifGoto | call | function | ret
  deriving Repr, DecidableEq

def segmentNames : List String :=
  ["constant", "argument", "local", "static", "this", "that", "pointer", "temp"]

def commandNames : List String :=
  ["add", "sub", "neg", "eq", "gt", "lt", "and", "or", "not"]

/-- A label has the number of its construct behind what it is for. -/
def IsLabel (name : String) : Prop :=
  ∃ stem ∈ ["IF_GOTO_NOT_", "IF_GOTO_END_", "WHILE_START_", "WHILE_END_"], ∃ n : Nat,
    name = stem ++ toString n

/-- Whether a line is of a form. -/
def Form.Allows (line : String) : Form → Prop
  | .push => ∃ segment ∈ segmentNames, ∃ index : Nat,
      line = "push " ++ segment ++ " " ++ toString index
  | .pop => ∃ segment ∈ segmentNames, segment ≠ "constant" ∧ ∃ index : Nat,
      line = "pop " ++ segment ++ " " ++ toString index
  | .arithmetic => line ∈ commandNames
  | .label => ∃ name, IsLabel name ∧ line = "label " ++ name
  | .goto => ∃ name, IsLabel name ∧ line = "goto " ++ name
  | .ifGoto => ∃ name, IsLabel name ∧ line = "if-goto " ++ name
  | .call => ∃ name, Qualified name ∧ ∃ count : Nat, line = "call " ++ name ++ " " ++ toString count
  | .function => ∃ name, Qualified name ∧ ∃ count : Nat,
      line = "function " ++ name ++ " " ++ toString count
  | .ret => line = "return"

/-- The characters of a line in front of its first space. -/
def firstWord (line : String) : String :=
  String.ofList (line.toList.takeWhile (· != ' '))

/-- The form that a word is the first one of. -/
def Form.ofWord? : String → Option Form
  | "push" => some .push
  | "pop" => some .pop
  | "label" => some .label
  | "goto" => some .goto
  | "if-goto" => some .ifGoto
  | "call" => some .call
  | "function" => some .function
  | "return" => some .ret
  | word => if word ∈ commandNames then some .arithmetic else none

theorem firstWord_eq {word line : String} (plain : ' ' ∉ word.toList)
    (front : word.toList ++ [' '] <+: line.toList) : firstWord line = word := by
  obtain ⟨rest, whole⟩ := front
  have inside : ∀ c ∈ word.toList, (c != ' ') = true := by
    intro c among
    simpa using ne_of_mem_of_not_mem among plain
  rw [firstWord, ← whole, List.append_assoc, List.takeWhile_append_of_pos inside]
  simp

namespace Form

variable {form form' : Form} {line : String}

theorem ofWord?_of_front (word : String) (plain : ' ' ∉ word.toList)
    (front : word.toList ++ [' '] <+: line.toList) (known : ofWord? word = some form) :
    ofWord? (firstWord line) = some form := by
  rw [firstWord_eq plain front, known]

/-- The first word of a line is one of its form. -/
theorem Allows.ofWord?_firstWord (h : form.Allows line) : ofWord? (firstWord line) = some form := by
  cases form with
  | push =>
      obtain ⟨segment, -, index, rfl⟩ := h
      exact ofWord?_of_front "push" (by decide) (by simp) rfl
  | pop =>
      obtain ⟨segment, -, -, index, rfl⟩ := h
      exact ofWord?_of_front "pop" (by decide) (by simp) rfl
  | arithmetic =>
      have words : ∀ word ∈ commandNames, ofWord? (firstWord word) = some .arithmetic := by decide
      exact words line h
  | label =>
      obtain ⟨name, -, rfl⟩ := h
      exact ofWord?_of_front "label" (by decide) (by simp) rfl
  | goto =>
      obtain ⟨name, -, rfl⟩ := h
      exact ofWord?_of_front "goto" (by decide) (by simp) rfl
  | ifGoto =>
      obtain ⟨name, -, rfl⟩ := h
      exact ofWord?_of_front "if-goto" (by decide) (by simp) rfl
  | call =>
      obtain ⟨name, -, count, rfl⟩ := h
      exact ofWord?_of_front "call" (by decide) (by simp) rfl
  | function =>
      obtain ⟨name, -, count, rfl⟩ := h
      exact ofWord?_of_front "function" (by decide) (by simp) rfl
  | ret =>
      cases h
      rfl

/-- No line is of two forms. -/
theorem Allows.unique (h : form.Allows line) (h' : form'.Allows line) : form = form' :=
  Option.some.inj (h.ofWord?_firstWord.symm.trans h'.ofWord?_firstWord)

theorem unbroken_of_qualified {name : String} (h : Qualified name) : Unbroken name := by
  obtain ⟨front, back, word, word', rfl⟩ := h
  rw [unbroken_append, unbroken_append]
  exact ⟨⟨unbroken_of_isWordChar word.2.1, by decide⟩, unbroken_of_isWordChar word'.2.1⟩

theorem unbroken_of_isLabel {name : String} (h : IsLabel name) : Unbroken name := by
  obtain ⟨stem, known, n, rfl⟩ := h
  have stems : ∀ stem ∈ ["IF_GOTO_NOT_", "IF_GOTO_END_", "WHILE_START_", "WHILE_END_"],
      Unbroken stem := by decide
  exact unbroken_append.mpr ⟨stems stem known, unbroken_toString n⟩

theorem unbroken_counted {command name : String} (h : Unbroken command) (h' : Unbroken name)
    (count : Nat) : Unbroken (command ++ name ++ " " ++ toString count) := by
  simp only [unbroken_append]
  exact ⟨⟨⟨h, h'⟩, by decide⟩, unbroken_toString count⟩

/-- Nothing in a line of a form ends the line. -/
theorem Allows.unbroken (h : form.Allows line) : Unbroken line := by
  have segments : ∀ segment ∈ segmentNames, Unbroken segment := by decide
  have commands : ∀ command ∈ commandNames, Unbroken command := by decide
  cases form with
  | push =>
      obtain ⟨segment, known, index, rfl⟩ := h
      exact unbroken_counted (by decide) (segments segment known) index
  | pop =>
      obtain ⟨segment, known, -, index, rfl⟩ := h
      exact unbroken_counted (by decide) (segments segment known) index
  | arithmetic => exact commands line h
  | label | goto | ifGoto =>
      obtain ⟨name, isLabel, rfl⟩ := h
      exact unbroken_append.mpr ⟨by decide, unbroken_of_isLabel isLabel⟩
  | call | function =>
      obtain ⟨name, qualified, count, rfl⟩ := h
      exact unbroken_counted (by decide) (unbroken_of_qualified qualified) count
  | ret =>
      cases h
      decide

end Form

/-! ### Forms of instructions -/

/-- The form of the line that an instruction is written as. -/
def Code.form : Code → Form
  | .push _ _ => .push
  | .pop _ _ => .pop
  | .arithmetic _ => .arithmetic
  | .label _ => .label
  | .goto _ => .goto
  | .ifGoto _ => .ifGoto
  | .call _ _ => .call
  | .function _ _ => .function
  | .ret => .ret

theorem Code.form_of_isHeader {i : Code} (h : i.isHeader = true) : i.form = .function := by
  cases i with
  | function name count => rfl
  | _ => cases h

theorem Segment.text_mem (segment : Segment) : segment.text ∈ segmentNames := by
  cases segment <;> decide

theorem Command.text_mem (command : Command) : command.text ∈ commandNames := by
  cases command <;> decide

theorem Label.isLabel_text (name : Label) : IsLabel name.text := by
  cases name with
  | branchNot id => exact ⟨"IF_GOTO_NOT_", by decide, id, rfl⟩
  | branchEnd id => exact ⟨"IF_GOTO_END_", by decide, id, rfl⟩
  | loopStart id => exact ⟨"WHILE_START_", by decide, id, rfl⟩
  | loopEnd id => exact ⟨"WHILE_END_", by decide, id, rfl⟩

theorem Code.allows_text {i : Code} (h : i.Spelled) : i.form.Allows i.text := by
  cases i with
  | push segment index => exact ⟨segment.text, segment.text_mem, index, rfl⟩
  | pop segment index =>
      refine ⟨segment.text, segment.text_mem, ?_, index, rfl⟩
      cases segment with
      | constant => exact absurd rfl h
      | _ => decide
  | arithmetic command => exact command.text_mem
  | label name | goto name | ifGoto name => exact ⟨name.text, name.isLabel_text, rfl⟩
  | call name count | function name count => exact ⟨name, h, count, rfl⟩
  | ret => rfl

section Program

variable {c : Tree.Class} (proper : ∀ l ∈ c.lexemes, l.Proper)

include proper

theorem Tree.Class.allows_text : ∀ i ∈ c.code, i.form.Allows i.text :=
  fun i inside => Code.allows_text (c.spelled proper i inside)

/-- The code of a class starts with a header, if there is any. -/
theorem Tree.Class.allows_head? : ∀ i ∈ c.code.head?, Form.function.Allows i.text := by
  intro i first
  have allowed := c.allows_text proper i (List.mem_of_mem_head? first)
  rwa [Code.form_of_isHeader (c.head?_codeFrom 0 0 c.subroutines i first)] at allowed

/-- Cutting the text of a class gives back its instructions. -/
theorem Tree.Class.lines_program : lines (Code.program c.code) = c.code.map Code.text := by
  rw [Code.program_eq]
  exact lines_join (List.forall_mem_map.mpr fun i inside =>
    (c.allows_text proper i inside).unbroken)

end Program

/-- The text of a class that was compiled has one line for each instruction, each of one form, and
starts with a header. Cutting it at line ends of any sort gives the instructions. -/
theorem output_is_well_formed (source : Source) (filename : Option String) (strict : Bool)
    (chunkSize : Int) (text : String)
    (compiled : compileText source filename strict chunkSize = .ok text) :
    ∃ code, compileSource source filename strict chunkSize = .ok code ∧
      text = String.join ((code.map Code.text).map (· ++ "\n")) ∧
      (∀ line ∈ code.map Code.text, ∃! form : Form, form.Allows line) ∧
      (text = "" ∨ ∃ first rest, code.map Code.text = first :: rest ∧ Form.function.Allows first) ∧
      ∀ c : CompiledClass, c.code = text → c.lines = code.map Code.text ∧ c.size = code.length ∧
        (c.lines ≠ [] → "\n".intercalate c.lines ++ "\n" = text) := by
  obtain ⟨code, done, rfl⟩ := compileText_eq_ok_iff.mp compiled
  have positive := pos_of_compileSource done
  obtain ⟨tokens, c, read, spelled, -, rfl⟩ := exists_tree_of_compileSource positive done
  have proper := Lexer.proper_of_tokensOf positive read
  rw [spelled] at proper
  refine ⟨c.code, done, Code.program_eq _, List.forall_mem_map.mpr fun i inside => ?_, ?_, ?_⟩
  · exact ⟨i.form, c.allows_text proper i inside,
      fun other allows => allows.unique (c.allows_text proper i inside)⟩
  · cases whole : c.code with
    | nil => exact .inl rfl
    | cons i rest => exact .inr ⟨_, _, rfl, c.allows_head? proper i (by rw [whole]; rfl)⟩
  · rintro ⟨_, _, _, _⟩ rfl
    have cut := c.lines_program proper
    refine ⟨cut, ?_, fun more => ?_⟩
    · rw [CompiledClass.size, CompiledClass.lines, cut, List.length_map]
    · rw [CompiledClass.lines, cut] at more ⊢
      obtain ⟨first, rest, whole⟩ := List.exists_cons_of_ne_nil more
      rw [whole, intercalate_append, Code.program_eq, whole]

/-- A line separator in a string constant is written as its number. -/
theorem output_is_well_formed_at_separator :
    let source : Source :=
      .text "class A \x7bfunction void f() \x7bdo B.g(\"\u2028\"); return;\x7d\x7d"
    let text := "function A.f 0\npush constant 1\ncall String.new 1\npush constant 8232\n" ++
      "call String.appendChar 2\ncall B.g 1\npop temp 0\npush constant 0\nreturn\n"
    compileText source none false 5 = .ok text ∧
      ∃ code, compileSource source none false 5 = .ok code ∧
        (∀ line ∈ code.map Code.text, ∃! form : Form, form.Allows line) ∧
        ∀ c : CompiledClass, c.code = text →
          c.lines = code.map Code.text ∧ "\n".intercalate c.lines ++ "\n" = text := by
  intro source text
  have compiled : compileText source none false 5 = .ok text := by decide +kernel
  obtain ⟨code, done, whole, forms, -, cut⟩ :=
    output_is_well_formed source none false 5 text compiled
  refine ⟨compiled, code, done, forms, fun c same => ?_⟩
  obtain ⟨lines, -, joined⟩ := cut c same
  refine ⟨lines, joined ?_⟩
  rintro none
  rw [lines] at none
  rw [none] at whole
  exact absurd whole (by decide)

end Jack
