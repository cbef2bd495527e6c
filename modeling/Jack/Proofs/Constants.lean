import Jack.Proofs.Operands
import Jack.Proofs.Spacing

/-! # Constants

Which constants compiled code pushes. Integers and characters are bounded where they are read, but
the length of a string constant and the number of fields are pushed as they are: the constants of a
class are in range if and only if these counts are.
-/

namespace Jack

open Jack.Tree

/-! ### The lengths of string constants -/

section Lengths

variable {f : Frame} {content : String}

mutual

theorem Tree.Term.pushes_length (t : Term) (read : .string content ∈ t.lexemes) :
    .push .constant content.length ∈ t.code f := by
  cases t with
  | integer digits value | constant word | var name => simp [Term.lexemes] at read
  | string other =>
      cases List.mem_singleton.mp read
      exact List.mem_cons_self ..
  | element base index =>
      have inner := index.pushes_length (by simpa [Term.lexemes] using read)
      simp [Term.code, inner]
  | call call => exact call.pushes_length read
  | group inner => exact inner.pushes_length (by simpa [Term.lexemes] using read)
  | unary op operand =>
      have inner := operand.pushes_length (by simpa [Term.lexemes] using read)
      simp [Term.code, inner]
termination_by structural t

theorem Tree.Expression.pushes_length (e : Expression) (read : .string content ∈ e.lexemes) :
    .push .constant content.length ∈ e.code f := by
  cases e with
  | of first rest =>
      rw [Expression.code, List.mem_append]
      exact (List.mem_append.mp read).imp first.pushes_length rest.pushes_length
termination_by structural e

theorem Tree.Operations.pushes_length (rest : Operations) (read : .string content ∈ rest.lexemes) :
    .push .constant content.length ∈ rest.code f := by
  cases rest with
  | nil => cases read
  | cons op operand rest =>
      rw [Operations.lexemes, List.mem_cons, List.mem_append] at read
      rw [Operations.code, List.mem_append, List.mem_cons]
      rcases read with mark | inside | inside
      · cases mark
      · exact .inl (operand.pushes_length inside)
      · exact .inr (.inr (rest.pushes_length inside))
termination_by structural rest

theorem Tree.Call.pushes_length (call : Tree.Call) (read : .string content ∈ call.lexemes) :
    .push .constant content.length ∈ call.code f := by
  cases call with
  | own name arguments =>
      have inner := arguments.pushes_length (by simpa [Call.lexemes] using read)
      simp [Call.code, inner]
  | qualified qualifier name arguments =>
      have inner := arguments.pushes_length (by simpa [Call.lexemes] using read)
      rw [Call.code]
      split <;> simp [inner]
termination_by structural call

theorem Tree.Arguments.pushes_length (arguments : Arguments)
    (read : .string content ∈ arguments.lexemes) :
    .push .constant content.length ∈ arguments.code f := by
  cases arguments with
  | nil => cases read
  | cons first rest =>
      rw [Arguments.code, List.mem_append]
      exact (List.mem_append.mp read).imp first.pushes_length rest.pushes_length_more
termination_by structural arguments

theorem Tree.Arguments.pushes_length_more (arguments : Arguments)
    (read : .string content ∈ arguments.moreLexemes) :
    .push .constant content.length ∈ arguments.code f := by
  cases arguments with
  | nil => cases read
  | cons first rest =>
      rw [Arguments.moreLexemes, List.mem_cons, List.mem_append] at read
      rw [Arguments.code, List.mem_append]
      rcases read with mark | inside | inside
      · cases mark
      · exact .inl (first.pushes_length inside)
      · exact .inr (rest.pushes_length_more inside)
termination_by structural arguments

end

mutual

theorem Tree.Statement.pushes_length (st : Statement) (b l : Nat)
    (read : .string content ∈ st.lexemes) : .push .constant content.length ∈ st.code f b l := by
  cases st with
  | assign target value =>
      have inner := value.pushes_length (f := f) (by simpa [Statement.lexemes] using read)
      simp [Statement.code, inner]
  | store base index value =>
      have inner : .string content ∈ index.lexemes ∨ .string content ∈ value.lexemes := by
        simpa [Statement.lexemes] using read
      rcases inner with inside | inside
      · simp [Statement.code, index.pushes_length inside]
      · simp [Statement.code, value.pushes_length inside]
  | branch condition body | loop condition body =>
      have inner : .string content ∈ condition.lexemes ∨ .string content ∈ body.lexemes := by
        simpa [Statement.lexemes] using read
      rcases inner with inside | inside
      · simp [Statement.code, condition.pushes_length inside]
      · simp [Statement.code, body.pushes_length _ _ inside]
  | branchElse condition body other =>
      have inner : .string content ∈ condition.lexemes ∨ .string content ∈ body.lexemes ∨
          .string content ∈ other.lexemes := by
        simpa [Statement.lexemes] using read
      rcases inner with inside | inside | inside
      · simp [Statement.code, condition.pushes_length inside]
      · simp [Statement.code, body.pushes_length _ _ inside]
      · simp [Statement.code, other.pushes_length _ _ inside]
  | perform call =>
      have inner := call.pushes_length (f := f) (by simpa [Statement.lexemes] using read)
      simp [Statement.code, inner]
  | ret value =>
      cases value with
      | none => simp [Statement.lexemes] at read
      | some value =>
          have inner := value.pushes_length (f := f) (by simpa [Statement.lexemes] using read)
          simp [Statement.code, inner]
termination_by structural st

/-- Statements push the length of every string constant in their row. -/
theorem Tree.Statements.pushes_length (ss : Statements) (b l : Nat)
    (read : .string content ∈ ss.lexemes) : .push .constant content.length ∈ ss.code f b l := by
  cases ss with
  | nil => cases read
  | cons first rest =>
      rw [Statements.code, List.mem_append]
      exact (List.mem_append.mp read).imp (first.pushes_length b l) (rest.pushes_length _ _)
termination_by structural ss

end

end Lengths

/-! ### Strings in a class -/

section Strings

variable {content : String}

@[simp] theorem Tree.TypeName.string_ne_lexeme (type : TypeName) :
    Lexeme.string content ≠ type.lexeme := by
  cases type <;> simp [TypeName.lexeme]

theorem Tree.Declaration.string_not_mem (d : Declaration) (word : Keyword) :
    .string content ∉ d.lexemes word := by
  simp [Declaration.lexemes, Declaration.tail, Declaration.moreLexemes]

theorem Tree.Parameter.string_not_mem (ps : List Parameter) :
    .string content ∉ Parameter.rowOf ps := by
  cases ps with
  | nil => simp [Parameter.rowOf]
  | cons first more => simp [Parameter.rowOf, Parameter.moreLexemes, Parameter.lexemes]

/-- A string constant stands in the statements of a subroutine. -/
theorem Tree.Class.exists_body_of_string {c : Tree.Class} (read : .string content ∈ c.lexemes) :
    ∃ sub ∈ c.subroutines, .string content ∈ sub.body.lexemes := by
  have declared : .string content ∉ c.declarations.flatMap ClassVariables.lexemes := by
    intro inside
    obtain ⟨v, -, among⟩ := List.mem_flatMap.mp inside
    exact v.declaration.string_not_mem _ among
  have inside : .string content ∈ c.subroutines.flatMap Subroutine.lexemes := by
    simpa [Class.lexemes, declared] using read
  obtain ⟨sub, member, among⟩ := List.mem_flatMap.mp inside
  have result : .string content ≠ sub.resultLexeme := by
    unfold Subroutine.resultLexeme
    cases sub.result <;> simp
  have parameters : .string content ∉ Parameter.rowOf sub.parameters :=
    Parameter.string_not_mem sub.parameters
  have locals : .string content ∉ sub.locals.flatMap (Declaration.lexemes .varWord) := by
    intro inside
    obtain ⟨d, -, among⟩ := List.mem_flatMap.mp inside
    exact d.string_not_mem _ among
  refine ⟨sub, member, ?_⟩
  simpa [Subroutine.lexemes, Subroutine.tail, Subroutine.bodyLexemes, result, parameters,
    locals] using among

end Strings

/-! ### The constants of a class -/

/-- What the counts of a class need to be for its constants to be in range. -/
structure Tree.Class.CountsFit (c : Tree.Class) : Prop where
  strings : ∀ content, .string content ∈ c.lexemes → content.length ≤ maxConstant
  /-- The number of fields is only pushed where an object is made. -/
  fields : (∃ sub ∈ c.subroutines, sub.kind = .constructor) → c.fieldCount ≤ maxConstant

theorem Tree.Class.constant_le {c : Tree.Class} (proper : ∀ l ∈ c.lexemes, l.Proper)
    (fit : c.CountsFit) : ∀ i ∈ c.code, ∀ n, i = .push .constant n → n ≤ maxConstant := by
  refine c.forall_mem_code ?_ ?_ ?_ ?_
  · rintro sub inside n ⟨⟩
  · intro sub inside
    unfold Subroutine.prologue
    cases kind : sub.kind with
    | constructor => simpa using fit.fields ⟨sub, inside, kind⟩
    | function => simp
    | method => simp
  · rintro sub inside i written n rfl
    generalize same : Instruction.push Segment.constant n = i at written
    cases written with
    | @integer digits value read =>
        cases same
        exact (proper (.integer digits n) read).2.2.2
    | length read =>
        cases same
        exact fit.strings _ read
    | @character content c read inside =>
        cases same
        exact (proper (.string content) read c inside).2.2.2
    | fixed small =>
        cases same
        exact small.trans (by decide)
    | @pushVariable name entry found =>
        injection same with segment
        cases kind : entry.kind <;> rw [kind] at segment <;> cases segment
    | _ => cases same
  · rintro i steers n rfl
    cases steers

/-- The length of every string constant in a class is pushed. -/
theorem Tree.Class.pushes_length {c : Tree.Class} {content : String}
    (read : .string content ∈ c.lexemes) : .push .constant content.length ∈ c.code := by
  obtain ⟨sub, member, inside⟩ := c.exists_body_of_string read
  obtain ⟨b, l, among⟩ := c.exists_code member
  refine among _ ?_
  simp [Subroutine.code, sub.body.pushes_length b l inside]

/-- The number of fields is pushed for a constructor. -/
theorem Tree.Class.pushes_fieldCount {c : Tree.Class} {sub : Subroutine}
    (member : sub ∈ c.subroutines) (kind : sub.kind = .constructor) :
    .push .constant c.fieldCount ∈ c.code := by
  obtain ⟨b, l, among⟩ := c.exists_code member
  refine among _ ?_
  simp [Subroutine.code, Subroutine.prologue, kind]

theorem Tree.Class.countsFit_of_constant_le {c : Tree.Class}
    (h : ∀ n, .push .constant n ∈ c.code → n ≤ maxConstant) : c.CountsFit where
  strings content read := h _ (c.pushes_length read)
  fields := by
    rintro ⟨sub, member, kind⟩
    exact h _ (c.pushes_fieldCount member kind)

/-- The constants of a class that was compiled are in range if and only if none of its string
constants is longer than the largest constant and, where it has a constructor, its fields are not
more than that. -/
theorem constants_fit_iff_counts_do (source : Source) (filename : Option String) (strict : Bool)
    (chunkSize : Int) (code : List Code)
    (compiled : compileSource source filename strict chunkSize = .ok code) :
    ∃ (tokens : List Token) (c : Tree.Class),
      Lexer.tokensOf source chunkSize filename = .ok tokens ∧
      tokens.map Token.lexeme = c.lexemes ∧
      ((∀ n, .push .constant n ∈ code → n ≤ maxConstant) ↔ c.CountsFit) := by
  have positive := pos_of_compileSource compiled
  obtain ⟨tokens, c, read, spelled, -, rfl⟩ := exists_tree_of_compileSource positive compiled
  have proper := Lexer.proper_of_tokensOf positive read
  rw [spelled] at proper
  exact ⟨tokens, c, read, spelled, c.countsFit_of_constant_le,
    fun fit n inside => c.constant_le proper fit _ inside n rfl⟩

/-- The fields of an object are counted for its constructor. -/
theorem constants_fit_iff_counts_do_at_constructor :
    let source : Source :=
      .text "class A \x7bfield int x, y; constructor A new() \x7breturn this;\x7d\x7d"
    let code : List Code :=
      [.function "A.new" 0, .push .constant 2, .call "Memory.alloc" 1, .pop .pointer 0,
        .push .pointer 0, .ret]
    compileSource source none false 5 = .ok code ∧
      ∃ (tokens : List Token) (c : Tree.Class), Lexer.tokensOf source 5 none = .ok tokens ∧
        tokens.map Token.lexeme = c.lexemes ∧ c.CountsFit := by
  intro source code
  have compiled : compileSource source none false 5 = .ok code := by decide +kernel
  obtain ⟨tokens, c, read, spelled, fits⟩ :=
    constants_fit_iff_counts_do source none false 5 code compiled
  have small : ∀ n, .push .constant n ∈ code → n ≤ maxConstant := by
    intro n inside
    obtain rfl : n = 2 := by simpa [code] using inside
    decide
  exact ⟨compiled, tokens, c, read, spelled, fits.mp small⟩

/-! ### Too many fields -/

/-- A name of five letters, another one for each small number. -/
def Tree.fieldName (i : Nat) : String :=
  .ofList ('x' :: [i / 17576, i / 676, i / 26, i].map fun d => .ofNat ('a'.toNat + d % 26))

/-- A class with so many fields, and one more. -/
def Tree.crowd (n : Nat) : Tree.Class where
  name := "A"
  declarations := [⟨.field, ⟨.int, fieldName 0, (List.range n).map fun i => fieldName (i + 1)⟩⟩]
  subroutines :=
    [{ kind := .constructor
       result := some (.object "A")
       name := "new"
       parameters := []
       locals := []
       body := .cons (.ret (some (.of (.constant .thisWord) .nil))) .nil }]

theorem Tree.toList_fieldName (i : Nat) :
    ∃ letters, (fieldName i).toList = 'x' :: letters ∧
      ∀ c ∈ letters, isWordChar c ∧ c.isDigit = false := by
  have letter : ∀ d < 26, isWordChar (.ofNat ('a'.toNat + d)) ∧
      (Char.ofNat ('a'.toNat + d)).isDigit = false := by
    decide
  refine ⟨_, String.toList_ofList, List.forall_mem_map.mpr fun d _ => letter _ ?_⟩
  exact Nat.mod_lt d (by decide)

theorem Tree.proper_fieldName (i : Nat) : (Lexeme.identifier (fieldName i)).Proper := by
  obtain ⟨letters, spelled, plain⟩ := toList_fieldName i
  refine ⟨?_, fun word same => ?_⟩
  · rw [spelled]
    exact ⟨List.cons_ne_nil _ _, List.forall_mem_cons.mpr ⟨by decide, fun c h => (plain c h).1⟩,
      by simp⟩
  · -- No keyword starts like the name.
    have first : word.text.toList.head? = some 'x' := by rw [same, spelled]; rfl
    revert first
    cases word <;> decide

/-- What such a class has in front of its fields. -/
def Tree.crowdFront : List Lexeme :=
  [.keyword .classWord, .identifier "A", .symbol .openBrace, .keyword .fieldWord,
    .keyword .intWord]

/-- What such a class has behind its fields. -/
def Tree.crowdBack : List Lexeme :=
  [.symbol .semicolon, .keyword .constructorWord, .identifier "A", .identifier "new",
    .symbol .openParen, .symbol .closeParen, .symbol .openBrace, .keyword .returnWord,
    .keyword .thisWord, .symbol .semicolon, .symbol .closeBrace, .symbol .closeBrace]

section Crowd

variable {n : Nat}

theorem Tree.lexemes_crowd : (crowd n).lexemes = crowdFront ++ (.identifier (fieldName 0) ::
    Declaration.moreLexemes ((List.range n).map fun i => fieldName (i + 1))) ++ crowdBack := by
  have constructed : (crowd n).subroutines.flatMap Subroutine.lexemes ++ [.symbol .closeBrace] =
      crowdBack.tail := rfl
  rw [Class.lexemes, constructed]
  simp [crowd, crowdFront, crowdBack, ClassVariables.lexemes, Declaration.lexemes,
    Declaration.tail, TypeName.lexeme, Keeping.keyword]

theorem Tree.forall_mem_crowd {P : Lexeme → Prop} (front : ∀ l ∈ crowdFront, P l)
    (back : ∀ l ∈ crowdBack, P l) (comma : P (.symbol .comma))
    (fields : ∀ i, P (.identifier (fieldName i))) : ∀ l ∈ (crowd n).lexemes, P l := by
  rw [lexemes_crowd, List.forall_mem_append, List.forall_mem_append, List.forall_mem_cons]
  refine ⟨⟨front, fields 0, ?_⟩, back⟩
  rw [Declaration.moreLexemes, List.forall_mem_flatMap, List.forall_mem_map]
  intro i _
  rw [List.forall_mem_cons, List.forall_mem_singleton]
  exact ⟨comma, fields (i + 1)⟩

theorem Tree.proper_crowd : ∀ l ∈ (crowd n).lexemes, l.Proper := by
  have own : (Lexeme.identifier "A").Proper :=
    ⟨by decide, fun word => by cases word <;> decide⟩
  have new : (Lexeme.identifier "new").Proper :=
    ⟨by decide, fun word => by cases word <;> decide⟩
  refine forall_mem_crowd ?_ ?_ trivial proper_fieldName
  · simpa [crowdFront, Lexeme.Proper] using own
  · simpa [crowdBack, Lexeme.Proper] using ⟨own, new⟩

theorem Tree.noDigit_crowd : ∀ c ∈ Lexeme.spaced (crowd n).lexemes, c.isDigit = false := by
  have plain : ∀ l ∈ (crowd n).lexemes, l.text.toList.all fun c => !c.isDigit := by
    refine forall_mem_crowd (by decide) (by decide) (by decide) fun i => ?_
    obtain ⟨letters, spelled, plain⟩ := toList_fieldName i
    rw [Lexeme.text, spelled, List.all_cons]
    simpa using fun c inside => (plain c inside).2
  rw [Lexeme.spaced, List.forall_mem_flatMap]
  intro l inside
  rw [List.forall_mem_cons]
  exact ⟨rfl, by simpa using plain l inside⟩

theorem Tree.fieldCount_crowd : (crowd n).fieldCount = n + 1 := by
  simp [crowd, Class.fieldCount, ClassVariables.fields, Declaration.names]

/-- A class with any number of fields is compiled, and the number is pushed. -/
theorem Tree.compiles_crowd :
    compileSource (.text (.ofList (Lexeme.spaced (crowd n).lexemes))) none false 4096 =
      .ok (crowd n).code ∧ .push .constant (n + 1) ∈ (crowd n).code := by
  have declared : (crowd n).WellScoped := by
    intro sub inside name used
    obtain rfl := List.mem_singleton.mp inside
    cases used
  constructor
  · exact compileSource_spaced declared proper_crowd (shortNumerals_of_noDigit noDigit_crowd) none
      (by decide)
  · rw [← fieldCount_crowd]
    exact (crowd n).pushes_fieldCount (List.mem_singleton_self _) rfl

end Crowd

/-- The number of fields need not be in the range of constants. -/
theorem constants_exceed_the_largest :
    ¬ ∀ (source : Source) (filename : Option String) (strict : Bool) (chunkSize : Int)
      (code : List Code), compileSource source filename strict chunkSize = .ok code →
        ∀ n, .push .constant n ∈ code → n ≤ maxConstant := by
  intro claim
  obtain ⟨compiled, pushed⟩ := Tree.compiles_crowd (n := maxConstant)
  exact absurd (claim _ _ _ _ _ compiled _ pushed) (Nat.not_succ_le_self _)

end Jack
