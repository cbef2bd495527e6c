import Jack.Machine.Writer
import Jack.Proofs.Reactions
import Jack.Proofs.Steps

/-! # What escapes from compiling

A goal that fails blames a token that was found in the source, and the header of a subroutine is
only ever written inside one. So what escapes from compiling a source is a problem at one of its
places. The instructions written up to there are such as the writer accepts by name.
-/

namespace Jack

/-! ### Writing by name -/

/-- The call that writes an instruction, which names its segment or its command. -/
def Writer.Call.of : Instruction String → Writer.Call
  | .push segment index => .push (.text segment.text) index
  | .pop segment index => .pop (.text segment.text) index
  | .arithmetic command => .arithmetic (.text command.text)
  | .label name => .label name
  | .goto name => .goto name
  | .ifGoto name => .ifGoto name
  | .call callee count => .call callee count
  | .function name count => .function name count
  | .ret => .ret

theorem Segment.ofLiteral_text (segment : Segment) :
    ofLiteral (.text segment.text) = .ok segment := by
  cases segment <;> rfl

theorem Command.ofLiteral_text (command : Command) :
    ofLiteral (.text command.text) = .ok command := by
  cases command <;> rfl

theorem Writer.operand_natCast (value : Nat) : operand value = .ok value := by
  rw [operand, if_neg (by omega), Int.toNat_natCast]

/-- The writer accepts what does not store into the constants. -/
theorem Writer.instruction_of_writable {i : Code} (h : i.Writable) :
    instruction (.of (i.mapLabel Label.text)) = .ok (i.mapLabel Label.text) := by
  cases i with
  | push segment index =>
      simp [Instruction.mapLabel, Call.of, instruction, Segment.ofLiteral_text, operand_natCast,
        bind, Except.bind, pure, Except.pure]
  | pop segment index =>
      have h : segment ≠ .constant := h
      simp [Instruction.mapLabel, Call.of, instruction, Segment.ofLiteral_text, operand_natCast,
        bind, Except.bind, pure, Except.pure, h]
  | arithmetic command =>
      simp [Instruction.mapLabel, Call.of, instruction, Command.ofLiteral_text, bind, Except.bind,
        pure, Except.pure]
  | call callee count | function name count =>
      simp [Instruction.mapLabel, Call.of, instruction, operand_natCast, bind, Except.bind, pure,
        Except.pure]
  | label | goto | ifGoto | ret => rfl

/-! ### Runs -/

namespace Engine

/-- An engine that compiles a source, with the goals that are left for it. -/
structure Sound (filename : Option String) (start : Reader) (goals : List Goal) (e : Engine) :
    Prop where
  named : e.filename = filename
  passed : ∃ before, e.cursor.Passed filename start before
  /-- Only the goal in front can blame a name, which was found in the source. -/
  first : ∀ goal ∈ goals.head?, ∀ named ∈ goal.name?,
    ∃ row rest, start.Finds row rest ∧ ⟨.identifier named.1, named.2⟩ ∈ row
  others : ∀ goal ∈ goals.tail, goal.name? = none
  ready : Goal.Ready e.scope.subroutineKind.isSome goals
  held : ∀ goal ∈ goals, ∀ i ∈ goal.held, i.Writable
  written : ∀ i ∈ e.code, i.Writable

variable {filename : Option String} {start : Reader} {goal : Goal} {goals rest : List Goal}
  {e : Engine}

theorem Sound.absorb (h : e.Sound filename start (goal :: rest)) :
    ∀ i ∈ (e.absorb (e.reaction goal)).code, i.Writable := by
  have written := (Goal.sound_react goal e.cursor.current e.scope).written (h.held goal (by simp))
  rw [code_absorb]
  exact List.forall_mem_append.mpr ⟨h.written, written⟩

/-- The goals behind the first one can be reached in the scope that it leaves. -/
theorem Sound.ready_rest (h : e.Sound filename start (goal :: rest)) :
    Goal.Ready (e.reaction goal).scope.subroutineKind.isSome rest :=
  h.ready.2.mono (Goal.isSome_subroutineKind_react goal _ _)

theorem Sound.pop (h : e.Sound filename start (goal :: rest)) :
    (e.absorb (e.reaction goal)).Sound filename start rest := by
  refine ⟨h.named, h.passed, ?_, ?_, h.ready_rest, ?_, h.absorb⟩
  · intro g inside named name
    rw [h.others g (List.mem_of_mem_head? inside)] at name
    cases name
  · exact fun g inside => h.others g (List.mem_of_mem_tail inside)
  · exact fun g inside => h.held g (List.mem_cons_of_mem _ inside)

theorem Sound.shift {next : List Goal} (h : e.Sound filename start (goal :: rest))
    (moved : (e.reaction goal).move = .shift next)
    (passed : (e.absorb (e.reaction goal)).advance.1 = .ok ()) :
    (e.absorb (e.reaction goal)).advance.2.Sound filename start (next ++ rest) := by
  obtain ⟨before, found⟩ := h.passed
  obtain ⟨first, others, ready, held⟩ := (Goal.sound_react goal _ _).follow next moved
  have later := h.pop
  refine ⟨h.named, ⟨_, found.advance (Goal.isEnd_of_react_shift moved) passed⟩, ?_, ?_, ?_, ?_,
    h.absorb⟩
  · cases next with
    | nil => exact later.first
    | cons g next =>
        intro g' inside named name
        obtain ⟨left, finds, -⟩ := found
        obtain ⟨word, place⟩ := first g' inside named name
        have same : (⟨.identifier named.1, named.2⟩ : Token) = e.cursor.current := by
          rw [← word, place]
        exact ⟨_, left, finds, by simp [same]⟩
  · cases next with
    | nil => exact later.others
    | cons g next => exact List.forall_mem_append.mpr ⟨others, h.others⟩
  · refine (ready _ ?_).append h.ready_rest
    intro inside
    exact Goal.isSome_subroutineKind_react goal _ _ (.inl (h.ready.1 inside))
  · exact List.forall_mem_append.mpr ⟨held, later.held⟩

theorem Sound.steps {x y : List Goal × Engine} (h : x.2.Sound filename start x.1)
    (steps : Steps x y) : y.2.Sound filename start y.1 := by
  induction steps with
  | refl => exact h
  | tail _ step ih =>
      cases step with
      | pop moved => exact ih.pop
      | shift moved passed => exact ih.shift moved passed

/-- What is written can be written by name, also in front of a failure. -/
theorem Sound.run (h : e.Sound filename start goals) : ∀ i ∈ (e.run goals).2.code, i.Writable := by
  cases reached : e.run goals with
  | mk outcome last =>
      cases outcome with
      | ok => exact (h.steps (steps_of_run reached)).written
      | error failure =>
          obtain ⟨goal, rest, before, steps, -, written, -⟩ := fails_of_run reached
          have sound := (h.steps steps).absorb
          rw [code_absorb] at sound
          exact written ▸ sound

theorem sound_atStart {t : Token} {strict : Bool}
    (h : (atStart (.readFrom filename [] start) t strict filename).cursor.Passed filename start
      []) :
    (atStart (.readFrom filename [] start) t strict filename).Sound filename start
      [.classDeclaration] where
  named := rfl
  passed := ⟨[], h⟩
  first := by simp [Goal.name?]
  others := by simp
  ready := by simp [Goal.Ready, Goal.inside]
  held := by simp [Goal.held]
  written := by simp [atStart, code]

/-- A goal that fails blames a place of the source. -/
theorem Sound.blames {text : List Char} {failure : Failure} (place : start.In text)
    (short : ShortNumerals text) (h : e.Sound filename start (goal :: rest))
    (fails : e.Fails goal failure) :
    ∃ problem position, position.In text ∧ problem.stage ≠ .general ∧
      failure = .diagnosed (.atPosition problem position filename) := by
  obtain ⟨before, found⟩ := h.passed
  cases fails with
  | @stuck fault moved =>
      rw [h.named]
      have named {name : String} {p : Position} (blamed : goal.name? = some (name, p)) :
          p.In text := by
        obtain ⟨row, rest, finds, inside⟩ := h.first goal rfl _ blamed
        exact (finds.places place).2 _ inside
      cases (Goal.sound_react goal _ _).blames fault moved with
      | expected known what =>
          obtain ⟨left, finds, -⟩ := found
          exact ⟨_, _, (finds.places place).2 _ (by simp), by simp [Problem.stage], rfl⟩
      | undefined blamed unknown => exact ⟨_, _, named blamed, by simp [Problem.stage], rfl⟩
      | redefined refused => exact ⟨_, _, named rfl, by simp [Problem.stage], rfl⟩
      | outside none =>
          have inside := h.ready.1 rfl
          rw [none] at inside
          cases inside
  | unread moved failed =>
      have more := Goal.isEnd_of_react_shift moved
      obtain ⟨rest, fault, after, finds, read, rfl⟩ := found.fault more failed
      obtain ⟨p, position, inside, lexical, rfl⟩ :=
        (Reader.rejects_of_nextToken read).exists_problem (finds.places place).1 short
      exact ⟨p, position, inside, by simp [lexical], rfl⟩

end Engine

/-! ### Compiling a source -/

/-- The instructions that are written for a source until it is compiled or a goal fails. -/
def writtenFor (source : Source) (filename : Option String) (strict : Bool) (chunkSize : Int) :
    List Code :=
  match Lexer.ofSource source chunkSize filename with
  | .error _ => []
  | .ok lexer =>
    match (Engine.ofLexer lexer strict none).1 with
    | .error _ => []
    | .ok e => (e.run [.classDeclaration]).2.code

section Compile

variable {source : Source} {chunkSize : Int} {filename : Option String} {strict : Bool}

theorem writable_writtenFor (positive : 0 < chunkSize) :
    ∀ i ∈ writtenFor source filename strict chunkSize, i.Writable := by
  rw [writtenFor, Lexer.ofSource_of_pos positive]
  simp only [Engine.ofLexer, Engine.ofStream, TokenStream.ofLexer, Option.map_none,
    Option.toList_none, Option.none_or]
  let stream := TokenStream.readFrom filename [] (.ofSource chunkSize.toNat source)
  cases found : stream.next.1.outcome with
  | error failure => exact List.forall_mem_nil _
  | ok t => exact (Engine.sound_atStart (Engine.passed_atStart found)).run

theorem blames_of_compileSource {failure : Failure} (positive : 0 < chunkSize)
    (short : ShortNumerals source.characters)
    (h : compileSource source filename strict chunkSize = .error failure) :
    ∃ problem position, position.In source.characters ∧ problem.stage ≠ .general ∧
      failure = .diagnosed (.atPosition problem position filename) := by
  have place := Reader.in_ofSource chunkSize.toNat source
  obtain ⟨fault, after, read, rfl⟩ | ⟨t, goal, rest, last, passed, steps, fails⟩ :=
    Engine.fails_of_compileSource positive h
  · obtain ⟨p, position, inside, lexical, rfl⟩ :=
      (Reader.rejects_of_nextToken read).exists_problem place short
    exact ⟨p, position, inside, by simp [lexical], rfl⟩
  · exact ((Engine.sound_atStart passed).steps steps).blames place short fails

/-- Compiling a source without long numerals gives a text, or a problem at the place of one of its
characters or of its end. On the way everything is written that the engine asks for. -/
theorem only_placed_problems_escape (source : Source) (filename : Option String) (strict : Bool)
    (chunkSize : Int) (positive : 0 < chunkSize) (short : ShortNumerals source.characters) :
    ((∃ text, compileText source filename strict chunkSize = .ok text) ∨
      ∃ problem before after, source.characters = before ++ after ∧ problem.stage ≠ .general ∧
        1 ≤ (Position.behind before).line ∧ 1 ≤ (Position.behind before).column ∧
        compileText source filename strict chunkSize =
          .error (.diagnosed (.atPosition problem (.behind before) filename))) ∧
    ∀ i ∈ writtenFor source filename strict chunkSize,
      Writer.instruction (.of (i.mapLabel Label.text)) = .ok (i.mapLabel Label.text) := by
  constructor
  · cases compiled : compileText source filename strict chunkSize with
    | ok text => exact .inl ⟨text, rfl⟩
    | error failure =>
        obtain ⟨problem, position, inside, stage, rfl⟩ :=
          blames_of_compileSource positive short (compileText_eq_error_iff.mp compiled)
        obtain ⟨line, column⟩ := Position.one_le_of_in inside
        obtain ⟨before, after, whole, rfl⟩ := inside
        exact .inr ⟨problem, before, after, whole, stage, line, column, rfl⟩
  · intro i written
    exact Writer.instruction_of_writable (writable_writtenFor positive i written)

/-- The name of an undeclared variable is blamed, and not what follows it. -/
theorem only_placed_problems_escape_at_name :
    let source : Source := .text "class A \x7b\n function int f() \x7b return x; \x7d \x7d"
    (0 : Int) < 7 ∧ ShortNumerals source.characters ∧
      ∃ problem before after, source.characters = before ++ after ∧
        Position.behind before = ⟨2, 28⟩ ∧
        compileText source none true 7 =
          .error (.diagnosed (.atPosition problem (.behind before) none)) := by
  intro source
  have short : ShortNumerals source.characters := fun run inside _ =>
    inside.length_le.trans (by decide +kernel)
  refine ⟨by decide, short, ?_⟩
  have fails : compileText source none true 7 =
      .error (.diagnosed (.atPosition (.undefinedVariable "x") ⟨2, 28⟩ none)) := by
    decide +kernel
  obtain ⟨⟨text, compiled⟩ | ⟨problem, before, after, whole, -, -, -, found⟩, -⟩ :=
    only_placed_problems_escape source none true 7 (by decide) short
  · cases compiled.symm.trans fails
  · obtain ⟨-, line, column, -⟩ :=
      Diagnostic.mk.inj (Failure.diagnosed.inj (Except.error.inj (found.symm.trans fails)))
    refine ⟨problem, before, after, whole, ?_, found⟩
    rw [Position.mk.injEq]
    exact ⟨Option.some.inj line, Option.some.inj column⟩

end Compile

end Jack
