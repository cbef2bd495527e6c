import Jack.Proofs.Prefixes

/-! # Where syntax errors are reported

An engine keeps to the shapes of its goals: they let the tokens pass that it has passed, and do
with the token in front what its goals do. So when it expects another token, the tokens passed
start a class, and with the token in front no class goes on from them.
-/

namespace Jack

namespace Engine

/-- An engine that has passed some tokens of a source. The shapes let them pass as well, and the
goals that are left go on like a class behind these tokens. -/
structure Along (filename : Option String) (start : Reader) (before : List Token)
    (goals : List Goal) (e : Engine) : Prop where
  named : e.filename = filename
  passed : e.cursor.Passed filename start before
  more : ∀ t ∈ before, t.isEnd = false
  viable : (Goal.passAll [.classDeclaration] (before.map Token.lexeme)).isSome
  follows : ∀ row, Goal.passAll [.classDeclaration]
      (before.map Token.lexeme ++ e.cursor.current.lexeme :: row) =
    Goal.passAll (goals.map Goal.shape) (e.cursor.current.lexeme :: row)

variable {filename : Option String} {start : Reader} {before : List Token} {goal : Goal}
  {rest : List Goal} {e : Engine}

theorem Along.pop (h : e.Along filename start before (goal :: rest))
    (moved : (e.reaction goal).move = .pop) :
    (e.absorb (e.reaction goal)).Along filename start before rest where
  named := h.named
  passed := h.passed
  more := h.more
  viable := h.viable
  follows row := (h.follows row).trans (Goal.passAll_of_stay (Goal.outcome_of_pop moved))

theorem Along.shift {next : List Goal} (h : e.Along filename start before (goal :: rest))
    (moved : (e.reaction goal).move = .shift next)
    (passed : (e.absorb (e.reaction goal)).advance.1 = .ok ()) :
    (e.absorb (e.reaction goal)).advance.2.Along filename start (before ++ [e.cursor.current])
      (next ++ rest) := by
  have more := Goal.isEnd_of_react_shift moved
  have follows (row : List Lexeme) : Goal.passAll [.classDeclaration]
      ((before ++ [e.cursor.current]).map Token.lexeme ++ row) =
        Goal.passAll ((next ++ rest).map Goal.shape) row := by
    have same := (h.follows row).trans (Goal.passAll_of_pass (Goal.outcome_of_shift moved))
    simpa using same
  refine ⟨h.named, h.passed.advance more passed, ?_, ?_, fun row => follows _⟩
  · exact List.forall_mem_append.mpr ⟨h.more, List.forall_mem_singleton.mpr more⟩
  · have same := follows []
    rw [List.append_nil] at same
    rw [same]
    rfl

theorem Along.steps {x y : List Goal × Engine} (h : x.2.Along filename start before x.1)
    (steps : Steps x y) : ∃ after, y.2.Along filename start after y.1 := by
  induction steps with
  | refl => exact ⟨before, h⟩
  | tail _ step ih =>
      obtain ⟨after, along⟩ := ih
      cases step with
      | pop moved => exact ⟨after, along.pop moved⟩
      | shift moved passed => exact ⟨_, along.shift moved passed⟩

theorem along_atStart {t : Token} {strict : Bool}
    (h : (atStart (.readFrom filename [] start) t strict filename).cursor.Passed filename start
      []) :
    (atStart (.readFrom filename [] start) t strict filename).Along filename start []
      [.classDeclaration] where
  named := rfl
  passed := h
  more := List.forall_mem_nil _
  viable := rfl
  follows _ := rfl

/-- A goal that blames the grammar expects another token than the one in front, which is not what
its shape lets pass. -/
theorem Fails.expected {d : Diagnostic} (fails : e.Fails goal (.diagnosed d))
    (h : e.Along filename start before (goal :: rest)) (stage : d.problem.stage = .grammatical) :
    let t := e.cursor.current
    goal.shape.outcome t.lexeme = none ∧
      ∃ what, d = .atPosition (.expected what t.described) t.position filename := by
  generalize same : Failure.diagnosed d = failure at fails
  cases fails with
  | @stuck fault moved =>
      rw [h.named] at same
      cases (Goal.sound_react goal _ _).blames fault moved with
      | expected known what =>
          cases same
          exact ⟨Goal.outcome_of_expected moved, what, rfl⟩
      | undefined | redefined =>
          cases same
          cases stage
      | outside => cases same
  | unread moved failed =>
      obtain ⟨rest, fault, after, -, read, rfl⟩ :=
        h.passed.fault (Goal.isEnd_of_react_shift moved) failed
      cases ((Reader.rejects_of_nextToken read).stage_eq same).symm.trans stage

end Engine

/-! ### Compiling a source -/

/-- The token that a syntax error of a source is reported at, and the tokens in front of it. -/
theorem exists_along_of_compileSource {source : Source} {filename : Option String} {strict : Bool}
    {chunkSize : Int} {d : Diagnostic} (positive : 0 < chunkSize)
    (h : compileSource source filename strict chunkSize = .error (.diagnosed d))
    (stage : d.problem.stage = .grammatical) :
    ∃ before goal rest e, Engine.Along filename (.ofSource chunkSize.toNat source) before
      (goal :: rest) e ∧ e.Fails goal (.diagnosed d) := by
  obtain ⟨fault, after, read, same⟩ | ⟨t, goal, rest, last, passed, steps, fails⟩ :=
    Engine.fails_of_compileSource positive h
  · cases ((Reader.rejects_of_nextToken read).stage_eq same).symm.trans stage
  · obtain ⟨before, along⟩ := (Engine.along_atStart passed).steps steps
    exact ⟨before, goal, rest, last, along, fails⟩

/-- A syntax error is reported at the first token that no class goes on with, and describes it. The
tokens in front start the row of some class; together with that token they start no class with the
end of its source behind it. -/
theorem syntax_errors_end_viable_prefixes (source : Source) (filename : Option String)
    (strict : Bool) (chunkSize : Int) (d : Diagnostic) (positive : 0 < chunkSize)
    (h : compileText source filename strict chunkSize = .error (.diagnosed d))
    (stage : d.problem.stage = .grammatical) :
    ∃ before t rest what, (Reader.ofSource chunkSize.toNat source).Finds (before ++ [t]) rest ∧
      (∀ t' ∈ before, t'.isEnd = false ∧ t'.position.Before t.position) ∧
      d = .atPosition (.expected what t.described) t.position filename ∧
      (∃ completion, (∀ l ∈ completion, l.Proper) ∧
        Derives (.category .classDec) (before.map Token.lexeme ++ completion)) ∧
      ∀ row, Derives (.category .classDec) row →
        ¬ (before ++ [t]).map Token.lexeme <+: row ++ [.endOfInput] := by
  obtain ⟨before, goal, rest, e, along, fails⟩ :=
    exists_along_of_compileSource positive (compileText_eq_error_iff.mp h) stage
  obtain ⟨outcome, what, same⟩ := fails.expected along stage
  obtain ⟨left, finds, -⟩ := along.passed
  obtain ⟨goals, viable⟩ := Option.isSome_iff_exists.mp along.viable
  have proper : ∀ l ∈ before.map Token.lexeme, l.Proper :=
    List.forall_mem_map.mpr fun t inside =>
      finds.proper t (List.mem_append_left _ inside) (along.more t inside)
  obtain ⟨completion, proper', c, whole⟩ := exists_class_of_passAll viable proper
  refine ⟨before, e.cursor.current, left, what, finds, fun t inside => ⟨along.more t inside, ?_⟩,
    same, ⟨completion, proper', Derives.classDec_iff.mpr ⟨c, whole⟩⟩, ?_⟩
  · exact (List.pairwise_append.mp finds.ordered).2.2 t inside _ (List.mem_singleton_self _)
  · intro row derived
    obtain ⟨c, rfl⟩ := Derives.classDec_iff.mp derived
    refine not_prefix_of_passAll ?_ c
    rw [List.map_append, List.map_singleton]
    exact (along.follows []).trans (Goal.passAll_of_none outcome)

/-- Behind a class nothing can stand, and another class is blamed by its first word. -/
theorem syntax_errors_end_viable_prefixes_behind_class :
    let source : Source := .text "class A \x7b\x7d\nclass B \x7b\x7d"
    let d : Diagnostic := .atPosition (.expected "end of input" "keyword 'class'") ⟨2, 1⟩ none
    (0 : Int) < 7 ∧ compileText source none false 7 = .error (.diagnosed d) ∧
      d.problem.stage = .grammatical ∧
      ∃ before t rest, (Reader.ofSource 7 source).Finds (before ++ [t]) rest ∧
        t.position = ⟨2, 1⟩ ∧ ∀ row, Derives (.category .classDec) row →
          ¬ (before ++ [t]).map Token.lexeme <+: row ++ [.endOfInput] := by
  intro source d
  have failed : compileText source none false 7 = .error (.diagnosed d) := by decide +kernel
  obtain ⟨before, t, rest, what, finds, -, same, -, ends⟩ :=
    syntax_errors_end_viable_prefixes source none false 7 d (by decide) failed rfl
  obtain ⟨-, line, column, -⟩ := Diagnostic.mk.inj same
  refine ⟨by decide, failed, rfl, before, t, rest, finds, ?_, ends⟩
  rw [Position.mk.injEq]
  exact ⟨(Option.some.inj line).symm, (Option.some.inj column).symm⟩

end Jack
