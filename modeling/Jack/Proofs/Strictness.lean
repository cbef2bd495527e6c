import Jack.Proofs.Delivery
import Jack.Proofs.Diagnosing

/-! # Strict mode

A strict scope refuses to declare a name again, and that is all. So a strict run and one that is not
strict do the same until a name is declared that its table has already, and there the strict run
ends. Where that is can be told from what the other run declares: its history has all declarations
in the order of their identifiers, and where subroutines start.
-/

namespace Jack

/-! ### Histories -/

/-- What a run does about the names of variables. -/
inductive Mark where
  /-- A subroutine starts. -/
  | subroutine
  /-- The identifier at a position is declared for a variable of a kind. -/
  | declares (kind : VariableKind) (name : String) (position : Position)
  deriving Repr, DecidableEq

/-- The names that are declared at each level. -/
abbrev Names := Scope.Level → List String

namespace Mark

/-- The names that are declared behind a mark. A subroutine starts without any of its own. -/
def note (known : Names) : Mark → Names
  | .subroutine => Function.update known .subroutineLevel []
  | .declares kind name _ =>
    Function.update known (Scope.levelOf kind) (name :: known (Scope.levelOf kind))

/-- The identifier that is declared. -/
def identifier? : Mark → Option Token
  | .subroutine => none
  | .declares _ name position => some ⟨.identifier name, position⟩

/-- The first identifier that is declared again in one table, with its position. -/
def firstRepeated? (known : Names) : List Mark → Option (String × Position)
  | [] => none
  | .subroutine :: later => firstRepeated? (note known .subroutine) later
  | .declares kind name position :: later =>
    if name ∈ known (Scope.levelOf kind) then some (name, position)
    else firstRepeated? (note known (.declares kind name position)) later

/-- Two declarations of a name in one table, of which the second one stands at a position: no
subroutine starts between them if the table is that of a subroutine. -/
def Twice (name : String) (position : Position) (history : List Mark) : Prop :=
  ∃ before kind first between kind' after,
    history = before ++ .declares kind name first ::
      (between ++ .declares kind' name position :: after) ∧
    Scope.levelOf kind = Scope.levelOf kind' ∧
    (Scope.levelOf kind' = .subroutineLevel → .subroutine ∉ between)

theorem exists_of_firstRepeated? {known : Names} {history : List Mark} {name : String}
    {position : Position} (h : firstRepeated? known history = some (name, position)) :
    ∃ before kind after, history = before ++ .declares kind name position :: after ∧
      ((name ∈ known (Scope.levelOf kind) ∧
          (Scope.levelOf kind = .subroutineLevel → .subroutine ∉ before)) ∨
        ∃ earlier kind' first between, before = earlier ++ .declares kind' name first :: between ∧
          Scope.levelOf kind' = Scope.levelOf kind ∧
          (Scope.levelOf kind = .subroutineLevel → .subroutine ∉ between)) := by
  induction history generalizing known with
  | nil => cases h
  | cons mark later ih =>
      cases mark with
      | subroutine =>
          obtain ⟨before, kind, after, rfl, known | ⟨earlier, kind', first, between, rfl, found⟩⟩ :=
            ih h
          · refine ⟨.subroutine :: before, kind, after, rfl, .inl ?_⟩
            by_cases own : Scope.levelOf kind = .subroutineLevel
            · rw [own, note, Function.update_self] at known
              cases known.1
            · rw [note, Function.update_of_ne own] at known
              exact ⟨known.1, fun own' => absurd own' own⟩
          · exact ⟨_, kind, after, rfl, .inr ⟨.subroutine :: earlier, kind', first, between, rfl,
              found⟩⟩
      | declares kind₀ name₀ position₀ =>
          rw [firstRepeated?] at h
          split at h
          · next declared =>
            cases h
            exact ⟨[], kind₀, later, rfl, .inl ⟨declared, by simp⟩⟩
          · obtain ⟨before, kind, after, rfl,
              known | ⟨earlier, kind', first, between, rfl, found⟩⟩ := ih h
            · refine ⟨.declares kind₀ name₀ position₀ :: before, kind, after, rfl, ?_⟩
              have behind (own : Scope.levelOf kind = .subroutineLevel) :
                  .subroutine ∉ .declares kind₀ name₀ position₀ :: before := by
                simpa using known.2 own
              by_cases same : Scope.levelOf kind = Scope.levelOf kind₀
              · rw [note, same, Function.update_self, ← same] at known
                obtain rfl | declared := List.mem_cons.mp known.1
                · exact .inr ⟨[], kind₀, position₀, before, rfl, same.symm, known.2⟩
                · exact .inl ⟨declared, behind⟩
              · rw [note, Function.update_of_ne same] at known
                exact .inl ⟨known.1, behind⟩
            · exact ⟨_, kind, after, rfl, .inr ⟨_ :: earlier, kind', first, between, rfl, found⟩⟩

/-- Where a name is declared again, its first declaration is one in the same table. -/
theorem twice_of_firstRepeated? {history : List Mark} {name : String} {position : Position}
    (h : firstRepeated? (fun _ => []) history = some (name, position)) :
    Twice name position history := by
  obtain ⟨before, kind, after, rfl, ⟨declared, -⟩ | ⟨earlier, kind', first, between, rfl, found⟩⟩ :=
    exists_of_firstRepeated? h
  · cases declared
  · exact ⟨earlier, kind', first, between, kind, after, by simp, found⟩

end Mark

/-- What a goal in front of a token does about the names of variables. -/
def Goal.mark? (t : Token) : Goal → Option Mark
  | .declare name position _ kind => some (.declares kind name position)
  | .subroutines | .subroutine => (subroutineAfter? t).map fun _ => .subroutine
  | _ => none

/-- The marks of the goals that are reached, in order. -/
def Engine.history (goals : List Goal) (e : Engine) : List Mark :=
  match goals with
  | [] => []
  | goal :: rest =>
    match _h : (e.reaction goal).move with
    | .pop =>
      (goal.mark? e.cursor.current).toList ++ history rest (e.absorb (e.reaction goal))
    | .shift next =>
      match _hok : (e.absorb (e.reaction goal)).advance.1 with
      | .ok () =>
        (goal.mark? e.cursor.current).toList ++
          history (next ++ rest) (e.absorb (e.reaction goal)).advance.2
      | .error _ => []
    | .fail _ => []
  termination_by Goal.maxNext * e.cursor.size + goals.length
  decreasing_by
    · exact Nat.add_lt_add_left (Nat.lt_succ_self _) _
    · have fewer := size_advance_lt _h _hok
      have new := Goal.length_next_le _h
      simp only [Goal.maxNext, List.length_append, List.length_cons] at new ⊢
      omega

/-- The history of compiling a source that is not strict. -/
def historyOf (source : Source) (filename : Option String) (chunkSize : Int) : List Mark :=
  match Lexer.ofSource source chunkSize filename with
  | .error _ => []
  | .ok lexer =>
    match (Engine.ofLexer lexer false none).1 with
    | .error _ => []
    | .ok e => e.history [.classDeclaration]

namespace Engine

section History

variable {goal : Goal} {rest next : List Goal} {e : Engine}

theorem history_of_pop (h : (e.reaction goal).move = .pop) :
    e.history (goal :: rest) =
      (goal.mark? e.cursor.current).toList ++ (e.absorb (e.reaction goal)).history rest := by
  rw [history]
  split
  · rfl
  · next found => cases h.symm.trans found
  · next found => cases h.symm.trans found

theorem history_of_shift (h : (e.reaction goal).move = .shift next)
    (passed : (e.absorb (e.reaction goal)).advance.1 = .ok ()) :
    e.history (goal :: rest) =
      (goal.mark? e.cursor.current).toList ++
        (e.absorb (e.reaction goal)).advance.2.history (next ++ rest) := by
  rw [history]
  split
  · next found => cases h.symm.trans found
  · next found =>
    cases h.symm.trans found
    split
    · rfl
    · next failed => cases passed.symm.trans failed
  · next found => cases h.symm.trans found

theorem history_of_stop {failure : Failure} (h : (e.reaction goal).move = .shift next)
    (failed : (e.absorb (e.reaction goal)).advance.1 = .error failure) :
    e.history (goal :: rest) = [] := by
  rw [history]
  split
  · next found => cases h.symm.trans found
  · next found =>
    cases h.symm.trans found
    split
    · next passed => cases failed.symm.trans passed
    · rfl
  · rfl

theorem history_of_fail {fault : Fault} (h : (e.reaction goal).move = .fail fault) :
    e.history (goal :: rest) = [] := by
  rw [history]
  split
  · next found => cases h.symm.trans found
  · next found => cases h.symm.trans found
  · rfl

end History

end Engine

/-! ### Tables -/

/-- Whether the tables of a scope have names, and no others but that of the object of a method. -/
def Scope.Declares (s : Scope) (known : Names) : Prop :=
  ∀ level name, name ≠ "this" → ((s.table level).contains name = true ↔ name ∈ known level)

section Declares

variable {known : Names} {s : Scope} {goal : Goal} {t : Token}

/-- Goals without a mark leave the tables alone, but for the object of a method. -/
theorem Goal.table_react (unmarked : goal.mark? t = none) (enters : goal.enters = false)
    (moved : ∀ fault, (goal.react t s).move ≠ .fail fault) :
    (goal.react t s).scope.table = s.table := by
  cases notes : goal.notes with
  | false =>
      obtain ⟨branches, loops, same⟩ := Goal.counts_react notes t s
      rw [same]
      rfl
  | true =>
      cases goal
      case enterClass => rfl
      case declare => cases unmarked
      case enterSubroutine => cases enters
      case subroutines | subroutine =>
        have none : subroutineAfter? t = none := Option.map_eq_none_iff.mp unmarked
        simp only [react, none] at moved ⊢
        first | rfl | exact absurd rfl (moved _)
      all_goals cases notes

theorem Scope.Declares.define (h : s.Declares known) (name type : String) (position : Position)
    (kind : VariableKind) :
    (s.define (levelOf kind) name type kind).Declares
      (Mark.note known (.declares kind name position)) := by
  intro level other free
  have before := h level other free
  by_cases same : level = levelOf kind
  · subst same
    rw [Mark.note, Function.update_self, List.mem_cons, ← before, Scope.define, table_setTable,
      SymbolTable.contains, SymbolTable.contains, SymbolTable.lookup?_define]
    by_cases found : name = other
    · simp [found]
    · simp [found, Ne.symm found]
  · rw [Mark.note, Function.update_of_ne same, ← before, Scope.define,
      table_setTable_of_ne same]

theorem Scope.Declares.leave (h : s.Declares known) :
    s.leaveSubroutine.Declares (Mark.note known .subroutine) := by
  intro level other free
  cases level with
  | classLevel => exact h .classLevel other free
  | subroutineLevel =>
      rw [Mark.note, Function.update_self]
      simp [Scope.table, Scope.leaveSubroutine, SymbolTable.contains, SymbolTable.lookup?,
        SymbolTable.empty]

/-- Entering a subroutine declares nothing but the object of a method. -/
theorem Scope.Declares.enter (h : s.Declares known) (name : String) (kind : SubroutineKind) :
    (s.enterSubroutine name kind).Declares known := by
  intro level other free
  rw [← h level other free]
  cases kind with
  | constructor | function => rfl
  | method =>
      cases level with
      | classLevel => rfl
      | subroutineLevel =>
          simp [Scope.enterSubroutine, Scope.define, Scope.table, Scope.setTable,
            SymbolTable.contains, SymbolTable.lookup?_define, Ne.symm free]

/-- What a goal does to the tables is what its mark says. -/
theorem Scope.Declares.react (h : s.Declares known)
    (moved : ∀ fault, (goal.react t s).move ≠ .fail fault) :
    (goal.react t s).scope.Declares ((goal.mark? t).toList.foldl Mark.note known) := by
  cases marked : goal.mark? t with
  | none =>
      by_cases enters : goal.enters = true
      · cases goal
        case enterSubroutine name kind => exact h.enter name kind
        all_goals cases enters
      · have same := Goal.table_react marked (Bool.eq_false_of_not_eq_true enters) moved
        unfold Scope.Declares
        rw [same]
        exact h
  | some mark =>
      cases goal
      case declare name position type kind =>
        cases marked
        by_cases refused : s.refuses (levelOf kind) name = true
        · rw [Goal.react_of_refused refused] at moved
          exact absurd rfl (moved _)
        · rw [Goal.react, Goal.reactDeclare, if_neg refused]
          exact h.define name type position kind
      case subroutines | subroutine =>
        obtain ⟨next, found, rfl⟩ := Option.map_eq_some_iff.mp marked
        simp only [Goal.react, found]
        exact h.leave
      all_goals cases marked

end Declares

theorem Scope.Turns.strict {s s' : Scope} (h : s.Turns s') : s'.strict = s.strict := by
  cases h with
  | declares level => exact strict_setTable ..
  | enters name kind => cases kind <;> rfl
  | _ => rfl

theorem Diagnostic.atPosition_inj {problem problem' : Problem} {position position' : Position}
    {filename filename' : Option String}
    (h : atPosition problem position filename = atPosition problem' position' filename') :
    problem = problem' ∧ position = position' := by
  obtain ⟨same, line, column, -⟩ := Diagnostic.mk.inj h
  refine ⟨same, ?_⟩
  rw [Position.mk.injEq]
  exact ⟨Option.some.inj line, Option.some.inj column⟩

theorem Reader.Rejects.ne_redefined {r : Reader} {fault : Fault} (h : r.Rejects fault)
    {filename other : Option String} {name : String} {position : Position} :
    Failure.ofFault filename fault ≠
      .diagnosed (.atPosition (.redefinedVariable name) position other) := by
  intro same
  cases h.stage_eq same.symm

/-! ### Runs in lockstep -/

namespace Engine

/-- The same engine in a scope that is not strict. -/
def lax (e : Engine) : Engine :=
  { e with scope := e.scope.lax }

/-- The code that is written until goals are reached, or the failure of one. -/
def outcome (goals : List Goal) (e : Engine) : Except Failure (List Code) :=
  (e.run goals).1.map fun _ => (e.run goals).2.code

variable {filename : Option String} {start : Reader} {goal : Goal} {goals rest next : List Goal}
  {e : Engine} {known : Names}

theorem outcome_of_pop (h : (e.reaction goal).move = .pop) :
    e.outcome (goal :: rest) = (e.absorb (e.reaction goal)).outcome rest := by
  rw [outcome, run_of_pop h, outcome]

theorem outcome_of_shift (h : (e.reaction goal).move = .shift next)
    (passed : (e.absorb (e.reaction goal)).advance.1 = .ok ()) :
    e.outcome (goal :: rest) =
      (e.absorb (e.reaction goal)).advance.2.outcome (next ++ rest) := by
  rw [outcome, run_of_shift h passed, outcome]

theorem outcome_of_stop {failure : Failure} (h : (e.reaction goal).move = .shift next)
    (failed : (e.absorb (e.reaction goal)).advance.1 = .error failure) :
    e.outcome (goal :: rest) = .error failure := by
  rw [outcome, run_of_stop h failed]
  rfl

theorem outcome_of_fail {fault : Fault} (h : (e.reaction goal).move = .fail fault) :
    e.outcome (goal :: rest) = .error (.ofFault e.filename fault) := by
  rw [outcome, run_of_fail h]
  rfl

theorem lax_reaction (accepted : ¬ goal.Refused e.scope) :
    e.lax.reaction goal = (e.reaction goal).lax :=
  Goal.react_lax accepted _

theorem lax_move (accepted : ¬ goal.Refused e.scope) :
    (e.lax.reaction goal).move = (e.reaction goal).move := by
  rw [lax_reaction accepted]
  rfl

theorem lax_absorb (accepted : ¬ goal.Refused e.scope) :
    e.lax.absorb (e.lax.reaction goal) = (e.absorb (e.reaction goal)).lax := by
  rw [lax_reaction accepted]
  rfl

theorem lax_advance (accepted : ¬ goal.Refused e.scope) :
    (e.lax.absorb (e.lax.reaction goal)).advance.1 = (e.absorb (e.reaction goal)).advance.1 := by
  rw [lax_absorb accepted]
  rfl

theorem accepted_of_move (moved : ∀ fault, (e.reaction goal).move ≠ .fail fault) :
    ¬ goal.Refused e.scope := by
  intro refused
  cases goal
  case declare name position type kind =>
    rw [reaction, Goal.react_of_refused refused] at moved
    exact moved _ rfl
  all_goals exact refused.elim

theorem strict_reaction : (e.reaction goal).scope.strict = e.scope.strict :=
  (Goal.turns_react goal _ _).strict

/-- The name of a declaration is an identifier of the source, which the object of a method is not
called by. -/
theorem Sound.ne_this {name type : String} {position : Position} {kind : VariableKind}
    (h : e.Sound filename start (.declare name position type kind :: rest)) : name ≠ "this" := by
  obtain ⟨row, left, finds, inside⟩ := h.first _ rfl _ rfl
  rintro rfl
  exact (finds.proper _ inside rfl).2 .thisWord rfl

/-- A strict scope refuses the names that are declared. -/
theorem Sound.refused_iff {name type : String} {position : Position} {kind : VariableKind}
    (h : e.Sound filename start (.declare name position type kind :: rest))
    (declares : e.scope.Declares known) (strict : e.scope.strict = true) :
    e.scope.refuses (Scope.levelOf kind) name = true ↔ name ∈ known (Scope.levelOf kind) := by
  rw [← declares _ _ h.ne_this, Scope.refuses, strict, Bool.true_and]

theorem Sound.fresh (h : e.Sound filename start (goal :: rest)) (declares : e.scope.Declares known)
    (strict : e.scope.strict = true) (accepted : ¬ goal.Refused e.scope) (later : List Mark) :
    Mark.firstRepeated? known ((goal.mark? e.cursor.current).toList ++ later) =
      Mark.firstRepeated? ((goal.mark? e.cursor.current).toList.foldl Mark.note known) later := by
  cases marked : goal.mark? e.cursor.current with
  | none => rfl
  | some mark =>
      cases mark with
      | subroutine => rfl
      | declares kind name position =>
          cases goal
          case declare name position type kind =>
            cases marked
            exact if_neg fun declared => accepted ((h.refused_iff declares strict).mpr declared)
          case subroutines | subroutine =>
            obtain ⟨next, -, other⟩ := Option.map_eq_some_iff.mp marked
            cases other
          all_goals cases marked

/-- A strict run comes to what the other one comes to, unless that declares a name again. -/
theorem outcome_of_strict (h : e.Sound filename start goals) (declares : e.scope.Declares known)
    (strict : e.scope.strict = true) :
    e.outcome goals =
      (Mark.firstRepeated? known (e.lax.history goals)).elim (e.lax.outcome goals) fun first =>
        .error (.diagnosed (.atPosition (.redefinedVariable first.1) first.2 filename)) := by
  induction goals, e using run.induct generalizing known with
  | case1 e =>
      rw [history, Mark.firstRepeated?, outcome, outcome, run, run]
      rfl
  | case2 e goal rest moved ih =>
      have goes : ∀ fault, (e.reaction goal).move ≠ .fail fault := by simp [moved]
      have accepted := accepted_of_move goes
      have moved' := (lax_move accepted).trans moved
      rw [outcome_of_pop moved, outcome_of_pop moved', history_of_pop moved', lax_absorb accepted,
        ih h.pop (declares.react goes) (strict_reaction.trans strict)]
      rw [← h.fresh declares strict accepted]
      rfl
  | case3 e goal rest next moved passed ih =>
      have goes : ∀ fault, (e.reaction goal).move ≠ .fail fault := by simp [moved]
      have accepted := accepted_of_move goes
      have moved' := (lax_move accepted).trans moved
      have passed' := (lax_advance accepted).trans passed
      rw [outcome_of_shift moved passed, outcome_of_shift moved' passed',
        history_of_shift moved' passed', lax_absorb accepted,
        ih (h.shift moved passed) (declares.react goes) (strict_reaction.trans strict)]
      rw [← h.fresh declares strict accepted]
      rfl
  | case4 e goal rest next moved failure failed =>
      have goes : ∀ fault, (e.reaction goal).move ≠ .fail fault := by simp [moved]
      have accepted := accepted_of_move goes
      have moved' := (lax_move accepted).trans moved
      have failed' := (lax_advance accepted).trans failed
      rw [outcome_of_stop moved failed, outcome_of_stop moved' failed',
        history_of_stop moved' failed', Mark.firstRepeated?]
      rfl
  | case5 e goal rest fault moved =>
      by_cases refused : goal.Refused e.scope
      · -- The runs part here: the strict one ends, and the other one declares the name again.
        cases goal
        case declare name position type kind =>
          have declared := (h.refused_iff declares strict).mp refused
          have moved' : (e.lax.reaction (.declare name position type kind)).move = .pop := by
            have lax : e.lax.scope.refuses (Scope.levelOf kind) name = false := rfl
            rw [reaction, Goal.react, Goal.reactDeclare, lax]
            rfl
          rw [outcome_of_fail moved, history_of_pop moved']
          rw [reaction, Goal.react_of_refused refused] at moved
          cases moved
          simp only [Goal.mark?, Option.toList_some, List.singleton_append, Mark.firstRepeated?,
            if_pos declared, h.named]
          rfl
        all_goals exact refused.elim
      · have moved' := (lax_move refused).trans moved
        rw [outcome_of_fail moved, outcome_of_fail moved', history_of_fail moved',
          Mark.firstRepeated?]
        rfl

/-- A goal that fails in a scope that is not strict refuses no name. -/
theorem Sound.outcome_ne (h : e.Sound filename start goals) (lax : e.scope.strict = false)
    (name : String) (position : Position) (other : Option String) :
    e.outcome goals ≠
      .error (.diagnosed (.atPosition (.redefinedVariable name) position other)) := by
  induction goals, e using run.induct with
  | case1 e =>
      rw [outcome, Engine.run]
      intro same
      cases same
  | case2 e goal rest moved ih =>
      rw [outcome_of_pop moved]
      exact ih h.pop (strict_reaction.trans lax)
  | case3 e goal rest next moved passed ih =>
      rw [outcome_of_shift moved passed]
      exact ih (h.shift moved passed) (strict_reaction.trans lax)
  | case4 e goal rest next moved failure failed =>
      obtain ⟨before, found⟩ := h.passed
      obtain ⟨_, fault, _, -, read, rfl⟩ := found.fault (Goal.isEnd_of_react_shift moved) failed
      rw [outcome_of_stop moved failed]
      intro same
      exact (Reader.rejects_of_nextToken read).ne_redefined (Except.error.inj same)
  | case5 e goal rest fault moved =>
      rw [outcome_of_fail moved]
      intro same
      have same := Except.error.inj same
      cases (Goal.sound_react goal _ _).blames fault moved with
      | expected | undefined => cases same
      | redefined refused =>
          rw [Scope.refuses, lax] at refused
          cases refused
      | outside => cases same

/-- The identifier that the goal in front was given. -/
def given (goals : List Goal) : List Token :=
  (goals.head?.bind Goal.name?).toList.map fun named => ⟨.identifier named.1, named.2⟩

/-- Only the goal in front is given one. -/
theorem Sound.given_rest (h : e.Sound filename start (goal :: rest)) : given rest = [] := by
  cases rest with
  | nil => rfl
  | cons g rest => simp [given, h.others g (List.mem_cons_self ..)]

theorem sublist_given (goal : Goal) (rest : List Goal) (t : Token) :
    ((goal.mark? t).toList.filterMap Mark.identifier?).Sublist (given (goal :: rest)) := by
  cases goal
  case declare => exact .refl _
  case subroutines | subroutine =>
    simp only [Goal.mark?]
    cases Goal.subroutineAfter? t <;> exact List.nil_sublist _
  all_goals exact List.nil_sublist _

/-- What is declared are identifiers of the source, in their order. -/
theorem Sound.exists_row (h : e.Sound filename start goals) {before : List Token}
    (found : e.cursor.Passed filename start before) :
    ∃ row rest, start.Finds (before ++ row) rest ∧
      ((e.history goals).filterMap Mark.identifier?).Sublist (given goals ++ row) := by
  have here {e : Engine} {before : List Token} (found : e.cursor.Passed filename start before) :
      ∃ rest, start.Finds (before ++ [e.cursor.current]) rest := by
    obtain ⟨rest, finds, -⟩ := found
    exact ⟨rest, finds⟩
  induction goals, e using run.induct generalizing before with
  | case1 e =>
      obtain ⟨rest, finds⟩ := here found
      exact ⟨_, rest, finds, by simp [history]⟩
  | case2 e goal rest moved ih =>
      obtain ⟨row, left, finds, sublist⟩ := ih h.pop found
      refine ⟨row, left, finds, ?_⟩
      rw [h.given_rest] at sublist
      rw [history_of_pop moved, List.filterMap_append]
      exact (sublist_given goal rest _).append sublist
  | case3 e goal rest next moved passed ih =>
      obtain ⟨row, left, finds, sublist⟩ :=
        ih (h.shift moved passed) (found.advance (Goal.isEnd_of_react_shift moved) passed)
      refine ⟨e.cursor.current :: row, left, by simpa using finds, ?_⟩
      rw [history_of_shift moved passed, List.filterMap_append]
      refine (sublist_given goal rest _).append (sublist.trans ?_)
      -- The token that was passed is given to the goal in front, if to any.
      have first := ((Goal.sound_react goal _ _).follow next moved).first
      have few : (given (next ++ rest)).Sublist [e.cursor.current] := by
        cases next with
        | nil =>
            rw [List.nil_append, h.given_rest]
            exact List.nil_sublist _
        | cons g next =>
            cases named : g.name? with
            | none => simp [given, named]
            | some name =>
                obtain ⟨word, place⟩ := first g rfl name named
                have same : (⟨.identifier name.1, name.2⟩ : Token) = e.cursor.current := by
                  rw [← word, place]
                simp [given, named, same]
      exact few.append (.refl row)
  | case4 e goal rest next moved failure failed =>
      obtain ⟨left, finds⟩ := here found
      exact ⟨_, left, finds, by simp [history_of_stop moved failed]⟩
  | case5 e goal rest fault moved =>
      obtain ⟨left, finds⟩ := here found
      exact ⟨_, left, finds, by simp [history_of_fail moved]⟩

end Engine

/-! ### Compiling a source -/

section Compile

variable {source : Source} {chunkSize : Int} {filename : Option String} {strict : Bool}

theorem compileSource_eq_outcome (positive : 0 < chunkSize) :
    compileSource source filename strict chunkSize =
      let stream := TokenStream.readFrom filename [] (.ofSource chunkSize.toNat source)
      match stream.next.1.outcome with
      | .error failure => .error failure
      | .ok t => (Engine.atStart stream t strict filename).outcome [.classDeclaration] := by
  rw [compileSource_of_pos positive]
  dsimp only
  cases (TokenStream.readFrom filename [] (.ofSource chunkSize.toNat source)).next.1.outcome with
  | error failure => rfl
  | ok t =>
      dsimp only [Engine.outcome]
      split
      · next ran => rw [ran]; rfl
      · next ran => rw [ran]; rfl

theorem historyOf_of_pos (positive : 0 < chunkSize) :
    historyOf source filename chunkSize =
      let stream := TokenStream.readFrom filename [] (.ofSource chunkSize.toNat source)
      match stream.next.1.outcome with
      | .error _ => []
      | .ok t => (Engine.atStart stream t false filename).history [.classDeclaration] := by
  rw [historyOf, Lexer.ofSource_of_pos positive]
  simp only [Engine.ofLexer, Engine.ofStream, TokenStream.ofLexer, Option.map_none,
    Option.toList_none, Option.none_or]
  cases (TokenStream.readFrom filename [] (.ofSource chunkSize.toNat source)).next.1.outcome <;> rfl

theorem historyOf_of_not_pos (small : ¬ 0 < chunkSize) :
    historyOf source filename chunkSize = [] := by
  rw [historyOf, Lexer.ofSource, if_pos (by omega)]

theorem compileSource_of_strict :
    compileSource source filename true chunkSize =
      (Mark.firstRepeated? (fun _ => []) (historyOf source filename chunkSize)).elim
        (compileSource source filename false chunkSize) fun first =>
          .error (.diagnosed (.atPosition (.redefinedVariable first.1) first.2 filename)) := by
  by_cases positive : 0 < chunkSize
  · rw [compileSource_eq_outcome positive, compileSource_eq_outcome positive,
      historyOf_of_pos positive]
    dsimp only
    cases found : (TokenStream.readFrom filename []
      (.ofSource chunkSize.toNat source)).next.1.outcome with
    | error failure => rfl
    | ok t =>
        have empty : (Scope.initial true).Declares fun _ => [] := by
          intro level name free
          cases level <;> simp [Scope.initial, Scope.table, SymbolTable.contains,
            SymbolTable.lookup?, SymbolTable.empty]
        have sound : (Engine.atStart _ t true filename).Sound filename _ [.classDeclaration] :=
          Engine.sound_atStart (Engine.passed_atStart found)
        exact Engine.outcome_of_strict sound empty rfl
  · rw [historyOf_of_not_pos positive, compileSource_of_not_pos positive,
      compileSource_of_not_pos positive]
    rfl

theorem compileSource_ne_redefined (name : String) (position : Position) (other : Option String) :
    compileSource source filename false chunkSize ≠
      .error (.diagnosed (.atPosition (.redefinedVariable name) position other)) := by
  by_cases positive : 0 < chunkSize
  · rw [compileSource_eq_outcome positive]
    dsimp only
    split
    · next failed =>
      obtain ⟨fault, after, read, rfl⟩ := TokenStream.fault_of_next failed
      intro same
      exact (Reader.rejects_of_nextToken read).ne_redefined (Except.error.inj same)
    · next found =>
      exact (Engine.sound_atStart (Engine.passed_atStart found)).outcome_ne rfl name position other
  · rw [compileSource_of_not_pos positive]
    intro same
    cases same

theorem exists_row_of_historyOf :
    ∃ row rest, (Reader.ofSource chunkSize.toNat source).Finds row rest ∧
      ((historyOf source filename chunkSize).filterMap Mark.identifier?).Sublist row := by
  have none : ∃ row rest, (Reader.ofSource chunkSize.toNat source).Finds row rest ∧
      ([] : List Token).Sublist row := ⟨[], _, .nothing (.refl _), .slnil⟩
  by_cases positive : 0 < chunkSize
  · rw [historyOf_of_pos positive]
    dsimp only
    split
    · exact none
    · next t found =>
      have passed : (Engine.atStart _ t false filename).cursor.Passed filename _ [] :=
        Engine.passed_atStart found
      obtain ⟨row, rest, finds, sublist⟩ := (Engine.sound_atStart passed).exists_row passed
      exact ⟨row, rest, finds, sublist⟩
  · rw [historyOf_of_not_pos positive]
    exact none

end Compile

/-- A strict run ends like one that is not strict, unless that one declares a name that its table
has. Then, and only then, the strict run fails for the first such name: the identifiers of the
history are those of the source in their order, and a name counts for one table only, that of the
class or that of one subroutine. -/
theorem strictness_adds_one_error (source : Source) (filename : Option String) (chunkSize : Int) :
    let history := historyOf source filename chunkSize
    let repeated := Mark.firstRepeated? (fun _ => []) history
    (repeated = none →
      compileText source filename true chunkSize = compileText source filename false chunkSize) ∧
    (∀ name position, repeated = some (name, position) ↔
      compileText source filename true chunkSize =
        .error (.diagnosed (.atPosition (.redefinedVariable name) position filename))) ∧
    (∀ name, (Problem.redefinedVariable name).message =
      "Variable '" ++ name ++ "' is already defined in this scope") ∧
    (∀ name position other, compileText source filename false chunkSize ≠
      .error (.diagnosed (.atPosition (.redefinedVariable name) position other))) ∧
    (∀ name position, repeated = some (name, position) → Mark.Twice name position history) ∧
    ∃ row rest, (Reader.ofSource chunkSize.toNat source).Finds row rest ∧
      (history.filterMap Mark.identifier?).Sublist row := by
  intro history repeated
  have strictly : compileSource source filename true chunkSize =
      repeated.elim (compileSource source filename false chunkSize) fun first =>
        .error (.diagnosed (.atPosition (.redefinedVariable first.1) first.2 filename)) :=
    compileSource_of_strict
  have never (name : String) (position : Position) (other : Option String) :
      compileText source filename false chunkSize ≠
        .error (.diagnosed (.atPosition (.redefinedVariable name) position other)) := by
    rw [ne_eq, compileText_eq_error_iff]
    exact compileSource_ne_redefined name position other
  refine ⟨fun none => ?_, fun name position => ?_, fun _ => rfl, never,
    fun _ _ => Mark.twice_of_firstRepeated?, exists_row_of_historyOf⟩
  · rw [compileText, strictly, none]
    rfl
  · rw [compileText_eq_error_iff, strictly]
    cases found : repeated with
    | none =>
        refine iff_of_false (by simp) fun same => ?_
        exact never name position filename (compileText_eq_error_iff.mpr same)
    | some first =>
        constructor
        · rintro ⟨⟩
          rfl
        · intro same
          obtain ⟨same, rfl⟩ :=
            Diagnostic.atPosition_inj (Failure.diagnosed.inj (Except.error.inj same))
          cases same
          rfl

/-- A parameter may have the name of a field, but not that of another parameter. -/
theorem strictness_adds_one_error_at_parameter :
    let source : Source :=
      .text "class A\x7bfield int x;function int f(int x,int x)\x7breturn x;\x7d\x7d"
    historyOf source none 8 =
        [.declares .field "x" ⟨1, 19⟩, .subroutine, .declares .argument "x" ⟨1, 40⟩,
          .declares .argument "x" ⟨1, 46⟩] ∧
      compileText source none true 8 =
        .error (.diagnosed (.atPosition (.redefinedVariable "x") ⟨1, 46⟩ none)) := by
  intro source
  have history : historyOf source none 8 =
      [.declares .field "x" ⟨1, 19⟩, .subroutine, .declares .argument "x" ⟨1, 40⟩,
        .declares .argument "x" ⟨1, 46⟩] := by
    decide +kernel
  obtain ⟨-, rejected, -⟩ := strictness_adds_one_error source none 8
  refine ⟨history, (rejected "x" ⟨1, 46⟩).mp ?_⟩
  rw [history]
  decide +kernel

end Jack
