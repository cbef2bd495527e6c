import Jack.Proofs.Recognizing

/-! # Shapes of goals

Which goals are left when a token is passed depends on the token and on the goals alone: what is
known of the names, and the code that is written, has no part in it. The shapes of goals are a
pushdown automaton that lets pass every row that is a class followed by the end of its source,
whether or not the names of the class are declared.
-/

namespace Jack

open Jack.Tree

/-- A goal without names, places, numbers and code. -/
def Goal.shape : Goal → Goal
  | .enterClass _ => .enterClass ""
  | .variableName _ kind => .variableName "" kind
  | .moreVariables _ kind => .moreVariables "" kind
  | .declare _ _ _ kind => .declare "" .start "" kind
  | .enterSubroutine _ kind => .enterSubroutine "" kind
  | .assignment _ _ => .assignment "" .start
  | .elseBranch _ => .elseBranch 0
  | .afterName _ _ => .afterName "" .start
  | .callTail _ => .callTail ""
  | .methodName _ => .methodName ""
  | .qualifiedCall _ _ => .qualifiedCall "" ""
  | .arguments _ _ => .arguments "" 0
  | .moreArguments _ _ => .moreArguments "" 0
  | .moreExpressions _ => .moreExpressions 0
  | .emit _ => .emit []
  | goal => goal

@[simp] theorem Goal.shape_unplaced (goal : Goal) : goal.unplaced.shape = goal.shape := by
  cases goal <;> rfl

/-- A scope in which no shape of a goal fails for what is known. -/
def Scope.permissive : Scope :=
  { Scope.initial false with
    subroutineKind := some .function
    classTable := SymbolTable.empty.define "" "" .static }

theorem Scope.resolve?_permissive : Scope.permissive.resolve? "" = some ⟨"", "", .static, 0⟩ := rfl

theorem Scope.refuses_permissive (level : Scope.Level) (name : String) :
    Scope.permissive.refuses level name = false := rfl

/-- What a reaction does to the shapes of goals: nothing if it fails, and otherwise it may put
others in place of the one that passes the token. -/
def Reaction.outcome (r : Reaction) : Option (Option (List Goal)) :=
  match r.move with
  | .pop => some none
  | .shift next => some (some (next.map Goal.shape))
  | .fail _ => none

theorem Reaction.outcome_andThen (r : Reaction) (later : List Goal) :
    (r.andThen later).outcome = r.outcome.map (·.map (· ++ later.map Goal.shape)) := by
  unfold andThen
  cases hm : r.move <;> simp [outcome, hm]

theorem Reaction.outcome_of_effect? {r : Reaction} {e : Effect} (h : r.effect? = some e) :
    r.outcome = some (e.next.map (·.map Goal.shape)) := by
  unfold effect? at h
  unfold outcome
  split at h
  · cases h
    simp [*]
  · cases h
    simp [*]
  · cases h

/-- A reaction fails, but not because of the token in front. -/
def Reaction.Ignorant (r : Reaction) : Prop :=
  ∃ fault, r.move = .fail fault ∧ ∀ what actual p, fault ≠ .problem (.expected what actual) p

namespace Goal

/-- What the shape of a goal does with a lexeme in front. -/
def outcome (goal : Goal) (l : Lexeme) : Option (Option (List Goal)) :=
  (goal.react ⟨l, .start⟩ .permissive).outcome

theorem outcome_reactTerm (t : Token) (s s' : Scope) :
    (reactTerm t s).outcome = (reactTerm ⟨t.lexeme, .start⟩ s').outcome := by
  simp only [reactTerm]
  repeat' split
  all_goals rfl

theorem outcome_reactStatement? (t : Token) (s s' : Scope) :
    (reactStatement? t s).map Reaction.outcome =
      (reactStatement? ⟨t.lexeme, .start⟩ s').map Reaction.outcome := by
  simp only [reactStatement?, reactLet, reactIf, reactWhile, reactDo, reactReturn, reactWord]
  split
  all_goals next h => simp [h]; try rfl

/-- A goal does what its shape does, or fails for what is known and not for the token. -/
theorem outcome_react (goal : Goal) (t : Token) (s : Scope) :
    (goal.react t s).outcome = goal.shape.outcome t.lexeme ∨ (goal.react t s).Ignorant := by
  cases goal
  case statements =>
    have same := outcome_reactStatement? t s .permissive
    simp only [outcome, shape, react]
    left
    cases h : reactStatement? t s <;> cases h' : reactStatement? ⟨t.lexeme, .start⟩ .permissive <;>
      simp_all [Reaction.outcome_andThen]
    rfl
  case endOfInput =>
    left
    by_cases ended : t.lexeme = .endOfInput <;>
      simp [react, outcome, shape, Token.isEnd, ended, Reaction.unexpected, Reaction.fail,
        Reaction.pop, Reaction.outcome]
  case openBody =>
    simp only [react, reactOpenBody]
    split
    · exact .inr ⟨_, rfl, by simp⟩
    · exact .inl rfl
  case term => exact .inl (outcome_reactTerm t s .permissive)
  all_goals
    simp only [outcome, shape, react, reactWord, reactSymbol, reactName, reactType,
      classVariableAfter?, subroutineAfter?, reactDeclare, reactLet, reactIf, reactWhile, reactDo,
      reactReturn, reactExpression, reactOperators, reactCallTail, reactQualifiedCall,
      reactAfterName, reactAssignment, reactArguments, reactMoreArguments, withVariable,
      Scope.resolve?_permissive, Scope.refuses_permissive]
    repeat' split
    all_goals first
      | exact .inl rfl
      | exact .inr ⟨_, rfl, by simp⟩
      | simp_all [Reaction.outcome_andThen, outcome_reactTerm t s .permissive, shape]

theorem outcome_of_pop {goal : Goal} {t : Token} {s : Scope} (h : (goal.react t s).move = .pop) :
    goal.shape.outcome t.lexeme = some none := by
  obtain same | ⟨fault, failed, -⟩ := outcome_react goal t s
  · rw [← same, Reaction.outcome, h]
  · cases h.symm.trans failed

theorem outcome_of_shift {goal : Goal} {t : Token} {s : Scope} {next : List Goal}
    (h : (goal.react t s).move = .shift next) :
    goal.shape.outcome t.lexeme = some (some (next.map shape)) := by
  obtain same | ⟨fault, failed, -⟩ := outcome_react goal t s
  · rw [← same, Reaction.outcome, h]
  · cases h.symm.trans failed

theorem outcome_of_expected {goal : Goal} {t : Token} {s : Scope} {what actual : String}
    {p : Position} (h : (goal.react t s).move = .fail (.problem (.expected what actual) p)) :
    goal.shape.outcome t.lexeme = none := by
  obtain same | ⟨fault, failed, other⟩ := outcome_react goal t s
  · rw [← same, Reaction.outcome, h]
  · cases h.symm.trans failed
    exact absurd rfl (other what actual p)

theorem outcome_of_effect? {goal : Goal} {l : Lexeme} {s : Scope} {e : Effect}
    (h : goal.effect? l s = some e) :
    goal.shape.outcome l = some (e.next.map (·.map shape)) := by
  obtain same | ⟨fault, failed, -⟩ := outcome_react goal ⟨l, .start⟩ s
  · rw [← same, Reaction.outcome_of_effect? h]
  · rw [effect?, Reaction.effect?, failed] at h
    cases h

/-- The goals that are left when a lexeme is passed. Behind all goals nothing is but the end. -/
def pass (l : Lexeme) : List Goal → Option (List Goal)
  | [] => if l = .endOfInput then some [] else none
  | goal :: rest =>
    match goal.outcome l with
    | none => none
    | some none => pass l rest
    | some (some next) => some (next ++ rest)

/-- The goals that are left when a row of lexemes is passed. -/
def passAll (goals : List Goal) : List Lexeme → Option (List Goal)
  | [] => some goals
  | l :: row => (pass l goals).bind fun next => passAll next row

theorem passAll_append (goals : List Goal) (row later : List Lexeme) :
    passAll goals (row ++ later) = (passAll goals row).bind fun next => passAll next later := by
  induction row generalizing goals with
  | nil => rfl
  | cons l row ih =>
      rw [List.cons_append, passAll, passAll, Option.bind_assoc]
      simp only [ih]

section Pass

variable {goal : Goal} {rest next : List Goal} {l : Lexeme} {row : List Lexeme}

theorem passAll_of_stay (h : goal.outcome l = some none) :
    passAll (goal :: rest) (l :: row) = passAll rest (l :: row) := by
  rw [passAll, passAll, pass, h]

theorem passAll_of_pass (h : goal.outcome l = some (some next)) :
    passAll (goal :: rest) (l :: row) = passAll (next ++ rest) row := by
  rw [passAll, pass, h]
  rfl

theorem passAll_of_none (h : goal.outcome l = none) :
    passAll (goal :: rest) (l :: row) = none := by
  rw [passAll, pass, h]
  rfl

/-- What goals can be driven along, their shapes let pass. -/
theorem passAll_of_drive {goals : List Goal} {s : Scope} {f : Finish}
    (h : drive goals s row = some f) (later : List Goal) :
    passAll (goals.map shape ++ later) row = passAll later f.left := by
  fun_induction drive goals s row generalizing f with
  | case1 s row =>
      cases h
      rfl
  | case2 s goal rest => cases h
  | case3 s goal rest l row none => cases h
  | case4 s goal rest l row s' code effect ih =>
      obtain ⟨g, driven, rfl⟩ := exists_of_writing h
      have passed := ih driven
      exact (passAll_of_stay (outcome_of_effect? effect)).trans passed
  | case5 s goal rest l row s' code next effect ih =>
      obtain ⟨g, driven, rfl⟩ := exists_of_writing h
      have passed := ih driven
      rw [List.map_append, List.append_assoc] at passed
      exact (passAll_of_pass (outcome_of_effect? effect)).trans passed

end Pass

/-- The shapes let a class pass that is followed by the end of its source. What its names stand for
does not matter, so let all of them be declared. -/
theorem passAll_class (c : Tree.Class) :
    passAll [classDeclaration] (c.lexemes ++ [.endOfInput]) = some [] := by
  let declaration : ClassVariables :=
    ⟨.static, .int, c.name, c.subroutines.flatMap fun sub => sub.body.uses⟩
  let whole : Tree.Class := { c with declarations := declaration :: c.declarations }
  have declared : whole.WellScoped := by
    intro sub inside name used
    refine .inr (List.mem_flatMap.mpr ⟨declaration, List.mem_cons_self .., ?_⟩)
    exact List.mem_cons_of_mem _ (List.mem_flatMap.mpr ⟨sub, inside, used⟩)
  let entered : Scope :=
    { Scope.initial false with
      className := c.name
      classTable := ClassVariables.declareIn .empty declaration }
  have inside : (entered.setTable .classLevel
      (c.declarations.foldl ClassVariables.declareIn entered.classTable)).Inside whole :=
    ⟨rfl, rfl⟩
  obtain ⟨s, driven⟩ := drive_members inside (resolves_of_wellScoped declared)
  rw [if_pos ⟨Scope.admits_of_lax rfl, fun strict => nomatch strict⟩] at driven
  have passed := passAll_of_drive driven []
  simp only [Tree.Class.lexemes, List.cons_append, List.append_assoc, List.nil_append]
  exact passed

end Goal

end Jack
