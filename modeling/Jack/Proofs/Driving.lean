import Jack.Proofs.TokenRows

/-! # Driving goals along lexemes

What goals bring about depends on the lexemes in front, not on their positions, and a
strict scope brings about nothing that a lax one does not. `drive` reaches goals along a
row of lexemes; a source compiles to the code that is written when the goal to read a
class is driven along all its lexemes.
-/

namespace Jack

/-- A scope in which a name may be declared again. -/
def Scope.lax (s : Scope) : Scope :=
  { s with strict := false }

/-- A goal without the positions that only its problems show. -/
def Goal.unplaced : Goal → Goal
  | .declare name _ type kind => .declare name .start type kind
  | .assignment name _ => .assignment name .start
  | .afterName name _ => .afterName name .start
  | goal => goal

/-- A fault without its position. -/
def Fault.unplaced : Fault → Fault
  | .problem p _ => .problem p .start
  | fault => fault

/-- A move without the positions that only problems show. -/
def Move.unplaced : Move → Move
  | .pop => .pop
  | .shift next => .shift (next.map Goal.unplaced)
  | .fail fault => .fail fault.unplaced

/-- A reaction without the positions that only problems show. -/
def Reaction.unplaced (r : Reaction) : Reaction :=
  { r with move := r.move.unplaced }

@[simp] theorem Goal.unplaced_unplaced (goal : Goal) : goal.unplaced.unplaced = goal.unplaced := by
  cases goal <;> rfl

theorem Reaction.unplaced_andThen (r : Reaction) (later : List Goal) :
    (r.andThen later).unplaced = r.unplaced.andThen (later.map Goal.unplaced) := by
  obtain ⟨scope, code, events, move⟩ := r
  cases move with
  | pop => rfl
  | shift next => simp [andThen, unplaced, Move.unplaced]
  | fail fault => rfl

/-- What a reaction brings about, apart from problems and reports. -/
structure Effect where
  scope : Scope
  code : List Code
  /-- The goals that the token in front was passed for, if it was. -/
  next : Option (List Goal)

namespace Effect

/-- The same in a scope that is not strict. -/
def lax (e : Effect) : Effect :=
  { e with scope := e.scope.lax }

end Effect

/-- The effect of a reaction that is no failure. -/
def Reaction.effect? (r : Reaction) : Option Effect :=
  match r.move with
  | .pop => some ⟨r.scope, r.code, none⟩
  | .shift next => some ⟨r.scope, r.code, some (next.map Goal.unplaced)⟩
  | .fail _ => none

@[simp] theorem Reaction.effect?_andThen (r : Reaction) (later : List Goal) :
    (r.andThen later).effect? = r.effect?.map fun e =>
      { e with next := e.next.map (· ++ later.map Goal.unplaced) } := by
  unfold andThen
  cases hm : r.move <;> simp [effect?, hm]

theorem Reaction.effect?_unplaced (r : Reaction) : r.unplaced.effect? = r.effect? := by
  obtain ⟨scope, code, events, move⟩ := r
  cases move with
  | pop => rfl
  | shift next => simp [effect?, unplaced, Move.unplaced]
  | fail fault => rfl

/-- The same reaction in a scope that is not strict. -/
def Reaction.lax (r : Reaction) : Reaction :=
  { r with scope := r.scope.lax }

theorem Reaction.lax_andThen (r : Reaction) (later : List Goal) :
    (r.andThen later).lax = r.lax.andThen later := by
  obtain ⟨scope, code, events, move⟩ := r
  cases move <;> rfl

theorem Reaction.effect?_lax (r : Reaction) : r.lax.effect? = r.effect?.map Effect.lax := by
  obtain ⟨scope, code, events, move⟩ := r
  cases move <;> rfl

theorem Reaction.scope_andThen {r : Reaction} {later : List Goal} :
    (r.andThen later).scope = r.scope := by
  unfold andThen
  split <;> rfl

namespace Goal

theorem unplaced_reactTerm (t : Token) (s : Scope) :
    (reactTerm t s).unplaced = (reactTerm ⟨t.lexeme, .start⟩ s).unplaced := by
  simp only [reactTerm]
  repeat' split
  all_goals rfl

theorem unplaced_reactStatement? (t : Token) (s : Scope) :
    (reactStatement? t s).map Reaction.unplaced =
      (reactStatement? ⟨t.lexeme, .start⟩ s).map Reaction.unplaced := by
  simp only [reactStatement?, reactLet, reactIf, reactWhile, reactDo, reactReturn, reactWord]
  split
  all_goals next h => simp [h]

/-- Positions make no difference to a goal but for the place of a problem. -/
theorem unplaced_react (goal : Goal) (t : Token) (s : Scope) :
    (goal.react t s).unplaced = (goal.unplaced.react ⟨t.lexeme, .start⟩ s).unplaced := by
  cases goal
  case statements =>
    have same := unplaced_reactStatement? t s
    simp only [react, unplaced]
    cases h : reactStatement? t s <;> cases h' : reactStatement? ⟨t.lexeme, .start⟩ s <;>
      simp_all [Reaction.unplaced_andThen]
  case endOfInput =>
    by_cases ended : t.lexeme = .endOfInput
    · simp [react, unplaced, Token.isEnd, ended]
    · simp only [react, unplaced, Token.isEnd, beq_iff_eq, ended, ↓reduceIte]
      rfl
  all_goals
    simp only [react, unplaced, reactWord, reactSymbol, reactName, reactType, classVariableAfter?,
        subroutineAfter?, reactDeclare, reactOpenBody, reactLet, reactIf, reactWhile, reactDo,
        reactReturn, reactExpression, reactOperators, reactCallTail,
        reactQualifiedCall, reactAfterName, reactAssignment, reactArguments, reactMoreArguments,
        withVariable]
    repeat' split
    all_goals first | rfl | simp [Reaction.unplaced_andThen, unplaced_reactTerm t]

/-- What a goal brings about depends on no position. -/
theorem effect?_react_unplaced (goal : Goal) (t : Token) (s : Scope) :
    (goal.react t s).effect? = (goal.unplaced.react ⟨t.lexeme, .start⟩ s).effect? := by
  rw [← Reaction.effect?_unplaced, unplaced_react, Reaction.effect?_unplaced]

theorem reactTerm_lax (t : Token) (s : Scope) : reactTerm t s.lax = (reactTerm t s).lax := by
  simp only [reactTerm]
  repeat' split
  all_goals rfl

theorem reactStatement?_lax (t : Token) (s : Scope) :
    reactStatement? t s.lax = (reactStatement? t s).map Reaction.lax := by
  simp only [reactStatement?, reactLet, reactIf, reactWhile, reactDo, reactReturn, reactWord]
  split
  all_goals next h => simp [h, Reaction.shift, Scope.lax, Reaction.lax]

/-- Whether a goal is to declare a name that the scope refuses. -/
def Refused (s : Scope) : Goal → Prop
  | .declare name _ _ kind => s.refuses (Scope.levelOf kind) name = true
  | _ => False

theorem react_of_refused {name type : String} {position : Position} {kind : VariableKind}
    {s : Scope} (refused : s.refuses (Scope.levelOf kind) name = true) (t : Token) :
    (declare name position type kind).react t s =
      .fail s [] (.problem (.redefinedVariable name) position) :=
  if_pos refused

/-- That a scope is strict makes no difference to a goal that it does not refuse. -/
theorem react_lax {goal : Goal} {s : Scope} (accepted : ¬ goal.Refused s) (t : Token) :
    goal.react t s.lax = (goal.react t s).lax := by
  cases goal
  case declare name position type kind =>
    have accepted : ¬ s.refuses (Scope.levelOf kind) name = true := accepted
    simp only [react, reactDeclare]
    rw [if_neg accepted, if_neg (by simp [Scope.refuses, Scope.lax])]
    cases kind <;> rfl
  case statements =>
    simp only [react, reactStatement?_lax]
    cases reactStatement? t s with
    | none => rfl
    | some r => exact (Reaction.lax_andThen r _).symm
  case enterSubroutine name kind => cases kind <;> rfl
  case openBody =>
    simp only [react, reactOpenBody, show s.lax.subroutineKind = s.subroutineKind from rfl]
    split <;> rfl
  all_goals
    simp only [react, reactWord, reactSymbol, reactName, reactType, reactLet, reactIf, reactWhile,
      reactDo, reactReturn, reactExpression, reactOperators, reactCallTail, reactQualifiedCall,
      reactAfterName, reactAssignment, reactArguments, reactMoreArguments, withVariable,
      show s.lax.resolve? = s.resolve? from rfl]
    repeat' split
    all_goals first | rfl | simp [reactTerm_lax, Reaction.lax_andThen]

/-- What a strict scope lets happen happens as well in one that is not. -/
theorem effect?_react_lax {goal : Goal} {t : Token} {s : Scope} {e : Effect}
    (h : (goal.react t s).effect? = some e) : (goal.react t s.lax).effect? = some e.lax := by
  have accepted : ¬ goal.Refused s := by
    intro refused
    cases goal
    case declare => rw [react_of_refused refused] at h; cases h
    all_goals exact refused.elim
  rw [react_lax accepted, Reaction.effect?_lax, h, Option.map_some]

end Goal

/-- How goals were reached: the code written, the scope left, and the lexemes not passed. -/
structure Finish where
  code : List Code
  scope : Scope
  left : List Lexeme

/-- The same with other code written before. -/
def writing (code : List Code) (f : Option Finish) : Option Finish :=
  f.map fun f => { f with code := code ++ f.code }

@[simp] theorem writing_nil (f : Option Finish) : writing [] f = f := by
  cases f <;> rfl

@[simp] theorem writing_none (code : List Code) : writing code none = none := rfl

@[simp] theorem writing_some (code : List Code) (f : Finish) :
    writing code (some f) = some { f with code := code ++ f.code } := rfl

@[simp] theorem writing_writing (code later : List Code) (f : Option Finish) :
    writing code (writing later f) = writing (code ++ later) f := by
  cases f <;> simp

theorem exists_of_writing {code : List Code} {f : Option Finish} {g : Finish}
    (h : writing code f = some g) :
    ∃ f', f = some f' ∧ g = { f' with code := code ++ f'.code } := by
  cases f with
  | none => cases h
  | some f' => exact ⟨f', rfl, (Option.some.inj h).symm⟩

/-- What a goal brings about with a lexeme in front. -/
def Goal.effect? (goal : Goal) (l : Lexeme) (s : Scope) : Option Effect :=
  (goal.react ⟨l, .start⟩ s).effect?

theorem Goal.length_of_effect? {goal : Goal} {l : Lexeme} {s s' : Scope} {code : List Code}
    {next : List Goal} (h : goal.effect? l s = some ⟨s', code, some next⟩) :
    next.length ≤ maxNext := by
  unfold effect? Reaction.effect? at h
  split at h
  · cases h
  · next found =>
    cases h
    rw [List.length_map]
    exact length_next_le found
  · cases h

/-- Reach goals in front of a row of lexemes, which must not run out. -/
def drive (goals : List Goal) (s : Scope) (row : List Lexeme) : Option Finish :=
  match goals, row with
  | [], row => some ⟨[], s, row⟩
  | _ :: _, [] => none
  | goal :: rest, l :: row =>
    match _h : goal.effect? l s with
    | none => none
    | some ⟨s', code, none⟩ => writing code (drive rest s' (l :: row))
    | some ⟨s', code, some next⟩ => writing code (drive (next ++ rest) s' row)
  termination_by Goal.maxNext * row.length + goals.length
  decreasing_by
    · simp
    · have new := Goal.length_of_effect? _h
      simp only [Goal.maxNext, List.length_append, List.length_cons] at new ⊢
      omega

section Drive

variable {goal : Goal} {goals rest next : List Goal} {l : Lexeme} {row : List Lexeme}
  {s s' : Scope} {code : List Code}

@[simp] theorem drive_nil (s : Scope) (row : List Lexeme) :
    drive [] s row = some ⟨[], s, row⟩ := by
  rw [drive]

theorem drive_of_stay (h : goal.effect? l s = some ⟨s', code, none⟩) :
    drive (goal :: rest) s (l :: row) = writing code (drive rest s' (l :: row)) := by
  rw [drive]
  split
  · next found => cases h.symm.trans found
  · next found => cases h.symm.trans found; rfl
  · next found => cases h.symm.trans found

theorem drive_of_pass (h : goal.effect? l s = some ⟨s', code, some next⟩) :
    drive (goal :: rest) s (l :: row) = writing code (drive (next ++ rest) s' row) := by
  rw [drive]
  split
  · next found => cases h.symm.trans found
  · next found => cases h.symm.trans found
  · next found => cases h.symm.trans found; rfl

theorem drive_of_none (h : goal.effect? l s = none) :
    drive (goal :: rest) s (l :: row) = none := by
  rw [drive]
  split
  · rfl
  · next found => cases h.symm.trans found
  · next found => cases h.symm.trans found

theorem left_of_drive_nil {f : Finish} (h : drive goals s [] = some f) : f.left = [] := by
  cases goals with
  | nil => rw [drive_nil] at h; cases h; rfl
  | cons goal rest => rw [drive] at h; cases h

/-- Goals can be reached in two parts. -/
theorem drive_append (first later : List Goal) (s : Scope) (row : List Lexeme) :
    drive (first ++ later) s row =
      (drive first s row).bind fun f => writing f.code (drive later f.scope f.left) := by
  fun_induction drive first s row with
  | case1 s row => simp
  | case2 s goal rest => rw [List.cons_append, drive]; rfl
  | case3 s goal rest l row h => rw [List.cons_append, drive_of_none h]; rfl
  | case4 s goal rest l row s' code h ih =>
      rw [List.cons_append, drive_of_stay h, ih]
      cases drive rest s' (l :: row) <;> simp
  | case5 s goal rest l row s' code next h ih =>
      rw [List.cons_append, drive_of_pass h, ← List.append_assoc, ih]
      cases drive (next ++ rest) s' row <;> simp

/-- What can be driven along a row in a strict scope can be driven along it in one that is not. -/
theorem drive_lax {f : Finish} (h : drive goals s row = some f) :
    drive goals s.lax row = some { f with scope := f.scope.lax } := by
  fun_induction drive goals s row generalizing f with
  | case1 s row =>
      obtain rfl := Option.some.inj h
      exact drive_nil s.lax row
  | case2 s goal rest => cases h
  | case3 s goal rest l row none => cases h
  | case4 s goal rest l row s' code effect ih =>
      obtain ⟨g, driven, rfl⟩ := exists_of_writing h
      rw [drive_of_stay (Goal.effect?_react_lax effect), ih driven]
      rfl
  | case5 s goal rest l row s' code next effect ih =>
      obtain ⟨g, driven, rfl⟩ := exists_of_writing h
      rw [drive_of_pass (Goal.effect?_react_lax effect), ih driven]
      rfl

end Drive

namespace Engine

variable {goal : Goal} {goals : List Goal} {e e' : Engine}

theorem code_absorb (e : Engine) (r : Reaction) : (e.absorb r).code = e.code ++ r.code := by
  simp [code, absorb]

theorem effect?_of_reaction {x : Effect} (h : (e.reaction goal).effect? = some x) :
    goal.unplaced.effect? e.cursor.current.lexeme e.scope = some x := by
  rw [Goal.effect?, ← Goal.effect?_react_unplaced]
  exact h

/-- An engine that reaches its goals has passed a row that its goals can be driven along. -/
theorem drive_of_run (h : e.run goals = (.ok (), e')) :
    ∃ row code, e.cursor.Shows row ∧ row.getLast? = some e'.cursor.current ∧
      e'.code = e.code ++ code ∧
      drive (goals.map Goal.unplaced) e.scope (row.map Token.lexeme) =
        some ⟨code, e'.scope, [e'.cursor.current.lexeme]⟩ := by
  fun_induction run goals e with
  | case1 e =>
      obtain ⟨-, rfl⟩ := Prod.mk.inj h
      exact ⟨[e.cursor.current], [], .current _, rfl, by simp, by simp⟩
  | case2 e goal rest moved ih =>
      obtain ⟨row, code, shown, ended, written, driven⟩ := ih h
      have effect := effect?_of_reaction (e := e) (by rw [Reaction.effect?, moved])
      refine ⟨row, (e.reaction goal).code ++ code, shown, ended, ?_, ?_⟩
      · rw [written, code_absorb, List.append_assoc]
      · obtain ⟨tail, rfl⟩ := List.head?_eq_some_iff.mp shown.head
        rw [List.map_cons, List.map_cons]
        exact (drive_of_stay effect).trans (congrArg (writing _) driven)
  | case3 e goal rest next moved passed ih =>
      obtain ⟨row, code, shown, ended, written, driven⟩ := ih h
      have effect := effect?_of_reaction (e := e) (by rw [Reaction.effect?, moved])
      have more := Goal.isEnd_of_react_shift moved
      refine ⟨e.cursor.current :: row, (e.reaction goal).code ++ code,
        .next more passed shown, ?_, ?_, ?_⟩
      · rw [List.getLast?_cons, ended, Option.getD_some]
      · rw [written, ← List.append_assoc]
        congr 1
        exact code_absorb e _
      · rw [List.map_append] at driven
        rw [List.map_cons, List.map_cons]
        exact (drive_of_pass effect).trans (congrArg (writing _) driven)
  | case4 e goal rest next moved failure passed => cases h
  | case5 e goal rest fault moved => cases h

/-- An engine in front of a row that its goals can be driven along reaches them, if some of the row
is left for it to stop at. -/
theorem run_of_drive {row : List Token} {f : Finish} (shown : e.cursor.Shows row)
    (h : drive (goals.map Goal.unplaced) e.scope (row.map Token.lexeme) = some f)
    (left : f.left ≠ []) :
    ∃ e', e.run goals = (.ok (), e') ∧ e'.code = e.code ++ f.code ∧ e'.scope = f.scope := by
  fun_induction run goals e generalizing row f with
  | case1 e =>
      rw [List.map_nil, drive_nil] at h
      obtain rfl := Option.some.inj h
      exact ⟨e, rfl, by simp, rfl⟩
  | case2 e goal rest moved ih =>
      obtain ⟨tail, rfl⟩ := List.head?_eq_some_iff.mp shown.head
      have effect := effect?_of_reaction (e := e) (by rw [Reaction.effect?, moved])
      rw [List.map_cons, List.map_cons, drive_of_stay effect] at h
      obtain ⟨g, driven, rfl⟩ := exists_of_writing h
      obtain ⟨e', reached, written, scope⟩ := ih shown driven left
      refine ⟨e', reached, ?_, scope⟩
      rw [written, code_absorb, List.append_assoc]
  | case3 e goal rest next moved passed ih =>
      obtain ⟨tail, rfl⟩ := List.head?_eq_some_iff.mp shown.head
      have effect := effect?_of_reaction (e := e) (by rw [Reaction.effect?, moved])
      rw [List.map_cons, List.map_cons, drive_of_pass effect] at h
      obtain ⟨g, driven, rfl⟩ := exists_of_writing h
      cases shown with
      | current => exact absurd (left_of_drive_nil driven) left
      | next more step shown =>
          rw [← List.map_append] at driven
          obtain ⟨e', reached, written, scope⟩ := ih shown driven left
          refine ⟨e', reached, ?_, scope⟩
          rw [written, ← List.append_assoc]
          congr 1
          exact code_absorb e _
  | case4 e goal rest next moved failure failed =>
      obtain ⟨tail, rfl⟩ := List.head?_eq_some_iff.mp shown.head
      have effect := effect?_of_reaction (e := e) (by rw [Reaction.effect?, moved])
      rw [List.map_cons, List.map_cons, drive_of_pass effect] at h
      obtain ⟨g, driven, rfl⟩ := exists_of_writing h
      cases shown with
      | current => exact absurd (left_of_drive_nil driven) left
      | next more step shown => cases failed.symm.trans step
  | case5 e goal rest fault moved =>
      obtain ⟨tail, rfl⟩ := List.head?_eq_some_iff.mp shown.head
      have none : goal.unplaced.effect? e.cursor.current.lexeme e.scope = none := by
        rw [Goal.effect?, ← Goal.effect?_react_unplaced]
        exact (by rw [Reaction.effect?, moved] : (e.reaction goal).effect? = none)
      rw [List.map_cons, List.map_cons, drive_of_none none] at h
      cases h

end Engine

/-! ### Compiling a source -/

theorem Lexer.ofSource_of_pos {source : Source} {chunkSize : Int} {filename : Option String}
    (positive : 0 < chunkSize) :
    ofSource source chunkSize filename =
      .ok ⟨.ofSource chunkSize.toNat source, filename, none⟩ := by
  rw [ofSource, if_neg (by omega)]

/-- The lexemes of a source and its end. -/
def rowOfTokens (tokens : List Token) : List Lexeme :=
  tokens.map Token.lexeme ++ [.endOfInput]

theorem map_lexeme_of_isEnd {tokens : List Token} {last : Token} (h : last.isEnd) :
    (tokens ++ [last]).map Token.lexeme = rowOfTokens tokens := by
  have ended : last.lexeme = .endOfInput := by simpa [Token.isEnd] using h
  simp [rowOfTokens, ended]

theorem Goal.effect?_classDeclaration {l : Lexeme} {s : Scope} {e : Effect}
    (h : Goal.classDeclaration.effect? l s = some e) :
    ∃ first, e.next = some (first ++ [.endOfInput]) := by
  simp only [effect?, react, reactWord] at h
  split at h
  · cases h
    exact ⟨[.className, .symbol .openBrace, .classVariables, .subroutines, .symbol .closeBrace],
      rfl⟩
  · cases h

theorem left_of_drive_endOfInput {s : Scope} {row : List Lexeme} {f : Finish}
    (h : drive [.endOfInput] s row = some f) : ∃ rest, f.left = .endOfInput :: rest := by
  cases row with
  | nil => rw [drive] at h; cases h
  | cons l rest =>
      by_cases ended : l = .endOfInput
      · subst ended
        have effect : Goal.endOfInput.effect? .endOfInput s = some ⟨s, [], none⟩ := rfl
        rw [drive_of_stay effect, writing_nil, drive_nil] at h
        cases h
        exact ⟨rest, rfl⟩
      · rw [drive_of_none] at h
        · cases h
        · simp [Goal.effect?, Goal.react, Token.isEnd, ended, Reaction.unexpected,
            Reaction.fail, Reaction.effect?]

/-- A class is followed by the end of its source. -/
theorem left_of_drive_class {s : Scope} {row : List Lexeme} {f : Finish}
    (h : drive [.classDeclaration] s row = some f) : ∃ rest, f.left = .endOfInput :: rest := by
  cases row with
  | nil => rw [drive] at h; cases h
  | cons l row =>
      cases effect : Goal.classDeclaration.effect? l s with
      | none => rw [drive_of_none effect] at h; cases h
      | some e =>
          obtain ⟨first, next⟩ := Goal.effect?_classDeclaration effect
          rw [drive_of_pass (by rw [effect, ← next]), List.append_nil, drive_append] at h
          obtain ⟨f', found, rfl⟩ := exists_of_writing h
          obtain ⟨g, -, ended⟩ := Option.bind_eq_some_iff.mp found
          obtain ⟨g', last, rfl⟩ := exists_of_writing ended
          obtain ⟨rest, left⟩ := left_of_drive_endOfInput last
          exact ⟨rest, left⟩

/-- The engine in front of a stream whose first token is `t`. -/
def Engine.atStart (stream : TokenStream) (t : Token) (strict : Bool) (filename : Option String) :
    Engine where
  cursor := ⟨none, t, stream.next.2⟩
  scope := .initial strict
  filename
  written := []
  events := (stream.next.1.deliveries.map Event.delivered).reverse

theorem compileStream_eq (stream : TokenStream) (strict : Bool) (filename : Option String) :
    compileStream stream strict filename =
      let scan := stream.next.1
      match scan.outcome with
      | .error failure => (.error failure, scan.deliveries.map Event.delivered)
      | .ok t =>
        let (outcome, e) := (Engine.atStart stream t strict filename).run [.classDeclaration]
        (outcome.map fun _ => ⟨e.scope.className, e.code⟩, e.events.reverse) := by
  simp only [compileStream, Engine.ofStream]
  cases stream.next.1.outcome with
  | error failure => simp [Except.map]
  | ok t => rfl

section Compile

variable {source : Source} {chunkSize : Int} {filename : Option String} {strict : Bool}
  {code : List Code}

theorem compileSource_of_pos (positive : 0 < chunkSize) :
    compileSource source filename strict chunkSize =
      let stream := TokenStream.readFrom filename [] (.ofSource chunkSize.toNat source)
      match stream.next.1.outcome with
      | .error failure => .error failure
      | .ok t =>
        match (Engine.atStart stream t strict filename).run [.classDeclaration] with
        | (.ok (), e) => .ok e.code
        | (.error failure, _) => .error failure := by
  rw [compileSource, Lexer.ofSource_of_pos positive]
  simp only [compile, compileStream_eq, TokenStream.ofLexer, bind, Except.bind, Option.map_none,
    Option.toList_none]
  cases (TokenStream.readFrom filename [] (.ofSource chunkSize.toNat source)).next.1.outcome with
  | error failure => rfl
  | ok t =>
      simp only [Except.map]
      rcases Engine.run [.classDeclaration] _ with ⟨_ | _, e⟩ <;> rfl

theorem compileSource_of_not_pos (small : ¬ 0 < chunkSize) :
    compileSource source filename strict chunkSize = .error (.chunkSize chunkSize) := by
  rw [compileSource, Lexer.ofSource, if_pos (by omega)]
  rfl

/-- An engine that has reached its class is at the end of its source, and its goals were driven
along the tokens. -/
theorem Engine.drive_of_atStart {r : Reader} {t : Token} {e : Engine}
    (found : (TokenStream.readFrom filename [] r).next.1.outcome = .ok t)
    (reached : (atStart (.readFrom filename [] r) t strict filename).run [.classDeclaration] =
      (.ok (), e)) :
    e.cursor.current.isEnd ∧ ∃ tokens, (r.tokensFrom []).1 = .ok tokens ∧
      drive [.classDeclaration] (.initial strict) (rowOfTokens tokens) =
        some ⟨e.code, e.scope, [.endOfInput]⟩ := by
  obtain ⟨row, code, shown, ended, written, driven⟩ := drive_of_run reached
  obtain ⟨rest, left⟩ := left_of_drive_class driven
  obtain ⟨atEnd, rfl⟩ := List.cons.inj left
  obtain ⟨tokens, rfl⟩ := List.getLast?_eq_some_iff.mp ended
  have ended : e.cursor.current.isEnd := by simp [Token.isEnd, atEnd]
  rw [map_lexeme_of_isEnd ended, atEnd] at driven
  refine ⟨ended, tokens, ?_, ?_⟩
  · rw [Cursor.tokensFrom_eq_ok_iff filename]
    exact ⟨t, e.cursor.current, found, ended, shown⟩
  · rw [written]
    exact driven

/-- The code of a class that was compiled is written along the tokens of its source. -/
theorem drive_of_compileSource (positive : 0 < chunkSize)
    (h : compileSource source filename strict chunkSize = .ok code) :
    ∃ tokens s, Lexer.tokensOf source chunkSize filename = .ok tokens ∧
      drive [.classDeclaration] (.initial strict) (rowOfTokens tokens) =
        some ⟨code, s, [.endOfInput]⟩ := by
  rw [compileSource_of_pos positive] at h
  simp only at h
  split at h
  · cases h
  · next t found =>
    split at h
    · next e reached =>
      obtain ⟨-, tokens, read, driven⟩ := Engine.drive_of_atStart found reached
      cases h
      exact ⟨tokens, e.scope, (Lexer.tokensOf_eq_ok_iff positive tokens).mpr read, driven⟩
    · cases h

theorem compileSource_of_drive {tokens : List Token} {f : Finish} (positive : 0 < chunkSize)
    (ht : Lexer.tokensOf source chunkSize filename = .ok tokens)
    (h : drive [.classDeclaration] (.initial strict) (rowOfTokens tokens) = some f) :
    compileSource source filename strict chunkSize = .ok f.code := by
  obtain ⟨t, last, start, ended, shown⟩ :=
    (Cursor.tokensFrom_eq_ok_iff filename _ _).mp ((Lexer.tokensOf_eq_ok_iff positive _).mp ht)
  obtain ⟨rest, left⟩ := left_of_drive_class h
  rw [compileSource_of_pos positive]
  simp only [start]
  have driven : drive ([Goal.classDeclaration].map Goal.unplaced) (.initial strict)
      ((tokens ++ [last]).map Token.lexeme) = some f := by
    rw [map_lexeme_of_isEnd ended]
    exact h
  obtain ⟨e, reached, written, -⟩ :=
    Engine.run_of_drive (e := .atStart _ t strict filename) shown driven (by simp [left])
  rw [reached]
  simp only [written]
  rfl

theorem compileText_eq_ok_iff {text : String} :
    compileText source filename strict chunkSize = .ok text ↔
      ∃ code, compileSource source filename strict chunkSize = .ok code ∧
        Code.program code = text := by
  unfold compileText
  cases compileSource source filename strict chunkSize <;> simp [Except.map]

theorem compileText_eq_error_iff {failure : Failure} :
    compileText source filename strict chunkSize = .error failure ↔
      compileSource source filename strict chunkSize = .error failure := by
  unfold compileText
  cases compileSource source filename strict chunkSize <;> simp [Except.map]

end Compile

end Jack
