import Jack.Compiler.Goal

/-! # Reactions

What each goal does with the token in front of it. A goal sees nothing but that
token and the scope, so compiling is the repetition of one function of three
arguments.
-/

namespace Jack

/-- A text between single quotes, as messages name the words of the language. -/
def ticked (text : String) : String :=
  "'" ++ text ++ "'"

/-- The texts of words any of which can stand at a place. -/
def choice (words : List String) : String :=
  " or ".intercalate (words.map ticked)

namespace Keyword

/-- The kind of class variable that a keyword introduces. -/
def classVariableKind? : Keyword → Option VariableKind
  | staticWord => some .static
  | fieldWord => some .field
  | _ => none

/-- The kind of subroutine that a keyword introduces. -/
def subroutineKind? : Keyword → Option SubroutineKind
  | constructorWord => some .constructor
  | functionWord => some .function
  | methodWord => some .method
  | _ => none

/-- Whether a keyword is a constant. -/
def isConstant : Keyword → Bool
  | trueWord | falseWord | nullWord | thisWord => true
  | _ => false

end Keyword

namespace Goal

/-- Read one word of the language. -/
def reactWord (word : Keyword) (t : Token) (s : Scope) (code : List Code) (next : List Goal) :
    Reaction :=
  if t.lexeme = .keyword word then .shift s code next
  else .unexpected s code t (ticked word.text)

/-- Read one symbol. -/
def reactSymbol (mark : Symbol) (t : Token) (s : Scope) (code : List Code) (next : List Goal) :
    Reaction :=
  if t.lexeme = .symbol mark then .shift s code next
  else .unexpected s code t (ticked mark.text)

/-- Read a name. -/
def reactName (t : Token) (s : Scope) (next : String → List Goal) : Reaction :=
  match t.lexeme with
  | .identifier name => .shift s [] (next name)
  | _ => .unexpected s [] t "identifier"

/-- Read a type. -/
def reactType (t : Token) (s : Scope) (next : String → List Goal) : Reaction :=
  match t.lexeme.typeName? with
  | some type => .shift s [] (next type)
  | none => .unexpected s [] t "type"

/-- The goals after the keyword of a declaration of class variables, if the token is one. -/
def classVariableAfter? (t : Token) : Option (List Goal) :=
  match t.lexeme with
  | .keyword word => word.classVariableKind?.map fun kind => [.variableType kind]
  | _ => none

/-- The goals after the keyword of a subroutine, if the token is one. -/
def subroutineAfter? (t : Token) : Option (List Goal) :=
  match t.lexeme with
  | .keyword word => word.subroutineKind?.map fun kind => [.resultType kind]
  | _ => none

/-- Declare a name. A strict scope refuses to declare it twice. -/
def reactDeclare (name : String) (position : Position) (type : String) (kind : VariableKind)
    (s : Scope) : Reaction :=
  let level := Scope.levelOf kind
  if s.refuses level name then .fail s [] (.problem (.redefinedVariable name) position)
  else .pop (s.define level name type kind) []

/-- Write the header and the prologue of the current subroutine. -/
def reactOpenBody (s : Scope) : Reaction :=
  let header := Template.header s
  match s.subroutineKind with
  | none => .fail s [header] .noSubroutine
  | some kind =>
    { scope := s
      code := header :: Template.prologue s kind
      events := [.subroutineEntered kind s.qualifiedName (s.subroutineTable.count .localVar)]
      move := .pop }

/-- Have the variable that a name at a position stands for. -/
def withVariable (name : String) (position : Position) (s : Scope)
    (react : SymbolEntry → Reaction) : Reaction :=
  match s.resolve? name with
  | some entry => react entry
  | none => .fail s [] (.problem (.undefinedVariable name) position)

/-- Start a `let` statement. -/
def reactLet (t : Token) (s : Scope) : Reaction :=
  reactWord .letWord t s [] [.letTarget]

/-- Start an `if` statement, which takes the next number before anything is read. -/
def reactIf (t : Token) (s : Scope) : Reaction :=
  let id := s.branches
  reactWord .ifWord t { s with branches := id + 1 } []
    [.symbol .openParen, .expression, .symbol .closeParen,
      .emit [.arithmetic .not, .ifGoto (.branchNot id)],
      .symbol .openBrace, .statements, .symbol .closeBrace,
      .emit [.goto (.branchEnd id), .label (.branchNot id)],
      .elseBranch id]

/-- Start a `while` statement, which takes the next number and sets its first label before
anything is read. -/
def reactWhile (t : Token) (s : Scope) : Reaction :=
  let id := s.loops
  reactWord .whileWord t { s with loops := id + 1 } [.label (.loopStart id)]
    [.symbol .openParen, .expression, .symbol .closeParen,
      .emit [.arithmetic .not, .ifGoto (.loopEnd id)],
      .symbol .openBrace, .statements, .symbol .closeBrace,
      .emit [.goto (.loopStart id), .label (.loopEnd id)]]

/-- Start a `do` statement, whose result is thrown away. -/
def reactDo (t : Token) (s : Scope) : Reaction :=
  reactWord .doWord t s [] [.call, .symbol .semicolon, .emit [.pop .temp 0]]

/-- Start a `return` statement. -/
def reactReturn (t : Token) (s : Scope) : Reaction :=
  reactWord .returnWord t s [] [.returnValue]

/-- Start a statement if the token is the word of one. -/
def reactStatement? (t : Token) (s : Scope) : Option Reaction :=
  match t.lexeme with
  | .keyword .letWord => some (reactLet t s)
  | .keyword .ifWord => some (reactIf t s)
  | .keyword .whileWord => some (reactWhile t s)
  | .keyword .doWord => some (reactDo t s)
  | .keyword .returnWord => some (reactReturn t s)
  | _ => none

/-- Start a term. -/
def reactTerm (t : Token) (s : Scope) : Reaction :=
  match t.lexeme with
  | .integer _ value => .shift s [] [.emit [.push .constant value]]
  | .string content => .shift s [] [.emit (Template.string content)]
  | .keyword word =>
    if word.isConstant then .shift s [] [.emit (Template.constant word.text)]
    else .unexpected s [] t "term"
  | .symbol .openParen => .shift s [] [.expression, .symbol .closeParen]
  | .symbol mark =>
    match UnaryOp.ofSymbol? mark with
    | some op => .shift s [] [.term, .emit [Template.unary op]]
    | none => .unexpected s [] t "term"
  | .identifier name => .shift s [] [.afterName name t.position]
  | .endOfInput => .unexpected s [] t "term"

/-- Start an expression. -/
def reactExpression (t : Token) (s : Scope) : Reaction :=
  (reactTerm t s).andThen [.operators]

/-- Go on with an expression after one of its terms. -/
def reactOperators (t : Token) (s : Scope) : Reaction :=
  match t.lexeme with
  | .symbol mark =>
    match BinaryOp.ofSymbol? mark with
    | some op => .shift s [] [.term, .emit [Template.binary op], .operators]
    | none => .pop s []
  | _ => .pop s []

/-- Go on with a call after its first name. Without a qualifier the current object is the
receiver. -/
def reactCallTail (name : String) (t : Token) (s : Scope) : Reaction :=
  if t.lexeme = .symbol .dot then .shift s [] [.methodName name]
  else
    reactSymbol .openParen t s [.push .pointer 0]
      [.arguments (s.className ++ "." ++ name) 1]

/-- Go on with a call after both of its names. A qualifier that is a variable is the receiver. -/
def reactQualifiedCall (qualifier method : String) (t : Token) (s : Scope) : Reaction :=
  match s.resolve? qualifier with
  | some receiver =>
    reactSymbol .openParen t s [Template.pushVariable receiver]
      [.arguments (receiver.type ++ "." ++ method) 1]
  | none => reactSymbol .openParen t s [] [.arguments (qualifier ++ "." ++ method) 0]

/-- Go on with a term after a name. -/
def reactAfterName (name : String) (position : Position) (t : Token) (s : Scope) : Reaction :=
  match t.lexeme with
  | .symbol .openBracket =>
    withVariable name position s fun entry =>
      .shift s [Template.pushVariable entry]
        [.expression, .symbol .closeBracket, .emit Template.readElement]
  | .symbol .openParen | .symbol .dot => reactCallTail name t s
  | _ => withVariable name position s fun entry => .pop s [Template.pushVariable entry]

/-- Go on with a `let` statement after its target. -/
def reactAssignment (name : String) (position : Position) (t : Token) (s : Scope) : Reaction :=
  withVariable name position s fun entry =>
    if t.lexeme = .symbol .openBracket then
      .shift s [Template.pushVariable entry]
        [.expression, .symbol .closeBracket, .emit [.arithmetic .add], .symbol .equals,
          .expression, .symbol .semicolon, .emit Template.writeElement]
    else
      reactSymbol .equals t s []
        [.expression, .symbol .semicolon, .emit [Template.popVariable entry]]

/-- Go on with the arguments of a call, `count` of which are on the stack, where none need
follow. -/
def reactArguments (callee : String) (count : Nat) (t : Token) (s : Scope) : Reaction :=
  if t.lexeme = .symbol .closeParen then .shift s [] [.emit [.call callee count]]
  else (reactExpression t s).andThen [.moreArguments callee (count + 1)]

/-- Go on with the arguments of a call after one of them. -/
def reactMoreArguments (callee : String) (count : Nat) (t : Token) (s : Scope) : Reaction :=
  if t.lexeme = .symbol .comma then
    .shift s [] [.expression, .moreArguments callee (count + 1)]
  else reactSymbol .closeParen t s [] [.emit [.call callee count]]

/-- What a goal does with the token in front. -/
def react (goal : Goal) (t : Token) (s : Scope) : Reaction :=
  match goal with
  | .classDeclaration =>
    reactWord .classWord t s []
      [.className, .symbol .openBrace, .classVariables, .subroutines, .symbol .closeBrace,
        .endOfInput]
  | .className => reactName t s fun name => [.enterClass name]
  | .enterClass name => ⟨{ s with className := name }, [], [.classEntered name], .pop⟩
  | .classVariables =>
    match classVariableAfter? t with
    | some next => .shift s [] (next ++ [.classVariables])
    | none => .pop s []
  | .classVariable =>
    match classVariableAfter? t with
    | some next => .shift s [] next
    | none => .unexpected s [] t (choice [Keyword.staticWord.text, Keyword.fieldWord.text])
  | .variableType kind =>
    reactType t s fun type => [.variableName type kind, .moreVariables type kind]
  | .variableName type kind =>
    reactName t s fun name => [.declare name t.position type kind]
  | .moreVariables type kind =>
    if t.lexeme = .symbol .comma then
      .shift s [] [.variableName type kind, .moreVariables type kind]
    else reactSymbol .semicolon t s [] []
  | .declare name position type kind => reactDeclare name position type kind s
  | .subroutines =>
    match subroutineAfter? t with
    | some next => .shift s.leaveSubroutine [] (next ++ [.subroutines])
    | none => .pop s []
  | .subroutine =>
    let s := s.leaveSubroutine
    match subroutineAfter? t with
    | some next => .shift s [] next
    | none => .unexpected s [] t (choice (SubroutineKind.all.map SubroutineKind.text))
  | .resultType kind =>
    match t.lexeme.resultTypeName? with
    | some _ => .shift s [] [.subroutineName kind]
    | none => .unexpected s [] t (ticked Keyword.voidWord.text ++ " or type")
  | .subroutineName kind =>
    reactName t s fun name =>
      [.enterSubroutine name kind, .symbol .openParen, .parameterList, .symbol .closeParen,
        .subroutineBody]
  | .enterSubroutine name kind => .pop (s.enterSubroutine name kind) []
  | .parameterList =>
    match t.lexeme.typeName? with
    | some type => .shift s [] [.variableName type .argument, .moreParameters]
    | none => .pop s []
  | .parameterType => reactType t s fun type => [.variableName type .argument]
  | .moreParameters =>
    if t.lexeme = .symbol .comma then .shift s [] [.parameterType, .moreParameters]
    else .pop s []
  | .subroutineBody =>
    reactSymbol .openBrace t s [] [.localVariables, .openBody, .statements, .symbol .closeBrace]
  | .localVariables =>
    if t.lexeme = .keyword .varWord then
      .shift s [] [.variableType .localVar, .localVariables]
    else .pop s []
  | .localVariable => reactWord .varWord t s [] [.variableType .localVar]
  | .openBody => reactOpenBody s
  | .statements =>
    match reactStatement? t s with
    | some reaction => reaction.andThen [.statements]
    | none => .pop s []
  | .letStatement => reactLet t s
  | .letTarget => reactName t s fun name => [.assignment name t.position]
  | .assignment name position => reactAssignment name position t s
  | .ifStatement => reactIf t s
  | .elseBranch id =>
    if t.lexeme = .keyword .elseWord then
      .shift s []
        [.symbol .openBrace, .statements, .symbol .closeBrace, .emit [.label (.branchEnd id)]]
    else .pop s [.label (.branchEnd id)]
  | .whileStatement => reactWhile t s
  | .doStatement => reactDo t s
  | .returnStatement => reactReturn t s
  | .returnValue =>
    if t.lexeme = .symbol .semicolon then .shift s [.push .constant 0] [.emit [.ret]]
    else (reactExpression t s).andThen [.symbol .semicolon, .emit [.ret]]
  | .expression => reactExpression t s
  | .operators => reactOperators t s
  | .term => reactTerm t s
  | .afterName name position => reactAfterName name position t s
  | .call => reactName t s fun name => [.callTail name]
  | .callTail name => reactCallTail name t s
  | .methodName qualifier => reactName t s fun method => [.qualifiedCall qualifier method]
  | .qualifiedCall qualifier method => reactQualifiedCall qualifier method t s
  | .arguments callee count => reactArguments callee count t s
  | .moreArguments callee count => reactMoreArguments callee count t s
  | .expressionList =>
    if t.lexeme = .symbol .closeParen then ⟨s, [], [.listRead 0], .pop⟩
    else (reactExpression t s).andThen [.moreExpressions 1]
  | .moreExpressions count =>
    if t.lexeme = .symbol .comma then .shift s [] [.expression, .moreExpressions (count + 1)]
    else ⟨s, [], [.listRead count], .pop⟩
  | .symbol mark => reactSymbol mark t s [] []
  | .endOfInput => if t.isEnd then .pop s [] else .unexpected s [] t "end of input"
  | .emit code => .pop s code

/-- No goal passes the end of the source. -/
theorem isEnd_of_react_shift {goal : Goal} {t : Token} {s : Scope} {next : List Goal}
    (h : (goal.react t s).move = .shift next) : t.isEnd = false := by
  cases he : t.isEnd with
  | false => rfl
  | true =>
    have he : t.lexeme = .endOfInput := by simpa [Token.isEnd] using he
    exfalso
    cases goal <;>
      simp [react, reactWord, reactSymbol, reactName, reactType, classVariableAfter?,
        subroutineAfter?, reactDeclare, reactOpenBody, reactLet, reactIf, reactWhile, reactDo,
        reactReturn, reactStatement?, reactTerm, reactExpression, reactOperators, reactCallTail,
        reactQualifiedCall, reactAfterName, reactAssignment, reactArguments, reactMoreArguments,
        withVariable, Reaction.andThen, Reaction.pop, Reaction.fail,
        Reaction.unexpected, Lexeme.typeName?, Lexeme.resultTypeName?, he] at h
    all_goals (repeat' split at h) <;> simp at h

/-- The most goals that one goal leaves to others. -/
def maxNext : Nat := 10

theorem length_classVariableAfter? {t : Token} {next : List Goal}
    (h : classVariableAfter? t = some next) : next.length = 1 := by
  unfold classVariableAfter? at h
  split at h
  · obtain ⟨kind, -, rfl⟩ := Option.map_eq_some_iff.mp h
    rfl
  · simp at h

theorem length_subroutineAfter? {t : Token} {next : List Goal}
    (h : subroutineAfter? t = some next) : next.length = 1 := by
  unfold subroutineAfter? at h
  split at h
  · obtain ⟨kind, -, rfl⟩ := Option.map_eq_some_iff.mp h
    rfl
  · simp at h

theorem length_andThen {r : Reaction} {later next : List Goal} {n : Nat}
    (hr : ∀ first, r.move = .shift first → first.length ≤ n)
    (h : (r.andThen later).move = .shift next) : next.length ≤ n + later.length := by
  unfold Reaction.andThen at h
  split at h
  · next first hf =>
    obtain rfl := Move.shift.inj h
    have := hr first hf
    simp only [List.length_append]
    omega
  · next hn => exact absurd h (hn _)

theorem length_reactStatement? {t : Token} {s : Scope} {r : Reaction} {next : List Goal}
    (hr : reactStatement? t s = some r) (h : r.move = .shift next) : next.length ≤ 9 := by
  unfold reactStatement? reactLet reactIf reactWhile reactDo reactReturn reactWord at hr
  split at hr
  case h_6 => simp at hr
  all_goals
    next word =>
      simp only [word, ↓reduceIte, Option.some.injEq] at hr
      obtain rfl := Move.shift.inj (hr ▸ h)
      simp

theorem length_reactTerm {t : Token} {s : Scope} {next : List Goal}
    (h : (reactTerm t s).move = .shift next) : next.length ≤ 2 := by
  unfold reactTerm Reaction.shift Reaction.unexpected Reaction.fail at h
  grind

theorem length_reactExpression {t : Token} {s : Scope} {next : List Goal}
    (h : (reactExpression t s).move = .shift next) : next.length ≤ 3 :=
  length_andThen (fun _ => length_reactTerm) h

theorem length_next_le {goal : Goal} {t : Token} {s : Scope} {next : List Goal}
    (h : (goal.react t s).move = .shift next) : next.length ≤ maxNext := by
  have after {later : List Goal} (ha : ((reactExpression t s).andThen later).move = .shift next) :
      next.length ≤ 3 + later.length :=
    length_andThen (fun _ => length_reactExpression) ha
  cases goal
  case statements =>
    simp only [react] at h
    split at h
    · next r hr => exact length_andThen (fun _ => length_reactStatement? hr) h
    · simp [Reaction.pop] at h
  case classVariables | classVariable | subroutines | subroutine =>
    simp only [react, Reaction.shift, Reaction.pop, Reaction.unexpected, Reaction.fail] at h
    grind [maxNext, length_classVariableAfter?, length_subroutineAfter?]
  case expression | term | returnValue | arguments | expressionList =>
    simp only [react, reactArguments, Reaction.shift] at h
    grind [maxNext, length_reactTerm, length_reactExpression]
  all_goals
    simp only [react, reactWord, reactSymbol, reactName, reactType, reactDeclare, reactOpenBody,
      reactLet, reactIf, reactWhile, reactDo, reactReturn, reactOperators, reactCallTail,
      reactQualifiedCall, reactAfterName, reactAssignment, reactMoreArguments, withVariable,
      Reaction.pop, Reaction.fail, Reaction.shift, Reaction.unexpected] at h
    repeat' split at h
  all_goals
    simp only [Move.shift.injEq, reduceCtorEq] at h
  all_goals
    subst h
    simp [maxNext]

end Goal

end Jack
