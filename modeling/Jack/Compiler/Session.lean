import Jack.Compiler.Engine

/-! # Sessions with an engine

An engine can also be driven one call at a time: through a single rule of the
grammar, through one token, or past the grammar into its scope. Every call leaves
an engine behind, also when it fails, and the next call goes on from there.
-/

namespace Jack.Engine

/-- What an engine can be asked to do. -/
inductive Call where
  /-- Reach a goal. -/
  | reach (goal : Goal)
  /-- Pass the current token, and return it. -/
  | advance
  /-- Whether the current token is a keyword, and one of the words if there are any. -/
  | isKeyword (words : List String)
  /-- Whether the current token is a symbol, and one of the texts if there are any. -/
  | isSymbol (texts : List String)
  /-- Pass one of the keywords. -/
  | keyword (words : List String)
  /-- Pass one of the symbols. -/
  | symbol (texts : List String)
  /-- Pass a name. -/
  | identifier
  /-- Pass a type, or the word for no type if that is allowed. -/
  | type (allowVoid : Bool)
  /-- The problem that the current token is not what it should be. -/
  | unexpected (what : String)
  /-- The variable that a name stands for. -/
  | resolve (name : String)
  /-- Declare the name that was passed last. -/
  | define (level : Scope.Level) (name type : String) (kind : Literal)
  /-- Set the name and the kind of the current subroutine. -/
  | beginSubroutine (name : String) (kind : SubroutineKind)
  /-- The full name of the current subroutine. -/
  | qualifiedName
  /-- Set the name of the class. -/
  | setClass (name : String)
  /-- Forget the variables of a table. -/
  | reset (level : Scope.Level)
  deriving Repr

/-- What an engine answers. -/
inductive Answer where
  | done
  | truth (value : Bool)
  | number (value : Nat)
  | text (value : String)
  | token (found : Token)
  | diagnostic (found : Diagnostic)
  | entry (found : Option SymbolEntry)
  deriving Repr

/-- The problem that the current token is not what it should be. -/
def unexpected (e : Engine) (what : String) : Diagnostic :=
  let t := e.cursor.current
  .atPosition (.expected what t.described) t.position e.filename

/-- The text that a token stands for. -/
def textOf (t : Token) : String :=
  match t.lexeme.value with
  | .text text => text
  | _ => t.lexeme.text

/-- Pass the current token if it is one that can stand here, and return its text. -/
def require (e : Engine) (fits : Bool) (what : String) : Except Failure Answer × Engine :=
  if fits then
    let (outcome, next) := e.advance
    (outcome.map fun _ => .text (textOf e.cursor.current), next)
  else (.error (.diagnosed (e.unexpected what)), e)

/-- What reaching a goal answers: how many expressions there were, for a list of expressions. -/
def reached (goal : Goal) (e : Engine) : Answer :=
  match goal, e.events with
  | .expressionList, .listRead count :: _ => .number count
  | _, _ => .done

/-- Declare a name that was passed last. A refusal blames the token it was passed as. -/
def define (e : Engine) (level : Scope.Level) (name type : String) (kind : Literal) :
    Except Failure Answer × Engine :=
  if e.scope.refuses level name then
    match e.cursor.previous with
    | some t =>
      (.error (.diagnosed (.atPosition (.redefinedVariable name) t.position e.filename)), e)
    | none => (.error .noToken, e)
  else
    match VariableKind.ofLiteral kind with
    | .ok kind => (.ok .done, { e with scope := e.scope.define level name type kind })
    | .error failure => (.error failure, e)

/-- Carry out a call. -/
def perform (call : Call) (e : Engine) : Except Failure Answer × Engine :=
  let t := e.cursor.current
  match call with
  | .reach goal =>
    let (outcome, e) := e.run [goal]
    (outcome.map fun _ => reached goal e, e)
  | .advance =>
    let (outcome, next) := e.advance
    (outcome.map fun _ => .token t, next)
  | .isKeyword words => (.ok (.truth (t.entry.isKeyword words)), e)
  | .isSymbol texts => (.ok (.truth (t.entry.isSymbol texts)), e)
  | .keyword words => e.require (t.entry.isKeyword words) (choice words)
  | .symbol texts => e.require (t.entry.isSymbol texts) (choice texts)
  | .identifier => e.require t.entry.isIdentifier "identifier"
  | .type allowVoid =>
    e.require (if allowVoid then t.lexeme.resultTypeName?.isSome else t.lexeme.typeName?.isSome)
      (if allowVoid then ticked Keyword.voidWord.text ++ " or type" else "type")
  | .unexpected what => (.ok (.diagnostic (e.unexpected what)), e)
  | .resolve name => (.ok (.entry (e.scope.resolve? name)), e)
  | .define level name type kind => e.define level name type kind
  | .beginSubroutine name kind =>
    (.ok .done,
      { e with scope := { e.scope with subroutineName := name, subroutineKind := some kind } })
  | .qualifiedName => (.ok (.text e.scope.qualifiedName), e)
  | .setClass name => (.ok .done, { e with scope := { e.scope with className := name } })
  | .reset level => (.ok .done, { e with scope := e.scope.setTable level .empty })

end Jack.Engine
