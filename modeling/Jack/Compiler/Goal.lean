import Jack.Compiler.Template
import Jack.Reader
import Jack.Token.Entry

/-! # Goals

The compiler is a machine with a stack of goals: what it still has to read and to
write. The goal on top looks at the one token in front. It is then either done, or
has that token passed and other goals put in its place, or nothing can be read
there. The grammar is such that one token always decides:

* `class`: `class` name `{` classVarDec* subroutineDec* `}`
* `classVarDec`: (`static` | `field`) type name (`,` name)* `;`
* `subroutineDec`: (`constructor` | `function` | `method`) (`void` | type) name
  `(` parameterList `)` subroutineBody
* `parameterList`: (type name (`,` type name)*)?
* `subroutineBody`: `{` varDec* statements `}`
* `varDec`: `var` type name (`,` name)* `;`
* `statements`: statement*
* `let` name (`[` expression `]`)? `=` expression `;`
* `if` `(` expression `)` `{` statements `}` (`else` `{` statements `}`)?
* `while` `(` expression `)` `{` statements `}`
* `do` call `;`
* `return` expression? `;`
* `expression`: term (operator term)*
* `term`: a constant, a name, name `[` expression `]`, a call,
  `(` expression `)`, or an operator and a term
* `call`: (name `.`)? name `(` expressionList `)`
* `expressionList`: (expression (`,` expression)*)?
-/

namespace Jack

/-- Something that the compiler has still to do. -/
inductive Goal where
  /-- Read a class and then the end of the source. -/
  | classDeclaration
  | className
  /-- Call the class by the name that was read. -/
  | enterClass (name : String)
  | classVariables
  | classVariable
  /-- Read the type and the names of a declaration of variables. -/
  | variableType (kind : VariableKind)
  | variableName (type : String) (kind : VariableKind)
  | moreVariables (type : String) (kind : VariableKind)
  /-- Declare the name that was read at a position. -/
  | declare (name : String) (position : Position) (type : String) (kind : VariableKind)
  | subroutines
  | subroutine
  | resultType (kind : SubroutineKind)
  | subroutineName (kind : SubroutineKind)
  /-- Enter the subroutine whose name was read. -/
  | enterSubroutine (name : String) (kind : SubroutineKind)
  | parameterList
  | parameterType
  | moreParameters
  | subroutineBody
  | localVariables
  | localVariable
  /-- Write the header of the subroutine whose variables are declared. -/
  | openBody
  | statements
  | letStatement
  | letTarget
  /-- Read what follows the target of an assignment, which stands at a position. -/
  | assignment (name : String) (position : Position)
  | ifStatement
  /-- Read what may follow the first way of a branch. -/
  | elseBranch (id : Nat)
  | whileStatement
  | doStatement
  | returnStatement
  | returnValue
  | expression
  /-- Read what may follow a term of an expression. -/
  | operators
  | term
  /-- Read what follows a name in a term; the name stands at a position. -/
  | afterName (name : String) (position : Position)
  | call
  /-- Read what follows the first name of a call. -/
  | callTail (name : String)
  /-- Read the name of a subroutine after its qualifier. -/
  | methodName (qualifier : String)
  | qualifiedCall (qualifier method : String)
  /-- Read the arguments of a call, of which `count` are already on the stack. -/
  | arguments (callee : String) (count : Nat)
  | moreArguments (callee : String) (count : Nat)
  /-- Read expressions and report how many there are. -/
  | expressionList
  | moreExpressions (count : Nat)
  /-- Read a symbol. -/
  | symbol (mark : Symbol)
  /-- Read the end of the source. -/
  | endOfInput
  /-- Write instructions. -/
  | emit (code : List Code)
  deriving Repr, DecidableEq

/-- What there is to report about a compilation. -/
inductive Event where
  /-- A chunk of the source was read. -/
  | delivered (delivery : Delivery)
  /-- A class was entered. -/
  | classEntered (name : String)
  /-- A subroutine with so many local variables was entered. -/
  | subroutineEntered (kind : SubroutineKind) (name : String) (locals : Nat)
  /-- A list of so many expressions was read. -/
  | listRead (count : Nat)
  deriving Repr, DecidableEq

/-- The characters that came in with an event. -/
def Event.characters : Event → List Char
  | .delivered d => d.chunk
  | .classEntered _ | .subroutineEntered _ _ _ | .listRead _ => []

/-- What a goal does with the token in front. -/
inductive Move where
  /-- It is done; the token stays. -/
  | pop
  /-- The token is passed, and these goals take the place of the one that passed it. -/
  | shift (next : List Goal)
  /-- Nothing can be read here. -/
  | fail (fault : Fault)
  deriving Repr, DecidableEq

/-- Everything that a goal brings about. All but the move comes before the move. -/
structure Reaction where
  scope : Scope
  code : List Code
  events : List Event
  move : Move
  deriving Repr, DecidableEq

namespace Reaction

/-- The goal is done. -/
def pop (scope : Scope) (code : List Code) : Reaction :=
  ⟨scope, code, [], .pop⟩

/-- The token is passed. -/
def shift (scope : Scope) (code : List Code) (next : List Goal) : Reaction :=
  ⟨scope, code, [], .shift next⟩

/-- The goal cannot be reached. -/
def fail (scope : Scope) (code : List Code) (fault : Fault) : Reaction :=
  ⟨scope, code, [], .fail fault⟩

/-- The token in front is not the expected one. -/
def unexpected (scope : Scope) (code : List Code) (found : Token) (what : String) : Reaction :=
  .fail scope code (.problem (.expected what found.described) found.position)

/-- Have other goals after those that a reaction puts in place. -/
def andThen (r : Reaction) (later : List Goal) : Reaction :=
  match r.move with
  | .shift next => { r with move := .shift (next ++ later) }
  | _ => r

end Reaction

end Jack
