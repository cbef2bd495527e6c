import Jack.Compiler.Reaction
import Jack.TokenStream

/-! # Engines

An engine is a compiler at work: a place between two tokens, a scope, and what has
been written and reported so far. It runs until its goals are done or one of them
fails; what was written before a failure stays.
-/

namespace Jack

/-- A compiler at work. -/
structure Engine where
  cursor : Cursor
  scope : Scope
  /-- The name that problems of the source are reported under. -/
  filename : Option String
  /-- The instructions written so far, the last one first. -/
  written : List Code
  /-- What there was to report so far, the last event first. -/
  events : List Event

namespace Engine

/-- What was written, in order. -/
def code (e : Engine) : List Code :=
  e.written.reverse

/-- Report the chunks that were read. -/
def deliver (e : Engine) (deliveries : List Delivery) : Engine :=
  { e with events := (deliveries.map Event.delivered).reverse ++ e.events }

/-- Bring about everything in a reaction but its move. -/
def absorb (e : Engine) (r : Reaction) : Engine :=
  { e with
    scope := r.scope
    written := r.code.reverse ++ e.written
    events := r.events.reverse ++ e.events }

/-- Pass the current token. -/
def advance (e : Engine) : Except Failure Unit × Engine :=
  let (outcome, deliveries, cursor) := e.cursor.advance
  (outcome, { e with cursor }.deliver deliveries)

/-- What a goal does at the engine's place. -/
def reaction (e : Engine) (goal : Goal) : Reaction :=
  goal.react e.cursor.current e.scope

/-- A goal that passes a token leaves less to do, counting a token as much as any goals that it
can be passed for. -/
theorem size_advance_lt {e : Engine} {goal : Goal} {next : List Goal}
    (h : (e.reaction goal).move = .shift next)
    (hok : (e.absorb (e.reaction goal)).advance.1 = .ok ()) :
    (e.absorb (e.reaction goal)).advance.2.cursor.size < e.cursor.size :=
  Cursor.size_advance_lt (Goal.isEnd_of_react_shift h) hok

/-- Reach all goals, the first one first. -/
def run (goals : List Goal) (e : Engine) : Except Failure Unit × Engine :=
  match goals with
  | [] => (.ok (), e)
  | goal :: rest =>
    match _h : (e.reaction goal).move with
    | .pop => run rest (e.absorb (e.reaction goal))
    | .shift next =>
      match _hok : (e.absorb (e.reaction goal)).advance.1 with
      | .ok () => run (next ++ rest) (e.absorb (e.reaction goal)).advance.2
      | .error failure => (.error failure, (e.absorb (e.reaction goal)).advance.2)
    | .fail fault => (.error (.ofFault e.filename fault), e.absorb (e.reaction goal))
  termination_by Goal.maxNext * e.cursor.size + goals.length
  decreasing_by
    · exact Nat.add_lt_add_left (Nat.lt_succ_self _) _
    · have fewer := size_advance_lt _h _hok
      have new := Goal.length_next_le _h
      simp only [Goal.maxNext, List.length_append, List.length_cons] at new ⊢
      omega

/-- An engine at the first token of a stream. Along with a failure come the chunks that were read
for that token. -/
def ofStream (stream : TokenStream) (strict : Bool) (filename : Option String) :
    Except Failure Engine × List Event :=
  let (first, ahead) := stream.next
  let events := (first.deliveries.map Event.delivered).reverse
  (first.outcome.map fun token =>
    { cursor := ⟨none, token, ahead⟩
      scope := .initial strict
      filename
      written := []
      events },
    events)

/-- An engine at the first token that a lexer has not handed out. -/
def ofLexer (lexer : Lexer) (strict : Bool) (filename : Option String) :
    Except Failure Engine × List Event :=
  ofStream (.ofLexer lexer) strict (filename.or lexer.filename)

end Engine

/-- A class that was compiled. -/
structure Compilation where
  className : String
  code : List Code

/-- Compile the class in a stream of tokens. The report comes with the result, and also without. -/
def compileStream (stream : TokenStream) (strict : Bool) (filename : Option String) :
    Except Failure Compilation × List Event :=
  match Engine.ofStream stream strict filename with
  | (.error failure, events) => (.error failure, events.reverse)
  | (.ok engine, _) =>
    let (outcome, engine) := engine.run [.classDeclaration]
    (outcome.map fun _ => ⟨engine.scope.className, engine.code⟩, engine.events.reverse)

/-- Compile the class in front of a lexer. -/
def compile (lexer : Lexer) (strict : Bool) : Except Failure Compilation × List Event :=
  compileStream (.ofLexer lexer) strict lexer.filename

/-- Compile the class in front of a lexer for which the read behind the last chunk may fail. -/
def compileUntil (failure : Option Failure) (lexer : Lexer) (strict : Bool) :
    Except Failure Compilation × List Event :=
  match failure with
  | none => compile lexer strict
  | some failure => compileStream (.ofBroken failure lexer) strict lexer.filename

/-- The code of the class in a source. -/
def compileSource (source : Source) (filename : Option String) (strict : Bool)
    (chunkSize : Int) : Except Failure (List Code) := do
  let lexer ← Lexer.ofSource source chunkSize filename
  return (← (compile lexer strict).1).code

/-- The text of the class in a source, one instruction a line. -/
def compileText (source : Source) (filename : Option String) (strict : Bool)
    (chunkSize : Int) : Except Failure String :=
  (compileSource source filename strict chunkSize).map Code.program

end Jack
