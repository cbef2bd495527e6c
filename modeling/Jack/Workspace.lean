import Jack.CompiledClass
import Jack.Compiler.Engine
import Jack.Input
import Jack.Logging
import Jack.Token.Entry

/-! # Workspaces

A workspace is where classes are compiled: it has options, files, log levels, and
the class that was made last. Compiling for debugging lowers the log levels for the
time of one call and puts them back afterwards, whatever comes of the call.
-/

namespace Jack

/-- How sources are read and compiled. -/
structure Options where
  /-- The number of characters that a text at hand is read by. -/
  chunkSize : Int := Source.defaultChunkSize
  /-- Whether a name may be declared only once in a table. -/
  strict : Bool := false
  /-- Whether every log record is kept. -/
  debug : Bool := false
  deriving Repr, DecidableEq

namespace Options

/-- Options that sources can be read with. -/
def check (o : Options) : Except Failure Options :=
  if o.chunkSize ≤ 0 then .error (.chunkSize o.chunkSize) else .ok o

end Options

/-- A place to compile classes in. -/
structure Workspace where
  options : Options
  files : Files
  levels : LogLevels
  /-- The log records of the current call, the last one first. -/
  log : List LogRecord
  /-- The class that was made last. -/
  current : Option CompiledClass

namespace Workspace

/-- A workspace with the given options, unless sources cannot be read with them. -/
def create (options : Options) (files : Files) (levels : LogLevels) : Except Failure Workspace :=
  options.check.map fun options => ⟨options, files, levels, [], none⟩

/-- Log the records that the levels keep. -/
def report (w : Workspace) (records : List LogRecord) : Workspace :=
  { w with log := (records.filter w.levels.keep).reverse ++ w.log }

/-- Do something with every record kept if it is for debugging, and under the levels that are set
otherwise. -/
def withLogging {α : Type} (debug : Bool) (w : Workspace) (body : Workspace → α × Workspace) :
    α × Workspace :=
  if debug then
    let (result, after) := body { w with levels := .debugging }
    (result, { after with levels := w.levels })
  else body w

/-- The text that was read, put together from the chunks that it came in. -/
def recorded (events : List Event) : String :=
  String.ofList (events.flatMap Event.characters)

/-- Compile the class in a source. -/
def compileWith (o : Options) (input : Input) (filename : Option String) (w : Workspace) :
    Except Failure CompiledClass × Workspace :=
  withLogging o.debug w fun w =>
    match Lexer.ofSource input.source o.chunkSize filename with
    | .error failure => (.error failure, w)
    | .ok lexer =>
      let (outcome, events) := compileUntil input.failure lexer o.strict
      let w := w.report (events.filterMap Event.record?)
      match outcome with
      | .error failure => (.error failure, w)
      | .ok compilation =>
        let compiled : CompiledClass :=
          { source := recorded events
            className := compilation.className
            code := Code.program compilation.code
            filename }
        let summary := "Compiled class " ++ compiled.className ++ " (" ++ toString compiled.size ++
          " instructions)"
        (.ok compiled, w.report [⟨.context, .info, summary⟩])

/-- What was found, unless the reader came to a read that fails. -/
def foundUnless {α : Type} (failure : Option Failure) (r : Reader) (found : Except Failure α) :
    Except Failure α :=
  match failure with
  | some failure => if r.isExhausted then .error failure else found
  | none => found

/-- The tokens of a source. -/
def tokenize (input : Input) (filename : Option String) (w : Workspace) :
    Except Failure (List Token) × Workspace :=
  withLogging w.options.debug w fun w =>
    match Lexer.ofSource input.source w.options.chunkSize filename with
    | .error failure => (.error failure, w)
    | .ok lexer =>
      let (outcome, lexer) := lexer.tokenize
      let events := lexer.reader.deliveries.reverse.map Event.delivered
      (foundUnless input.failure lexer.reader outcome, w.report (events.filterMap Event.record?))

/-- Make a class the one that was made last. -/
def keepClass (result : Except Failure CompiledClass × Workspace) :
    Except Failure CompiledClass × Workspace :=
  match result with
  | (.ok compiled, w) => (.ok compiled, { w with current := some compiled })
  | result => result

/-- Compile the class in a file, which is read as far as it is needed. -/
def compileFile (path : String) (w : Workspace) : Except Failure CompiledClass × Workspace :=
  match w.files.openText path with
  | .ok file => compileWith w.options (file.input w.options.chunkSize.toNat) (some path) w
  | .error failure => (.error failure, w)

/-- The code of the class in a file, whatever the options of the workspace are. -/
def compileFileText (path : String) (strict : Bool) (w : Workspace) :
    Except Failure String × Workspace :=
  match w.files.openText path with
  | .error failure => (.error failure, w)
  | .ok file =>
    let input := file.input Source.defaultChunkSize
    match Lexer.ofSource input.source Source.defaultChunkSize (some path) with
    | .error failure => (.error failure, w)
    | .ok lexer =>
      let (outcome, events) := compileUntil input.failure lexer strict
      (outcome.map (Code.program ·.code), w.report (events.filterMap Event.record?))

/-- Save the class that was made last. -/
def saveClass (path : Option String) (w : Workspace) : Except Failure Path × Workspace :=
  match w.current with
  | none => (.error .noClass, w)
  | some compiled =>
    match compiled.save path w.files with
    | .ok (target, files) => (.ok target, { w with files })
    | .error failure => (.error failure, w)

/-- What a workspace can be asked to do. -/
inductive Call where
  | compile (input : Input) (filename : Option String)
  /-- Compile under options of its own. -/
  | compileWith (options : Options) (input : Input)
  | compileFile (path : String)
  | compileFileText (path : String) (strict : Bool)
  | tokenize (input : Input) (filename : Option String)
  | listing (input : Input) (filename : Option String)
  | load (path : String)
  | new (compiled : CompiledClass)
  | save (path : Option String)
  | read (path : String)
  | list
  deriving Repr

/-- What a workspace answers. -/
inductive Answer where
  | compiled (result : CompiledClass)
  | text (value : String)
  | tokens (all : List Token)
  | paths (all : List String)
  deriving Repr

/-- Give a result as an answer. -/
def answered {α : Type} (wrap : α → Answer) (result : Except Failure α × Workspace) :
    Except Failure Answer × Workspace :=
  (result.1.map wrap, result.2)

/-- Carry out a call, with a log of its own. -/
def perform (call : Call) (w : Workspace) : Except Failure Answer × Workspace :=
  let w := { w with log := [] }
  match call with
  | .compile input filename =>
    answered .compiled (keepClass (compileWith w.options input filename w))
  | .compileWith options input =>
    match options.check with
    | .ok options => answered .compiled (keepClass (compileWith options input none w))
    | .error failure => (.error failure, w)
  | .compileFile path => answered .compiled (keepClass (compileFile path w))
  | .compileFileText path strict => answered .text (compileFileText path strict w)
  | .tokenize input filename => answered .tokens (tokenize input filename w)
  | .listing input filename =>
    answered (fun tokens => .text (Token.listing tokens)) (tokenize input filename w)
  | .load path => answered .compiled (keepClass (CompiledClass.load path w.files, w))
  | .new compiled => answered .compiled (keepClass (.ok compiled, w))
  | .save path => answered (fun path => .text path.text) (saveClass path w)
  | .read path => ((w.files.readText path).map .text, w)
  | .list => (.ok (.paths w.files.paths), w)

end Workspace

end Jack
