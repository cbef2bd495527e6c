import Jack.Scanner

/-! # Lexers

A lexer hands out the tokens of one source, each once and in order. It may be asked
whether there is another token, for which it reads that token and keeps it until it
is taken.
-/

namespace Jack

namespace Reader

/-- Read all tokens that are left; `taken` holds those read so far in reverse. -/
def tokensFrom (taken : List Token) (r : Reader) : Except Fault (List Token) × Reader :=
  match _h : r.nextToken with
  | (.ok (some token), rest) => tokensFrom (token :: taken) rest
  | (.ok none, rest) => (.ok taken.reverse, rest)
  | (.error fault, rest) => (.error fault, rest)
  termination_by r.remaining.length
  decreasing_by exact length_remaining_of_nextToken _h

end Reader

/-- A source on its way into tokens. -/
structure Lexer where
  reader : Reader
  /-- The name that problems of the source are reported under. -/
  filename : Option String
  /-- The token that was read and not taken. -/
  pending : Option Token
  deriving Repr

namespace Lexer

/-- A lexer for a source that is read by `chunkSize` characters. -/
def ofSource (source : Source) (chunkSize : Int) (filename : Option String) :
    Except Failure Lexer :=
  if chunkSize ≤ 0 then .error (.chunkSize chunkSize)
  else .ok ⟨.ofSource chunkSize.toNat source, filename, none⟩

/-- What a scanner finds, in the terms of the lexer it scans for. -/
def scanned {α : Type} (l : Lexer) (found : Except Fault α × Reader) :
    Except Failure α × Lexer :=
  (found.1.mapError (.ofFault l.filename), { l with reader := found.2 })

/-- Read a token past the pending one, if the source has one. -/
def scan (l : Lexer) : Except Failure (Option Token) × Lexer :=
  l.scanned l.reader.nextToken

/-- Whether another token is there; if so it is pending from now on. -/
def hasNext (l : Lexer) : Except Failure Bool × Lexer :=
  match l.pending with
  | some _ => (.ok true, l)
  | none =>
    match l.scan with
    | (.ok token, l) => (.ok token.isSome, { l with pending := token })
    | (.error failure, l) => (.error failure, l)

/-- Take the next token. -/
def advance (l : Lexer) : Except Failure Token × Lexer :=
  match l.hasNext with
  | (.error failure, l) => (.error failure, l)
  | (.ok _, l) =>
    match l.pending with
    | some token => (.ok token, { l with pending := none })
    | none => (.error (.diagnosed (.atPosition .unexpectedEnd l.reader.position l.filename)), l)

/-- Take all tokens that are left. If one of them cannot be read there is no result, and the
tokens before it are gone. -/
def tokenize (l : Lexer) : Except Failure (List Token) × Lexer :=
  { l with pending := none }.scanned (l.reader.tokensFrom l.pending.toList)

/-- The tokens of a source. -/
def tokensOf (source : Source) (chunkSize : Int) (filename : Option String) :
    Except Failure (List Token) := do
  (← ofSource source chunkSize filename).tokenize.1

/-- What a lexer can be asked to do. The scanners of single tokens start at the reader's place,
whatever stands there, and are told where the token is to start. -/
inductive Call where
  | hasNext
  | advance
  | tokenize
  | scan
  | skipIgnored
  | skipLine
  | skipBlock
  | integer (start : Position)
  | string (start : Position)
  | word (start : Position)
  | peek (offset : Nat)
  | advanceChar
  deriving Repr

/-- What a lexer answers. -/
inductive Answer where
  | done
  | truth (value : Bool)
  | token (found : Option Token)
  | tokens (all : List Token)
  | character (c : Option Char)
  deriving Repr

/-- Give what was found as an answer. -/
def answered {α : Type} (wrap : α → Answer) (found : Except Failure α × Lexer) :
    Except Failure Answer × Lexer :=
  (found.1.map wrap, found.2)

/-- Carry out a call. -/
def perform (call : Call) (l : Lexer) : Except Failure Answer × Lexer :=
  match call with
  | .hasNext => answered .truth l.hasNext
  | .advance => answered (fun token => .token (some token)) l.advance
  | .tokenize => answered .tokens l.tokenize
  | .scan => answered .token l.scan
  | .skipIgnored => answered (fun _ => .done) (l.scanned l.reader.skipIgnored)
  | .skipLine => (.ok .done, { l with reader := l.reader.skipLine })
  | .skipBlock => answered (fun _ => .done) (l.scanned l.reader.skipBlock)
  | .integer start =>
    answered (fun token => .token (some token)) (l.scanned (l.reader.integer start))
  | .string start =>
    answered (fun token => .token (some token)) (l.scanned (l.reader.string start))
  | .word start =>
    let (token, reader) := l.reader.word start
    (.ok (.token (some token)), { l with reader })
  | .peek offset =>
    let (c, reader) := l.reader.peek offset
    (.ok (.character c), { l with reader })
  | .advanceChar => (.ok (.character (l.reader.peek 0).1), { l with reader := l.reader.advance })

end Lexer

end Jack
