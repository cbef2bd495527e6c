import Jack.Lexer

/-! # Token streams

The tokens of a source as a finished value: one scan after another, and what every
scan after those finds. Taking the scans from a stream is the same as scanning when
they are needed, except that a scan carries along which chunks were read for it.
-/

namespace Jack

/-- One attempt to read a token: the chunks it had to read, and what it found. The end of the
source is found as a token. -/
structure Scan where
  deliveries : List Delivery
  outcome : Except Failure Token

/-- What every further scan finds. -/
inductive Ending where
  /-- The source is over. -/
  | finished (position : Position)
  /-- The characters in front make no token. -/
  | stuck (failure : Failure)

/-- The scans of a source. -/
structure TokenStream where
  scans : List Scan
  ending : Ending

namespace TokenStream

/-- The scans of what is left for a reader; `taken` holds those made so far in reverse. A scan
that fails and passes nothing would fail again, and ends the stream. -/
def readFrom (filename : Option String) (taken : List Scan) (r : Reader) : TokenStream :=
  match _h : r.forget.nextToken with
  | (.ok (some token), rest) =>
    readFrom filename (⟨rest.deliveries.reverse, .ok token⟩ :: taken) rest
  | (.ok none, rest) =>
    let last : Scan := ⟨rest.deliveries.reverse, .ok ⟨.endOfInput, rest.position⟩⟩
    ⟨(last :: taken).reverse, .finished rest.position⟩
  | (.error fault, rest) =>
    let failure := Failure.ofFault filename fault
    let failed : Scan := ⟨rest.deliveries.reverse, .error failure⟩
    if rest.remaining.length < r.remaining.length then readFrom filename (failed :: taken) rest
    else ⟨(failed :: taken).reverse, .stuck failure⟩
  termination_by r.remaining.length
  decreasing_by
    · exact Reader.remaining_forget r ▸ Reader.length_remaining_of_nextToken _h
    · assumption

/-- The scans of what a lexer has not handed out. A pending token is found without reading. -/
def ofLexer (l : Lexer) : TokenStream :=
  readFrom l.filename (l.pending.map fun token => ⟨[], .ok token⟩).toList l.reader

/-- A scan in front of others. -/
def cons (scan : Scan) (s : TokenStream) : TokenStream :=
  { s with scans := scan :: s.scans }

/-- A scan that fails, behind which none is made. -/
def failing (failure : Failure) (rest : Reader) : TokenStream :=
  ⟨[⟨rest.deliveries.reverse, .error failure⟩], .stuck failure⟩

/-- The scans of what is left for a reader if the read behind its last chunk fails. A scan that
comes to that read fails with it, whatever it would have found. -/
def brokenFrom (failure : Failure) (filename : Option String) (r : Reader) : TokenStream :=
  match _h : r.forget.nextToken with
  | (.ok (some token), rest) =>
    if rest.isExhausted then failing failure rest
    else (brokenFrom failure filename rest).cons ⟨rest.deliveries.reverse, .ok token⟩
  | (.ok none, rest) => failing failure rest
  | (.error fault, rest) =>
    failing (if rest.isExhausted then failure else .ofFault filename fault) rest
  termination_by r.remaining.length
  decreasing_by exact Reader.remaining_forget r ▸ Reader.length_remaining_of_nextToken _h

/-- The scans of what a lexer has not handed out if the read behind the last chunk fails. -/
def ofBroken (failure : Failure) (l : Lexer) : TokenStream :=
  l.pending.toList.foldr (fun token => cons ⟨[], .ok token⟩)
    (brokenFrom failure l.filename l.reader)

/-- The next scan, and the scans after it. -/
def next (s : TokenStream) : Scan × TokenStream :=
  match s.scans with
  | scan :: rest => (scan, { s with scans := rest })
  | [] =>
    match s.ending with
    | .finished position => (⟨[], .ok ⟨.endOfInput, position⟩⟩, s)
    | .stuck failure => (⟨[], .error failure⟩, s)

end TokenStream

/-- A place between two tokens: the token before it, the token after it, and the scans of the
tokens further on. -/
structure Cursor where
  previous : Option Token
  current : Token
  ahead : TokenStream

namespace Cursor

/-- How many tokens can still be passed, at most. -/
def size (c : Cursor) : Nat :=
  c.ahead.scans.length + if c.current.isEnd then 0 else 1

/-- Pass the current token, which becomes the previous one even if the token after it cannot be
read. The end of the source is never passed. -/
def advance (c : Cursor) : Except Failure Unit × List Delivery × Cursor :=
  if c.current.isEnd then (.ok (), [], { c with previous := some c.current })
  else
    let (scan, ahead) := c.ahead.next
    match scan.outcome with
    | .ok token => (.ok (), scan.deliveries, ⟨some c.current, token, ahead⟩)
    | .error failure => (.error failure, scan.deliveries, ⟨some c.current, c.current, ahead⟩)

/-- Passing a token leaves fewer to pass. -/
theorem size_advance_lt {c : Cursor} (h : c.current.isEnd = false)
    (hok : c.advance.1 = .ok ()) : c.advance.2.2.size < c.size := by
  unfold advance TokenStream.next at *
  simp only [h, Bool.false_eq_true, ↓reduceIte] at hok ⊢
  cases hs : c.ahead.scans with
  | cons scan rest =>
    rw [hs] at hok
    cases ho : scan.outcome with
    | ok token =>
      simp only [size, h, hs, List.length_cons, Bool.false_eq_true, ↓reduceIte]
      split <;> omega
    | error failure => simp [ho] at hok
  | nil =>
    rw [hs] at hok
    cases he : c.ahead.ending with
    | finished position => simp [size, hs, h]; simp [Token.isEnd]
    | stuck failure => simp [he] at hok

end Cursor

end Jack
