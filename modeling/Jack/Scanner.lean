import Jack.Failure
import Jack.Reader
import Jack.Text.Blank
import Jack.Token.Basic

/-! # Scanning

How a reader finds tokens. A token is the longest stretch of characters that makes
one; blanks and comments in front of it are passed. A scanner returns the reader
it leaves behind also when it fails, so that scanning can go on from there.
-/

namespace Jack

/-- Whether a character can start a word: an ASCII letter or an underscore. -/
def isWordStart (c : Char) : Bool :=
  c.isAlpha || c == '_'

/-- Whether a character can stand inside a word. -/
def isWordChar (c : Char) : Bool :=
  c.isAlphanum || c == '_'

/-- Whether a character can stand inside a string constant. -/
def isStringChar (c : Char) : Bool :=
  c != '"' && c != '\n' && c != '\r' && c.toNat ≤ maxConstant

/-- The lexeme of a word. -/
def Lexeme.ofWord (word : String) : Lexeme :=
  match Keyword.ofText? word with
  | some reserved => .keyword reserved
  | none => .identifier word

/-- The number a row of decimal digits stands for. -/
def decimalValue (digits : List Char) : Nat :=
  digits.foldl (fun value digit => 10 * value + (digit.toNat - '0'.toNat)) 0

/-- The most digits that are converted to a number. -/
def maxDigits : Nat := 4300

namespace Reader

/-- Pass the rest of the line, but not its end. -/
def skipLine (r : Reader) : Reader :=
  r.skipWhile (· != '\n')

/-- Pass everything up to the end of a block comment, and the end as well; says whether the
source has one. -/
def skipToCommentEnd (r : Reader) : Bool × Reader :=
  match _h : r.peek 0 with
  | (none, ahead) => (false, ahead)
  | (some '*', ahead) =>
    match _h' : ahead.peek 1 with
    | (some '/', ahead) => (true, ahead.advance.advance)
    | (_, ahead) => skipToCommentEnd ahead.advance
  | (some _, ahead) => skipToCommentEnd ahead.advance
  termination_by r.remaining.length
  decreasing_by
    · simp [remaining_of_peek_some _h, remaining_advance, remaining_of_peek _h']
    · simp [remaining_of_peek_some _h]

/-- Pass a block comment that starts at the reader's place. -/
def skipBlock (r : Reader) : Except Fault Unit × Reader :=
  match r.advance.advance.skipToCommentEnd with
  | (true, rest) => (.ok (), rest)
  | (false, rest) => (.error (.problem .unterminatedComment r.position), rest)

theorem length_remaining_skipToCommentEnd (r : Reader) :
    r.skipToCommentEnd.2.remaining.length ≤ r.remaining.length := by
  fun_induction skipToCommentEnd r with
  | case1 r ahead h => simp [remaining_of_peek h]
  | case2 r ahead h ahead' h' =>
    simp [remaining_advance, remaining_of_peek h', remaining_of_peek h]
    omega
  | case3 r ahead h c ahead' hc h' ih =>
    simp [remaining_advance, remaining_of_peek h', remaining_of_peek h] at ih
    omega
  | case4 r c ahead hc h ih =>
    simp [remaining_advance, remaining_of_peek h] at ih
    omega

/-- Passing a block comment leaves less: its two opening characters are gone. -/
theorem length_remaining_skipBlock {r : Reader} (h : r.remaining ≠ []) :
    r.skipBlock.2.remaining.length < r.remaining.length := by
  have shorter := length_remaining_skipToCommentEnd r.advance.advance
  have positive := List.length_pos_iff.mpr h
  simp only [remaining_advance, List.length_tail] at shorter
  unfold skipBlock
  split <;> next rest heq => rw [heq] at shorter; simp only at shorter ⊢; omega

/-- Passing the rest of a line leaves less, unless the line is over. -/
theorem length_remaining_skipLine {r : Reader} {c : Char} {rest : List Char}
    (h : r.remaining = c :: rest) (hc : c ≠ '\n') :
    r.skipLine.remaining.length < r.remaining.length := by
  rw [skipLine, remaining_skipWhile, h]
  have := (List.dropWhile_suffix (l := rest) (fun d => d != '\n')).length_le
  simp [hc]
  omega

/-- Pass blanks and comments. -/
def skipIgnored (r : Reader) : Except Fault Unit × Reader :=
  match _h : r.peek 0 with
  | (none, ahead) => (.ok (), ahead)
  | (some c, ahead) =>
    if isBlank c then skipIgnored ahead.advance
    else if _hc : c = '/' then
      match _h' : ahead.peek 1 with
      | (some '/', ahead) => skipIgnored ahead.skipLine
      | (some '*', ahead) =>
        match _hb : ahead.skipBlock with
        | (.ok (), ahead) => skipIgnored ahead
        | (.error fault, ahead) => (.error fault, ahead)
      | (_, ahead) => (.ok (), ahead)
    else (.ok (), ahead)
  termination_by r.remaining.length
  decreasing_by
    · simp [remaining_of_peek_some _h]
    · have whole := remaining_of_peek_some _h
      rw [← remaining_of_peek _h, ← remaining_of_peek _h'] at whole ⊢
      exact length_remaining_skipLine whole (by rw [_hc]; decide)
    · have whole := remaining_of_peek_some _h
      rw [← remaining_of_peek _h, ← remaining_of_peek _h'] at whole ⊢
      have shorter := length_remaining_skipBlock (by rw [whole]; simp : _ ≠ [])
      rw [_hb] at shorter
      exact shorter

/-- Read the integer constant at the reader's place, as one that starts at `start`. -/
def integer (start : Position) (r : Reader) : Except Fault Token × Reader :=
  let (digits, rest) := r.takeWhile Char.isDigit
  let text := String.ofList digits
  let value := decimalValue digits
  if digits.isEmpty then (.error .emptyNumeral, rest)
  else if (digits.drop maxDigits).isEmpty then
    if value ≤ maxConstant then (.ok ⟨.integer text value, start⟩, rest)
    else (.error (.problem (.integerOutOfRange text) start), rest)
  else (.error .numeralTooLong, rest)

/-- Read the string constant whose opening quote is at the reader's place, as one that starts at
`start`. -/
def string (start : Position) (r : Reader) : Except Fault Token × Reader :=
  let (content, rest) := r.advance.takeWhile isStringChar
  match rest.peek 0 with
  | (some '"', rest) => (.ok ⟨.string (String.ofList content), start⟩, rest.advance)
  | (some c, rest) =>
    if c == '\n' || c == '\r' then (.error (.problem .unterminatedString start), rest)
    else (.error (.problem (.characterOutOfRange c) start), rest)
  | (none, rest) => (.error (.problem .unterminatedString start), rest)

/-- Read the word at the reader's place, as one that starts at `start`. -/
def word (start : Position) (r : Reader) : Token × Reader :=
  let (letters, rest) := r.takeWhile isWordChar
  (⟨.ofWord (String.ofList letters), start⟩, rest)

/-- Read the token whose first character `c` is in front of the reader. -/
def tokenFrom (c : Char) (r : Reader) : Except Fault Token × Reader :=
  match Symbol.ofChar? c with
  | some mark => (.ok ⟨.symbol mark, r.position⟩, r.advance)
  | none =>
    if c.isDigit then r.integer r.position
    else if c == '"' then r.string r.position
    else if isWordStart c then
      let (token, rest) := r.word r.position
      (.ok token, rest)
    else (.error (.problem (.unexpectedCharacter c) r.position), r)

theorem length_remaining_takeWhile {p : Char → Bool} {r : Reader} {c : Char} {rest : List Char}
    (h : r.remaining = c :: rest) (hc : p c) :
    (r.takeWhile p).2.remaining.length < r.remaining.length := by
  rw [remaining_takeWhile, h]
  have := (List.dropWhile_suffix (l := rest) p).length_le
  simp [hc]
  omega

/-- A token is at least one character long. -/
theorem length_remaining_of_tokenFrom {c : Char} {r rest : Reader} {token : Token}
    {tail : List Char} (h : r.remaining = c :: tail) (ht : r.tokenFrom c = (.ok token, rest)) :
    rest.remaining.length < r.remaining.length := by
  unfold tokenFrom at ht
  split at ht
  · obtain ⟨-, rfl⟩ := Prod.mk.inj ht
    simp [remaining_advance, h]
  · split at ht
    · next hd =>
      have shorter := length_remaining_takeWhile (p := Char.isDigit) h hd
      unfold integer at ht
      split at ht
      simp_all
      split at ht <;> grind
    · split at ht
      · have advanced := remaining_advance r
        have shorter := (List.dropWhile_suffix (l := r.advance.remaining) isStringChar).length_le
        rw [← remaining_takeWhile] at shorter
        unfold string at ht
        simp only at ht
        split at ht <;> try grind
        next ahead hp =>
          obtain ⟨-, rfl⟩ := Prod.mk.inj ht
          rw [remaining_advance, remaining_of_peek hp]
          simp [advanced, h] at shorter ⊢
          omega
      · split at ht
        · next hw =>
          have inside : isWordChar c := by
            simp only [isWordStart, Bool.or_eq_true] at hw
            simp only [isWordChar, Char.isAlphanum, Bool.or_eq_true]
            rcases hw with hw | hw <;> simp [hw]
          have shorter := length_remaining_takeWhile (p := isWordChar) h inside
          unfold word at ht
          simp_all
        · simp at ht

/-- Read the next token, if the source has one. -/
def nextToken (r : Reader) : Except Fault (Option Token) × Reader :=
  match r.skipIgnored with
  | (.error fault, rest) => (.error fault, rest)
  | (.ok (), rest) =>
    match rest.peek 0 with
    | (none, rest) => (.ok none, rest)
    | (some c, rest) =>
      match rest.tokenFrom c with
      | (.ok token, rest) => (.ok (some token), rest)
      | (.error fault, rest) => (.error fault, rest)

theorem length_remaining_skipIgnored (r : Reader) :
    r.skipIgnored.2.remaining.length ≤ r.remaining.length := by
  fun_induction skipIgnored r with
  | case1 r ahead h => simp [remaining_of_peek h]
  | case2 r c ahead h hc ih =>
    simp only [remaining_of_peek_some h, List.length_cons]
    omega
  | case3 r ahead ahead' h' h hc ih =>
    have whole := (remaining_of_peek h').trans (remaining_of_peek h)
    have shorter := length_remaining_skipLine (whole.trans (remaining_of_peek_some h)) (by decide)
    rw [whole] at shorter
    omega
  | case4 r ahead ahead' h' rest hb h hc ih =>
    have whole := (remaining_of_peek h').trans (remaining_of_peek h)
    have shorter := length_remaining_skipBlock (r := ahead') (by
      simp [whole, remaining_of_peek_some h])
    rw [hb, whole] at shorter
    simp only at shorter
    omega
  | case5 r ahead ahead' h' fault rest hb h hc =>
    have whole := (remaining_of_peek h').trans (remaining_of_peek h)
    have shorter := length_remaining_skipBlock (r := ahead') (by
      simp [whole, remaining_of_peek_some h])
    rw [hb, whole] at shorter
    simp only at shorter ⊢
    omega
  | case6 r ahead x ahead' hx hx' h' h hc =>
    simp [remaining_of_peek h', remaining_of_peek h]
  | case7 r c ahead h hc hc' => simp [remaining_of_peek h]

/-- A token that was read is gone from what is left. -/
theorem length_remaining_of_nextToken {r rest : Reader} {token : Token}
    (h : r.nextToken = (.ok (some token), rest)) :
    rest.remaining.length < r.remaining.length := by
  have shorter := length_remaining_skipIgnored r
  unfold nextToken at h
  split at h
  · simp at h
  · next ahead ha =>
    rw [ha] at shorter
    split at h
    · simp at h
    · next c front hc =>
      split at h
      · next found after hf =>
        have whole := remaining_of_peek_some hc
        rw [← remaining_of_peek hc] at whole
        have := length_remaining_of_tokenFrom whole hf
        rw [remaining_of_peek hc] at this
        simp only [Prod.mk.injEq] at h
        obtain ⟨-, rfl⟩ := h
        simp only at shorter
        omega
      · simp at h

end Reader

end Jack
