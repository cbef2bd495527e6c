import Jack.Proofs.Reading
import Mathlib.Data.Nat.Digits.Defs
import Mathlib.Data.List.Induction
import Mathlib.Data.List.TakeWhile

/-! # Tokenizing is exact

A source tokenizes in at most one way: as the lexemes of its tokens with gaps of blanks
and comments around them, where no lexeme could be longer. `Splits` says what such a
division of a row of characters is, without scanning; `tokenizing_is_exact` says that the
tokens of a source are exactly those of its division.
-/

namespace Jack

/-- A row of characters that separates tokens, in front of the characters that follow it. A line
comment is ended by a line feed or the end of the source; a block comment by its first closing
mark. -/
inductive Gap : List Char → List Char → Prop where
  | nil {rest : List Char} : Gap [] rest
  | blank {c : Char} {gap rest : List Char} (hc : isBlank c) (h : Gap gap rest) :
      Gap (c :: gap) rest
  | line {body gap rest : List Char} (inside : '\n' ∉ body)
      (ended : (gap ++ rest).head? = none ∨ (gap ++ rest).head? = some '\n') (h : Gap gap rest) :
      Gap ('/' :: '/' :: (body ++ gap)) rest
  | block {body gap rest : List Char} (inside : ¬ ['*', '/'] <:+: body) (h : Gap gap rest) :
      Gap ('/' :: '*' :: (body ++ '*' :: '/' :: gap)) rest

/-- Whether neither a blank nor a comment is in front. -/
def Stops (rest : List Char) : Prop :=
  (∀ c ∈ rest.head?, ¬ isBlank c) ∧ ¬ ['/', '/'] <+: rest ∧ ¬ ['/', '*'] <+: rest

/-- A row of letters, digits and underscores that does not start with a digit. -/
def IsWord (word : List Char) : Prop :=
  word ≠ [] ∧ (∀ c ∈ word, isWordChar c) ∧ ∀ c ∈ word.head?, ¬ c.isDigit

instance (word : List Char) : Decidable (IsWord word) :=
  decidable_of_iff (word ≠ [] ∧ word.all isWordChar ∧ word.head?.toList.all fun c => !c.isDigit)
    (by simp [IsWord])

namespace Lexeme

/-- What a lexeme of each kind can be. -/
def Proper : Lexeme → Prop
  | .keyword _ | .symbol _ => True
  | .identifier name => IsWord name.toList ∧ ∀ word : Keyword, word.text ≠ name
  | .integer digits value =>
    digits.toList ≠ [] ∧ (∀ c ∈ digits.toList, c.isDigit) ∧
      value = Nat.ofDigits 10 (digits.toList.reverse.map fun c => c.toNat - '0'.toNat) ∧
      value ≤ 32767
  | .string content =>
    ∀ c ∈ content.toList, c ≠ '"' ∧ c ≠ '\n' ∧ c ≠ '\r' ∧ c.toNat ≤ 0x7FFF
  | .endOfInput => False

/-- Whether a lexeme could not be longer with the characters that follow it. -/
def Maximal (rest : List Char) : Lexeme → Prop
  | .keyword _ | .identifier _ => ∀ c ∈ rest.head?, ¬ isWordChar c
  | .integer .. => ∀ c ∈ rest.head?, ¬ c.isDigit
  | .symbol .slash => ∀ c ∈ rest.head?, c ≠ '/' ∧ c ≠ '*'
  | _ => True

/-- Whether a lexeme is no numeral that is too long to be converted. -/
def Short (l : Lexeme) : Prop :=
  ∀ digits value, l = .integer digits value → digits.toList.length ≤ maxDigits

end Lexeme

/-- A token with the gap in front of it. -/
structure Piece where
  gap : List Char
  token : Token

namespace Piece

/-- The characters of a token. -/
def lexeme (p : Piece) : List Char :=
  p.token.lexeme.text.toList

/-- The characters of a gap and its token. -/
def row (p : Piece) : List Char :=
  p.gap ++ p.lexeme

end Piece

/-- The characters of all pieces and of the gap behind the last one. -/
def rowOf (pieces : List Piece) (last : List Char) : List Char :=
  pieces.flatMap Piece.row ++ last

/-- The place behind some characters from the start of a source. -/
def Position.behind (before : List Char) : Position :=
  ⟨1 + before.count '\n', 1 + (before.reverse.takeWhile (· != '\n')).length⟩

/-- Whether a piece fits between the characters before it and those after it. -/
structure Piece.Fits (before : List Char) (p : Piece) (after : List Char) : Prop where
  gap : Gap p.gap (p.lexeme ++ after)
  proper : p.token.lexeme.Proper
  maximal : p.token.lexeme.Maximal after
  placed : p.token.position = .behind (before ++ p.gap)

/-- Pieces that fit one behind the other, with a last gap up to the end of the source. -/
inductive Divides : List Char → List Piece → List Char → Prop where
  | last {before last : List Char} (h : Gap last []) : Divides before [] last
  | piece {before last : List Char} {p : Piece} {pieces : List Piece}
      (fits : p.Fits before (rowOf pieces last)) (h : Divides (before ++ p.row) pieces last) :
      Divides before (p :: pieces) last

/-- A division of a row of characters into gaps and tokens at their places. -/
structure Splits (row : List Char) (pieces : List Piece) (last : List Char) : Prop where
  spelled : row = rowOf pieces last
  divides : Divides [] pieces last

theorem Position.past_start (before : List Char) :
    Position.start.past before = .behind before := by
  induction before using List.reverseRecOn with
  | nil => rfl
  | append_singleton before c ih =>
      rw [Position.past_append, ih, Position.past_cons, Position.past_nil]
      by_cases hc : c = '\n'
      · subst hc
        simp [Position.behind, Position.after]
        omega
      · simp [Position.behind, Position.after, hc]
        omega

/-! ### Characters that start tokens -/

theorem Symbol.ofChar?_eq_some_iff {c : Char} {mark : Symbol} :
    Symbol.ofChar? c = some mark ↔ c = mark.char := by
  constructor
  · exact fun h => (Symbol.char_of_ofChar? h).symm
  · rintro rfl
    exact Symbol.ofChar?_char mark

/-- A character that is no symbol's is looked up in vain. -/
theorem Symbol.ofChar?_eq_none {c : Char} (h : ∀ mark : Symbol, mark.char ≠ c) :
    Symbol.ofChar? c = none := by
  cases found : Symbol.ofChar? c with
  | none => rfl
  | some mark => exact absurd (Symbol.char_of_ofChar? found) (h mark)

theorem isWordStart_iff {c : Char} :
    isWordStart c ↔
      (65 ≤ c.toNat ∧ c.toNat ≤ 90) ∨ (97 ≤ c.toNat ∧ c.toNat ≤ 122) ∨ c.toNat = 95 := by
  have upper : c.isUpper ↔ 65 ≤ c.toNat ∧ c.toNat ≤ 90 := decide_eq_true_iff
  have lower : c.isLower ↔ 97 ≤ c.toNat ∧ c.toNat ≤ 122 :=
    (Bool.and_eq_true_iff ..).trans (and_congr decide_eq_true_iff decide_eq_true_iff)
  have alpha : c.isAlpha ↔ c.isUpper ∨ c.isLower := Bool.or_eq_true_iff
  have underscore : c == '_' ↔ c.toNat = 95 := by
    rw [beq_iff_eq, Char.ext_iff, ← UInt32.toNat_inj]
    rfl
  rw [isWordStart, Bool.or_eq_true, alpha, upper, lower, underscore, or_assoc]

theorem isDigit_iff {c : Char} : c.isDigit ↔ 48 ≤ c.toNat ∧ c.toNat ≤ 57 :=
  Char.isDigit_iff_toNat

theorem isDigit_eq_false_of_isWordStart {c : Char} (h : isWordStart c) : c.isDigit = false := by
  rw [isWordStart_iff] at h
  rw [Bool.eq_false_iff, ne_eq, isDigit_iff]
  omega

theorem isWordChar_eq {c : Char} : isWordChar c = (isWordStart c || c.isDigit) := by
  rw [isWordChar, isWordStart, Char.isAlphanum, Bool.or_right_comm]

theorem isBlank_eq_false_of_isWordChar {c : Char} (h : isWordChar c) : isBlank c = false := by
  rw [isWordChar_eq, Bool.or_eq_true, isWordStart_iff, isDigit_iff] at h
  simp only [isBlank, Bool.or_eq_false_iff, Bool.and_eq_false_iff, decide_eq_false_iff_not,
    beq_eq_false_iff_ne]
  omega

/-! ### Gaps -/

theorem not_infix_cons {c : Char} {body : List Char} :
    ¬ ['*', '/'] <:+: c :: body ↔
      (c = '*' → body.head? ≠ some '/') ∧ ¬ ['*', '/'] <:+: body := by
  rw [List.infix_cons_iff, not_or]
  refine and_congr_left fun _ => ?_
  cases body with
  | nil => simp
  | cons d body =>
      simp only [List.cons_prefix_cons, List.nil_prefix, and_true, List.head?_cons, ne_eq,
        Option.some.injEq, not_and, eq_comm (a := '*'), eq_comm (a := '/')]

theorem stops_of_ne {c : Char} {rest : List Char} (hb : ¬ isBlank c) (hc : c ≠ '/') :
    Stops (c :: rest) := by
  refine ⟨by simpa using hb, ?_, ?_⟩
  · exact fun slashes => hc (List.cons_prefix_cons.mp slashes).1.symm
  · exact fun mark => hc (List.cons_prefix_cons.mp mark).1.symm

theorem stops_slash {rest : List Char} (hl : rest.head? ≠ some '/') (hs : rest.head? ≠ some '*') :
    Stops ('/' :: rest) := by
  refine ⟨by simp; decide, ?_, ?_⟩
  · rintro ⟨tail, whole⟩
    obtain rfl := (List.cons.inj whole).2
    exact hl rfl
  · rintro ⟨tail, whole⟩
    obtain rfl := (List.cons.inj whole).2
    exact hs rfl

namespace Reader

/-- A block comment is passed up to its first closing mark. -/
theorem skipToCommentEnd_of_closed {body rest : List Char} (inside : ¬ ['*', '/'] <:+: body)
    {r : Reader} (h : r.remaining = body ++ '*' :: '/' :: rest) :
    ∃ after, r.skipToCommentEnd = (true, after) ∧ r.Passes (body ++ ['*', '/']) after := by
  induction body generalizing r with
  | nil =>
      obtain ⟨ahead, hp, front⟩ := passes_front h
      obtain ⟨after, hq, second⟩ := passes_second h front
      refine ⟨_, skipToCommentEnd_at_close hp hq, ?_⟩
      have star := second.trans (passes_advance (second.left h))
      exact star.trans (passes_advance (star.left h))
  | cons c body ih =>
      obtain ⟨open', inside⟩ := not_infix_cons.mp inside
      obtain ⟨ahead, hp, front⟩ := passes_front h
      by_cases hc : c = '*'
      · obtain ⟨after, hq, second⟩ := passes_second h front
        have star := second.trans (passes_advance (second.left h))
        obtain ⟨last, found, passed⟩ := ih inside (star.left h)
        refine ⟨last, ?_, star.trans passed⟩
        subst hc
        rw [skipToCommentEnd_at_star hp hq, found]
        cases body with
        | nil => simp
        | cons d body => simpa using open' rfl
      · have other := front.trans (passes_advance (front.left h))
        obtain ⟨last, found, passed⟩ := ih inside (other.left h)
        refine ⟨last, ?_, other.trans passed⟩
        rw [skipToCommentEnd_at_other hp hc, found]

/-- What was passed when a comment was closed ends with the first closing mark. -/
theorem exists_of_skipToCommentEnd {r after : Reader} (h : r.skipToCommentEnd = (true, after)) :
    ∃ body, ¬ ['*', '/'] <:+: body ∧ r.Passes (body ++ ['*', '/']) after := by
  fun_induction skipToCommentEnd r with
  | case1 r ahead hp => cases h
  | case2 r ahead hp next hq =>
      cases h
      obtain ⟨front, rest, whole⟩ := remaining_of_peeks hp hq
      have star := front.trans (passes_advance (front.left whole))
      exact ⟨[], by simp, star.trans (passes_advance (star.left whole))⟩
  | case3 r ahead hp c next hc hq ih =>
      obtain ⟨body, inside, passed⟩ := ih h
      have whole := remaining_of_peek_some hp
      have star : r.Passes ['*'] next.advance :=
        have front := (passes_of_peek hp).trans (passes_of_peek hq)
        front.trans (passes_advance (front.left whole))
      refine ⟨'*' :: body, not_infix_cons.mpr ⟨fun _ slash => hc ?_, inside⟩, star.trans passed⟩
      have second := getElem?_of_peek hq
      rw [remaining_of_peek hp, (star.trans passed).remaining] at second
      obtain ⟨tail, rfl⟩ := List.head?_eq_some_iff.mp slash
      exact second.symm
  | case4 r c ahead hc hp ih =>
      obtain ⟨body, inside, passed⟩ := ih h
      refine ⟨c :: body, ?_, (passes_of_peek_some hp).trans passed⟩
      exact not_infix_cons.mpr ⟨fun star => absurd star hc, inside⟩

theorem skipIgnored_of_stops {r : Reader} (stops : Stops r.remaining) :
    ∃ after, r.skipIgnored = (.ok (), after) ∧ r.Passes [] after := by
  obtain ⟨notBlank, notLine, notBlock⟩ := stops
  cases whole : r.remaining with
  | nil =>
      have front := fst_peek 0 r
      rw [whole] at front
      exact ⟨_, skipIgnored_at_end (Prod.ext front rfl), passes_of_peek rfl⟩
  | cons c rest =>
      rw [whole] at notBlank notLine notBlock
      obtain ⟨ahead, hp, front⟩ := passes_front whole
      have hb : ¬ isBlank c := notBlank c rfl
      by_cases hc : c = '/'
      · subst hc
        obtain ⟨next, hq, second⟩ := passes_second whole front
        refine ⟨next, skipIgnored_at_slash hp hq ?_ ?_, second⟩
        · intro slash
          obtain ⟨tail, rfl⟩ := List.head?_eq_some_iff.mp slash
          exact notLine (List.prefix_append ['/', '/'] tail)
        · intro star
          obtain ⟨tail, rfl⟩ := List.head?_eq_some_iff.mp star
          exact notBlock (List.prefix_append ['/', '*'] tail)
      · exact ⟨ahead, skipIgnored_at_other hp hb hc, front⟩

/-- Characters of one class are passed up to the first one outside it. -/
theorem passes_takeWhile_append {p : Char → Bool} {row rest : List Char} (inside : ∀ c ∈ row, p c)
    (ended : ∀ c ∈ rest.head?, ¬ p c) {r : Reader} (whole : r.remaining = row ++ rest) :
    (r.takeWhile p).1 = row ∧ r.Passes row (r.takeWhile p).2 := by
  have taken : (row ++ rest).takeWhile p = row := by
    rw [List.takeWhile_append_of_pos inside]
    cases rest with
    | nil => simp
    | cons c rest => rw [List.takeWhile_cons_of_neg (ended c rfl), List.append_nil]
  have passed := passes_takeWhile p r
  rw [whole, taken] at passed
  exact ⟨by rw [fst_takeWhile, whole, taken], passed⟩

theorem passes_skipLine {body rest : List Char} (inside : '\n' ∉ body)
    (ended : rest.head? = none ∨ rest.head? = some '\n') {r : Reader}
    (whole : r.remaining = body ++ rest) : r.Passes body r.skipLine := by
  refine (passes_takeWhile_append ?_ ?_ whole).2
  · intro c hc
    simpa using ne_of_mem_of_not_mem hc inside
  · intro c hc
    rcases ended with none | feed
    · rw [none] at hc; cases hc
    · rw [feed] at hc; cases hc; simp

/-- A gap is passed up to the token behind it. -/
theorem skipIgnored_of_gap {gap rest : List Char} (h : Gap gap rest) (stops : Stops rest)
    {r : Reader} (whole : r.remaining = gap ++ rest) :
    ∃ after, r.skipIgnored = (.ok (), after) ∧ r.Passes gap after := by
  induction h generalizing r with
  | @nil rest => exact skipIgnored_of_stops (by rw [whole]; exact stops)
  | @blank c gap rest hc h ih =>
      obtain ⟨ahead, hp, front⟩ := passes_front whole
      have blank := front.trans (passes_advance (front.left whole))
      obtain ⟨after, found, passed⟩ := ih stops (blank.left whole)
      exact ⟨after, (skipIgnored_at_blank hp hc).trans found, blank.trans passed⟩
  | @line body gap rest inside ended h ih =>
      obtain ⟨ahead, hp, front⟩ := passes_front whole
      obtain ⟨next, hq, second⟩ := passes_second whole front
      have comment : next.Passes ('/' :: '/' :: body) next.skipLine :=
        passes_skipLine (by simpa using inside) ended
          ((second.left whole).trans (by simp))
      have comment := second.trans comment
      obtain ⟨after, found, passed⟩ := ih stops (comment.left (whole.trans (by simp)))
      exact ⟨after, (skipIgnored_at_line hp hq).trans found, comment.trans passed⟩
  | @block body gap rest inside h ih =>
      obtain ⟨ahead, hp, front⟩ := passes_front whole
      obtain ⟨next, hq, second⟩ := passes_second whole front
      have slash := second.trans (passes_advance (second.left whole))
      have star := slash.trans (passes_advance (slash.left whole))
      obtain ⟨closed, ends, passed⟩ :=
        skipToCommentEnd_of_closed inside ((star.left whole).trans (List.append_assoc ..))
      have comment := star.trans passed
      obtain ⟨after, found, passed⟩ := ih stops (comment.left (whole.trans (by simp)))
      refine ⟨after, ?_, by simpa using comment.trans passed⟩
      rw [skipIgnored_at_block hp hq, skipBlock, ends]
      exact found

/-- Skipping passes a gap and leaves neither a blank nor a comment in front. -/
theorem gap_of_skipIgnored {r after : Reader} (h : r.skipIgnored = (.ok (), after)) :
    ∃ gap, Gap gap after.remaining ∧ Stops after.remaining ∧ r.Passes gap after := by
  fun_induction skipIgnored r with
  | case1 r ahead hp =>
      cases h
      rw [remaining_of_peek hp, remaining_of_peek_none hp]
      exact ⟨[], .nil, by simp [Stops], passes_of_peek hp⟩
  | case2 r c ahead hp hc ih =>
      obtain ⟨gap, isGap, stops, passed⟩ := ih h
      exact ⟨c :: gap, .blank hc isGap, stops, (passes_of_peek_some hp).trans passed⟩
  | case3 r ahead next hq hp hb ih =>
      obtain ⟨gap, isGap, stops, passed⟩ := ih h
      obtain ⟨front, rest, whole⟩ := remaining_of_peeks hp hq
      have comment := passes_takeWhile (· != '\n') next
      have left := remaining_skipWhile (· != '\n') next
      rw [front.left whole, List.takeWhile_cons_of_pos (by decide),
        List.takeWhile_cons_of_pos (by decide)] at comment
      rw [front.left whole, List.dropWhile_cons_of_pos (by decide),
        List.dropWhile_cons_of_pos (by decide)] at left
      refine ⟨'/' :: '/' :: (rest.takeWhile (· != '\n') ++ gap), .line ?_ ?_ isGap, stops,
        (front.trans comment).trans passed⟩
      · intro inside
        simpa using List.mem_takeWhile_imp inside
      · rw [← passed.remaining]
        rw [skipLine, left]
        cases ends : rest.dropWhile (· != '\n') with
        | nil => exact .inl rfl
        | cons c tail =>
            have stop := List.head?_dropWhile_not (· != '\n') rest
            rw [ends] at stop
            exact .inr (by simpa using stop)
  | case4 r ahead next hq rest hk hp hb ih =>
      obtain ⟨gap, isGap, stops, passed⟩ := ih h
      obtain ⟨front, tail, whole⟩ := remaining_of_peeks hp hq
      have slash := front.trans (passes_advance (front.left whole))
      have star := slash.trans (passes_advance (slash.left whole))
      unfold skipBlock at hk
      split at hk
      · next last ends =>
        cases hk
        obtain ⟨body, inside, comment⟩ := exists_of_skipToCommentEnd ends
        refine ⟨_, .block inside isGap, stops, ?_⟩
        simpa using (star.trans comment).trans passed
      · cases hk
  | case5 r ahead next hq fault rest hk hp hb => cases h
  | case6 r ahead x next hl hs hq hp hb =>
      cases h
      have front := (passes_of_peek hp).trans (passes_of_peek hq)
      have second := getElem?_of_peek hq
      rw [remaining_of_peek hp, remaining_of_peek_some hp, List.getElem?_cons_succ,
        ← List.head?_eq_getElem?] at second
      refine ⟨[], .nil, ?_, front⟩
      rw [remaining_of_peek hq, remaining_of_peek hp, remaining_of_peek_some hp]
      exact stops_slash (second ▸ hl) (second ▸ hs)
  | case7 r c ahead hp hb hc =>
      cases h
      refine ⟨[], .nil, ?_, passes_of_peek hp⟩
      rw [remaining_of_peek hp, remaining_of_peek_some hp]
      exact stops_of_ne hb hc

end Reader

/-! ### Tokens -/

theorem decimalValue_eq (digits : List Char) :
    decimalValue digits = Nat.ofDigits 10 (digits.reverse.map fun c => c.toNat - '0'.toNat) := by
  rw [Nat.ofDigits_eq_foldr, List.foldr_map, List.foldr_reverse, decimalValue]
  simp only [Nat.cast_id, Nat.add_comm]

theorem Lexeme.ofWord_text (word : Keyword) : Lexeme.ofWord word.text = .keyword word := by
  rw [Lexeme.ofWord, Keyword.ofText?_text]

theorem Lexeme.ofWord_of_ne {name : String} (h : ∀ word : Keyword, word.text ≠ name) :
    Lexeme.ofWord name = .identifier name := by
  unfold Lexeme.ofWord
  cases found : Keyword.ofText? name with
  | none => rfl
  | some word => exact absurd (Keyword.text_of_ofText? found) (h word)

theorem isWord_text (word : Keyword) : IsWord word.text.toList := by
  cases word <;> simp [IsWord, Keyword.text] <;> decide

theorem Lexeme.text_ofWord (word : String) : (Lexeme.ofWord word).text = word := by
  unfold Lexeme.ofWord
  cases found : Keyword.ofText? word with
  | none => rfl
  | some reserved => exact Keyword.text_of_ofText? found

theorem Lexeme.proper_ofWord {word : String} (h : IsWord word.toList) :
    (Lexeme.ofWord word).Proper := by
  unfold Lexeme.ofWord
  cases found : Keyword.ofText? word with
  | none =>
      refine ⟨h, fun reserved same => ?_⟩
      rw [← same, Keyword.ofText?_text] at found
      cases found
  | some reserved => trivial

/-- A lexeme could not be longer either with a blank behind it. -/
theorem Lexeme.Maximal.of_head {l : Lexeme} {rest rest' : List Char} (h : l.Maximal rest)
    (same : ∀ c ∈ rest'.head?, isBlank c ∨ c ∈ rest.head?) : l.Maximal rest' := by
  have blanks {c : Char} (hc : isBlank c) : ¬ isWordChar c := fun inside => by
    rw [isBlank_eq_false_of_isWordChar inside] at hc
    cases hc
  unfold Maximal at *
  split at h
  · exact fun c first => (same c first).elim blanks (h c)
  · exact fun c first => (same c first).elim blanks (h c)
  · refine fun c first => (same c first).elim (fun hc digit => blanks hc ?_) (h c)
    rw [isWordChar_eq, digit, Bool.or_true]
  · refine fun c first => (same c first).elim (fun hc => ?_) (h c)
    constructor <;> rintro rfl <;> exact absurd hc (by decide)
  · trivial

/-- A lexeme cannot be longer with a blank, or with nothing, right behind it. -/
theorem Lexeme.maximal_of_blank {l : Lexeme} {rest : List Char}
    (blank : ∀ c ∈ rest.head?, isBlank c) : l.Maximal rest := by
  have alone : l.Maximal [] := by unfold Lexeme.Maximal; split <;> simp
  exact alone.of_head fun c first => .inl (blank c first)

theorem Lexeme.maximal_ofWord {word : String} {rest : List Char}
    (h : ∀ c ∈ rest.head?, ¬ isWordChar c) : (Lexeme.ofWord word).Maximal rest := by
  unfold Lexeme.ofWord
  split <;> exact h

theorem ofChar?_of_isWordChar {c : Char} (h : isWordChar c) : Symbol.ofChar? c = none :=
  Symbol.ofChar?_eq_none fun mark same => by
    subst same
    cases mark <;> revert h <;> decide

theorem isWordStart_of_isWord {c : Char} {word : List Char} (h : IsWord (c :: word)) :
    isWordStart c := by
  have inside := h.2.1 c (by simp)
  have notDigit := h.2.2 c rfl
  rw [isWordChar_eq] at inside
  simpa [notDigit] using inside

namespace Reader

variable {r after : Reader} {rest : List Char}

theorem tokenFrom_of_word {word : String} (h : IsWord word.toList)
    (ended : ∀ c ∈ rest.head?, ¬ isWordChar c) (whole : r.remaining = word.toList ++ rest) :
    ∃ c ∈ word.toList.head?, ∃ after, r.tokenFrom c = (.ok ⟨.ofWord word, r.position⟩, after) ∧
      r.Passes word.toList after := by
  obtain ⟨taken, passed⟩ := passes_takeWhile_append h.2.1 ended whole
  cases letters : word.toList with
  | nil => exact absurd letters h.1
  | cons c tail =>
      rw [letters] at h
      have start := isWordStart_of_isWord h
      have quote : (c == '"') = false := by
        rw [beq_eq_false_iff_ne]
        rintro rfl
        exact absurd start (by decide)
      refine ⟨c, rfl, (r.takeWhile isWordChar).2, ?_, letters ▸ passed⟩
      rw [tokenFrom, ofChar?_of_isWordChar (h.2.1 c (by simp))]
      simp [isDigit_eq_false_of_isWordStart start, quote, start, Reader.word, taken]

theorem tokenFrom_of_isDigit {c : Char} (digit : c.isDigit) (r : Reader) :
    r.tokenFrom c = r.integer r.position := by
  have wordChar : isWordChar c := by rw [isWordChar_eq, digit, Bool.or_true]
  rw [tokenFrom, ofChar?_of_isWordChar wordChar]
  simp only [digit, if_true]

theorem tokenFrom_of_integer {digits : String} {value : Nat}
    (h : (Lexeme.integer digits value).Proper) (short : digits.toList.length ≤ maxDigits)
    (ended : ∀ c ∈ rest.head?, ¬ c.isDigit) (whole : r.remaining = digits.toList ++ rest) :
    ∃ c ∈ digits.toList.head?, ∃ after,
      r.tokenFrom c = (.ok ⟨.integer digits value, r.position⟩, after) ∧
        r.Passes digits.toList after := by
  obtain ⟨nonempty, inside, counted, bounded⟩ := h
  obtain ⟨taken, passed⟩ := passes_takeWhile_append inside ended whole
  rw [← decimalValue_eq] at counted
  have bounded : value ≤ maxConstant := bounded
  refine ⟨_, List.head_mem_head? nonempty, (r.takeWhile Char.isDigit).2, ?_, passed⟩
  rw [tokenFrom_of_isDigit (inside _ (List.head_mem nonempty))]
  simp only [integer, taken]
  rw [if_neg (by simpa using nonempty), if_pos (by simpa using short), ← counted,
    if_pos bounded, String.ofList_toList]

theorem isStringChar_iff {c : Char} :
    isStringChar c ↔ c ≠ '"' ∧ c ≠ '\n' ∧ c ≠ '\r' ∧ c.toNat ≤ 32767 := by
  rw [← maxConstant]
  simp only [isStringChar, Bool.and_eq_true, bne_iff_ne, decide_eq_true_eq, and_assoc]

theorem tokenFrom_of_string {content : String} (h : (Lexeme.string content).Proper)
    (whole : r.remaining = '"' :: (content.toList ++ '"' :: rest)) :
    ∃ after, r.tokenFrom '"' = (.ok ⟨.string content, r.position⟩, after) ∧
      r.Passes ('"' :: (content.toList ++ ['"'])) after := by
  have open' := passes_advance whole
  have ended : ∀ c ∈ ('"' :: rest).head?, ¬ isStringChar c := by
    rintro c ⟨⟩
    decide
  obtain ⟨taken, inside⟩ := passes_takeWhile_append (p := isStringChar)
    (fun c hc => isStringChar_iff.mpr (h c hc)) ended (open'.left whole)
  obtain ⟨ahead, hp, front⟩ := passes_front (inside.left (open'.left whole))
  have content' := (open'.trans inside).trans front
  have quote : ahead.remaining = '"' :: rest := content'.left (whole.trans (by simp))
  have close := content'.trans (passes_advance quote)
  refine ⟨ahead.advance, ?_, by simpa using close⟩
  rw [tokenFrom, show Symbol.ofChar? '"' = none by decide]
  simp only [show '"'.isDigit = false by decide, string, hp, taken, String.ofList_toList]
  rfl

/-- A lexeme that is in front, and could not be longer, is read as it is. -/
theorem tokenFrom_of_maximal {lexeme : Lexeme} (proper : lexeme.Proper)
    (maximal : lexeme.Maximal rest) (short : lexeme.Short)
    (whole : r.remaining = lexeme.text.toList ++ rest) :
    ∃ c ∈ lexeme.text.toList.head?, ∃ after,
      r.tokenFrom c = (.ok ⟨lexeme, r.position⟩, after) ∧
        r.Passes lexeme.text.toList after := by
  cases lexeme with
  | keyword reserved =>
      have found := tokenFrom_of_word (isWord_text reserved) maximal whole
      rwa [Lexeme.ofWord_text] at found
  | symbol mark =>
      have single : mark.text.toList = [mark.char] := by simp [Symbol.text]
      simp only [Lexeme.text, single] at whole ⊢
      refine ⟨mark.char, rfl, r.advance, ?_, passes_advance whole⟩
      rw [tokenFrom, Symbol.ofChar?_char]
  | identifier name =>
      have found := tokenFrom_of_word proper.1 maximal whole
      rwa [Lexeme.ofWord_of_ne proper.2] at found
  | integer digits value =>
      exact tokenFrom_of_integer proper (short digits value rfl) maximal whole
  | string content =>
      have quoted : (Lexeme.string content).text.toList = '"' :: (content.toList ++ ['"']) := by
        simp [Lexeme.text]
      rw [quoted] at whole ⊢
      have whole : r.remaining = '"' :: (content.toList ++ '"' :: rest) := by simpa using whole
      obtain ⟨after, found, passed⟩ := tokenFrom_of_string proper whole
      exact ⟨'"', rfl, after, found, passed⟩
  | endOfInput => exact proper.elim

end Reader

theorem stops_of_isWordChar {row rest : List Char} (nonempty : row ≠ [])
    (inside : ∀ c ∈ row, isWordChar c) : Stops (row ++ rest) := by
  cases row with
  | nil => exact absurd rfl nonempty
  | cons c tail =>
      have first := inside c (by simp)
      refine stops_of_ne (by simp [isBlank_eq_false_of_isWordChar first]) ?_
      rintro rfl
      exact absurd first (by decide)

/-- Neither a blank nor a comment starts with a lexeme. -/
theorem stops_of_maximal {lexeme : Lexeme} {rest : List Char} (proper : lexeme.Proper)
    (maximal : lexeme.Maximal rest) : Stops (lexeme.text.toList ++ rest) := by
  cases lexeme with
  | keyword reserved =>
      have word := isWord_text reserved
      exact stops_of_isWordChar word.1 word.2.1
  | symbol mark =>
      have single : mark.text.toList = [mark.char] := by simp [Symbol.text]
      simp only [Lexeme.text, single, List.cons_append, List.nil_append]
      by_cases slash : mark = .slash
      · subst slash
        apply stops_slash
        · exact fun line => (maximal _ line).1 rfl
        · exact fun block => (maximal _ block).2 rfl
      · refine stops_of_ne ?_ ?_
        · cases mark <;> decide
        · cases mark <;> first | decide | exact absurd rfl slash
  | identifier name => exact stops_of_isWordChar proper.1.1 proper.1.2.1
  | integer digits value =>
      refine stops_of_isWordChar proper.1 fun c hc => ?_
      rw [isWordChar_eq, proper.2.1 c hc, Bool.or_true]
  | string content =>
      simp only [Lexeme.text, String.toList_append, List.append_assoc]
      exact stops_of_ne (by decide) (by decide)
  | endOfInput => exact proper.elim

namespace Reader

theorem head?_dropWhile {p : Char → Bool} {row : List Char} :
    ∀ c ∈ (row.dropWhile p).head?, ¬ p c := by
  intro c hc
  have stop := List.head?_dropWhile_not p row
  rw [hc] at stop
  simpa using stop

/-- A token is read: it is placed where the reader was, is what its kind can be, could not be
longer, and its lexeme is passed. -/
structure Reads (r : Reader) (token : Token) (after : Reader) : Prop where
  placed : token.position = r.position
  proper : token.lexeme.Proper
  maximal : token.lexeme.Maximal after.remaining
  passes : r.Passes token.lexeme.text.toList after

section Reads

variable {r after : Reader} {token : Token} {c : Char} {tail : List Char}

theorem reads_of_symbol (stops : Stops r.remaining) (whole : r.remaining = c :: tail)
    {mark : Symbol} (found : Symbol.ofChar? c = some mark) :
    r.Reads ⟨.symbol mark, r.position⟩ r.advance := by
  obtain rfl := Symbol.ofChar?_eq_some_iff.mp found
  have passed := passes_advance whole
  refine ⟨rfl, trivial, ?_, by simpa [Lexeme.text, Symbol.text] using passed⟩
  rw [passed.left whole]
  rw [whole] at stops
  -- Only the slash could have been the start of something longer.
  cases mark <;> try trivial
  intro d hd
  obtain ⟨rest, rfl⟩ := List.head?_eq_some_iff.mp hd
  constructor
  · rintro rfl
    exact stops.2.1 ⟨rest, rfl⟩
  · rintro rfl
    exact stops.2.2 ⟨rest, rfl⟩

theorem reads_of_integer (h : r.integer r.position = (.ok token, after)) :
    r.Reads token after := by
  have taken := fst_takeWhile Char.isDigit r
  have passed := passes_takeWhile Char.isDigit r
  have left := remaining_takeWhile Char.isDigit r
  simp only [integer, taken] at h
  split at h
  · cases h
  · next nonempty =>
    split at h
    · split at h
      · next bounded =>
        cases h
        refine ⟨rfl, ⟨?_, ?_, ?_, bounded⟩, ?_, ?_⟩
        · simpa using nonempty
        · intro d hd
          rw [String.toList_ofList] at hd
          exact List.mem_takeWhile_imp hd
        · rw [String.toList_ofList, decimalValue_eq]
        · rw [left]
          exact head?_dropWhile
        · rw [Lexeme.text, String.toList_ofList]
          exact passed
      · cases h
    · cases h

theorem reads_of_string (whole : r.remaining = '"' :: tail)
    (h : r.string r.position = (.ok token, after)) : r.Reads token after := by
  have taken := fst_takeWhile isStringChar r.advance
  have inside := (passes_advance whole).trans (passes_takeWhile isStringChar r.advance)
  simp only [string, taken] at h
  split at h
  · next rest close =>
    cases h
    refine ⟨rfl, ?_, trivial, ?_⟩
    · intro d hd
      rw [String.toList_ofList] at hd
      exact isStringChar_iff.mp (List.mem_takeWhile_imp hd)
    · have passed := inside.trans (passes_of_peek_some close)
      simpa [Lexeme.text] using passed
  · split at h <;> cases h
  · cases h

theorem reads_of_word (whole : r.remaining = c :: tail) (start : isWordStart c) :
    r.Reads (r.word r.position).1 (r.word r.position).2 := by
  have taken := fst_takeWhile isWordChar r
  have passed := passes_takeWhile isWordChar r
  have left := remaining_takeWhile isWordChar r
  have inside : isWordChar c := by rw [isWordChar_eq, start, Bool.true_or]
  simp only [word, taken]
  refine ⟨rfl, Lexeme.proper_ofWord ⟨?_, ?_, ?_⟩, Lexeme.maximal_ofWord ?_, ?_⟩
  · rw [String.toList_ofList, whole, List.takeWhile_cons_of_pos inside]
    simp
  · intro d hd
    rw [String.toList_ofList] at hd
    exact List.mem_takeWhile_imp hd
  · rw [String.toList_ofList, whole, List.takeWhile_cons_of_pos inside]
    rintro d ⟨⟩
    simp [isDigit_eq_false_of_isWordStart start]
  · rw [left]
    exact head?_dropWhile
  · rw [Lexeme.text_ofWord, String.toList_ofList]
    exact passed

theorem reads_of_tokenFrom (stops : Stops r.remaining) (whole : r.remaining = c :: tail)
    (h : r.tokenFrom c = (.ok token, after)) : r.Reads token after := by
  unfold tokenFrom at h
  split at h
  · next mark found =>
    cases h
    exact reads_of_symbol stops whole found
  · split at h
    · exact reads_of_integer h
    · split at h
      · next quote =>
        obtain rfl : c = '"' := by simpa using quote
        exact reads_of_string whole h
      · split at h
        · next start =>
          cases h
          exact reads_of_word whole start
        · cases h

end Reads

end Reader

/-! ### Pieces -/

/-- The numerals of a row of characters are short enough to be converted. -/
def ShortNumerals (row : List Char) : Prop :=
  ∀ run, run <:+: row → (∀ c ∈ run, c.isDigit) → run.length ≤ maxDigits

theorem ShortNumerals.of_append {front row : List Char} (h : ShortNumerals (front ++ row)) :
    ShortNumerals row :=
  fun run inside => h run (inside.trans (List.suffix_append front row).isInfix)

theorem ShortNumerals.lexeme {p : Piece} {before rest : List Char} (fits : p.Fits before rest)
    (h : ShortNumerals (p.row ++ rest)) : p.token.lexeme.Short := by
  intro digits value numeral
  have proper := fits.proper
  rw [numeral] at proper
  refine h digits.toList ?_ proper.2.1
  refine ⟨p.gap, rest, ?_⟩
  rw [Piece.row, Piece.lexeme, numeral]
  rfl

theorem rowOf_cons (p : Piece) (pieces : List Piece) (last : List Char) :
    rowOf (p :: pieces) last = p.row ++ rowOf pieces last := by
  rw [rowOf, rowOf, List.flatMap_cons, List.append_assoc]

theorem ShortNumerals.lexemes {before last : List Char} {pieces : List Piece}
    (h : Divides before pieces last) (short : ShortNumerals (rowOf pieces last)) :
    ∀ p ∈ pieces, p.token.lexeme.Short := by
  induction h with
  | last isGap =>
      intro p inside
      cases inside
  | piece fits divides ih =>
      rw [rowOf_cons] at short
      rw [List.forall_mem_cons]
      exact ⟨short.lexeme fits, ih short.of_append⟩

theorem Piece.eq_of_row {p p' : Piece} (token : p.token = p'.token) (row : p.row = p'.row) :
    p = p' := by
  obtain ⟨gap, token⟩ := p
  obtain ⟨gap', token'⟩ := p'
  subst token
  obtain rfl : gap = gap' := List.append_cancel_right row
  rfl

namespace Reader

theorem nextToken_of_gap {r : Reader} (h : Gap r.remaining []) :
    ∃ after, r.nextToken = (.ok none, after) := by
  obtain ⟨next, skipped, passed⟩ :=
    skipIgnored_of_gap h (by simp [Stops]) (List.append_nil _).symm
  have ended := fst_peek 0 next
  rw [passed.left (List.append_nil _).symm] at ended
  obtain ⟨after, peeked⟩ : ∃ after, next.peek 0 = (none, after) := ⟨_, Prod.ext ended rfl⟩
  refine ⟨after, ?_⟩
  rw [nextToken, skipped]
  simp only [peeked]

/-- What is read behind a gap is what the characters in front there make. -/
theorem nextToken_of_front {r : Reader} {gap row : List Char} (isGap : Gap gap row)
    (stops : Stops row) (whole : r.remaining = gap ++ row) :
    ∃ front, r.Passes gap front ∧
      ∀ c ∈ row.head?, r.nextToken = ((front.tokenFrom c).1.map some, (front.tokenFrom c).2) := by
  obtain ⟨next, skipped, passed⟩ := skipIgnored_of_gap isGap stops whole
  cases row with
  | nil => exact ⟨next, passed, by simp⟩
  | cons c row =>
      obtain ⟨front, peeked, looked⟩ := passes_front (passed.left whole)
      have passed := passed.trans looked
      rw [List.append_nil] at passed
      refine ⟨front, passed, ?_⟩
      rintro c ⟨⟩
      rw [nextToken, skipped]
      simp only [peeked]
      cases front.tokenFrom c with
      | mk found after => cases found <;> rfl

/-- A piece in front is read as its token. -/
theorem nextToken_of_fits {r : Reader} {p : Piece} {before rest : List Char}
    (fits : p.Fits before rest) (placed : r.position = .behind before)
    (short : p.token.lexeme.Short) (whole : r.remaining = p.row ++ rest) :
    ∃ after, r.nextToken = (.ok (some p.token), after) ∧ r.Passes p.row after := by
  obtain ⟨gap, proper, maximal, place⟩ := fits
  have whole : r.remaining = p.gap ++ (p.lexeme ++ rest) := by
    rw [whole, Piece.row, List.append_assoc]
  obtain ⟨front, passed, read⟩ := nextToken_of_front gap (stops_of_maximal proper maximal) whole
  obtain ⟨c, first, after, found, read'⟩ :=
    tokenFrom_of_maximal proper maximal short (passed.left whole)
  have start : front.position = p.token.position := by
    rw [passed.position, place, placed, ← Position.past_start, ← Position.past_start,
      Position.past_append]
  refine ⟨after, ?_, passed.trans read'⟩
  rw [read c (by rw [Piece.lexeme, List.head?_append, first, Option.some_or]; rfl), found, start]
  rfl

/-- A token is read behind a gap. -/
theorem reads_of_nextToken {r after : Reader} {token : Token}
    (h : r.nextToken = (.ok (some token), after)) :
    ∃ gap next, Gap gap next.remaining ∧ r.Passes gap next ∧ next.Reads token after := by
  unfold nextToken at h
  split at h
  · cases h
  · next next skipped =>
    obtain ⟨gap, isGap, stops, passed⟩ := gap_of_skipIgnored skipped
    split at h
    · cases h
    · next c front peeked =>
      have looked := passes_of_peek peeked
      have whole := remaining_of_peek_some peeked
      rw [← remaining_of_peek peeked] at isGap stops whole
      split at h
      · next found last read =>
        cases h
        have passed := passed.trans looked
        rw [List.append_nil] at passed
        exact ⟨gap, front, isGap, passed, reads_of_tokenFrom stops whole read⟩
      · cases h

theorem proper_of_nextToken {r rest : Reader} {token : Token}
    (h : r.nextToken = (.ok (some token), rest)) : token.lexeme.Proper := by
  obtain ⟨_, _, -, -, read⟩ := reads_of_nextToken h
  exact read.proper

/-- A token that was read is a piece together with the gap in front of it. -/
theorem fits_of_nextToken {r after : Reader} {token : Token} {before : List Char}
    (placed : r.position = .behind before) (h : r.nextToken = (.ok (some token), after)) :
    ∃ gap, Piece.Fits before ⟨gap, token⟩ after.remaining ∧
      r.Passes (Piece.row ⟨gap, token⟩) after := by
  obtain ⟨gap, next, isGap, passed, start, proper, maximal, lexeme⟩ := reads_of_nextToken h
  refine ⟨gap, ⟨?_, proper, maximal, ?_⟩, passed.trans lexeme⟩
  · rw [Piece.lexeme, ← lexeme.remaining]
    exact isGap
  · rw [start, passed.position, placed, ← Position.past_start, ← Position.past_start,
      Position.past_append]

theorem gap_of_nextToken {r after : Reader} (h : r.nextToken = (.ok none, after)) :
    Gap r.remaining [] := by
  unfold nextToken at h
  split at h
  · cases h
  · next next skipped =>
    obtain ⟨gap, isGap, stops, passed⟩ := gap_of_skipIgnored skipped
    split at h
    · next peeked =>
      have ended := remaining_of_peek_none peeked
      rw [passed.remaining, ended, List.append_nil]
      rwa [ended] at isGap
    · split at h <;> cases h

/-- The pieces in front of a reader are read one after the other. -/
theorem tokensFrom_of_short {before last : List Char} {pieces : List Piece}
    (h : Divides before pieces last) {r : Reader} (placed : r.position = .behind before)
    (short : ∀ p ∈ pieces, p.token.lexeme.Short) (whole : r.remaining = rowOf pieces last)
    (taken : List Token) :
    (r.tokensFrom taken).1 = .ok (taken.reverse ++ pieces.map Piece.token) := by
  induction h generalizing r taken with
  | last isGap =>
      obtain ⟨after, ended⟩ := nextToken_of_gap (r := r) (by rw [whole]; exact isGap)
      rw [tokensFrom_of_end ended]
      simp
  | @piece before last p pieces fits h ih =>
      rw [rowOf_cons] at whole
      rw [List.forall_mem_cons] at short
      obtain ⟨after, read, passed⟩ := nextToken_of_fits fits placed short.1 whole
      rw [tokensFrom_of_token read, ih _ short.2 (passed.left whole)]
      · simp
      · rw [passed.position, placed, ← Position.past_start, ← Position.past_start,
          Position.past_append]

theorem tokensFrom_of_divides {before last : List Char} {pieces : List Piece}
    (h : Divides before pieces last) {r : Reader} (placed : r.position = .behind before)
    (short : ShortNumerals r.remaining) (whole : r.remaining = rowOf pieces last)
    (taken : List Token) :
    (r.tokensFrom taken).1 = .ok (taken.reverse ++ pieces.map Piece.token) :=
  tokensFrom_of_short h placed (ShortNumerals.lexemes h (whole ▸ short)) whole taken

/-- The tokens that were read are those of pieces in front of the reader. -/
theorem divides_of_tokensFrom {before : List Char} {taken tokens : List Token} {r : Reader}
    (placed : r.position = .behind before) (h : (r.tokensFrom taken).1 = .ok tokens) :
    ∃ pieces last, Divides before pieces last ∧ r.remaining = rowOf pieces last ∧
      tokens = taken.reverse ++ pieces.map Piece.token := by
  fun_induction tokensFrom taken r generalizing before with
  | case1 taken r token rest read ih =>
      obtain ⟨gap, fits, passed⟩ := fits_of_nextToken placed read
      have next : rest.position = .behind (before ++ Piece.row ⟨gap, token⟩) := by
        rw [passed.position, placed, ← Position.past_start, ← Position.past_start,
          Position.past_append]
      obtain ⟨pieces, last, divides, left, found⟩ := ih next h
      refine ⟨⟨gap, token⟩ :: pieces, last, .piece (left ▸ fits) divides, ?_, ?_⟩
      · rw [rowOf_cons, ← left, passed.remaining]
      · rw [found]
        simp
  | case2 taken r rest ended =>
      refine ⟨[], r.remaining, .last (gap_of_nextToken ended), rfl, ?_⟩
      rw [List.map_nil, List.append_nil]
      exact (Except.ok.inj h).symm
  | case3 taken r fault rest failed => cases h

/-- A row of characters has at most one division. -/
theorem divides_unique {before last last' : List Char} {pieces pieces' : List Piece}
    (h : Divides before pieces last) (h' : Divides before pieces' last')
    (short : ShortNumerals (rowOf pieces last)) (same : rowOf pieces last = rowOf pieces' last') :
    pieces = pieces' ∧ last = last' := by
  induction h generalizing pieces' with
  | @last before last isGap =>
      cases h' with
      | last isGap' => exact ⟨rfl, same⟩
      | @piece _ _ p' pieces' fits' h' =>
          let r : Reader := ⟨last, none, .behind before, []⟩
          have whole : r.remaining = last := List.append_nil last
          rw [rowOf_cons] at same
          obtain ⟨after, ended⟩ := nextToken_of_gap (r := r) (by rw [whole]; exact isGap)
          obtain ⟨after', read, -⟩ := nextToken_of_fits fits' (r := r) rfl
            (ShortNumerals.lexeme fits' (same ▸ short)) (whole.trans same)
          cases ended.symm.trans read
  | @piece before last p pieces fits h ih =>
      rw [rowOf_cons] at short same
      let r : Reader := ⟨p.row ++ rowOf pieces last, none, .behind before, []⟩
      have whole : r.remaining = p.row ++ rowOf pieces last := List.append_nil _
      obtain ⟨after, read, passed⟩ := nextToken_of_fits fits (r := r) rfl (short.lexeme fits) whole
      cases h' with
      | last isGap' =>
          obtain ⟨after', ended⟩ := nextToken_of_gap (r := r) (by rw [whole, same]; exact isGap')
          cases read.symm.trans ended
      | @piece _ _ p' pieces' fits' h' =>
          rw [rowOf_cons] at same
          obtain ⟨after', read', passed'⟩ := nextToken_of_fits fits' (r := r) rfl
            (ShortNumerals.lexeme fits' (same ▸ short)) (whole.trans same)
          -- The same token was read, and the same row was passed for it.
          obtain ⟨found, rest⟩ := Prod.mk.inj (read.symm.trans read')
          have token : p.token = p'.token := Option.some.inj (Except.ok.inj found)
          rw [rest] at passed
          have row : p.row = p'.row :=
            List.append_cancel_right (passed.remaining.symm.trans passed'.remaining)
          obtain rfl := Piece.eq_of_row token row
          obtain ⟨rfl, rfl⟩ := ih h' short.of_append (List.append_cancel_left same)
          exact ⟨rfl, rfl⟩

end Reader

/-! ### The tokens of a source -/

theorem Reader.remaining_ofSource (size : Nat) (source : Source) :
    (Reader.ofSource size source).remaining = source.characters :=
  source.flatten_chunks size

theorem Lexer.tokensOf_eq {source : Source} {chunkSize : Int} {filename : Option String}
    (positive : 0 < chunkSize) :
    tokensOf source chunkSize filename =
      ((Reader.ofSource chunkSize.toNat source).tokensFrom []).1.mapError
        (.ofFault filename) := by
  rw [tokensOf, ofSource, if_neg (by omega)]
  rfl

theorem Lexer.tokensOf_eq_ok_iff {source : Source} {chunkSize : Int} {filename : Option String}
    (positive : 0 < chunkSize) (tokens : List Token) :
    tokensOf source chunkSize filename = .ok tokens ↔
      ((Reader.ofSource chunkSize.toNat source).tokensFrom []).1 = .ok tokens := by
  rw [tokensOf_eq positive]
  cases (Reader.tokensFrom [] (.ofSource chunkSize.toNat source)).1 <;> simp [Except.mapError]

theorem Piece.proper_of_divides {before last : List Char} {pieces : List Piece}
    (h : Divides before pieces last) : ∀ p ∈ pieces, p.token.lexeme.Proper := by
  induction h with
  | last isGap =>
      intro p inside
      cases inside
  | piece fits divides ih =>
      intro p inside
      rcases List.mem_cons.mp inside with rfl | inside
      · exact fits.proper
      · exact ih p inside

theorem Lexer.proper_of_tokensOf {source : Source} {chunkSize : Int} {filename : Option String}
    {tokens : List Token} (positive : 0 < chunkSize)
    (h : tokensOf source chunkSize filename = .ok tokens) :
    ∀ lexeme ∈ tokens.map Token.lexeme, lexeme.Proper := by
  rw [tokensOf_eq_ok_iff positive] at h
  have start : (Reader.ofSource chunkSize.toNat source).position = .behind [] := rfl
  obtain ⟨pieces, last, divides, -, rfl⟩ := Reader.divides_of_tokensFrom start h
  intro lexeme inside
  obtain ⟨t, isToken, rfl⟩ := List.mem_map.mp inside
  obtain ⟨p, isPiece, rfl⟩ := List.mem_map.mp isToken
  exact Piece.proper_of_divides divides p isPiece

/-- Tokenizing finds the tokens of the one division of a source, and finds none if the source has
no division. -/
theorem tokenizing_is_exact (source : Source) (chunkSize : Int) (filename : Option String)
    (positive : 0 < chunkSize) (short : ShortNumerals source.characters) :
    (∀ tokens, Lexer.tokensOf source chunkSize filename = .ok tokens ↔
      ∃ pieces last, Splits source.characters pieces last ∧
        tokens = pieces.map Piece.token) ∧
    ∀ pieces last pieces' last', Splits source.characters pieces last →
      Splits source.characters pieces' last' → pieces = pieces' ∧ last = last' := by
  have whole := Reader.remaining_ofSource chunkSize.toNat source
  refine ⟨fun tokens => ?_, ?_⟩
  · rw [Lexer.tokensOf_eq_ok_iff positive]
    constructor
    · intro h
      have start : (Reader.ofSource chunkSize.toNat source).position = .behind [] := rfl
      obtain ⟨pieces, last, divides, row, found⟩ := Reader.divides_of_tokensFrom start h
      exact ⟨pieces, last, ⟨whole.symm.trans row, divides⟩, found⟩
    · rintro ⟨pieces, last, ⟨row, divides⟩, rfl⟩
      exact Reader.tokensFrom_of_divides divides rfl (whole.symm ▸ short) (whole.trans row) []
  · rintro pieces last pieces' last' ⟨row, divides⟩ ⟨row', divides'⟩
    exact Reader.divides_unique divides divides' (row ▸ short) (row.symm.trans row')

/-- A division sign, a number and a comment without a line end divide in one way. -/
theorem tokenizing_is_exact_at_division :
    let source : Source := .text "x/2 //"
    (0 : Int) < 3 ∧ ShortNumerals source.characters ∧
      ∃ pieces last, Splits source.characters pieces last ∧
        [⟨.identifier "x", ⟨1, 1⟩⟩, ⟨.symbol .slash, ⟨1, 2⟩⟩, ⟨.integer "2" 2, ⟨1, 3⟩⟩] =
          pieces.map Piece.token := by
  intro source
  have short : ShortNumerals source.characters := fun run inside _ =>
    inside.length_le.trans (by decide +kernel)
  refine ⟨by decide, short, ?_⟩
  refine ((tokenizing_is_exact source 3 none (by decide) short).1 _).mp ?_
  decide +kernel

end Jack
