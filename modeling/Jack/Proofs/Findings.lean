import Jack.Proofs.Lookahead
import Jack.Proofs.TokenRows

/-! # What is found in a source

A reader finds the tokens of its source one after the other, until the source is over or the
characters in front make no token. Whatever it finds has a place of the source, also what is
wrong with these characters, and every token has its place behind the token before it.
-/

namespace Jack

namespace Position

/-- One place comes before another in the same text. -/
def Before (p q : Position) : Prop :=
  p.line < q.line ∨ p.line = q.line ∧ p.column < q.column

variable {p q r : Position}

theorem Before.trans (h : p.Before q) (h' : q.Before r) : p.Before r := by
  unfold Before at *
  omega

theorem Before.ne (h : p.Before q) : p ≠ q := by
  rintro rfl
  unfold Before at h
  omega

theorem before_after (p : Position) (c : Char) : p.Before (p.after c) := by
  unfold after
  split
  · exact .inl (Int.lt_succ p.line)
  · exact .inr ⟨rfl, Int.lt_succ p.column⟩

theorem line_le_after (p : Position) (c : Char) : p.line ≤ (p.after c).line := by
  obtain further | ⟨same, -⟩ := before_after p c
  · exact further.le
  · exact same.le

theorem before_past (p : Position) {row : List Char} (h : row ≠ []) : p.Before (p.past row) := by
  induction row generalizing p with
  | nil => exact absurd rfl h
  | cons c row ih =>
      by_cases last : row = []
      · subst last
        exact before_after p c
      · exact (before_after p c).trans (ih _ last)

theorem Before.past (h : p.Before q) (row : List Char) : p.Before (q.past row) := by
  by_cases none : row = []
  · subst none
    exact h
  · exact h.trans (before_past q none)

/-- A place of a text: that of one of its characters, or the one behind all of them. -/
def In (text : List Char) (p : Position) : Prop :=
  ∃ before after, text = before ++ after ∧ p = .behind before

theorem one_le_of_in {text : List Char} (h : p.In text) : 1 ≤ p.line ∧ 1 ≤ p.column := by
  obtain ⟨before, after, -, rfl⟩ := h
  simp [behind]

end Position

theorem Lexeme.text_ne_nil {l : Lexeme} (h : l.Proper) : l.text.toList ≠ [] := by
  cases l with
  | keyword word => exact (isWord_text word).1
  | symbol mark => cases mark <;> decide
  | identifier name => exact h.1.1
  | integer digits value => exact h.1
  | string content => simp [Lexeme.text]
  | endOfInput => exact h.elim

namespace Reader

/-- A reader that has passed the front of a text and has the rest of it in front. -/
def In (text : List Char) (r : Reader) : Prop :=
  ∃ before, text = before ++ r.remaining ∧ r.position = .behind before

/-- One reader is at another's place or further on in the same source. -/
def Reaches (r next : Reader) : Prop :=
  ∃ row, r.Passes row next

variable {r next : Reader} {text : List Char}

theorem In.position (h : r.In text) : r.position.In text := by
  obtain ⟨before, whole, placed⟩ := h
  exact ⟨before, r.remaining, whole, placed⟩

theorem In.of_reaches (h : r.In text) (further : r.Reaches next) : next.In text := by
  obtain ⟨before, rfl, placed⟩ := h
  obtain ⟨row, passed⟩ := further
  refine ⟨before ++ row, by rw [passed.remaining, List.append_assoc], ?_⟩
  rw [passed.position, placed, ← Position.past_start, ← Position.past_start, Position.past_append]

theorem in_ofSource (size : Nat) (source : Source) :
    (ofSource size source).In source.characters :=
  ⟨[], (remaining_ofSource size source).symm, rfl⟩

/-! ### How far scanners go -/

theorem Passes.reaches {row : List Char} (h : r.Passes row next) : r.Reaches next :=
  ⟨row, h⟩

theorem Reaches.trans {last : Reader} (h : r.Reaches next) (h' : next.Reaches last) :
    r.Reaches last := by
  obtain ⟨row, passed⟩ := h
  obtain ⟨later, passed'⟩ := h'
  exact ⟨row ++ later, passed.trans passed'⟩

theorem Alike.reaches (h : r.Alike next) : r.Reaches next :=
  ⟨[], h.remaining, h.position.symm⟩

theorem reaches_peek {offset : Nat} {c : Option Char} (h : r.peek offset = (c, next)) :
    r.Reaches next :=
  (passes_of_peek h).reaches

theorem reaches_advance (r : Reader) : r.Reaches r.advance := by
  cases whole : r.remaining with
  | nil => exact (passes_advance_of_nil whole).reaches
  | cons c rest => exact (passes_advance whole).reaches

/-- One reader comes to another by looking ahead and by passing characters. -/
inductive Moves (r : Reader) : Reader → Prop where
  | stay : r.Moves r
  | peek {next : Reader} (offset : Nat) (h : r.Moves next) : r.Moves (next.peek offset).2
  | advance {next : Reader} (h : r.Moves next) : r.Moves next.advance

theorem Moves.trans {last : Reader} (h : r.Moves next) (h' : next.Moves last) :
    r.Moves last := by
  induction h' with
  | stay => exact h
  | peek offset _ ih => exact ih.peek offset
  | advance _ ih => exact ih.advance

/-- Who looks ahead and passes characters stays in the same source. -/
theorem Moves.reaches (h : r.Moves next) : r.Reaches next := by
  induction h with
  | stay => exact (Alike.refl r).reaches
  | peek offset _ ih => exact ih.trans (reaches_peek rfl)
  | advance _ ih => exact ih.trans (reaches_advance _)

theorem Ranges.moves {marks : List Char} (h : r.Ranges marks next) : r.Moves next := by
  induction h with
  | stay => exact .stay
  | front _ ih => exact ih.peek 0
  | behind _ _ _ ih => exact ih.peek 1
  | advance _ ih => exact ih.advance

theorem moves_of_peek {offset : Nat} {c : Option Char} (h : r.peek offset = (c, next)) :
    r.Moves next := by
  have looked : r.Moves (r.peek offset).2 := .peek offset .stay
  rwa [h] at looked

theorem moves_skipLine (r : Reader) : r.Moves r.skipLine :=
  Ranges.moves (ranges_skipLine r : r.Ranges [] r.skipLine)

theorem moves_skipBlock {found : Except Fault Unit} (h : r.skipBlock = (found, next)) :
    r.Moves next :=
  (ranges_skipBlock h).moves

theorem moves_skipIgnored (r : Reader) : r.Moves r.skipIgnored.2 :=
  (ranges_skipIgnored r).moves

/-- Every scan looks ahead and passes characters, also one that fails. -/
theorem moves_nextToken (r : Reader) : r.Moves r.nextToken.2 :=
  (ranges_nextToken r).moves

/-! ### What is wrong with characters that make no token -/

/-- What a reader can find wrong with the characters in front: a lexical problem at a place further
on, or a numeral too long to be converted. -/
inductive Rejects (r : Reader) : Fault → Prop where
  | problem {p : Problem} {next : Reader} (ahead : r.Reaches next) (lexical : p.stage = .lexical) :
      r.Rejects (.problem p next.position)
  | numeral {run : List Char} (inside : run <:+: r.remaining) (digits : ∀ c ∈ run, c.isDigit)
      (long : maxDigits < run.length) : r.Rejects .numeralTooLong

variable {fault : Fault} {after : Reader}

theorem Rejects.of_reaches (further : r.Reaches next) (h : next.Rejects fault) :
    r.Rejects fault := by
  cases h with
  | problem ahead lexical => exact .problem (further.trans ahead) lexical
  | numeral inside digits long =>
      obtain ⟨row, passed⟩ := further
      refine .numeral (inside.trans ?_) digits long
      rw [passed.remaining]
      exact (List.suffix_append row _).isInfix

/-- A reader finds nothing wrong with more than the characters. -/
theorem Rejects.stage_eq (h : r.Rejects fault) {filename : Option String} {d : Diagnostic}
    (same : Failure.diagnosed d = .ofFault filename fault) : d.problem.stage = .lexical := by
  cases h with
  | problem ahead lexical =>
      cases same
      exact lexical
  | numeral => cases same

theorem rejects_here {p : Problem} (lexical : p.stage = .lexical) :
    r.Rejects (.problem p r.position) :=
  .problem (Alike.refl r).reaches lexical

theorem rejects_of_skipBlock (h : r.skipBlock = (.error fault, after)) : r.Rejects fault := by
  unfold skipBlock at h
  split at h
  · cases h
  · cases h
    exact rejects_here rfl

theorem rejects_of_skipIgnored (h : r.skipIgnored = (.error fault, after)) : r.Rejects fault := by
  fun_induction skipIgnored r with
  | case1 r ahead hp => cases h
  | case2 r c ahead hp hc ih =>
      exact .of_reaches (moves_of_peek hp).advance.reaches (ih h)
  | case3 r ahead after hq hp hb ih =>
      have further := (moves_of_peek hp).trans ((moves_of_peek hq).trans (moves_skipLine _))
      exact .of_reaches further.reaches (ih h)
  | case4 r ahead after hq rest hk hp hb ih =>
      have further := (moves_of_peek hp).trans ((moves_of_peek hq).trans (moves_skipBlock hk))
      exact .of_reaches further.reaches (ih h)
  | case5 r ahead after hq fault rest hk hp hb =>
      cases h
      have further := (moves_of_peek hp).trans (moves_of_peek hq)
      exact .of_reaches further.reaches (rejects_of_skipBlock hk)
  | case6 r ahead x after hx hx' hq hp hb => cases h
  | case7 r c ahead hp hb hc => cases h

theorem rejects_of_integer {c : Char} {tail : List Char} (whole : r.remaining = c :: tail)
    (digit : c.isDigit) (h : r.integer r.position = (.error fault, after)) : r.Rejects fault := by
  have taken := fst_takeWhile Char.isDigit r
  simp only [integer, taken] at h
  split at h
  · next empty => simp [whole, digit] at empty
  · split at h
    · split at h
      · cases h
      · cases h
        exact rejects_here rfl
    · next long =>
      cases h
      refine .numeral (List.takeWhile_prefix Char.isDigit).isInfix ?_ (by simpa using long)
      intro d inside
      exact List.mem_takeWhile_imp inside

theorem rejects_of_string (h : r.string r.position = (.error fault, after)) :
    r.Rejects fault := by
  simp only [string] at h
  split at h
  · cases h
  · split at h <;> cases h <;> exact rejects_here rfl
  · cases h
    exact rejects_here rfl

theorem rejects_of_tokenFrom {c : Char} {tail : List Char} (whole : r.remaining = c :: tail)
    (h : r.tokenFrom c = (.error fault, after)) : r.Rejects fault := by
  unfold tokenFrom at h
  split at h
  · cases h
  · split at h
    · next digit => exact rejects_of_integer whole digit h
    · split at h
      · exact rejects_of_string h
      · split at h
        · cases h
        · cases h
          exact rejects_here rfl

/-- A scan that fails has found something wrong in front of the reader. -/
theorem rejects_of_nextToken (h : r.nextToken = (.error fault, after)) : r.Rejects fault := by
  unfold nextToken at h
  split at h
  · next skipped =>
    cases h
    exact rejects_of_skipIgnored skipped
  · next next skipped =>
    have further := moves_skipIgnored r
    rw [skipped] at further
    split at h
    · cases h
    · next c front peeked =>
      have whole := remaining_of_peek_some peeked
      rw [← remaining_of_peek peeked] at whole
      split at h
      · cases h
      · next failed =>
        cases h
        exact .of_reaches (further.trans (moves_of_peek peeked)).reaches
          (rejects_of_tokenFrom whole failed)

/-- In a text without long numerals, what is wrong is a lexical problem at a place of the text. -/
theorem Rejects.exists_problem {text : List Char} (h : r.Rejects fault) (start : r.In text)
    (short : ShortNumerals text) :
    ∃ p place, Position.In text place ∧ p.stage = .lexical ∧ fault = .problem p place := by
  cases h with
  | problem ahead lexical => exact ⟨_, _, (start.of_reaches ahead).position, lexical, rfl⟩
  | @numeral run inside digits long =>
      obtain ⟨before, rfl, -⟩ := start
      have bounded := short run (inside.trans (List.suffix_append before _).isInfix) digits
      omega

/-! ### Tokens one after the other -/

theorem reaches_of_end (h : r.nextToken = (.ok none, after)) : r.Reaches after := by
  have further := (moves_nextToken r).reaches
  rwa [h] at further

/-- A reader finds a row of tokens and is then like another reader. The end of the source is found
as a token, and nothing behind it. -/
inductive Finds : Reader → List Token → Reader → Prop where
  | nothing {r rest : Reader} (same : r.Alike rest) : r.Finds [] rest
  | token {r after rest : Reader} {t : Token} {row : List Token}
      (found : r.nextToken = (.ok (some t), after)) (more : after.Finds row rest) :
      r.Finds (t :: row) rest
  | ended {r after rest : Reader} (found : r.nextToken = (.ok none, after))
      (same : after.Alike rest) : r.Finds [⟨.endOfInput, rest.position⟩] rest

namespace Finds

variable {rest : Reader} {row : List Token} {t : Token}

theorem of_alike (same : r.Alike next) (h : next.Finds row rest) : r.Finds row rest := by
  induction h generalizing r with
  | nothing same' => exact .nothing (same.trans same')
  | token found more ih =>
      obtain ⟨after, found', same'⟩ := same.symm.nextToken.exists_eq found
      exact .token found' (ih same'.symm)
  | ended found same' =>
      obtain ⟨after, found', same''⟩ := same.symm.nextToken.exists_eq found
      exact .ended found' (same''.symm.trans same')

theorem append {later : List Token} {last : Reader} (h : r.Finds row rest)
    (more : ∀ t ∈ row.getLast?, t.isEnd = false) (h' : rest.Finds later last) :
    r.Finds (row ++ later) last := by
  induction h with
  | nothing same => exact of_alike same h'
  | @token r after rest t row found _ ih =>
      refine .token found (ih ?_ h')
      intro t' inside
      exact more t' (by rw [List.getLast?_cons, inside]; rfl)
  | ended => cases more _ rfl

/-- A token has its place in front of its reader or further on, and its reader is past it unless the
source is over. -/
theorem placed (h : r.Finds row rest) :
    r.Reaches rest ∧ ∀ t ∈ row, ∃ next : Reader, r.Reaches next ∧ t.position = next.position := by
  induction h with
  | nothing same => exact ⟨same.reaches, by simp⟩
  | @token r after rest t row found more ih =>
      obtain ⟨gap, next, -, passed, read⟩ := reads_of_nextToken found
      have further := passed.reaches.trans read.passes.reaches
      refine ⟨further.trans ih.1, ?_⟩
      rw [List.forall_mem_cons]
      refine ⟨⟨next, passed.reaches, read.placed⟩, fun t' inside => ?_⟩
      obtain ⟨next', ahead, place⟩ := ih.2 t' inside
      exact ⟨next', further.trans ahead, place⟩
  | ended found same =>
      have further := (reaches_of_end found).trans same.reaches
      exact ⟨further, by simpa using ⟨_, further, rfl⟩⟩

theorem ordered (h : r.Finds row rest) :
    row.Pairwise fun t t' => t.position.Before t'.position := by
  induction h with
  | nothing same => exact .nil
  | @token r after rest t row found more ih =>
      refine List.pairwise_cons.mpr ⟨fun t' inside => ?_, ih⟩
      obtain ⟨gap, next, -, -, read⟩ := reads_of_nextToken found
      obtain ⟨next', ⟨_, passed⟩, place⟩ := more.placed.2 t' inside
      have behind : t.position.Before after.position := by
        rw [read.placed, read.passes.position]
        exact Position.before_past _ (Lexeme.text_ne_nil read.proper)
      rw [place, passed.position]
      exact behind.past _
  | ended => exact List.pairwise_singleton _ _

theorem proper (h : r.Finds row rest) : ∀ t ∈ row, t.isEnd = false → t.lexeme.Proper := by
  induction h with
  | nothing => exact List.forall_mem_nil _
  | token found more ih =>
      exact List.forall_mem_cons.mpr ⟨fun _ => proper_of_nextToken found, ih⟩
  | ended found same => exact List.forall_mem_singleton.mpr fun more => by cases more

/-- In a text, the tokens that are found have places of it. -/
theorem places {text : List Char} (start : r.In text) (h : r.Finds row rest) :
    rest.In text ∧ ∀ t ∈ row, t.position.In text := by
  obtain ⟨further, placed⟩ := h.placed
  refine ⟨start.of_reaches further, fun t inside => ?_⟩
  obtain ⟨next, ahead, place⟩ := placed t inside
  rw [place]
  exact (start.of_reaches ahead).position

end Finds

end Reader

end Jack
