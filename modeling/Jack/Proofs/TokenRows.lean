import Jack.Compiler.Engine
import Jack.Proofs.Tokenizing

/-! # Rows of tokens

A cursor hands out the tokens of its stream one after the other. What it shows is a row
of tokens, the current one first; the cursor in front of a source shows the tokens of the
source and then its end, if the source has tokens at all, and otherwise never shows an
end.
-/

namespace Jack

/-- A cursor has a row of tokens in front, and can pass all of them but the last. -/
inductive Cursor.Shows : Cursor → List Token → Prop where
  | current (c : Cursor) : c.Shows [c.current]
  | next {c : Cursor} {row : List Token} (more : c.current.isEnd = false)
      (passed : c.advance.1 = .ok ()) (rest : c.advance.2.2.Shows row) :
      c.Shows (c.current :: row)

namespace Cursor

variable {c : Cursor} {scan : Scan} {ahead : TokenStream} {t : Token}

theorem Shows.head {row : List Token} (h : c.Shows row) : row.head? = some c.current := by
  cases h <;> rfl

/-- Nothing is shown behind the end of a source. -/
theorem Shows.eq_of_isEnd {row : List Token} (h : c.Shows row) (ended : c.current.isEnd) :
    row = [c.current] := by
  cases h with
  | current => rfl
  | next more => rw [ended] at more; cases more

theorem advance_of_next (more : c.current.isEnd = false) (h : c.ahead.next = (scan, ahead))
    (found : scan.outcome = .ok t) :
    c.advance = (.ok (), scan.deliveries, ⟨some c.current, t, ahead⟩) := by
  rw [advance, more, h]
  simp only [found]
  rfl

theorem next_of_advance (more : c.current.isEnd = false) (h : c.advance.1 = .ok ()) :
    ∃ scan ahead t, c.ahead.next = (scan, ahead) ∧ scan.outcome = .ok t := by
  cases found : c.ahead.next.1.outcome with
  | ok t => exact ⟨_, _, t, rfl, found⟩
  | error failure =>
      rw [advance, more] at h
      simp [found] at h

end Cursor

namespace TokenStream

section Steps

variable {filename : Option String} {taken : List Scan} {r rest : Reader}

theorem readFrom_of_token {token : Token} (h : r.forget.nextToken = (.ok (some token), rest)) :
    readFrom filename taken r =
      readFrom filename (⟨rest.deliveries.reverse, .ok token⟩ :: taken) rest := by
  rw [readFrom]
  split
  · next found => cases h.symm.trans found; rfl
  · next found => cases h.symm.trans found
  · next found => cases h.symm.trans found

theorem readFrom_of_end (h : r.forget.nextToken = (.ok none, rest)) :
    readFrom filename taken r =
      ⟨taken.reverse ++ [⟨rest.deliveries.reverse, .ok ⟨.endOfInput, rest.position⟩⟩],
        .finished rest.position⟩ := by
  rw [readFrom]
  split
  · next found => cases h.symm.trans found
  · next found => cases h.symm.trans found; simp
  · next found => cases h.symm.trans found

theorem readFrom_of_fault {fault : Fault} (h : r.forget.nextToken = (.error fault, rest)) :
    let failed : Scan := ⟨rest.deliveries.reverse, .error (.ofFault filename fault)⟩
    readFrom filename taken r =
      if rest.remaining.length < r.remaining.length then
        readFrom filename (failed :: taken) rest
      else ⟨taken.reverse ++ [failed], .stuck (.ofFault filename fault)⟩ := by
  intro failed
  rw [readFrom]
  split
  · next found => cases h.symm.trans found
  · next found => cases h.symm.trans found
  · next found => cases h.symm.trans found; simp [failed]

end Steps

theorem readFrom_append (filename : Option String) (taken before : List Scan) (r : Reader) :
    readFrom filename (taken ++ before) r =
      { readFrom filename taken r with
        scans := before.reverse ++ (readFrom filename taken r).scans } := by
  fun_induction readFrom filename taken r with
  | case1 taken r token rest h ih =>
      rw [readFrom_of_token h]
      exact ih
  | case2 taken r rest h last =>
      rw [readFrom_of_end h]
      simp [last]
  | case3 taken r fault rest h failure failed shorter ih =>
      rw [readFrom_of_fault h, if_pos shorter]
      exact ih
  | case4 taken r fault rest h failure failed stays =>
      rw [readFrom_of_fault h, if_neg stays]
      simp [failed, failure]

section Next

variable (filename : Option String) {r rest : Reader}

theorem next_readFrom_of_forget_token {token : Token}
    (h : r.forget.nextToken = (.ok (some token), rest)) :
    (readFrom filename [] r).next =
      (⟨rest.deliveries.reverse, .ok token⟩, readFrom filename [] rest) := by
  rw [readFrom_of_token h, ← List.nil_append [_], readFrom_append]
  rfl

theorem next_readFrom_of_forget_end (h : r.forget.nextToken = (.ok none, rest)) :
    (readFrom filename [] r).next =
      (⟨rest.deliveries.reverse, .ok ⟨.endOfInput, rest.position⟩⟩,
        ⟨[], .finished rest.position⟩) := by
  rw [readFrom_of_end h]
  rfl

theorem next_readFrom_of_token {token : Token} (h : r.nextToken = (.ok (some token), rest)) :
    ∃ deliveries after, rest.Alike after ∧
      (readFrom filename [] r).next = (⟨deliveries, .ok token⟩, readFrom filename [] after) := by
  obtain ⟨after, found, same⟩ := (Reader.Alike.forget r).symm.nextToken.exists_eq h
  exact ⟨after.deliveries.reverse, after, same, next_readFrom_of_forget_token filename found⟩

theorem next_readFrom_of_end (h : r.nextToken = (.ok none, rest)) :
    ∃ deliveries, (readFrom filename [] r).next =
      (⟨deliveries, .ok ⟨.endOfInput, rest.position⟩⟩, ⟨[], .finished rest.position⟩) := by
  obtain ⟨after, found, same⟩ := (Reader.Alike.forget r).symm.nextToken.exists_eq h
  refine ⟨after.deliveries.reverse, ?_⟩
  rw [next_readFrom_of_forget_end filename found, same.position]

theorem next_readFrom_of_fault {fault : Fault} (h : r.nextToken = (.error fault, rest)) :
    (readFrom filename [] r).next.1.outcome = .error (.ofFault filename fault) := by
  obtain ⟨after, found, same⟩ := (Reader.Alike.forget r).symm.nextToken.exists_eq h
  rw [readFrom_of_fault found]
  split
  · rw [← List.nil_append [_], readFrom_append]
    rfl
  · rfl

/-- What a stream from a reader's place hands out, by what the reader finds there. -/
inductive Offers (r : Reader) : Scan × TokenStream → Prop where
  | token {t : Token} {after rest : Reader} (deliveries : List Delivery)
      (read : r.nextToken = (.ok (some t), after)) (same : after.Alike rest) :
      Offers r (⟨deliveries, .ok t⟩, readFrom filename [] rest)
  | ended {after : Reader} (deliveries : List Delivery) (read : r.nextToken = (.ok none, after)) :
      Offers r (⟨deliveries, .ok ⟨.endOfInput, after.position⟩⟩, ⟨[], .finished after.position⟩)
  | fault {fault : Fault} {after : Reader} {next : Scan × TokenStream}
      (read : r.nextToken = (.error fault, after))
      (failed : next.1.outcome = .error (.ofFault filename fault)) : Offers r next

theorem offers_next (r : Reader) : Offers filename r (readFrom filename [] r).next := by
  cases read : r.nextToken with
  | mk found after =>
      cases found with
      | error fault => exact .fault read (next_readFrom_of_fault filename read)
      | ok found =>
          cases found with
          | none =>
              obtain ⟨deliveries, next⟩ := next_readFrom_of_end filename read
              rw [next]
              exact .ended deliveries read
          | some t =>
              obtain ⟨deliveries, rest, same, next⟩ := next_readFrom_of_token filename read
              rw [next]
              exact .token deliveries read same

end Next

end TokenStream

theorem Token.isEnd_of_proper {t : Token} (h : t.lexeme.Proper) : t.isEnd = false := by
  cases hl : t.lexeme with
  | endOfInput => rw [hl] at h; exact h.elim
  | _ => simp [isEnd, hl]

namespace Cursor

/-- The tokens of a source are shown, and then its end. -/
theorem shows_of_tokensFrom {filename : Option String} {taken tokens : List Token} {r : Reader}
    (h : (r.tokensFrom taken).1 = .ok tokens) {previous : Option Token} {t : Token} {s : Reader}
    (same : r.Alike s) (more : t.isEnd = false) :
    ∃ row last, tokens = taken.reverse ++ row ∧ last.isEnd ∧
      Shows ⟨previous, t, .readFrom filename [] s⟩ (t :: row ++ [last]) := by
  fun_induction Reader.tokensFrom taken r generalizing previous t s with
  | case1 taken r token rest read ih =>
      obtain ⟨rest', found, same⟩ := same.nextToken.exists_eq read
      obtain ⟨deliveries, after, same', next⟩ := TokenStream.next_readFrom_of_token filename found
      have step := advance_of_next (c := ⟨previous, t, .readFrom filename [] s⟩) more next rfl
      obtain ⟨row, last, split, ended, shown⟩ :=
        ih h (same.trans same') (Token.isEnd_of_proper (Reader.proper_of_nextToken read))
      refine ⟨token :: row, last, by simp [split], ended, .next more (by rw [step]) ?_⟩
      rw [step]
      exact shown
  | case2 taken r rest read =>
      obtain ⟨rest', found, same⟩ := same.nextToken.exists_eq read
      obtain ⟨deliveries, next⟩ := TokenStream.next_readFrom_of_end filename found
      have step := advance_of_next (c := ⟨previous, t, .readFrom filename [] s⟩) more next rfl
      refine ⟨[], _, ?_, ?_, .next more (by rw [step]) (.current _)⟩
      · simpa using (Except.ok.inj h).symm
      · rw [step]
        rfl
  | case3 taken r fault rest read => cases h

/-- A row that ends with the end of the source holds all its tokens. -/
theorem tokensFrom_of_shows {filename : Option String} {c : Cursor} {row : List Token}
    (h : c.Shows row) {taken : List Token} {r : Reader} (ahead : c.ahead = .readFrom filename [] r)
    (more : c.current.isEnd = false) {t last : Token} {body : List Token}
    (whole : row = t :: body ++ [last]) (ended : last.isEnd) :
    (r.tokensFrom taken).1 = .ok (taken.reverse ++ body) := by
  induction h generalizing taken r t body with
  | current c => simp at whole
  | @next c row _ passed rest ih =>
      obtain ⟨rfl, rfl⟩ : c.current = t ∧ row = body ++ [last] := by simpa using whole
      have offered := TokenStream.offers_next filename r
      generalize next : (TokenStream.readFrom filename [] r).next = offer at offered
      rw [← ahead] at next
      cases offered with
      | fault read failed =>
          obtain ⟨scan, stream, found, next', outcome⟩ := next_of_advance more passed
          rw [← next, next', outcome] at failed
          cases failed
      | ended deliveries read =>
          have step := advance_of_next more next rfl
          rw [step] at rest
          obtain ⟨rfl, -⟩ := List.append_eq_singleton_iff.mp (rest.eq_of_isEnd rfl)
            |>.resolve_right (by simp)
          rw [Reader.tokensFrom_of_end read, List.append_nil]
      | @token token after rest' deliveries read same =>
          have step := advance_of_next more next rfl
          have notEnd := Token.isEnd_of_proper (Reader.proper_of_nextToken read)
          have first := rest.head
          rw [step] at first ih
          cases body with
          | nil =>
              obtain rfl : last = token := by simpa using first
              rw [ended] at notEnd
              cases notEnd
          | cons d body =>
              obtain rfl : d = token := by simpa using first
              rw [Reader.tokensFrom_of_token read, (same.tokensFrom _).1, ih rfl notEnd rfl,
                List.reverse_cons, List.append_assoc]
              rfl

/-- A cursor in front of a source shows its tokens and its end. -/
theorem tokensFrom_eq_ok_iff (filename : Option String) (r : Reader) (tokens : List Token) :
    (r.tokensFrom []).1 = .ok tokens ↔
      ∃ t last, (TokenStream.readFrom filename [] r).next.1.outcome = .ok t ∧ last.isEnd ∧
        Shows ⟨none, t, (TokenStream.readFrom filename [] r).next.2⟩ (tokens ++ [last]) := by
  have offered := TokenStream.offers_next filename r
  generalize (TokenStream.readFrom filename [] r).next = offer at offered ⊢
  cases offered with
  | fault read failed =>
      rw [Reader.tokensFrom_of_fault read, failed]
      simp
  | ended deliveries read =>
      rw [Reader.tokensFrom_of_end read]
      constructor
      · intro h
        obtain rfl := Except.ok.inj h
        exact ⟨_, _, rfl, rfl, .current _⟩
      · rintro ⟨t, last, h, ended, shown⟩
        obtain rfl := Except.ok.inj h
        obtain ⟨rfl, -⟩ := List.append_eq_singleton_iff.mp (shown.eq_of_isEnd rfl)
          |>.resolve_right (by simp)
        rfl
  | @token token after rest deliveries read same =>
      have more := Token.isEnd_of_proper (Reader.proper_of_nextToken read)
      rw [Reader.tokensFrom_of_token read, (same.tokensFrom _).1]
      constructor
      · intro h
        obtain ⟨row, last, rfl, ended, shown⟩ := shows_of_tokensFrom h (.refl _) more
        exact ⟨token, last, rfl, ended, shown⟩
      · rintro ⟨t, last, h, ended, shown⟩
        obtain rfl := Except.ok.inj h
        have first := shown.head
        cases tokens with
        | nil =>
            obtain rfl : last = token := by simpa using first
            rw [ended] at more
            cases more
        | cons d body =>
            obtain rfl : d = token := by simpa using first
            exact tokensFrom_of_shows shown rfl more rfl ended

end Cursor

end Jack
