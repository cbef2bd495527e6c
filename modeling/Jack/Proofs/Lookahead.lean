import Jack.Lexer

/-! # How far scanners look

A scanner does nothing to its reader but look ahead and pass characters. It looks at the character
in front, and behind it only if that is a mark that a comment can start or end with.
-/

namespace Jack.Reader

/-- One reader comes to another by passing characters and by looking at the character in front, or
at the one behind a mark in front. -/
inductive Ranges (marks : List Char) (r : Reader) : Reader → Prop where
  | stay : Ranges marks r r
  | front {next : Reader} (h : Ranges marks r next) : Ranges marks r (next.peek 0).2
  | behind {next : Reader} {c : Char} (mark : c ∈ marks) (seen : next.buffer.head? = some c)
      (h : Ranges marks r next) : Ranges marks r (next.peek 1).2
  | advance {next : Reader} (h : Ranges marks r next) : Ranges marks r next.advance

variable {marks : List Char} {r ahead next : Reader}

namespace Ranges

theorem trans {last : Reader} (h : r.Ranges marks next) (h' : next.Ranges marks last) :
    r.Ranges marks last := by
  induction h' with
  | stay => exact h
  | front _ ih => exact ih.front
  | behind mark seen _ ih => exact ih.behind mark seen
  | advance _ ih => exact ih.advance

theorem mono {more : List Char} (among : marks ⊆ more) (h : r.Ranges marks next) :
    r.Ranges more next := by
  induction h with
  | stay => exact .stay
  | front _ ih => exact ih.front
  | behind mark seen _ ih => exact ih.behind (among mark) seen
  | advance _ ih => exact ih.advance

end Ranges

theorem ranges_of_front {c : Option Char} (h : r.peek 0 = (c, next)) : r.Ranges marks next := by
  have looked : r.Ranges marks (r.peek 0).2 := .front .stay
  rwa [h] at looked

/-- A mark was seen in front before the character behind it is looked at. -/
theorem ranges_of_behind {c : Char} {d : Option Char} (mark : c ∈ marks)
    (h : r.peek 0 = (some c, ahead)) (h' : ahead.peek 1 = (d, next)) : r.Ranges marks next := by
  have seen : ahead.buffer.head? = some c := by
    obtain ⟨first, rfl⟩ := Prod.mk.inj h
    rwa [List.head?_eq_getElem?]
  have looked : r.Ranges marks (ahead.peek 1).2 := (ranges_of_front h).behind mark seen
  rwa [h'] at looked

theorem ranges_advance (r : Reader) : r.Ranges marks r.advance :=
  .advance .stay

/-! ### Scanners -/

theorem ranges_spanFrom (p : Char → Bool) (taken : List Char) (r : Reader) :
    r.Ranges marks (r.spanFrom p taken).2 := by
  fun_induction spanFrom p taken r with
  | case1 taken r ahead h => exact ranges_of_front h
  | case2 taken r c ahead h hc ih => exact (ranges_of_front h).advance.trans ih
  | case3 taken r c ahead h hc => exact ranges_of_front h

theorem ranges_takeWhile (p : Char → Bool) (r : Reader) : r.Ranges marks (r.takeWhile p).2 :=
  ranges_spanFrom p [] r

theorem ranges_skipLine (r : Reader) : r.Ranges marks r.skipLine :=
  ranges_takeWhile _ r

theorem ranges_skipToCommentEnd (r : Reader) : r.Ranges ['*'] r.skipToCommentEnd.2 := by
  fun_induction skipToCommentEnd r with
  | case1 r ahead h => exact ranges_of_front h
  | case2 r ahead h after h' => exact (ranges_of_behind (by decide) h h').advance.advance
  | case3 r ahead h c after hc h' ih => exact (ranges_of_behind (by decide) h h').advance.trans ih
  | case4 r c ahead hc h ih => exact (ranges_of_front h).advance.trans ih

theorem ranges_skipBlock {found : Except Fault Unit} (h : r.skipBlock = (found, next)) :
    r.Ranges ['*'] next := by
  have further := ranges_skipToCommentEnd r.advance.advance
  unfold skipBlock at h
  split at h
  all_goals
    next ended =>
      cases h
      rw [ended] at further
      exact (ranges_advance r).advance.trans further

theorem ranges_skipIgnored (r : Reader) : r.Ranges ['/', '*'] r.skipIgnored.2 := by
  have block {r next : Reader} {found : Except Fault Unit} (h : r.skipBlock = (found, next)) :
      r.Ranges ['/', '*'] next := (ranges_skipBlock h).mono (by simp)
  fun_induction skipIgnored r with
  | case1 r ahead h => exact ranges_of_front h
  | case2 r c ahead h hc ih => exact (ranges_of_front h).advance.trans ih
  | case3 r ahead after h' h hc ih =>
      exact (ranges_of_behind (by decide) h h').trans ((ranges_skipLine _).trans ih)
  | case4 r ahead after h' rest hb h hc ih =>
      exact (ranges_of_behind (by decide) h h').trans ((block hb).trans ih)
  | case5 r ahead after h' fault rest hb h hc =>
      exact (ranges_of_behind (by decide) h h').trans (block hb)
  | case6 r ahead x after hx hx' h' h hc => exact ranges_of_behind (by decide) h h'
  | case7 r c ahead h hc hc' => exact ranges_of_front h

theorem ranges_integer (start : Position) (r : Reader) :
    r.Ranges marks (r.integer start).2 := by
  have digits : r.Ranges marks (r.takeWhile Char.isDigit).2 := ranges_takeWhile Char.isDigit r
  simp only [integer]
  split
  · exact digits
  · split
    · split <;> exact digits
    · exact digits

theorem ranges_string (start : Position) (r : Reader) : r.Ranges marks (r.string start).2 := by
  have content : r.Ranges marks (r.advance.takeWhile isStringChar).2 :=
    (ranges_advance r).trans (ranges_takeWhile isStringChar r.advance)
  simp only [string]
  split
  · next close => exact (content.trans (ranges_of_front close)).advance
  · next stop => split <;> exact content.trans (ranges_of_front stop)
  · next ended => exact content.trans (ranges_of_front ended)

theorem ranges_word (start : Position) (r : Reader) : r.Ranges marks (r.word start).2 :=
  ranges_takeWhile isWordChar r

theorem ranges_tokenFrom (c : Char) (r : Reader) : r.Ranges marks (r.tokenFrom c).2 := by
  unfold tokenFrom
  split
  · exact ranges_advance r
  · split
    · exact ranges_integer _ r
    · split
      · exact ranges_string _ r
      · split
        · exact ranges_word r.position r
        · exact .stay

/-- Every scan looks ahead and passes characters, also one that fails. -/
theorem ranges_nextToken (r : Reader) : r.Ranges ['/', '*'] r.nextToken.2 := by
  have further := ranges_skipIgnored r
  unfold nextToken
  split
  · next skipped => rwa [skipped] at further
  · next next skipped =>
    rw [skipped] at further
    split
    · next peeked => exact further.trans (ranges_of_front peeked)
    · next c front peeked =>
      have token := further.trans ((ranges_of_front peeked).trans (ranges_tokenFrom c front))
      split <;> next read => rwa [read] at token

theorem ranges_tokensFrom (taken : List Token) (r : Reader) :
    r.Ranges ['/', '*'] (r.tokensFrom taken).2 := by
  fun_induction tokensFrom taken r with
  | case1 taken r token rest read ih =>
      have found := ranges_nextToken r
      rw [read] at found
      exact found.trans ih
  | case2 taken r rest read | case3 taken r fault rest read =>
      have found := ranges_nextToken r
      rwa [read] at found

end Jack.Reader
