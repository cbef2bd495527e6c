import Jack.Lexer

/-! # What reading passes

Every operation of a reader passes a row of characters: what was left before is that row
and then what is left after it, and the row alone moves the position. Two readers with
the same characters left at the same position are alike; no scanner tells them apart,
however their sources were cut.
-/

namespace Jack

namespace Position

/-- The place after a row of characters. -/
def past (p : Position) (row : List Char) : Position :=
  row.foldl after p

@[simp] theorem past_nil (p : Position) : p.past [] = p := rfl

@[simp] theorem past_cons (p : Position) (c : Char) (row : List Char) :
    p.past (c :: row) = (p.after c).past row := rfl

theorem past_append (p : Position) (row later : List Char) :
    p.past (row ++ later) = (p.past row).past later :=
  List.foldl_append

end Position

namespace Reader

/-- Going from one reader to another passes a row of characters and nothing else. -/
structure Passes (r : Reader) (row : List Char) (next : Reader) : Prop where
  remaining : r.remaining = row ++ next.remaining
  position : next.position = r.position.past row

namespace Passes

theorem trans {r next last : Reader} {row later : List Char} (h : r.Passes row next)
    (h' : next.Passes later last) : r.Passes (row ++ later) last where
  remaining := by rw [h.remaining, h'.remaining, List.append_assoc]
  position := by rw [h'.position, h.position, Position.past_append]

/-- What is left after a row is known from what was left before. -/
theorem left {r next : Reader} {row rest : List Char} (h : r.Passes row next)
    (whole : r.remaining = row ++ rest) : next.remaining = rest :=
  List.append_cancel_left (h.remaining.symm.trans whole)

end Passes

theorem position_fillFrom (offset : Nat) (r : Reader) (chunks : List (List Char)) :
    (r.fillFrom offset chunks).position = r.position := by
  induction chunks generalizing r with
  | nil => simp only [fillFrom]; split <;> rfl
  | cons chunk rest ih =>
      simp only [fillFrom]
      split
      · rw [ih]
      · rfl

theorem position_fill (offset : Nat) (r : Reader) : (r.fill offset).position = r.position := by
  unfold fill
  split
  · rfl
  · exact position_fillFrom offset r _

theorem passes_of_peek {offset : Nat} {r ahead : Reader} {c : Option Char}
    (h : r.peek offset = (c, ahead)) : r.Passes [] ahead where
  remaining := (remaining_of_peek h).symm
  position := by
    obtain ⟨-, rfl⟩ := Prod.mk.inj h
    exact position_fill offset r

theorem passes_advance {r : Reader} {c : Char} {rest : List Char} (h : r.remaining = c :: rest) :
    r.Passes [c] r.advance where
  remaining := by rw [remaining_advance, h]; rfl
  position := by
    have filled := remaining_fill 0 r
    have kept := position_fill 0 r
    have front := fst_peek 0 r
    simp only [peek, h, List.getElem?_cons_zero] at front
    simp only [advance]
    split
    · next empty => simp [empty] at front
    · next d tail cut =>
      obtain rfl : d = c := by simpa [cut] using front
      simp [kept]

/-- At the end of a source there is nothing to pass. -/
theorem passes_advance_of_nil {r : Reader} (h : r.remaining = []) : r.Passes [] r.advance where
  remaining := by rw [remaining_advance, h]; rfl
  position := by
    have filled := remaining_fill 0 r
    rw [h] at filled
    obtain ⟨empty, -⟩ := List.append_eq_nil_iff.mp filled
    simp [advance, empty, position_fill]

/-- A character in front is passed by one step. -/
theorem passes_of_peek_some {r ahead : Reader} {c : Char} (h : r.peek 0 = (some c, ahead)) :
    r.Passes [c] ahead.advance := by
  have front := remaining_of_peek_some h
  rw [← remaining_of_peek h] at front
  exact (passes_of_peek h).trans (passes_advance front)

theorem passes_spanFrom (p : Char → Bool) (taken : List Char) (r : Reader) :
    r.Passes (r.remaining.takeWhile p) (r.spanFrom p taken).2 := by
  fun_induction spanFrom p taken r with
  | case1 taken r ahead h =>
      rw [remaining_of_peek_none h]
      exact passes_of_peek h
  | case2 taken r c ahead h hc ih =>
      have whole := (passes_of_peek_some h).trans ih
      rwa [remaining_of_peek_some h, List.takeWhile_cons_of_pos hc]
  | case3 taken r c ahead h hc =>
      rw [remaining_of_peek_some h, List.takeWhile_cons_of_neg hc]
      exact passes_of_peek h

theorem passes_takeWhile (p : Char → Bool) (r : Reader) :
    r.Passes (r.remaining.takeWhile p) (r.takeWhile p).2 :=
  passes_spanFrom p [] r

theorem passes_front {r : Reader} {c : Char} {rest : List Char} (h : r.remaining = c :: rest) :
    ∃ ahead, r.peek 0 = (some c, ahead) ∧ r.Passes [] ahead := by
  have front := fst_peek 0 r
  rw [h] at front
  exact ⟨(r.peek 0).2, Prod.ext front rfl, passes_of_peek rfl⟩

theorem passes_second {r ahead : Reader} {c : Char} {rest : List Char}
    (h : r.remaining = c :: rest) (hr : r.Passes [] ahead) :
    ∃ after, ahead.peek 1 = (rest.head?, after) ∧ r.Passes [] after := by
  have second := fst_peek 1 ahead
  refine ⟨(ahead.peek 1).2, Prod.ext ?_ rfl, hr.trans (passes_of_peek rfl)⟩
  rw [second, hr.left h, List.head?_eq_getElem?]
  rfl

/-- Two characters that were seen in front. -/
theorem remaining_of_peeks {r ahead after : Reader} {c d : Char} (hp : r.peek 0 = (some c, ahead))
    (hq : ahead.peek 1 = (some d, after)) :
    r.Passes [] after ∧ ∃ rest, r.remaining = c :: d :: rest := by
  refine ⟨(passes_of_peek hp).trans (passes_of_peek hq), ?_⟩
  have second := getElem?_of_peek hq
  rw [remaining_of_peek hp, remaining_of_peek_some hp, List.getElem?_cons_succ,
    ← List.head?_eq_getElem?] at second
  obtain ⟨rest, tail⟩ := List.head?_eq_some_iff.mp second
  exact ⟨rest, by rw [remaining_of_peek_some hp, tail]⟩

/-! ### One step at a time

What the two recursive scanners do, by the characters in front. -/

section Steps

variable {r ahead after : Reader}

theorem skipToCommentEnd_at_end (h : r.peek 0 = (none, ahead)) :
    r.skipToCommentEnd = (false, ahead) := by
  rw [skipToCommentEnd]
  split
  · next found => cases h.symm.trans found; rfl
  · next found => cases h.symm.trans found
  · next found => cases h.symm.trans found

theorem skipToCommentEnd_at_close (h : r.peek 0 = (some '*', ahead))
    (h' : ahead.peek 1 = (some '/', after)) :
    r.skipToCommentEnd = (true, after.advance.advance) := by
  rw [skipToCommentEnd]
  split
  · next found => cases h.symm.trans found
  · next found =>
    cases h.symm.trans found
    split
    · next found' => cases h'.symm.trans found'; rfl
    · next other found' => cases h'.symm.trans found'; exact absurd rfl other
  · next other found => cases h.symm.trans found; exact absurd rfl other

theorem skipToCommentEnd_at_star {c : Option Char} (h : r.peek 0 = (some '*', ahead))
    (h' : ahead.peek 1 = (c, after)) (hc : c ≠ some '/') :
    r.skipToCommentEnd = after.advance.skipToCommentEnd := by
  rw [skipToCommentEnd]
  split
  · next found => cases h.symm.trans found
  · next found =>
    cases h.symm.trans found
    split
    · next found' => cases h'.symm.trans found'; exact absurd rfl hc
    · next found' => cases h'.symm.trans found'; rfl
  · next other found => cases h.symm.trans found; exact absurd rfl other

theorem skipToCommentEnd_at_other {c : Char} (h : r.peek 0 = (some c, ahead)) (hc : c ≠ '*') :
    r.skipToCommentEnd = ahead.advance.skipToCommentEnd := by
  rw [skipToCommentEnd]
  split
  · next found => cases h.symm.trans found
  · next found => cases h.symm.trans found; exact absurd rfl hc
  · next found => cases h.symm.trans found; rfl

theorem skipIgnored_at_end (h : r.peek 0 = (none, ahead)) : r.skipIgnored = (.ok (), ahead) := by
  rw [skipIgnored]
  split
  · next found => cases h.symm.trans found; rfl
  · next found => cases h.symm.trans found

theorem skipIgnored_at_blank {c : Char} (h : r.peek 0 = (some c, ahead)) (hc : isBlank c) :
    r.skipIgnored = ahead.advance.skipIgnored := by
  rw [skipIgnored]
  split
  · next found => cases h.symm.trans found
  · next found => cases h.symm.trans found; rw [if_pos hc]

theorem skipIgnored_at_other {c : Char} (h : r.peek 0 = (some c, ahead)) (hb : ¬ isBlank c)
    (hc : c ≠ '/') : r.skipIgnored = (.ok (), ahead) := by
  rw [skipIgnored]
  split
  · next found => cases h.symm.trans found
  · next found => cases h.symm.trans found; rw [if_neg hb, dif_neg hc]

theorem skipIgnored_at_line (h : r.peek 0 = (some '/', ahead))
    (h' : ahead.peek 1 = (some '/', after)) :
    r.skipIgnored = after.skipLine.skipIgnored := by
  rw [skipIgnored]
  split
  · next found => cases h.symm.trans found
  · next found =>
    cases h.symm.trans found
    rw [if_neg (by decide), dif_pos rfl]
    split
    · next found' => cases h'.symm.trans found'; rfl
    · next found' => cases h'.symm.trans found'
    · next other _ found' => cases h'.symm.trans found'; exact absurd rfl other

theorem skipIgnored_at_block (h : r.peek 0 = (some '/', ahead))
    (h' : ahead.peek 1 = (some '*', after)) :
    r.skipIgnored = match after.skipBlock with
      | (.ok (), rest) => rest.skipIgnored
      | (.error fault, rest) => (.error fault, rest) := by
  rw [skipIgnored]
  split
  · next found => cases h.symm.trans found
  · next found =>
    cases h.symm.trans found
    rw [if_neg (by decide), dif_pos rfl]
    split
    · next found' => cases h'.symm.trans found'
    · next found' => cases h'.symm.trans found'; split <;> simp_all
    · next other found' => cases h'.symm.trans found'; exact absurd rfl other

theorem skipIgnored_at_slash {c : Option Char} (h : r.peek 0 = (some '/', ahead))
    (h' : ahead.peek 1 = (c, after)) (hl : c ≠ some '/') (hb : c ≠ some '*') :
    r.skipIgnored = (.ok (), after) := by
  rw [skipIgnored]
  split
  · next found => cases h.symm.trans found
  · next found =>
    cases h.symm.trans found
    rw [if_neg (by decide), dif_pos rfl]
    split
    · next found' => cases h'.symm.trans found'; exact absurd rfl hl
    · next found' => cases h'.symm.trans found'; exact absurd rfl hb
    · next found' => cases h'.symm.trans found'; rfl

theorem tokensFrom_of_token {taken : List Token} {token : Token}
    (h : r.nextToken = (.ok (some token), after)) :
    r.tokensFrom taken = after.tokensFrom (token :: taken) := by
  rw [tokensFrom]
  split
  · next found => cases h.symm.trans found; rfl
  · next found => cases h.symm.trans found
  · next found => cases h.symm.trans found

theorem tokensFrom_of_end {taken : List Token} (h : r.nextToken = (.ok none, after)) :
    r.tokensFrom taken = (.ok taken.reverse, after) := by
  rw [tokensFrom]
  split
  · next found => cases h.symm.trans found
  · next found => cases h.symm.trans found; rfl
  · next found => cases h.symm.trans found

theorem tokensFrom_of_fault {taken : List Token} {fault : Fault}
    (h : r.nextToken = (.error fault, after)) :
    r.tokensFrom taken = (.error fault, after) := by
  rw [tokensFrom]
  split
  · next found => cases h.symm.trans found
  · next found => cases h.symm.trans found
  · next found => cases h.symm.trans found; rfl

end Steps

/-- Two readers with the same characters left at the same position. -/
structure Alike (r s : Reader) : Prop where
  remaining : r.remaining = s.remaining
  position : r.position = s.position

/-- Two scans find the same and leave readers that are alike. -/
def SameScan {α : Type} (x y : α × Reader) : Prop :=
  x.1 = y.1 ∧ x.2.Alike y.2

theorem SameScan.exists_eq {α : Type} {x y : α × Reader} {found : α} {rest : Reader}
    (h : SameScan x y) (hx : x = (found, rest)) :
    ∃ rest', y = (found, rest') ∧ rest.Alike rest' := by
  subst hx
  exact ⟨y.2, Prod.ext h.1.symm rfl, h.2⟩

namespace Alike

variable {r s : Reader}

theorem refl (r : Reader) : r.Alike r :=
  ⟨rfl, rfl⟩

theorem symm (h : r.Alike s) : s.Alike r :=
  ⟨h.remaining.symm, h.position.symm⟩

theorem trans {t : Reader} (h : r.Alike s) (h' : s.Alike t) : r.Alike t :=
  ⟨h.remaining.trans h'.remaining, h.position.trans h'.position⟩

theorem forget (r : Reader) : r.forget.Alike r :=
  ⟨rfl, rfl⟩

/-- Passing the same row keeps readers alike. -/
theorem of_passes {row : List Char} {next last : Reader} (h : r.Alike s) (hr : r.Passes row next)
    (hs : s.Passes row last) : next.Alike last where
  remaining := List.append_cancel_left (hr.remaining.symm.trans (h.remaining.trans hs.remaining))
  position := by rw [hr.position, hs.position, h.position]

theorem peek (h : r.Alike s) (offset : Nat) : SameScan (r.peek offset) (s.peek offset) :=
  ⟨by rw [fst_peek, fst_peek, h.remaining],
    h.of_passes (passes_of_peek rfl) (passes_of_peek rfl)⟩

theorem peek_eq {offset : Nat} {c : Option Char} {ahead : Reader} (h : r.Alike s)
    (hr : r.peek offset = (c, ahead)) :
    ∃ ahead', s.peek offset = (c, ahead') ∧ ahead.Alike ahead' :=
  (h.peek offset).exists_eq hr

theorem advance (h : r.Alike s) : r.advance.Alike s.advance := by
  cases hr : r.remaining with
  | nil =>
      have hs : s.remaining = [] := h.remaining ▸ hr
      exact h.of_passes (passes_advance_of_nil hr) (passes_advance_of_nil hs)
  | cons c rest =>
      exact h.of_passes (passes_advance hr) (passes_advance (h.remaining ▸ hr))

theorem takeWhile (h : r.Alike s) (p : Char → Bool) :
    SameScan (r.takeWhile p) (s.takeWhile p) :=
  ⟨by rw [fst_takeWhile, fst_takeWhile, h.remaining],
    h.of_passes (passes_takeWhile p r) (h.remaining ▸ passes_takeWhile p s)⟩

theorem skipToCommentEnd (h : r.Alike s) :
    SameScan r.skipToCommentEnd s.skipToCommentEnd := by
  fun_induction Reader.skipToCommentEnd r generalizing s with
  | case1 r ahead hp =>
      obtain ⟨ahead', hs, same⟩ := h.peek_eq hp
      rw [skipToCommentEnd_at_end hs]
      exact ⟨rfl, same⟩
  | case2 r ahead hp after hq =>
      obtain ⟨ahead', hs, same⟩ := h.peek_eq hp
      obtain ⟨after', hs', same⟩ := same.peek_eq hq
      rw [skipToCommentEnd_at_close hs hs']
      exact ⟨rfl, same.advance.advance⟩
  | case3 r ahead hp c after hc hq ih =>
      obtain ⟨ahead', hs, same⟩ := h.peek_eq hp
      obtain ⟨after', hs', same⟩ := same.peek_eq hq
      rw [skipToCommentEnd_at_star hs hs' hc]
      exact ih same.advance
  | case4 r c ahead hc hp ih =>
      obtain ⟨ahead', hs, same⟩ := h.peek_eq hp
      rw [skipToCommentEnd_at_other hs hc]
      exact ih same.advance

theorem skipBlock (h : r.Alike s) : SameScan r.skipBlock s.skipBlock := by
  unfold Reader.skipBlock
  split
  · next rest hr =>
    obtain ⟨rest', hs, same⟩ := h.advance.advance.skipToCommentEnd.exists_eq hr
    rw [hs]
    exact ⟨rfl, same⟩
  · next rest hr =>
    obtain ⟨rest', hs, same⟩ := h.advance.advance.skipToCommentEnd.exists_eq hr
    rw [hs, h.position]
    exact ⟨rfl, same⟩

theorem skipIgnored (h : r.Alike s) : SameScan r.skipIgnored s.skipIgnored := by
  fun_induction Reader.skipIgnored r generalizing s with
  | case1 r ahead hp =>
      obtain ⟨ahead', hs, same⟩ := h.peek_eq hp
      rw [skipIgnored_at_end hs]
      exact ⟨rfl, same⟩
  | case2 r c ahead hp hb ih =>
      obtain ⟨ahead', hs, same⟩ := h.peek_eq hp
      rw [skipIgnored_at_blank hs hb]
      exact ih same.advance
  | case3 r ahead after hq hp hb ih =>
      obtain ⟨ahead', hs, same⟩ := h.peek_eq hp
      obtain ⟨after', hs', same⟩ := same.peek_eq hq
      rw [skipIgnored_at_line hs hs']
      exact ih (same.takeWhile _).2
  | case4 r ahead after hq rest hk hp hb ih =>
      obtain ⟨ahead', hs, same⟩ := h.peek_eq hp
      obtain ⟨after', hs', same⟩ := same.peek_eq hq
      obtain ⟨rest', hs'', same⟩ := same.skipBlock.exists_eq hk
      rw [skipIgnored_at_block hs hs', hs'']
      exact ih same
  | case5 r ahead after hq fault rest hk hp hb =>
      obtain ⟨ahead', hs, same⟩ := h.peek_eq hp
      obtain ⟨after', hs', same⟩ := same.peek_eq hq
      obtain ⟨rest', hs'', same⟩ := same.skipBlock.exists_eq hk
      rw [skipIgnored_at_block hs hs', hs'']
      exact ⟨rfl, same⟩
  | case6 r ahead x after hx hx' hq hp hb =>
      obtain ⟨ahead', hs, same⟩ := h.peek_eq hp
      obtain ⟨after', hs', same⟩ := same.peek_eq hq
      rw [skipIgnored_at_slash hs hs' hx hx']
      exact ⟨rfl, same⟩
  | case7 r c ahead hp hb hc =>
      obtain ⟨ahead', hs, same⟩ := h.peek_eq hp
      rw [skipIgnored_at_other hs hb hc]
      exact ⟨rfl, same⟩

theorem integer (h : r.Alike s) (start : Position) :
    SameScan (r.integer start) (s.integer start) := by
  obtain ⟨found, same⟩ := h.takeWhile Char.isDigit
  simp only [Reader.integer, found]
  split
  · exact ⟨rfl, same⟩
  · split
    · split <;> exact ⟨rfl, same⟩
    · exact ⟨rfl, same⟩

theorem string (h : r.Alike s) (start : Position) :
    SameScan (r.string start) (s.string start) := by
  obtain ⟨found, same⟩ := h.advance.takeWhile isStringChar
  simp only [Reader.string, found]
  split
  · next rest hp =>
    obtain ⟨rest', hs, same⟩ := same.peek_eq hp
    rw [hs]
    exact ⟨rfl, same.advance⟩
  · next c rest hc hp =>
    obtain ⟨rest', hs, same⟩ := same.peek_eq hp
    rw [hs]
    split
    · split <;> simp_all [SameScan]
    · split <;> simp_all [SameScan]
  · next rest hp =>
    obtain ⟨rest', hs, same⟩ := same.peek_eq hp
    rw [hs]
    exact ⟨rfl, same⟩

theorem tokenFrom (h : r.Alike s) (c : Char) : SameScan (r.tokenFrom c) (s.tokenFrom c) := by
  unfold Reader.tokenFrom
  rw [h.position]
  split
  · exact ⟨rfl, h.advance⟩
  · split
    · exact h.integer _
    · split
      · exact h.string _
      · split
        · obtain ⟨found, same⟩ := h.takeWhile isWordChar
          simp only [Reader.word, found]
          exact ⟨rfl, same⟩
        · exact ⟨rfl, h⟩

theorem nextToken (h : r.Alike s) : SameScan r.nextToken s.nextToken := by
  unfold Reader.nextToken
  split
  · next fault rest hr =>
    obtain ⟨rest', hs, same⟩ := h.skipIgnored.exists_eq hr
    rw [hs]
    exact ⟨rfl, same⟩
  · next rest hr =>
    obtain ⟨rest', hs, same⟩ := h.skipIgnored.exists_eq hr
    rw [hs]
    split
    · next front hp =>
      obtain ⟨front', hs, same⟩ := same.peek_eq hp
      simp only [hs]
      exact ⟨rfl, same⟩
    · next c front hp =>
      obtain ⟨front', hs, same⟩ := same.peek_eq hp
      simp only [hs]
      split
      · next token after ht =>
        obtain ⟨after', hs, same⟩ := (same.tokenFrom c).exists_eq ht
        rw [hs]
        exact ⟨rfl, same⟩
      · next fault after ht =>
        obtain ⟨after', hs, same⟩ := (same.tokenFrom c).exists_eq ht
        rw [hs]
        exact ⟨rfl, same⟩

theorem tokensFrom (h : r.Alike s) (taken : List Token) :
    SameScan (r.tokensFrom taken) (s.tokensFrom taken) := by
  fun_induction Reader.tokensFrom taken r generalizing s with
  | case1 taken r token rest hr ih =>
      obtain ⟨rest', hs, same⟩ := h.nextToken.exists_eq hr
      rw [tokensFrom_of_token hs]
      exact ih same
  | case2 taken r rest hr =>
      obtain ⟨rest', hs, same⟩ := h.nextToken.exists_eq hr
      rw [tokensFrom_of_end hs]
      exact ⟨rfl, same⟩
  | case3 taken r fault rest hr =>
      obtain ⟨rest', hs, same⟩ := h.nextToken.exists_eq hr
      rw [tokensFrom_of_fault hs]
      exact ⟨rfl, same⟩

end Alike

end Reader

end Jack
