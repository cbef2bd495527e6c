import Jack.Proofs.Steps

/-! # What reading records

A chunk that a reader asks for is recorded when it comes in. So at any time the chunks that are
recorded and those that are still to come make up the source, and a run that shows the end of its
source has all of it on record: nothing was looked at that was not read, and the end is only found
where nothing more comes.
-/

namespace Jack

namespace Reader

/-- The characters of the chunks that were read. -/
def received (r : Reader) : List Char :=
  r.deliveries.reverse.flatMap Delivery.chunk

/-- The characters of the chunks that further reads return. -/
def coming (r : Reader) : List Char :=
  (r.unread.getD []).flatten

/-- The characters of all chunks. -/
def whole (r : Reader) : List Char :=
  r.received ++ r.coming

theorem whole_fillFrom (offset : Nat) (r : Reader) (chunks : List (List Char)) :
    (r.fillFrom offset chunks).whole = r.received ++ chunks.flatten := by
  induction chunks generalizing r with
  | nil => simp only [fillFrom]; split <;> rfl
  | cons chunk rest ih =>
      simp only [fillFrom]
      split
      · rw [ih]
        simp [received, List.flatMap_append]
      · rfl

theorem whole_fill (offset : Nat) (r : Reader) : (r.fill offset).whole = r.whole := by
  unfold fill
  split
  · rfl
  · next chunks unread => rw [whole_fillFrom, whole, coming, unread, Option.getD_some]

theorem whole_advance (r : Reader) : r.advance.whole = r.whole := by
  rw [← whole_fill 0 r, advance]
  split <;> rfl

/-- Whatever a reader does, its source has the same chunks as before. -/
theorem Moves.whole_eq {r next : Reader} (h : r.Moves next) : next.whole = r.whole := by
  induction h with
  | stay => rfl
  | @peek next offset _ ih => exact (whole_fill offset next).trans ih
  | @advance next _ ih => exact (whole_advance next).trans ih

/-- Nothing comes behind the end of a source. -/
theorem coming_of_nextToken {r rest : Reader} (h : r.nextToken = (.ok none, rest)) :
    rest.coming = [] := by
  unfold nextToken at h
  split at h
  · cases h
  · next ahead skipped =>
    split at h
    · next last peeked =>
      obtain ⟨-, rfl⟩ := Prod.mk.inj h
      have ended := remaining_of_peek_none peeked
      rw [← remaining_of_peek peeked] at ended
      exact (List.append_eq_nil_iff.mp ended).2
    · split at h <;> cases h

/-! ### Deliveries -/

/-- A reader that has had other deliveries before its own. -/
def carry (earlier : List Delivery) (r : Reader) : Reader :=
  { r with deliveries := r.deliveries ++ earlier }

section Carry

variable {r next : Reader} (earlier : List Delivery)

@[simp] theorem buffer_carry (r : Reader) : (r.carry earlier).buffer = r.buffer := rfl

@[simp] theorem unread_carry (r : Reader) : (r.carry earlier).unread = r.unread := rfl

theorem fillFrom_carry (offset : Nat) (chunks : List (List Char)) (r : Reader) :
    (r.carry earlier).fillFrom offset chunks = (r.fillFrom offset chunks).carry earlier := by
  induction chunks generalizing r with
  | nil =>
      rw [fillFrom, fillFrom, buffer_carry]
      split <;> rfl
  | cons chunk rest ih =>
      rw [fillFrom, fillFrom, buffer_carry]
      split
      · exact ih { r with
          buffer := r.buffer ++ chunk
          deliveries := ⟨chunk, r.position.line⟩ :: r.deliveries }
      · rfl

theorem fill_carry (offset : Nat) (r : Reader) :
    (r.carry earlier).fill offset = (r.fill offset).carry earlier := by
  rw [fill, fill, unread_carry]
  split
  · rfl
  · exact fillFrom_carry earlier offset _ r

theorem advance_carry (r : Reader) : (r.carry earlier).advance = r.advance.carry earlier := by
  simp only [advance, fill_carry, buffer_carry]
  split <;> rfl

/-- What a reader does has nothing to do with deliveries before. -/
theorem Moves.carry (h : r.Moves next) : (r.carry earlier).Moves (next.carry earlier) := by
  induction h with
  | stay => exact .stay
  | @peek next offset _ ih =>
      have looked := ih.peek offset
      rwa [Reader.peek, fill_carry] at looked
  | @advance next _ ih =>
      have passed := ih.advance
      rwa [advance_carry] at passed

end Carry

/-- Nothing empty was delivered or will be, and the lines where chunks were asked for go on with the
reader. -/
structure Orderly (r : Reader) : Prop where
  coming : ∀ chunk ∈ r.unread.getD [], chunk ≠ []
  sizes : ∀ d ∈ r.deliveries, 0 < d.size
  /-- The last delivery comes first. -/
  lines : (r.deliveries.map Delivery.line).Pairwise (· ≥ ·)
  behind : ∀ d ∈ r.deliveries, d.line ≤ r.position.line

theorem orderly_ofSource (size : Nat) (source : Source) : (ofSource size source).Orderly where
  coming chunk inside := by
    cases source with
    | text content =>
        simp only [ofSource, Source.chunks, Option.getD_some] at inside
        generalize content.toList = text at inside
        fun_induction Source.cut size text with
        | case1 => cases inside
        | case2 c rest ih =>
            obtain rfl | inside := List.mem_cons.mp inside
            · exact List.cons_ne_nil _ _
            · exact ih inside
    | stream parts =>
        have more := List.mem_takeWhile_imp inside
        simpa using more
  sizes := List.forall_mem_nil _
  lines := .nil
  behind := List.forall_mem_nil _

theorem Orderly.forget {r : Reader} (h : r.Orderly) : r.forget.Orderly :=
  ⟨h.coming, List.forall_mem_nil _, .nil, List.forall_mem_nil _⟩

theorem Orderly.fillFrom {r : Reader} (h : r.Orderly) (offset : Nat) {chunks : List (List Char)}
    (coming : ∀ chunk ∈ chunks, chunk ≠ []) : (r.fillFrom offset chunks).Orderly := by
  induction chunks generalizing r with
  | nil =>
      rw [Reader.fillFrom]
      split <;> exact ⟨List.forall_mem_nil _, h.sizes, h.lines, h.behind⟩
  | cons chunk rest ih =>
      rw [Reader.fillFrom]
      split
      · rw [List.forall_mem_cons] at coming
        refine ih ⟨h.coming, ?_, ?_, ?_⟩ coming.2
        · exact List.forall_mem_cons.mpr ⟨List.length_pos_iff.mpr coming.1, h.sizes⟩
        · exact h.lines.cons (List.forall_mem_map.mpr h.behind)
        · exact List.forall_mem_cons.mpr ⟨le_refl _, h.behind⟩
      · exact ⟨coming, h.sizes, h.lines, h.behind⟩

theorem Orderly.fill {r : Reader} (h : r.Orderly) (offset : Nat) : (r.fill offset).Orderly := by
  unfold Reader.fill
  split
  · exact h
  · next chunks unread =>
    exact h.fillFrom offset fun chunk inside => h.coming chunk (by rwa [unread])

theorem Orderly.advance {r : Reader} (h : r.Orderly) : r.advance.Orderly := by
  have filled := h.fill 0
  simp only [Reader.advance]
  split
  · exact filled
  · next c rest front =>
    refine ⟨filled.coming, filled.sizes, filled.lines, fun d inside => ?_⟩
    exact (filled.behind d inside).trans (Position.line_le_after _ c)

theorem Moves.orderly {r next : Reader} (h : r.Moves next) (start : r.Orderly) : next.Orderly := by
  induction h with
  | stay => exact start
  | peek offset _ ih => exact ih.fill offset
  | advance _ ih => exact ih.advance

end Reader

/-! ### Cursors and engines -/

/-- A cursor has a row of characters to come: those of the chunks that its reader will be given, and
none if it shows the end. -/
def Cursor.Awaits (filename : Option String) (row : List Char) (c : Cursor) : Prop :=
  if c.current.isEnd then row = []
  else ∃ r, c.ahead = .readFrom filename [] r ∧ r.coming = row

section Awaits

variable {filename : Option String} {row : List Char} {c : Cursor}

theorem Cursor.awaits_iff_of_isEnd (ended : c.current.isEnd) :
    c.Awaits filename row ↔ row = [] := by
  rw [Awaits, if_pos ended]

end Awaits

theorem TokenStream.readFrom_carry (filename : Option String) (taken : List Scan)
    (earlier : List Delivery) (r : Reader) :
    readFrom filename taken (r.carry earlier) = readFrom filename taken r := by
  rw [readFrom, readFrom]
  rfl

/-- What was read for a scan is delivered, and the reader stands behind what the scan found. -/
theorem TokenStream.moves_of_next {filename : Option String} {r : Reader} {scan : Scan}
    {ahead : TokenStream} {t : Token} (next : (readFrom filename [] r).next = (scan, ahead))
    (found : scan.outcome = .ok t) :
    ∃ rest, r.Moves rest ∧ rest.deliveries = scan.deliveries.reverse ++ r.deliveries ∧
      (t.isEnd = true → rest.coming = []) ∧
      (t.isEnd = false → ahead = readFrom filename [] rest) := by
  have moves := (Reader.moves_nextToken r.forget).carry r.deliveries
  cases read : r.forget.nextToken with
  | mk result rest =>
      rw [read] at moves
      refine ⟨rest.carry r.deliveries, moves, ?_⟩
      cases result with
      | error fault =>
          obtain ⟨after, read', -⟩ := (Reader.Alike.forget r).nextToken.exists_eq read
          have failed := next_readFrom_of_fault filename read'
          rw [next, found] at failed
          cases failed
      | ok result =>
          cases result with
          | none =>
              rw [next_readFrom_of_forget_end filename read] at next
              cases next
              cases found
              refine ⟨by rw [List.reverse_reverse]; rfl, fun _ => ?_, fun more => by cases more⟩
              have ended : rest.coming = [] := Reader.coming_of_nextToken read
              exact ended
          | some token =>
              have more := Token.isEnd_of_proper (Reader.proper_of_nextToken read)
              rw [next_readFrom_of_forget_token filename read] at next
              cases next
              cases found
              refine ⟨by rw [List.reverse_reverse]; rfl, fun ended => ?_, fun _ => ?_⟩
              · cases more.symm.trans ended
              · rw [readFrom_carry]

theorem Reaction.events_andThen (r : Reaction) (later : List Goal) :
    (r.andThen later).events = r.events := by
  unfold andThen
  split <;> rfl

theorem Goal.events_reactStatement? {t : Token} {s : Scope} {r : Reaction}
    (h : reactStatement? t s = some r) : r.events = [] := by
  unfold reactStatement? at h
  split at h
  case h_6 => cases h
  all_goals
    cases h
    simp only [reactLet, reactIf, reactWhile, reactDo, reactReturn, reactWord]
    split <;> rfl

/-- The chunk that came in with an event. -/
def Event.delivery? : Event → Option Delivery
  | .delivered d => some d
  | .classEntered _ | .subroutineEntered _ _ _ | .listRead _ => none

/-- No reaction reads anything. -/
theorem Goal.deliveries_react (goal : Goal) (t : Token) (s : Scope) :
    (goal.react t s).events.filterMap Event.delivery? = [] := by
  cases goal
  case statements =>
    rw [react]
    split
    · next found => rw [Reaction.events_andThen, events_reactStatement? found]; rfl
    · rfl
  all_goals
    simp only [react, reactWord, reactSymbol, reactName, reactType, reactDeclare, reactOpenBody,
      reactLet, reactIf, reactWhile, reactDo, reactReturn, reactExpression, reactOperators,
      reactTerm, reactCallTail, reactQualifiedCall, reactAfterName, reactAssignment,
      reactArguments, reactMoreArguments, withVariable, Reaction.events_andThen]
    repeat' split
    all_goals rfl

namespace Engine

/-- The chunks that were read, the last one first. -/
def deliveries (e : Engine) : List Delivery :=
  e.events.filterMap Event.delivery?

/-- The characters of the chunks that were read. -/
def received (e : Engine) : List Char :=
  e.events.reverse.flatMap Event.characters

/-- What an engine has read, with what is still to come, is a row of characters. -/
def Records (row : List Char) (e : Engine) : Prop :=
  ∃ later, row = e.received ++ later ∧ e.cursor.Awaits e.filename later

/-- A reader has had the deliveries of an engine. It stands behind the token that the engine shows,
and has nothing more to come if that is the end. -/
structure Reads (start : Reader) (e : Engine) (r : Reader) : Prop where
  moves : start.Moves r
  deliveries : r.deliveries = e.deliveries
  ended : e.cursor.current.isEnd = true → r.coming = []
  ahead : e.cursor.current.isEnd = false → e.cursor.ahead = .readFrom e.filename [] r

variable {row : List Char} {e : Engine} {start r : Reader} {filename : Option String}

theorem deliveries_absorb (e : Engine) (goal : Goal) :
    (e.absorb (e.reaction goal)).deliveries = e.deliveries := by
  rw [deliveries, absorb, List.filterMap_append, List.filterMap_reverse, reaction,
    Goal.deliveries_react]
  rfl

theorem deliveries_deliver (e : Engine) (more : List Delivery) :
    (e.deliver more).deliveries = more.reverse ++ e.deliveries := by
  rw [deliveries, deliver, List.filterMap_append, ← List.map_reverse, List.filterMap_map]
  exact congrArg (· ++ _) List.filterMap_some

theorem Reads.absorb (h : e.Reads start r) (goal : Goal) :
    (e.absorb (e.reaction goal)).Reads start r :=
  ⟨h.moves, h.deliveries.trans (deliveries_absorb e goal).symm, h.ended, h.ahead⟩

theorem Reads.advance (h : e.Reads start r) (more : e.cursor.current.isEnd = false)
    (passed : e.advance.1 = .ok ()) : ∃ rest, e.advance.2.Reads start rest := by
  obtain ⟨scan, stream, t, next, found⟩ := Cursor.next_of_advance more passed
  have advanced := Cursor.advance_of_next more next found
  rw [h.ahead more] at next
  obtain ⟨rest, further, delivered, ended, ahead⟩ := TokenStream.moves_of_next next found
  have same : e.advance.2 =
      ({ e with cursor := ⟨some e.cursor.current, t, stream⟩ }.deliver scan.deliveries) := by
    rw [Engine.advance, advanced]
  rw [same]
  refine ⟨rest, h.moves.trans further, ?_, ended, ahead⟩
  rw [delivered, h.deliveries, deliveries_deliver]
  rfl

theorem exists_reads_of_steps {x y : List Goal × Engine} (h : x.2.Reads start r)
    (steps : Steps x y) : ∃ rest, y.2.Reads start rest := by
  induction steps with
  | refl => exact ⟨r, h⟩
  | tail _ step ih =>
      obtain ⟨rest, reads⟩ := ih
      -- Only passing a token reads anything.
      cases step with
      | @pop goal => exact ⟨rest, reads.absorb goal⟩
      | @shift goal _ _ _ moved passed =>
          exact (reads.absorb goal).advance (Goal.isEnd_of_react_shift moved) passed

theorem exists_reads_atStart {t : Token} (strict : Bool)
    (found : (TokenStream.readFrom filename [] r).next.1.outcome = .ok t) :
    ∃ rest, (atStart (.readFrom filename [] r) t strict filename).Reads r.forget rest := by
  have same : TokenStream.readFrom filename [] r = .readFrom filename [] r.forget :=
    TokenStream.readFrom_carry filename [] r.deliveries r.forget
  rw [same] at found ⊢
  obtain ⟨rest, moves, delivered, ended, ahead⟩ := TokenStream.moves_of_next rfl found
  refine ⟨rest, moves, ?_, ended, ahead⟩
  rw [delivered, deliveries, atStart, ← List.map_reverse, List.filterMap_map]
  exact (List.append_nil _).trans List.filterMap_some.symm

theorem exists_reads_of_run {t : Token} {strict : Bool} {goals : List Goal}
    (found : (TokenStream.readFrom filename [] r).next.1.outcome = .ok t)
    (ran : (atStart (.readFrom filename [] r) t strict filename).run goals = (.ok (), e)) :
    ∃ rest, e.Reads r.forget rest := by
  obtain ⟨first, begins⟩ := exists_reads_atStart strict found
  exact exists_reads_of_steps begins (steps_of_run ran)

theorem flatMap_characters (events : List Event) :
    events.flatMap Event.characters =
      (events.filterMap Event.delivery?).flatMap Delivery.chunk := by
  induction events with
  | nil => rfl
  | cons event events ih =>
      rw [List.flatMap_cons, ih]
      cases event <;> rfl

theorem Reads.received_eq (h : e.Reads start r) : e.received = r.received := by
  have same : r.deliveries = e.events.filterMap Event.delivery? := h.deliveries
  rw [received, flatMap_characters, List.filterMap_reverse, Reader.received, same]

theorem Reads.records (h : e.Reads start r) : e.Records start.whole := by
  refine ⟨r.coming, by rw [h.received_eq, ← h.moves.whole_eq, Reader.whole], ?_⟩
  rw [Cursor.Awaits]
  split
  · next ended => exact h.ended ended
  · next more => exact ⟨r, h.ahead (by simpa using more), rfl⟩

/-- At its end an engine has read all of its source. -/
theorem Records.received_eq (h : e.Records row) (ended : e.cursor.current.isEnd) :
    e.received = row := by
  obtain ⟨later, rfl, awaits⟩ := h
  rw [(Cursor.awaits_iff_of_isEnd ended).mp awaits, List.append_nil]

end Engine

end Jack
