import Jack.Proofs.Tokenizing

/-! # Interleaved calls

A lexer has an outlook: the tokens it can still hand out, and what comes behind the last of them.
No question changes the outlook and taking a token takes it off the front, so what a lexer answers
to a row of questions and takings is known from the outlook it started with, in whatever order they
come.
-/

namespace Jack

/-- What is still to come of a source. -/
structure Outlook where
  /-- The tokens that can still be read. -/
  tokens : List Token
  /-- What comes behind them: the place where the source is over, or what is wrong with the
  characters there. -/
  ending : Except Failure Position

namespace Reader

/-- What a reader has in front. -/
def outlook (filename : Option String) (r : Reader) : Outlook :=
  match _h : r.nextToken with
  | (.ok (some token), rest) =>
    ⟨token :: (rest.outlook filename).tokens, (rest.outlook filename).ending⟩
  | (.ok none, rest) => ⟨[], .ok rest.position⟩
  | (.error fault, _) => ⟨[], .error (.ofFault filename fault)⟩
  termination_by r.remaining.length
  decreasing_by exact length_remaining_of_nextToken _h

section Outlook

variable {filename : Option String} {r s after : Reader}

theorem outlook_of_token {token : Token} (h : r.nextToken = (.ok (some token), after)) :
    r.outlook filename =
      ⟨token :: (after.outlook filename).tokens, (after.outlook filename).ending⟩ := by
  rw [outlook]
  split
  · next found => cases h.symm.trans found; rfl
  · next found => cases h.symm.trans found
  · next found => cases h.symm.trans found

theorem outlook_of_end (h : r.nextToken = (.ok none, after)) :
    r.outlook filename = ⟨[], .ok after.position⟩ := by
  rw [outlook]
  split
  · next found => cases h.symm.trans found
  · next found => cases h.symm.trans found; rfl
  · next found => cases h.symm.trans found

theorem outlook_of_fault {fault : Fault} (h : r.nextToken = (.error fault, after)) :
    r.outlook filename = ⟨[], .error (.ofFault filename fault)⟩ := by
  rw [outlook]
  split
  · next found => cases h.symm.trans found
  · next found => cases h.symm.trans found
  · next found => cases h.symm.trans found; rfl

/-- Reading all tokens that are left finds those of the outlook, if they end well. -/
theorem fst_tokensFrom (filename : Option String) (taken : List Token) (r : Reader) :
    (r.tokensFrom taken).1.mapError (.ofFault filename) =
      (r.outlook filename).ending.map fun _ =>
        taken.reverse ++ (r.outlook filename).tokens := by
  fun_induction tokensFrom taken r with
  | case1 taken r token rest read ih =>
      rw [ih, outlook_of_token read, List.reverse_cons, List.append_assoc]
      rfl
  | case2 taken r rest read =>
      rw [outlook_of_end read, List.append_nil]
      rfl
  | case3 taken r fault rest read =>
      rw [outlook_of_fault read]
      rfl

theorem remaining_of_end (h : r.nextToken = (.ok none, after)) : after.remaining = [] := by
  unfold nextToken at h
  split at h
  · cases h
  · split at h
    · next peeked =>
      cases h
      rw [remaining_of_peek peeked, remaining_of_peek_none peeked]
    · split at h <;> cases h

/-- A source that is over stays over, at the same place. -/
theorem nextToken_at_end (h : r.remaining = []) :
    ∃ after, r.nextToken = (.ok none, after) ∧ r.Alike after := by
  have front (s : Reader) (finished : s.remaining = []) : ∃ ahead, s.peek 0 = (none, ahead) :=
    ⟨(s.peek 0).2, Prod.ext (by rw [fst_peek, finished]; rfl) rfl⟩
  obtain ⟨ahead, peeked⟩ := front r h
  obtain ⟨after, peeked'⟩ := front ahead (by rw [remaining_of_peek peeked, h])
  have passed := (passes_of_peek peeked).trans (passes_of_peek peeked')
  refine ⟨after, ?_, passed.remaining, passed.position.symm⟩
  rw [nextToken, skipIgnored_at_end peeked]
  simp only [peeked']

theorem outlook_behind_end (h : r.nextToken = (.ok none, after)) :
    after.outlook filename = ⟨[], .ok after.position⟩ := by
  obtain ⟨last, again, same⟩ := nextToken_at_end (remaining_of_end h)
  rw [outlook_of_end again, same.position]

theorem outlook_behind_tokensFrom {taken tokens : List Token}
    (h : r.tokensFrom taken = (.ok tokens, after)) :
    after.outlook filename = ⟨[], (r.outlook filename).ending⟩ := by
  fun_induction tokensFrom taken r with
  | case1 taken r token rest read ih => rw [ih h, outlook_of_token read]
  | case2 taken r rest read =>
      cases h
      rw [outlook_behind_end read, outlook_of_end read]
  | case3 taken r fault rest read => cases h

end Outlook

end Reader

namespace Lexer

/-- What a lexer has in front, the token it keeps first. -/
def outlook (l : Lexer) : Outlook :=
  ⟨l.pending.toList ++ (l.reader.outlook l.filename).tokens, (l.reader.outlook l.filename).ending⟩

/-- The lexer after a row of calls, whatever they answered. -/
def performAll (calls : List Call) (l : Lexer) : Lexer :=
  calls.foldl (fun l call => (perform call l).2) l

/-- What a lexer answers to a row of calls. -/
def answers : List Call → Lexer → List (Except Failure Answer)
  | [], _ => []
  | call :: later, l => (perform call l).1 :: answers later (perform call l).2

/-- The tokens that were handed out one at a time. -/
def handedOut (answers : List (Except Failure Answer)) : List Token :=
  answers.filterMap fun
    | .ok (.token found) => found
    | _ => none

theorem handedOut_append (before after : List (Except Failure Answer)) :
    handedOut (before ++ after) = handedOut before ++ handedOut after :=
  List.filterMap_append

@[simp] theorem performAll_cons (call : Call) (later : List Call) (l : Lexer) :
    l.performAll (call :: later) = (perform call l).2.performAll later := rfl

/-! ### One call -/

section Calls

variable {l : Lexer}

/-- What a lexer knows after it was asked for another token. -/
inductive Asked (l : Lexer) : Except Failure Bool × Lexer → Prop where
  | there {next : Lexer} {t : Token} (kept : next.pending = some t)
      (name : next.filename = l.filename) (same : next.outlook = l.outlook) :
      Asked l (.ok true, next)
  | finished {next : Lexer} (kept : next.pending = none) (name : next.filename = l.filename)
      (same : next.outlook = l.outlook) (ended : l.outlook = ⟨[], .ok next.reader.position⟩) :
      Asked l (.ok false, next)
  | failed {failure : Failure} {next : Lexer} (ended : l.outlook = ⟨[], .error failure⟩) :
      Asked l (.error failure, next)

theorem asked (l : Lexer) : Asked l l.hasNext := by
  unfold hasNext
  split
  · next t kept => exact .there kept rfl rfl
  · next empty =>
    cases read : l.reader.nextToken with
    | mk found after =>
        simp only [scan, scanned, read]
        match found with
        | .error fault =>
            exact .failed (by rw [outlook, empty, Reader.outlook_of_fault read]; rfl)
        | .ok none =>
            have before : l.outlook = ⟨[], .ok after.position⟩ := by
              rw [outlook, empty, Reader.outlook_of_end read]
              rfl
            refine .finished rfl rfl ?_ before
            rw [before]
            simp only [outlook, Reader.outlook_behind_end read]
            rfl
        | .ok (some t) =>
            refine .there rfl rfl ?_
            simp only [outlook, empty, Reader.outlook_of_token read]
            rfl

/-- What a lexer answers when its source is over. -/
def endedAt (filename : Option String) (place : Position) : Failure :=
  .diagnosed (.atPosition .unexpectedEnd place filename)

/-- What a lexer has in front after it was asked to take a token. -/
inductive Took (l : Lexer) : Except Failure Token × Lexer → Prop where
  | token {next : Lexer} {t : Token} (name : next.filename = l.filename)
      (front : l.outlook.tokens = t :: next.outlook.tokens)
      (ending : next.outlook.ending = l.outlook.ending) : Took l (.ok t, next)
  | finished {next : Lexer} {place : Position} (name : next.filename = l.filename)
      (same : next.outlook = l.outlook) (ended : l.outlook = ⟨[], .ok place⟩) :
      Took l (.error (endedAt l.filename place), next)
  | failed {failure : Failure} {next : Lexer} (ended : l.outlook = ⟨[], .error failure⟩) :
      Took l (.error failure, next)

theorem took (l : Lexer) : Took l l.advance := by
  have found := asked l
  unfold advance
  generalize l.hasNext = answer at found
  cases found with
  | failed ended => exact .failed ended
  | finished kept name same ended =>
      simp only [kept, name]
      exact .finished name same ended
  | there kept name same =>
      simp only [kept]
      refine .token name ?_ ?_ <;> rw [← same] <;> simp [outlook, kept]

theorem fst_hasNext (l : Lexer) :
    l.hasNext.1 = match l.outlook.tokens with
      | [] => l.outlook.ending.map fun _ => false
      | _ :: _ => .ok true := by
  have found := asked l
  generalize l.hasNext = answer at found
  cases found with
  | failed ended => simp [ended, Except.map]
  | finished kept name same ended => simp [ended, Except.map]
  | there kept name same =>
      rw [← same]
      simp [outlook, kept]

theorem fst_advance (l : Lexer) :
    l.advance.1 = match l.outlook.tokens with
      | [] => l.outlook.ending.bind fun place => .error (endedAt l.filename place)
      | t :: _ => .ok t := by
  have found := took l
  generalize l.advance = answer at found
  cases found with
  | token name front ending => rw [front]
  | finished name same ended => simp [ended, Except.bind]
  | failed ended => simp [ended, Except.bind]

theorem hasNext_iff (l : Lexer) : l.hasNext.1 = .ok true ↔ ∃ t, l.advance.1 = .ok t := by
  rw [fst_hasNext, fst_advance]
  cases l.outlook.tokens with
  | nil => cases l.outlook.ending <;> simp [Except.map, Except.bind]
  | cons t rest => simp

theorem fst_tokenize (l : Lexer) :
    l.tokenize.1 = l.outlook.ending.map fun _ => l.outlook.tokens := by
  have read := Reader.fst_tokensFrom l.filename l.pending.toList l.reader
  cases h : l.pending <;> simpa [tokenize, scanned, outlook, h] using read

theorem outlook_tokenize (h : l.outlook.ending.isOk) :
    l.tokenize.2.outlook = ⟨[], l.outlook.ending⟩ := by
  have read := Reader.fst_tokensFrom l.filename l.pending.toList l.reader
  cases found : l.reader.tokensFrom l.pending.toList with
  | mk outcome after =>
      cases outcome with
      | ok tokens =>
          simp only [tokenize, scanned, outlook, found]
          exact Reader.outlook_behind_tokensFrom found
      | error fault =>
          rw [found] at read
          obtain ⟨place, ended⟩ : ∃ place, l.outlook.ending = .ok place := by
            cases ended : l.outlook.ending with
            | ok place => exact ⟨place, rfl⟩
            | error failure => rw [ended] at h; cases h
          rw [outlook] at ended
          rw [ended] at read
          cases read

@[simp] theorem filename_tokenize (l : Lexer) : l.tokenize.2.filename = l.filename := rfl

end Calls

/-! ### Rows of calls -/

/-- A question or a taking. -/
def Call.IsStep (call : Call) : Prop :=
  call = .hasNext ∨ call = .advance

/-- What a step takes off the front is what it answers, unless the characters in front make no
token. -/
theorem outlook_perform {call : Call} (step : call.IsStep) (l : Lexer)
    (sound : l.outlook.ending.isOk ∨ (perform call l).1.isOk) :
    (perform call l).2.filename = l.filename ∧
      l.outlook.tokens =
        handedOut [(perform call l).1] ++ (perform call l).2.outlook.tokens ∧
      (perform call l).2.outlook.ending = l.outlook.ending := by
  rcases step with rfl | rfl
  · have found := asked l
    simp only [perform, answered] at sound ⊢
    generalize l.hasNext = answer at found sound
    cases found with
    | there kept name same => exact ⟨name, by rw [same]; rfl, by rw [same]⟩
    | finished kept name same => exact ⟨name, by rw [same]; rfl, by rw [same]⟩
    | failed ended => simp [ended, Except.isOk, Except.toBool, Except.map] at sound
  · have found := took l
    simp only [perform, answered] at sound ⊢
    generalize l.advance = answer at found sound
    cases found with
    | token name front ending => exact ⟨name, front, ending⟩
    | finished name same => exact ⟨name, by rw [same]; rfl, by rw [same]⟩
    | failed ended => simp [ended, Except.isOk, Except.toBool, Except.map] at sound

/-- A row of steps hands out the front of the outlook. -/
theorem outlook_performAll {calls : List Call} (steps : ∀ call ∈ calls, call.IsStep) (l : Lexer)
    (sound : l.outlook.ending.isOk ∨ ∀ answer ∈ answers calls l, answer.isOk) :
    (l.performAll calls).filename = l.filename ∧
      l.outlook.tokens =
        handedOut (answers calls l) ++ (l.performAll calls).outlook.tokens ∧
      (l.performAll calls).outlook.ending = l.outlook.ending := by
  induction calls generalizing l with
  | nil => exact ⟨rfl, rfl, rfl⟩
  | cons call later ih =>
      rw [List.forall_mem_cons] at steps
      simp only [answers, List.forall_mem_cons] at sound
      obtain ⟨name, front, ending⟩ := outlook_perform steps.1 l (sound.imp_right And.left)
      obtain ⟨name', front', ending'⟩ := ih steps.2 (perform call l).2
        (sound.imp (by rw [ending]; exact id) And.right)
      refine ⟨name'.trans name, ?_, ending'.trans ending⟩
      rw [front, front', ← List.append_assoc, ← handedOut_append]
      rfl

/-- A step fails only in front of characters that make no token. -/
theorem outlook_of_perform_error {call : Call} (step : call.IsStep) {l : Lexer}
    {failed failure : Failure} (ending : l.outlook.ending = .error failure)
    (failing : (perform call l).1 = .error failed) :
    l.outlook.tokens = [] ∧ failed = failure := by
  rcases step with rfl | rfl
  · rw [perform, answered, fst_hasNext, ending] at failing
    cases front : l.outlook.tokens with
    | nil => rw [front] at failing; exact ⟨rfl, (Except.error.inj failing).symm⟩
    | cons t rest => rw [front] at failing; cases failing
  · rw [perform, answered, fst_advance, ending] at failing
    cases front : l.outlook.tokens with
    | nil => rw [front] at failing; exact ⟨rfl, (Except.error.inj failing).symm⟩
    | cons t rest => rw [front] at failing; cases failing

/-- The first failure of a row of steps comes when all tokens are taken, and is that of the
characters behind them. -/
theorem outlook_of_failed {calls : List Call} (steps : ∀ call ∈ calls, call.IsStep) {l : Lexer}
    {before after : List (Except Failure Answer)} {failed failure : Failure}
    (split : answers calls l = before ++ .error failed :: after)
    (sound : ∀ answer ∈ before, answer.isOk) (ending : l.outlook.ending = .error failure) :
    handedOut before = l.outlook.tokens ∧ failed = failure := by
  induction calls generalizing l before with
  | nil => exact absurd split (by simp [answers])
  | cons call later ih =>
      rw [List.forall_mem_cons] at steps
      cases before with
      | nil =>
          obtain ⟨failing, -⟩ := List.cons.inj split
          obtain ⟨none, same⟩ := outlook_of_perform_error steps.1 ending failing
          exact ⟨none.symm, same⟩
      | cons answer before =>
          obtain ⟨rfl, split'⟩ := List.cons.inj split
          rw [List.forall_mem_cons] at sound
          obtain ⟨-, front, ending'⟩ := outlook_perform steps.1 l (.inr sound.1)
          obtain ⟨taken, same⟩ := ih steps.2 split' sound.2 (ending'.trans ending)
          refine ⟨?_, same⟩
          rw [front, ← taken, ← handedOut_append]
          rfl

/-- A call that goes by tokens: a step, or taking all tokens that are left. -/
def Call.IsByTokens (call : Call) : Prop :=
  call.IsStep ∨ call = .tokenize

/-- What a lexer answers when its source is over. -/
def answerAt (filename : Option String) (place : Position) : Call → Except Failure Answer
  | .advance => .error (endedAt filename place)
  | .tokenize => .ok (.tokens [])
  | _ => .ok (.truth false)

/-- When a source is over, it stays so. -/
theorem answers_at_end {calls : List Call} (byTokens : ∀ call ∈ calls, call.IsByTokens) {l : Lexer}
    {place : Position} (ended : l.outlook = ⟨[], .ok place⟩) :
    answers calls l = calls.map (answerAt l.filename place) := by
  induction calls generalizing l with
  | nil => rfl
  | cons call later ih =>
      rw [List.forall_mem_cons] at byTokens
      have sound : l.outlook.ending.isOk := by rw [ended]; rfl
      have next : (perform call l).1 = answerAt l.filename place call ∧
          (perform call l).2.filename = l.filename ∧
          (perform call l).2.outlook = ⟨[], .ok place⟩ := by
        rcases byTokens.1 with step | rfl
        · obtain ⟨name, front, ending⟩ := outlook_perform step l (.inl sound)
          rw [ended] at front ending
          have none := (List.append_eq_nil_iff.mp front.symm).2
          refine ⟨?_, name, congrArg₂ Outlook.mk none ending⟩
          rcases step with rfl | rfl
          · rw [perform, answered, fst_hasNext, ended]
            rfl
          · rw [perform, answered, fst_advance, ended]
            rfl
        · refine ⟨?_, rfl, ?_⟩
          · rw [perform, answered, fst_tokenize, ended]
            rfl
          · exact (outlook_tokenize sound).trans (by rw [ended])
      obtain ⟨same, name, ended'⟩ := next
      rw [answers, ih byTokens.2 ended', same, name, List.map_cons]

/-! ### Questions change nothing -/

/-- Two lexers that no call by tokens tells apart. -/
structure Alike (l m : Lexer) : Prop where
  reader : l.reader.Alike m.reader
  filename : l.filename = m.filename
  pending : l.pending = m.pending

/-- Two calls answer the same and leave lexers that are alike. -/
def SameCall {α : Type} (x y : α × Lexer) : Prop :=
  x.1 = y.1 ∧ x.2.Alike y.2

theorem SameCall.exists_eq {α : Type} {x y : α × Lexer} {found : α} {next : Lexer}
    (h : SameCall x y) (hx : x = (found, next)) :
    ∃ next', y = (found, next') ∧ next.Alike next' := by
  subst hx
  exact ⟨y.2, Prod.ext h.1.symm rfl, h.2⟩

namespace Alike

variable {l m : Lexer}

theorem refl (l : Lexer) : l.Alike l :=
  ⟨.refl _, rfl, rfl⟩

theorem scanned (h : l.Alike m) {α : Type} {x y : Except Fault α × Reader}
    (same : Reader.SameScan x y) : SameCall (l.scanned x) (m.scanned y) :=
  ⟨by rw [Lexer.scanned, Lexer.scanned, same.1, h.filename], same.2, h.filename, h.pending⟩

theorem scan (h : l.Alike m) : SameCall l.scan m.scan :=
  h.scanned h.reader.nextToken

theorem tokenize (h : l.Alike m) : SameCall l.tokenize m.tokenize := by
  have forgotten : Lexer.Alike { l with pending := none } { m with pending := none } :=
    ⟨h.reader, h.filename, rfl⟩
  unfold Lexer.tokenize
  rw [← h.pending]
  exact forgotten.scanned (h.reader.tokensFrom _)

theorem hasNext (h : l.Alike m) : SameCall l.hasNext m.hasNext := by
  unfold Lexer.hasNext
  rw [← h.pending]
  split
  · exact ⟨rfl, h⟩
  · cases read : l.scan with
    | mk found next =>
        obtain ⟨next', read', same⟩ := h.scan.exists_eq read
        rw [read']
        cases found with
        | error failure => exact ⟨rfl, same⟩
        | ok token => exact ⟨rfl, same.reader, same.filename, rfl⟩

end Alike

/-- Taking the next token goes by what the question for it found. -/
theorem advance_congr {l m : Lexer} (h : SameCall l.hasNext m.hasNext) :
    SameCall l.advance m.advance := by
  unfold advance
  cases found : l.hasNext with
  | mk answer next =>
      obtain ⟨next', found', same⟩ := h.exists_eq found
      rw [found']
      cases answer with
      | error failure => exact ⟨rfl, same⟩
      | ok there =>
          simp only [← same.pending]
          split
          · exact ⟨rfl, same.reader, same.filename, rfl⟩
          · rw [same.reader.position, same.filename]
            exact ⟨rfl, same⟩

theorem SameCall.answered {α : Type} {wrap : α → Answer} {x y : Except Failure α × Lexer}
    (h : SameCall x y) : SameCall (answered wrap x) (answered wrap y) :=
  ⟨congrArg (Except.map wrap) h.1, h.2⟩

theorem Alike.perform {l m : Lexer} (h : l.Alike m) {call : Call} (byTokens : call.IsByTokens) :
    SameCall (perform call l) (perform call m) := by
  rcases byTokens with (rfl | rfl) | rfl
  · exact h.hasNext.answered
  · exact (advance_congr h.hasNext).answered
  · exact h.tokenize.answered

/-- Lexers that are alike go on alike. -/
theorem Alike.answers {calls : List Call} (byTokens : ∀ call ∈ calls, call.IsByTokens)
    {l m : Lexer} (h : l.Alike m) : answers calls l = answers calls m := by
  induction calls generalizing l m with
  | nil => rfl
  | cons call later ih =>
      rw [List.forall_mem_cons] at byTokens
      obtain ⟨same, alike⟩ := h.perform byTokens.1
      rw [Lexer.answers, Lexer.answers, same, ih byTokens.2 alike]

section Questions

variable {l next : Lexer} {there : Bool}

/-- A question that was answered found a token pending, or read what is pending now. -/
theorem read_of_hasNext (h : l.hasNext = (.ok there, next)) :
    (l.pending.isSome ∧ next = l) ∨
      l.pending = none ∧ l.reader.nextToken = (.ok next.pending, next.reader) ∧
        next.filename = l.filename ∧ there = next.pending.isSome := by
  unfold hasNext at h
  split at h
  · next t kept =>
    cases h
    exact .inl ⟨by rw [kept]; rfl, rfl⟩
  · next empty =>
    refine .inr ⟨empty, ?_⟩
    cases read : l.reader.nextToken with
    | mk found after =>
        simp only [scan, scanned, read] at h
        cases found with
        | error fault => cases h
        | ok token =>
            cases h
            exact ⟨rfl, rfl, rfl⟩

/-- A question that was answered is answered the same again. -/
theorem hasNext_again (h : l.hasNext = (.ok there, next)) :
    SameCall next.hasNext l.hasNext := by
  obtain ⟨-, rfl⟩ | ⟨-, read, -, rfl⟩ := read_of_hasNext h
  · exact ⟨rfl, .refl _⟩
  · rw [h]
    cases kept : next.pending with
    | some t =>
        simp only [hasNext, kept]
        exact ⟨rfl, .refl _⟩
    | none =>
        rw [kept] at read
        obtain ⟨last, again, same⟩ := Reader.nextToken_at_end (Reader.remaining_of_end read)
        simp only [hasNext, kept, scan, scanned, again]
        exact ⟨rfl, same.symm, rfl, kept.symm⟩

theorem tokenize_again (h : l.hasNext = (.ok there, next)) :
    SameCall next.tokenize l.tokenize := by
  obtain ⟨-, rfl⟩ | ⟨empty, read, name, -⟩ := read_of_hasNext h
  · exact ⟨rfl, .refl _⟩
  · cases kept : next.pending with
    | some t =>
        rw [kept] at read
        simp only [tokenize, scanned, kept, empty, name, Option.toList_none, Option.toList_some,
          Reader.tokensFrom_of_token read]
        exact ⟨rfl, .refl _⟩
    | none =>
        rw [kept] at read
        obtain ⟨last, again, same⟩ := Reader.nextToken_at_end (Reader.remaining_of_end read)
        simp only [tokenize, scanned, kept, empty, name, Option.toList_none,
          Reader.tokensFrom_of_end read, Reader.tokensFrom_of_end again]
        exact ⟨rfl, same.symm, rfl, rfl⟩

/-- A question that was answered changes no later answer. -/
theorem perform_again {call : Call} (byTokens : call.IsByTokens)
    (h : l.hasNext = (.ok there, next)) : SameCall (perform call next) (perform call l) := by
  rcases byTokens with (rfl | rfl) | rfl
  · exact (hasNext_again h).answered
  · exact (advance_congr (hasNext_again h)).answered
  · exact (tokenize_again h).answered

end Questions

/-- Any number of questions changes no later answer. -/
theorem answers_after_questions {calls : List Call} (byTokens : ∀ call ∈ calls, call.IsByTokens)
    (questions : Nat) {l : Lexer} (sound : l.hasNext.1.isOk) :
    answers calls (l.performAll (.replicate questions .hasNext)) = answers calls l := by
  induction questions generalizing l with
  | zero => rfl
  | succ questions ih =>
      obtain ⟨there, next, asked⟩ : ∃ there next, l.hasNext = (.ok there, next) := by
        cases asked : l.hasNext with
        | mk answer next =>
            cases answer with
            | ok there => exact ⟨there, next, rfl⟩
            | error failure => rw [asked] at sound; cases sound
      have again := hasNext_again asked
      have step : (perform .hasNext l).2 = next := by rw [perform, answered, asked]
      rw [List.replicate_succ, performAll_cons, step, ih (by rw [again.1]; exact sound)]
      cases calls with
      | nil => rfl
      | cons call later =>
          rw [List.forall_mem_cons] at byTokens
          obtain ⟨same, alike⟩ := perform_again byTokens.1 asked
          rw [answers, answers, same, alike.answers byTokens.2]

end Lexer

open Lexer in
/-- Questions and takings share one row of tokens, whatever order they come in: what was taken and
what taking all the rest gives is that row, a question is answered by whether something is left of
it, and no question changes a later answer. Behind the row comes the same problem or the same end
for everyone. -/
theorem interleaved_calls_share_one_row (source : Source) (chunkSize : Int)
    (filename : Option String) (fresh : Lexer)
    (opened : Lexer.ofSource source chunkSize filename = .ok fresh) :
    ∃ (row : List Token) (ending : Except Failure Position),
      fresh.tokenize.1 = ending.map (fun _ => row) ∧
      ∀ calls : List Call, (∀ call ∈ calls, call.IsStep) →
        let l := fresh.performAll calls
        let taken := handedOut (answers calls fresh)
        (l.hasNext.1 = .ok true ↔ ∃ t, l.advance.1 = .ok t) ∧
        (∀ (questions : Nat) (later : List Call), (∀ call ∈ later, call.IsByTokens) →
          l.hasNext.1.isOk →
          answers later (l.performAll (.replicate questions .hasNext)) = answers later l) ∧
        (ending.isOk ∨ (∀ answer ∈ answers calls fresh, answer.isOk) →
          l.tokenize.1.map (taken ++ ·) = fresh.tokenize.1 ∧
          ∃ left, row = taken ++ left ∧
            l.hasNext.1 = (match left with
              | [] => ending.map fun _ => false
              | _ :: _ => .ok true) ∧
            l.advance.1 = (match left with
              | [] => ending.bind fun place => .error (endedAt filename place)
              | t :: _ => .ok t) ∧
            ∀ (place : Position) (later : List Call), ending = .ok place →
              (∀ call ∈ later, call.IsByTokens) →
              (left = [] → answers later l = later.map (answerAt filename place)) ∧
              answers later l.tokenize.2 = later.map (answerAt filename place)) ∧
        (∀ (before after : List (Except Failure Answer)) (failed failure : Failure),
          answers calls fresh = before ++ .error failed :: after →
          (∀ answer ∈ before, answer.isOk) → ending = .error failure →
          handedOut before = row ∧ failed = failure) := by
  have name : fresh.filename = filename := by
    unfold Lexer.ofSource at opened
    split at opened
    · cases opened
    · cases opened
      rfl
  refine ⟨fresh.outlook.tokens, fresh.outlook.ending, fst_tokenize fresh, fun calls steps => ?_⟩
  intro l taken
  refine ⟨l.hasNext_iff, fun questions later byTokens sound =>
    answers_after_questions byTokens questions sound, fun sound => ?_,
    fun before after failed failure split sound ending =>
      outlook_of_failed steps split sound ending⟩
  obtain ⟨name', split, ending⟩ := outlook_performAll steps fresh sound
  refine ⟨?_, l.outlook.tokens, split, ?_, ?_, fun place later ended byTokens => ⟨?_, ?_⟩⟩
  · rw [fst_tokenize, fst_tokenize, ending, split]
    cases fresh.outlook.ending <;> rfl
  · rw [fst_hasNext, ending]
  · rw [fst_advance, ending, name', name]
  · intro none
    rw [answers_at_end byTokens (congrArg₂ Outlook.mk none (ending.trans ended)), name', name]
  · have sound : l.outlook.ending.isOk := by rw [ending, ended]; rfl
    have finished := outlook_tokenize sound
    rw [ending, ended] at finished
    rw [answers_at_end byTokens finished, filename_tokenize, name', name]

open Lexer in
/-- One source ends in a string that is not closed, the other behind its only token. -/
theorem interleaved_calls_share_one_row_at_open_string :
    let broken : Lexer := ⟨.ofSource 1 (.text "do \"x"), none, none⟩
    let whole : Lexer := ⟨.ofSource 1 (.text "do "), none, none⟩
    let word : Token := ⟨.keyword .doWord, ⟨1, 1⟩⟩
    let calls : List Call := [.hasNext, .hasNext, .advance]
    let failure : Failure := .diagnosed (.atPosition .unterminatedString ⟨1, 4⟩ none)
    Lexer.ofSource (.text "do \"x") 1 none = .ok broken ∧
      broken.tokenize.1 = .error failure ∧
      handedOut (answers calls broken) = [word] ∧
      (broken.performAll calls).tokenize.1 = .error failure ∧
      Lexer.ofSource (.text "do ") 1 none = .ok whole ∧
      whole.tokenize.1 = .ok [word] ∧
      (whole.performAll calls).hasNext.1 = .ok false ∧
      ∃ place, (whole.performAll calls).advance.1 = .error (endedAt none place) := by
  intro broken whole word calls failure
  have steps : ∀ call ∈ calls, call.IsStep := by simp [calls, Call.IsStep]
  have failing : broken.tokenize.1 = .error failure := by decide +kernel
  have ended : whole.tokenize.1 = .ok [word] := by decide +kernel
  refine ⟨rfl, failing, by decide +kernel, ?_, rfl, ended, ?_⟩
  · obtain ⟨row, ending, read, runs⟩ :=
      interleaved_calls_share_one_row (.text "do \"x") 1 none broken rfl
    obtain ⟨-, -, sound, -⟩ := runs calls steps
    obtain ⟨rest, -⟩ := sound (.inr (by decide +kernel))
    rw [failing] at rest
    generalize (broken.performAll calls).tokenize.1 = found at rest ⊢
    cases found with
    | ok tokens => cases rest
    | error other => exact congrArg _ (Except.error.inj rest)
  · obtain ⟨row, ending, read, runs⟩ :=
      interleaved_calls_share_one_row (.text "do ") 1 none whole rfl
    obtain ⟨-, -, sound, -⟩ := runs calls steps
    obtain ⟨-, left, split, there, took, -⟩ := sound (.inr (by decide +kernel))
    have taken : handedOut (answers calls whole) = [word] := by decide +kernel
    rw [ended] at read
    cases ending with
    | error other => cases read
    | ok place =>
        obtain rfl : [word] = row := Except.ok.inj read
        rw [taken] at split
        obtain rfl : left = [] := (List.cons.inj split).2.symm
        exact ⟨there, place, took⟩

end Jack
