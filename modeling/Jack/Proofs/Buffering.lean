import Jack.Proofs.Delivery
import Jack.Proofs.Interleaving
import Jack.Proofs.Lookahead

/-! # Buffers

Whatever a lexer is asked to do, its reader gets there by acts of two sorts: it asks for a chunk
when a character that is to be looked at is not in the buffer, and it passes the first character of
the buffer. No act loses a character or moves the place away from the characters that were passed,
and none makes the buffer longer than a chunk and the characters that were too few before it.
-/

namespace Jack

namespace Reader

/-- The smallest things that a reader does. -/
inductive Act where
  /-- Ask for a chunk while the buffer holds some characters. -/
  | read (held : List Char)
  /-- Pass a character. -/
  | pass (c : Char)
  deriving Repr, DecidableEq

/-- The reader after a read that returned a chunk in front of the later ones. -/
def given (chunk : List Char) (later : List (List Char)) (r : Reader) : Reader :=
  { r with
    buffer := r.buffer ++ chunk
    unread := some later
    deliveries := ⟨chunk, r.position.line⟩ :: r.deliveries }

/-- What an act makes of a reader. No chunk is asked for once a read has returned nothing. -/
inductive Step (r : Reader) : Act → Reader → Prop where
  | chunk {chunk : List Char} {later : List (List Char)}
      (coming : r.unread = some (chunk :: later)) : Step r (.read r.buffer) (r.given chunk later)
  | nothing (ended : r.unread = some []) : Step r (.read r.buffer) { r with unread := none }
  | pass {c : Char} {rest : List Char} (front : r.buffer = c :: rest) :
      Step r (.pass c) { r with buffer := rest, position := r.position.after c }

/-- One reader comes to another by acts. -/
inductive Walk : Reader → List Act → Reader → Prop where
  | stay (r : Reader) : Walk r [] r
  | step {r mid last : Reader} {act : Act} {acts : List Act} (first : r.Step act mid)
      (rest : Walk mid acts last) : Walk r (act :: acts) last

/-- The character that an act passes. -/
def Act.char? : Act → Option Char
  | .read _ => none
  | .pass c => some c

/-- Whether an act reads only while the buffer holds at most `few` characters. -/
def Act.Within (few : Nat) : Act → Prop
  | .read held => held.length ≤ few
  | .pass _ => True

/-- Whether an act is a read for the character at an offset, with the given characters already
in front. -/
def Act.Fills (front : List Char) (offset : Nat) (act : Act) : Prop :=
  ∃ held, act = .read held ∧ front <+: held ∧ held.length ≤ offset

/-- The characters that acts pass. -/
def passed (acts : List Act) : List Char :=
  acts.filterMap Act.char?

variable {r mid next last : Reader} {act : Act} {acts before after : List Act} {few : Nat}

/-! ### Acts of a reader -/

namespace Walk

theorem append (h : r.Walk before mid) (h' : mid.Walk after last) :
    r.Walk (before ++ after) last := by
  induction h with
  | stay => exact h'
  | step first _ ih => exact .step first (ih h')

theorem exists_append (h : r.Walk (before ++ after) last) :
    ∃ mid, r.Walk before mid ∧ mid.Walk after last := by
  induction before generalizing r with
  | nil => exact ⟨r, .stay r, h⟩
  | cons act before ih =>
      cases h with
      | step first rest =>
          obtain ⟨mid, walk, walk'⟩ := ih rest
          exact ⟨mid, .step first walk, walk'⟩

end Walk

theorem fillFrom_unread (offset : Nat) (r : Reader) (unread : Option (List (List Char)))
    (chunks : List (List Char)) :
    fillFrom offset { r with unread } chunks = r.fillFrom offset chunks := by
  induction chunks generalizing r with
  | nil => rfl
  | cons chunk later ih =>
      simp only [fillFrom]
      split
      · exact ih { r with
          buffer := r.buffer ++ chunk
          deliveries := ⟨chunk, r.position.line⟩ :: r.deliveries }
      · rfl

theorem fillFrom_of_lacks {offset : Nat} {chunk : List Char} {later : List (List Char)}
    (lacks : r.buffer.length ≤ offset) :
    r.fillFrom offset (chunk :: later) = (r.given chunk later).fillFrom offset later := by
  rw [fillFrom, if_pos (by simpa using lacks)]
  exact (fillFrom_unread offset _ (some later) later).symm

theorem fillFrom_of_lt {offset : Nat} {chunks : List (List Char)} (coming : r.unread = some chunks)
    (reaches : offset < r.buffer.length) : r.fillFrom offset chunks = r := by
  cases chunks with
  | nil => rw [fillFrom, if_neg (by simpa using reaches), ← coming]
  | cons chunk later => rw [fillFrom, if_neg (by simpa using reaches), ← coming]

/-- The buffer is filled by reads that each find it too short. -/
theorem exists_walk_fillFrom (offset : Nat) {chunks : List (List Char)}
    (coming : r.unread = some chunks) :
    ∃ acts, r.Walk acts (r.fillFrom offset chunks) ∧ ∀ act ∈ acts, act.Fills r.buffer offset := by
  induction chunks generalizing r with
  | nil =>
      by_cases lacks : r.buffer.length ≤ offset
      · rw [fillFrom, if_pos (by simpa using lacks)]
        refine ⟨_, .step (.nothing coming) (.stay _), List.forall_mem_singleton.mpr ?_⟩
        exact ⟨_, rfl, List.prefix_rfl, lacks⟩
      · rw [fillFrom_of_lt coming (not_le.mp lacks)]
        exact ⟨[], .stay r, List.forall_mem_nil _⟩
  | cons chunk later ih =>
      by_cases lacks : r.buffer.length ≤ offset
      · obtain ⟨acts, walk, fills⟩ := ih (r := r.given chunk later) rfl
        rw [fillFrom_of_lacks lacks]
        refine ⟨_, .step (.chunk coming) walk, List.forall_mem_cons.mpr ⟨?_, fun act inside => ?_⟩⟩
        · exact ⟨_, rfl, List.prefix_rfl, lacks⟩
        · obtain ⟨held, rfl, longer, short⟩ := fills act inside
          exact ⟨held, rfl, (List.prefix_append _ chunk).trans longer, short⟩
      · rw [fillFrom_of_lt coming (not_le.mp lacks)]
        exact ⟨[], .stay r, List.forall_mem_nil _⟩

theorem exists_walk_fill (offset : Nat) (r : Reader) :
    ∃ acts, r.Walk acts (r.fill offset) ∧ ∀ act ∈ acts, act.Fills r.buffer offset := by
  unfold fill
  split
  · exact ⟨[], .stay r, List.forall_mem_nil _⟩
  · next chunks coming => exact exists_walk_fillFrom offset coming

/-- Whether an act reads only where the buffer is empty, or for the character behind a mark that it
holds alone. -/
def Act.Near (marks : List Char) : Act → Prop
  | .read held => held = [] ∨ ∃ c ∈ marks, held = [c]
  | .pass _ => True

theorem Act.Fills.near_front {marks front : List Char} (h : act.Fills front 0) :
    act.Near marks := by
  obtain ⟨held, rfl, -, short⟩ := h
  exact .inl (List.eq_nil_of_length_eq_zero (Nat.le_zero.mp short))

theorem Act.Fills.near_behind {marks front : List Char} {c : Char} (mark : c ∈ marks)
    (seen : front.head? = some c) (h : act.Fills front 1) : act.Near marks := by
  obtain ⟨held, rfl, longer, short⟩ := h
  obtain ⟨rest, rfl⟩ := List.head?_eq_some_iff.mp seen
  obtain ⟨more, rfl⟩ := longer
  have alone : rest ++ more = [] := by
    rw [List.cons_append, List.length_cons] at short
    exact List.eq_nil_of_length_eq_zero (by omega)
  exact .inr ⟨c, mark, by rw [List.cons_append, alone]⟩

theorem Act.Near.within {marks : List Char} (h : act.Near marks) (near : 1 ≤ few) :
    act.Within few := by
  cases act with
  | pass c => trivial
  | read held =>
      obtain rfl | ⟨c, -, rfl⟩ := h
      · exact Nat.zero_le few
      · exact near

theorem exists_walk_advance {marks : List Char} (r : Reader) :
    ∃ acts, r.Walk acts r.advance ∧ ∀ act ∈ acts, act.Near marks := by
  obtain ⟨acts, walk, fills⟩ := exists_walk_fill 0 r
  have near : ∀ act ∈ acts, act.Near marks := fun act inside => (fills act inside).near_front
  simp only [advance]
  split
  · exact ⟨acts, walk, near⟩
  · next c rest front =>
    refine ⟨_, walk.append (.step (.pass front) (.stay _)), ?_⟩
    exact List.forall_mem_append.mpr ⟨near, List.forall_mem_singleton.mpr trivial⟩

theorem Ranges.exists_walk {marks : List Char} (h : r.Ranges marks next) :
    ∃ acts, r.Walk acts next ∧ ∀ act ∈ acts, act.Near marks := by
  induction h with
  | stay => exact ⟨[], .stay r, List.forall_mem_nil _⟩
  | @front next _ ih =>
      obtain ⟨acts, walk, near⟩ := ih
      obtain ⟨reads, filled, fills⟩ := exists_walk_fill 0 next
      exact ⟨_, walk.append filled, List.forall_mem_append.mpr
        ⟨near, fun act inside => (fills act inside).near_front⟩⟩
  | @behind next c mark seen _ ih =>
      obtain ⟨acts, walk, near⟩ := ih
      obtain ⟨reads, filled, fills⟩ := exists_walk_fill 1 next
      exact ⟨_, walk.append filled, List.forall_mem_append.mpr
        ⟨near, fun act inside => (fills act inside).near_behind mark seen⟩⟩
  | @advance next _ ih =>
      obtain ⟨acts, walk, near⟩ := ih
      obtain ⟨acts', advanced, near'⟩ := exists_walk_advance next
      exact ⟨_, walk.append advanced, List.forall_mem_append.mpr ⟨near, near'⟩⟩

/-! ### What acts keep -/

theorem Walk.buffer_of_read {held : List Char} (h : r.Walk acts next)
    (reads : acts.head? = some (.read held)) : r.buffer = held ∧ r.isExhausted = false := by
  cases h with
  | stay => cases reads
  | step first _ =>
      obtain rfl := Option.some.inj reads
      cases first with
      | chunk coming => exact ⟨rfl, by rw [isExhausted, coming]; rfl⟩
      | nothing ended => exact ⟨rfl, by rw [isExhausted, ended]; rfl⟩

theorem Step.passes (h : r.Step act next) : r.Passes act.char?.toList next := by
  cases h with
  | chunk coming => exact ⟨by simp [remaining, given, coming, Act.char?], rfl⟩
  | nothing ended => exact ⟨by simp [remaining, ended, Act.char?], rfl⟩
  | pass front => exact ⟨by simp [remaining, front, Act.char?], rfl⟩

theorem Walk.passes (h : r.Walk acts next) : r.Passes (passed acts) next := by
  induction h with
  | stay => exact ⟨rfl, rfl⟩
  | @step r mid last act acts first _ ih =>
      have both := first.passes.trans ih
      cases act with
      | read | pass => exact both

/-- The chunks that a reader was given, and those that it is still to be given. -/
def chunks (r : Reader) : List (List Char) :=
  r.deliveries.reverse.map Delivery.chunk ++ r.unread.getD []

theorem Walk.chunks_eq (h : r.Walk acts next) : next.chunks = r.chunks := by
  induction h with
  | stay => rfl
  | step first _ ih =>
      rw [ih]
      cases first with
      | chunk coming => simp [chunks, given, coming]
      | nothing ended => simp [chunks, ended]
      | pass => rfl

/-- No chunk to come is longer than `size`, and the buffer holds at most one of them behind `few`
characters. -/
structure Fits (size few : Nat) (r : Reader) : Prop where
  chunks : ∀ chunk ∈ r.unread.getD [], chunk.length ≤ size
  buffer : r.buffer.length ≤ size + few

theorem Step.fits {size : Nat} (h : r.Step act next) (within : act.Within few)
    (start : r.Fits size few) : next.Fits size few := by
  cases h with
  | @chunk chunk later coming =>
      have sizes := start.chunks
      rw [coming, Option.getD_some, List.forall_mem_cons] at sizes
      have held : r.buffer.length ≤ few := within
      refine ⟨sizes.2, ?_⟩
      rw [given, List.length_append, Nat.add_comm size]
      exact Nat.add_le_add held sizes.1
  | nothing => exact ⟨List.forall_mem_nil _, start.buffer⟩
  | @pass c rest front =>
      have held := start.buffer
      rw [front] at held
      exact ⟨start.chunks, (Nat.le_succ rest.length).trans held⟩

theorem Walk.fits {size : Nat} (h : r.Walk acts next) (within : ∀ act ∈ acts, act.Within few)
    (start : r.Fits size few) : next.Fits size few := by
  induction h with
  | stay => exact start
  | step first _ ih =>
      rw [List.forall_mem_cons] at within
      exact ih within.2 (first.fits within.1 start)

/-- A reader behind some characters of a text: it holds the next ones and knows the place of the
first of them, and the others are still to be read. -/
structure Keeps (text gone : List Char) (r : Reader) : Prop where
  whole : text = gone ++ r.buffer ++ (r.unread.getD []).flatten
  position : r.position = .behind gone

theorem Walk.keeps {size : Nat} {source : Source} (h : (ofSource size source).Walk acts r) :
    r.Keeps source.characters (passed acts) where
  whole := by
    rw [← remaining_ofSource size source, h.passes.remaining, List.append_assoc, remaining]
  position := by rw [h.passes.position, ← Position.past_start, ofSource]

theorem length_le_of_mem_cut {size : Nat} (positive : 0 < size) (text : List Char) :
    ∀ chunk ∈ Source.cut size text, chunk.length ≤ size := by
  fun_induction Source.cut size text with
  | case1 => exact List.forall_mem_nil _
  | case2 c rest ih =>
      refine List.forall_mem_cons.mpr ⟨?_, ih⟩
      simp only [List.length_cons, List.length_take]
      omega

end Reader

namespace Lexer

/-! ### Acts of a lexer -/

/-- The marks that a call looks behind. -/
def Call.marks : Call → List Char
  | .hasNext | .advance | .tokenize | .scan | .skipIgnored => ['/', '*']
  | .skipBlock => ['*']
  | .skipLine | .integer _ | .string _ | .word _ | .advanceChar | .peek _ => []

/-- Whether an act can be one of a call. Only a look at an offset asks for chunks while the buffer
holds more than a mark, and it passes nothing. -/
def Call.Makes : Call → Reader.Act → Prop
  | .peek offset, .read held => held.length ≤ offset
  | .peek _, .pass _ => False
  | call, act => act.Near call.marks

variable {call : Call} {calls : List Call} {l : Lexer}

theorem ranges_hasNext (l : Lexer) : l.reader.Ranges ['/', '*'] l.hasNext.2.reader := by
  have scanned : l.reader.Ranges ['/', '*'] l.scan.2.reader := Reader.ranges_nextToken l.reader
  unfold hasNext
  split
  · exact .stay
  · split <;> next read => rwa [read] at scanned

theorem reader_advance (l : Lexer) : l.advance.2.reader = l.hasNext.2.reader := by
  unfold advance
  split <;> next asked => rw [asked]; try (split <;> rfl)

/-- A call that is no look acts on the reader as its scanner does. -/
theorem exists_walk_of_ranges {r next : Reader} (ranges : r.Ranges call.marks next)
    (scans : ∀ offset, call ≠ .peek offset) :
    ∃ acts, r.Walk acts next ∧ ∀ act ∈ acts, call.Makes act := by
  obtain ⟨acts, walk, near⟩ := ranges.exists_walk
  refine ⟨acts, walk, fun act inside => ?_⟩
  cases call with
  | peek offset => exact absurd rfl (scans offset)
  | _ => exact near act inside

/-- A call acts on the reader for the places that it looks at. -/
theorem exists_walk_perform (call : Call) (l : Lexer) :
    ∃ acts, l.reader.Walk acts (perform call l).2.reader ∧ ∀ act ∈ acts, call.Makes act := by
  cases call with
  | peek offset =>
      obtain ⟨acts, walk, fills⟩ := Reader.exists_walk_fill offset l.reader
      refine ⟨acts, walk, fun act inside => ?_⟩
      obtain ⟨held, rfl, -, short⟩ := fills act inside
      exact short
  | hasNext => exact exists_walk_of_ranges (ranges_hasNext l) nofun
  | advance =>
      have ranges := ranges_hasNext l
      rw [← reader_advance] at ranges
      exact exists_walk_of_ranges ranges nofun
  | tokenize =>
      exact exists_walk_of_ranges (Reader.ranges_tokensFrom l.pending.toList l.reader) nofun
  | scan => exact exists_walk_of_ranges (Reader.ranges_nextToken l.reader) nofun
  | skipIgnored => exact exists_walk_of_ranges (Reader.ranges_skipIgnored l.reader) nofun
  | skipBlock => exact exists_walk_of_ranges (Reader.ranges_skipBlock rfl) nofun
  | skipLine => exact exists_walk_of_ranges (Reader.ranges_skipLine l.reader) nofun
  | integer start => exact exists_walk_of_ranges (Reader.ranges_integer start l.reader) nofun
  | string start => exact exists_walk_of_ranges (Reader.ranges_string start l.reader) nofun
  | word start => exact exists_walk_of_ranges (Reader.ranges_word start l.reader) nofun
  | advanceChar => exact exists_walk_of_ranges (Reader.ranges_advance l.reader) nofun

theorem pos_of_ofSource {source : Source} {chunkSize : Int} {filename : Option String}
    (opened : ofSource source chunkSize filename = .ok l) :
    0 < chunkSize ∧ l = ⟨.ofSource chunkSize.toNat source, filename, none⟩ := by
  unfold ofSource at opened
  split at opened
  · cases opened
  · next positive => exact ⟨not_le.mp positive, (Except.ok.inj opened).symm⟩

/-- The acts of a run, those of each call for itself. -/
theorem exists_journal (calls : List Call) (l : Lexer) :
    ∃ journal : List (List Reader.Act),
      List.Forall₂ (fun call acts => ∀ act ∈ acts, call.Makes act) calls journal ∧
      l.reader.Walk journal.flatten (l.performAll calls).reader := by
  induction calls generalizing l with
  | nil => exact ⟨[], .nil, .stay _⟩
  | cons call later ih =>
      obtain ⟨acts, walk, made⟩ := exists_walk_perform call l
      obtain ⟨journal, each, rest⟩ := ih (perform call l).2
      exact ⟨acts :: journal, .cons made each, walk.append rest⟩

theorem within_of_makes {reach : Nat} {act : Reader.Act} (near : 1 ≤ reach)
    (looks : ∀ offset, call = .peek offset → offset ≤ reach) (made : call.Makes act) :
    act.Within reach := by
  cases call with
  | peek offset =>
      cases act with
      | read held => exact le_trans made (looks offset rfl)
      | pass c => trivial
  | _ => exact Reader.Act.Near.within made near

theorem within_journal {reach : Nat} {journal : List (List Reader.Act)} (near : 1 ≤ reach)
    (looks : ∀ offset, .peek offset ∈ calls → offset ≤ reach)
    (each : List.Forall₂ (fun call acts => ∀ act ∈ acts, call.Makes act) calls journal) :
    ∀ act ∈ journal.flatten, act.Within reach := by
  induction each with
  | nil => exact List.forall_mem_nil _
  | cons made _ ih =>
      rw [List.flatten_cons, List.forall_mem_append]
      refine ⟨fun act inside => within_of_makes near (fun offset same => looks offset ?_)
        (made act inside), ih fun offset later => looks offset (List.mem_cons_of_mem _ later)⟩
      rw [same]
      exact List.mem_cons_self

open Reader in
/-- Whatever a lexer is asked and however it answers, its reader goes on by reads and passes, and at
every point of the way the characters that were passed, those of the buffer and those of the
chunks to come are the text of the source. A read is made only where the buffer is too short for
what the call looks at, and before any read has returned nothing, so a text read by chunks is held
as one chunk and no more characters than were looked at. Looking ahead shows the characters in front
and changes neither them nor the place. -/
theorem buffers_lose_nothing (source : Source) (text : String) (delivers : source.Delivers text)
    (chunkSize : Int) (filename : Option String) (fresh : Lexer)
    (opened : Lexer.ofSource source chunkSize filename = .ok fresh) (calls : List Call) :
    let l := fresh.performAll calls
    ∃ journal : List (List Act),
      List.Forall₂ (fun call acts => ∀ act ∈ acts, call.Makes act) calls journal ∧
      (∀ before after, journal.flatten = before ++ after → ∃ r : Reader,
        fresh.reader.Walk before r ∧ r.Walk after l.reader ∧
        r.Keeps text.toList (passed before) ∧
        r.chunks = source.chunks chunkSize.toNat ∧
        (∀ held, after.head? = some (.read held) → r.buffer = held ∧ r.isExhausted = false) ∧
        ∀ (content : String) (reach : Nat), source = .text content → 1 ≤ reach →
          (∀ offset, .peek offset ∈ calls → offset ≤ reach) →
          (r.buffer.length : Int) ≤ chunkSize + reach) ∧
      ∀ offset, ∃ r : Reader,
        l.perform (.peek offset) =
          (.ok (.character (text.toList.drop (passed journal.flatten).length)[offset]?),
            { l with reader := r }) ∧
        r.position = l.reader.position ∧ r.remaining = l.reader.remaining := by
  intro l
  obtain ⟨positive, rfl⟩ := pos_of_ofSource opened
  obtain ⟨journal, each, walk⟩ :=
    exists_journal calls ⟨.ofSource chunkSize.toNat source, filename, none⟩
  refine ⟨journal, each, fun before after split => ?_,
    fun offset => ⟨(l.reader.peek offset).2, ?_, ?_, ?_⟩⟩
  · have whole := walk
    rw [split] at whole
    obtain ⟨r, first, rest⟩ := whole.exists_append
    refine ⟨r, first, rest, ?_, first.chunks_eq, fun held reads => ?_, ?_⟩
    · rw [← delivers.characters]
      exact first.keeps
    · exact rest.buffer_of_read reads
    · rintro content reach rfl near looks
      have sizes := length_le_of_mem_cut (Int.pos_iff_toNat_pos.mp positive) content.toList
      have within := within_journal near looks each
      rw [split, List.forall_mem_append] at within
      have held := (first.fits within.1 ⟨sizes, Nat.zero_le _⟩).buffer
      omega
  · have left := walk.keeps.whole
    rw [delivers.characters, List.append_assoc] at left
    have ahead : text.toList.drop (passed journal.flatten).length = l.reader.remaining := by
      rw [left, List.drop_left]
      rfl
    rw [ahead, ← fst_peek]
    rfl
  · exact position_fill offset l.reader
  · exact remaining_peek offset l.reader

open Reader in
/-- The first call fails where no digit stands, and the last one fills the buffer as far as it may
be. -/
theorem buffers_lose_nothing_at_open_comment :
    let source : Source := .text "a/*b"
    let fresh : Lexer := ⟨.ofSource 1 source, none, none⟩
    let calls : List Call := [.integer ⟨1, 1⟩, .word ⟨1, 1⟩, .peek 1]
    let l := fresh.performAll calls
    source.Delivers "a/*b" ∧ Lexer.ofSource source 1 none = .ok fresh ∧
      l.reader.buffer = ['/', '*'] ∧ l.reader.position = ⟨1, 2⟩ ∧
      (∃ acts, fresh.reader.Walk acts l.reader ∧ passed acts = ['a']) ∧
      (l.reader.buffer.length : Int) ≤ 1 + 1 ∧
      ∀ offset, (l.perform (.peek offset)).1 = .ok (.character ['/', '*', 'b'][offset]?) := by
  intro source fresh calls l
  have held : l.reader.buffer = ['/', '*'] := by decide +kernel
  have coming : l.reader.unread = some [['b']] := by decide +kernel
  obtain ⟨journal, -, points, looks⟩ :=
    buffers_lose_nothing source "a/*b" .text 1 none fresh rfl calls
  obtain ⟨r, walk, stay, kept, -, -, bound⟩ := points journal.flatten [] (List.append_nil _).symm
  cases stay
  have gone : passed journal.flatten = ['a'] := by
    have whole : ['a'] ++ ['/', '*', 'b'] = _ := kept.whole
    rw [held, coming, List.append_assoc] at whole
    exact (List.append_cancel_right whole).symm
  have near : ∀ offset, .peek offset ∈ calls → offset ≤ 1 := by simp [calls]
  refine ⟨.text, rfl, held, ?_, ⟨_, walk, gone⟩, bound "a/*b" 1 rfl le_rfl near, fun offset => ?_⟩
  · rw [kept.position, gone]
    rfl
  · obtain ⟨next, looked, -⟩ := looks offset
    rw [looked, gone]
    rfl

end Lexer

end Jack
