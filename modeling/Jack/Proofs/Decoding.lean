import Jack.Files.TextFile
import Jack.Source
import Mathlib.Tactic.IntervalCases

/-! # Reading a file as text

A file whose bytes are those of a text is read as that text with its line ends unified, wherever the
blocks that are fetched end: within a character, or between a carriage return and its line feed.
Each read hands out as many characters as it is asked for, until the text is over.
-/

namespace Jack

/-! ### Bytes of characters -/

/-- The bytes of a text. -/
def encode (text : List Char) : List UInt8 :=
  text.flatMap String.utf8EncodeChar

theorem encode_cons (c : Char) (text : List Char) :
    encode (c :: text) = String.utf8EncodeChar c ++ encode text :=
  rfl

theorem encode_eq_nil_iff {text : List Char} : encode text = [] ↔ text = [] := by
  cases text with
  | nil => simp [encode]
  | cons c text => simp [encode_cons]

theorem splitChar?_encode (c : Char) (rest : List UInt8) :
    splitChar? (String.utf8EncodeChar c ++ rest) = some (c, rest) := by
  have size : (String.utf8EncodeChar c).length = c.utf8Size := String.length_utf8EncodeChar c
  have small : (String.utf8EncodeChar c).length ≤ 4 := size ▸ c.utf8Size_le_four
  have read : ((String.utf8EncodeChar c ++ rest).take 4).toByteArray.utf8DecodeChar? 0 =
      some c := by
    rw [List.take_append, List.take_of_length_le small, List.toByteArray_append]
    exact ByteArray.utf8DecodeChar?_utf8EncodeChar_append
  rw [splitChar?, read, Option.map_some, ← size, List.drop_left]

/-- The first bytes of a character are taken for a front of one. -/
theorem isFront_take (c : Char) (k : Nat) (short : k < (String.utf8EncodeChar c).length) :
    isFront ((String.utf8EncodeChar c).take k) = true := by
  have valid : c.val.toNat < 0x110000 := by
    obtain small | ⟨-, small⟩ := c.valid <;> omega
  unfold String.utf8EncodeChar at short ⊢
  generalize c.val.toNat = v at short valid ⊢
  dsimp only at short ⊢
  -- The bounds of each number of bytes leave out the first bytes that no character starts with.
  split_ifs at short ⊢ with one two three
  all_goals
    simp only [List.length_cons, List.length_nil] at short
    interval_cases k
  all_goals
    simp only [List.take_zero, List.take_succ_cons, isFront, isSecond, isContinuation,
      Bool.and_eq_true, Bool.or_eq_true, decide_eq_true_eq, bne_iff_ne, ne_eq, ← UInt8.toNat_inj,
      UInt8.le_iff_toNat_le, UInt8.toNat_ofNat', UInt8.reduceToNat]
  all_goals omega

theorem decode?_encode_append (text : List Char) (rest : List UInt8) :
    decode? (encode text ++ rest) =
      (decode? rest).map fun found => (text ++ found.1, found.2) := by
  induction text with
  | nil => simp [encode]
  | cons c text ih =>
      rw [encode_cons, List.append_assoc, decode?]
      split
      · next d rest' found =>
        rw [splitChar?_encode] at found
        cases found
        simp [ih, Function.comp_def]
      · next none => cases (splitChar?_encode c _).symm.trans none

/-- Bytes in front of which no character ends are left over. -/
theorem decode?_front {c : Char} {front back : List UInt8}
    (h : String.utf8EncodeChar c = front ++ back) (more : back ≠ []) :
    decode? front = some ([], front) := by
  have cut : front = (String.utf8EncodeChar c).take front.length := by
    rw [h, List.take_left]
  have short : front.length < (String.utf8EncodeChar c).length := by
    rw [h, List.length_append]
    exact Nat.lt_add_of_pos_right (List.length_pos_iff.mpr more)
  have taken : isFront front = true := cut ▸ isFront_take c _ short
  rw [decode?]
  split
  · next d rest found =>
    have whole := splitChar?_encode c []
    rw [List.append_nil, h, splitChar?_eq_some found, List.append_assoc, splitChar?_encode]
      at whole
    obtain ⟨-, none⟩ := Prod.mk.inj (Option.some.inj whole)
    exact absurd (List.append_eq_nil_iff.mp none).2 more
  · rw [if_pos taken]

theorem decode?_nil : decode? [] = some ([], []) :=
  decode?_front (List.nil_append (String.utf8EncodeChar ' ')).symm String.utf8EncodeChar_ne_nil

/-- A part of the bytes of a text is decoded as its first characters, and what is left over belongs
to the others. -/
theorem exists_of_append_eq_encode {text : List Char} {bytes rest : List UInt8}
    (h : bytes ++ rest = encode text) : ∃ front back left, text = front ++ back ∧
      decode? bytes = some (front, left) ∧ left ++ rest = encode back ∧
      (rest = [] → left = []) := by
  induction text generalizing bytes with
  | nil =>
      obtain ⟨rfl, rfl⟩ := List.append_eq_nil_iff.mp h
      exact ⟨[], [], [], rfl, decode?_nil, rfl, fun _ => rfl⟩
  | cons c text ih =>
      rw [encode_cons] at h
      obtain ⟨later, whole, behind⟩ | ⟨later, rfl, behind⟩ := List.append_eq_append_iff.mp h
      · by_cases complete : later = []
        · subst complete
          rw [List.append_nil] at whole
          refine ⟨[c], text, [], rfl, ?_, behind, fun _ => rfl⟩
          have decoded := decode?_encode_append [c] []
          rwa [encode, List.flatMap_singleton, List.append_nil, whole, decode?_nil] at decoded
        · refine ⟨[], c :: text, bytes, rfl, decode?_front whole complete, ?_, fun none => ?_⟩
          · rw [encode_cons, whole, behind, List.append_assoc]
          · rw [none] at behind
            exact absurd (List.append_eq_nil_iff.mp behind.symm).1 complete
      · obtain ⟨front, back, left, rfl, decoded, rest, last⟩ := ih behind.symm
        refine ⟨c :: front, back, left, rfl, ?_, rest, last⟩
        have first := decode?_encode_append [c] later
        rwa [encode, List.flatMap_singleton, decoded] at first

/-! ### Line ends -/

theorem unifyNewlines_cons {c : Char} {rest : List Char}
    (apart : c = '\r' → rest.head? ≠ some '\n') :
    unifyNewlines (c :: rest) = (if c == '\r' then '\n' else c) :: unifyNewlines rest := by
  rw [unifyNewlines.eq_def]
  split
  · next same => cases same
  · next same =>
    cases same
    exact absurd rfl (apart rfl)
  · next same =>
    cases same
    rfl

/-- Line ends can be unified in two parts, unless one of them is cut in two. -/
theorem unifyNewlines_append {text later : List Char}
    (whole : text.getLast? = some '\r' → later.head? ≠ some '\n') :
    unifyNewlines (text ++ later) = unifyNewlines text ++ unifyNewlines later := by
  fun_induction unifyNewlines text with
  | case1 => rfl
  | case2 rest ih =>
      have behind : rest.getLast? = some '\r' → later.head? ≠ some '\n' := fun last =>
        whole (by simp only [List.getLast?_cons, last, Option.getD_some])
      rw [List.cons_append, List.cons_append, unifyNewlines, ih behind, List.cons_append]
  | case3 c rest apart ih =>
      have behind : rest.getLast? = some '\r' → later.head? ≠ some '\n' := fun last =>
        whole (by simp only [List.getLast?_cons, last, Option.getD_some])
      have apart : c = '\r' → (rest ++ later).head? ≠ some '\n' := by
        rintro rfl
        cases rest with
        | nil => exact whole rfl
        | cons d rest =>
            intro first
            cases first
            exact apart rest rfl rfl
      rw [List.cons_append, unifyNewlines_cons apart, ih behind, List.cons_append]

namespace TextFile

variable {f next : TextFile} {text : List Char} {wanted : Nat}

/-- What is still to be handed out of a file is a text. -/
def Holds (f : TextFile) (text : List Char) : Prop :=
  ∃ chars, f.pending ++ f.unread = encode chars ∧
    text = f.decoded ++ unifyNewlines (carry f.held chars)

theorem holds_ofBytes (text : List Char) : (ofBytes (encode text)).Holds (unifyNewlines text) :=
  ⟨text, rfl, rfl⟩

/-- What is handed on of a part of a text, and what is held back of it, are the text. -/
theorem holdBack_append (last : Bool) (part : List Char) {later : List Char}
    (ended : last = true → later = []) :
    (holdBack last part).2 ++ unifyNewlines (carry (holdBack last part).1 later) =
      unifyNewlines (part ++ later) := by
  unfold holdBack
  split
  · next held =>
    rw [Bool.and_eq_true, beq_iff_eq] at held
    obtain ⟨front, rfl⟩ := List.getLast?_eq_some_iff.mp held.2
    rw [List.dropLast_concat, List.append_assoc]
    exact (unifyNewlines_append fun _ => by simp [carry]).symm
  · next free =>
    refine (unifyNewlines_append fun carriage => ?_).symm
    cases last with
    | false => simp [carriage] at free
    | true => simp [ended rfl, carry]

/-- A block of the bytes of a text is decoded. What is handed out then is in front of what the bytes
behind it still give. -/
theorem exists_of_decode {block later : List UInt8} {chars : List Char} (f : TextFile)
    (bytes : (f.pending ++ block) ++ later = encode chars) (ended : block = [] → later = []) :
    ∃ next back, f.decode block = .ok next ∧ next.unread = f.unread ∧
      next.pending ++ later = encode back ∧
      unifyNewlines (carry f.held chars) =
        next.decoded ++ unifyNewlines (carry next.held back) ∧
      (block = [] → unifyNewlines (carry f.held chars) = next.decoded) := by
  obtain ⟨front, back, left, rfl, decoded, rest, last⟩ := exists_of_append_eq_encode bytes
  have finished (empty : block = []) : left = [] ∧ back = [] := by
    rw [ended empty] at rest last
    rw [last rfl] at rest
    exact ⟨last rfl, encode_eq_nil_iff.mp rest.symm⟩
  have carried : carry f.held (front ++ back) = carry f.held front ++ back := by
    cases f.held <;> rfl
  have text := holdBack_append block.isEmpty (carry f.held front) fun empty =>
    (finished (List.isEmpty_iff.mp empty)).2
  rw [← carried] at text
  have whole : (block.isEmpty && !left.isEmpty) ≠ true := by
    intro broken
    rw [Bool.and_eq_true, List.isEmpty_iff] at broken
    rw [(finished broken.1).1] at broken
    cases broken.2
  simp only [decode, decoded, if_neg whole]
  refine ⟨_, back, rfl, rfl, rest, text.symm, fun empty => ?_⟩
  rw [← text, (finished empty).2, empty]
  simp [holdBack, carry, unifyNewlines]

/-- When characters are fetched from a text, the rest of it is held behind those decoded before. -/
theorem Holds.fetch (h : f.Holds text) (wanted : Nat) :
    ∃ next rest, f.fetch wanted = .ok next ∧ text = f.decoded ++ rest ∧ next.Holds rest ∧
      (f.unread = [] → rest = next.decoded) := by
  obtain ⟨chars, bytes, rfl⟩ := h
  have positive := fetchSize_pos wanted f
  rw [← List.take_append_drop (f.fetchSize wanted) f.unread, ← List.append_assoc] at bytes
  have ended (empty : f.unread.take (f.fetchSize wanted) = []) :
      f.unread.drop (f.fetchSize wanted) = [] := by
    rw [(List.take_eq_nil_iff.mp empty).resolve_left (Nat.ne_of_gt positive), List.drop_nil]
  obtain ⟨next, back, decoded, unread, rest, text, last⟩ := exists_of_decode
    { f with unread := f.unread.drop (f.fetchSize wanted) } bytes ended
  refine ⟨next, _, decoded, rfl, ⟨back, ?_, text⟩, fun none => last ?_⟩
  · rw [unread]
    exact rest
  · rw [none, List.take_nil]

/-- Reading hands out the next characters of the text. -/
theorem Holds.read (h : f.Holds text) (wanted : Nat) :
    ∃ next, f.read wanted = .ok (text.take wanted, next) ∧ next.Holds (text.drop wanted) := by
  fun_induction TextFile.read wanted f generalizing text with
  | case1 wanted f enough =>
      obtain ⟨chars, bytes, rfl⟩ := h
      rw [List.take_append_of_le_length enough, List.drop_append_of_le_length enough]
      exact ⟨_, rfl, chars, bytes, rfl⟩
  | case2 wanted f short failure failed =>
      obtain ⟨next, rest, fetched, -⟩ := h.fetch (wanted - f.decoded.length)
      cases failed.symm.trans fetched
  | case3 wanted f short next' fetched ended =>
      obtain ⟨next, rest, fetched', rfl, held, last⟩ := h.fetch (wanted - f.decoded.length)
      cases fetched.symm.trans fetched'
      rw [Bool.and_eq_true, List.isEmpty_iff, List.isEmpty_iff] at ended
      obtain rfl : rest = [] := (last ended.1).trans ended.2
      have all : f.decoded.length ≤ wanted := by omega
      rw [List.append_nil, List.take_of_length_le all, List.drop_of_length_le all]
      exact ⟨next', rfl, held⟩
  | case4 wanted f short next' fetched more ih =>
      obtain ⟨next, rest, fetched', rfl, held, last⟩ := h.fetch (wanted - f.decoded.length)
      cases fetched.symm.trans fetched'
      obtain ⟨after, read, behind⟩ := ih held
      have all : f.decoded.length ≤ wanted := by omega
      rw [List.take_append, List.take_of_length_le all, List.drop_append,
        List.drop_of_length_le all, List.nil_append]
      exact ⟨after, by rw [read]; rfl, behind⟩

/-- All reads together hand out the text, cut into chunks. -/
theorem Holds.reads (h : f.Holds text) (positive : 0 < wanted) :
    f.reads wanted = (Source.cut wanted text, none) := by
  obtain ⟨size, rfl⟩ := Nat.exists_eq_succ_of_ne_zero (Nat.ne_of_gt positive)
  fun_induction Source.cut (size + 1) text generalizing f with
  | case1 =>
      obtain ⟨next, read, -⟩ := h.read (size + 1)
      rw [List.take_nil] at read
      rw [TextFile.reads]
      split
      · next failed => cases failed.symm.trans read
      · rfl
      · next more => cases more.symm.trans read
  | case2 c rest ih =>
      obtain ⟨next, read, held⟩ := h.read (size + 1)
      rw [List.take_succ_cons] at read
      rw [TextFile.reads]
      split
      · next failed => cases failed.symm.trans read
      · next ended => cases ended.symm.trans read
      · next more =>
        cases more.symm.trans read
        rw [ih held]
        rfl

end TextFile

end Jack
