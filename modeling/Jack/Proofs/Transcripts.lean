import Jack.Machine.Writer
import Jack.Proofs.Diagnosing
import Jack.Proofs.OutputForm
import Mathlib.Data.List.Forall2
import Std.Data.String.ToInt

/-! # Transcripts

What a writer has written is a transcript of its calls: a line for each call that was not refused,
and nothing for one that was. A line is a few words with single spaces between them, whose first
word and number of words say what was called, so a transcript is read back as long as no name has
blanks.
-/

namespace Jack

namespace Writer

/-! ### What is accepted -/

/-- The literals that name a segment. -/
def segments : List Literal :=
  segmentNames.map .text

/-- The literals that name a command. -/
def commands : List Literal :=
  commandNames.map .text

namespace Call

/-- Whether a call names an instruction. -/
def Valid : Call → Prop
  | .push segment index => segment ∈ segments ∧ 0 ≤ index
  | .pop segment index => segment ∈ segments ∧ segment ≠ .text "constant" ∧ 0 ≤ index
  | .arithmetic command => command ∈ commands
  | .call _ count | .function _ count => 0 ≤ count
  | .label _ | .goto _ | .ifGoto _ | .ret => True

instance : DecidablePred Valid
  | .push _ _ | .pop _ _ => inferInstanceAs (Decidable (_ ∧ _))
  | .arithmetic _ => inferInstanceAs (Decidable (_ ∈ _))
  | .call _ _ | .function _ _ => inferInstanceAs (Decidable (_ ≤ _))
  | .label _ | .goto _ | .ifGoto _ | .ret => inferInstanceAs (Decidable True)

/-- Why a call is refused. The segment counts before the operand. -/
inductive Refused : Call → Failure → Prop where
  | pushSegment {segment : Literal} {index : Int} (unknown : segment ∉ segments) :
      Refused (.push segment index) (.notSegment segment)
  | pushOperand {segment : Literal} {index : Int} (known : segment ∈ segments)
      (negative : index < 0) : Refused (.push segment index) (.negativeOperand index)
  | popSegment {segment : Literal} {index : Int} (unknown : segment ∉ segments) :
      Refused (.pop segment index) (.notSegment segment)
  | popConstant {index : Int} : Refused (.pop (.text "constant") index) .popConstant
  | popOperand {segment : Literal} {index : Int} (known : segment ∈ segments)
      (writable : segment ≠ .text "constant") (negative : index < 0) :
      Refused (.pop segment index) (.negativeOperand index)
  | command {command : Literal} (unknown : command ∉ commands) :
      Refused (.arithmetic command) (.notCommand command)
  | callOperand {callee : String} {count : Int} (negative : count < 0) :
      Refused (.call callee count) (.negativeOperand count)
  | functionOperand {name : String} {count : Int} (negative : count < 0) :
      Refused (.function name count) (.negativeOperand count)

theorem Refused.not_valid {call : Call} {failure : Failure} (h : call.Refused failure) :
    ¬ call.Valid := by
  cases h with
  | pushSegment unknown | popSegment unknown => exact fun valid => unknown valid.1
  | pushOperand known negative => exact fun valid => absurd valid.2 negative.not_ge
  | popConstant => exact fun valid => valid.2.1 rfl
  | popOperand known writable negative => exact fun valid => absurd valid.2.2 negative.not_ge
  | command unknown => exact unknown
  | callOperand negative | functionOperand negative => exact negative.not_ge

/-- The text of a literal that is one. -/
def spelling : Literal → String
  | .text value => value
  | .null | .bool _ | .int _ => ""

/-- The words of a call. -/
def words : Call → List String
  | .push segment index => ["push", spelling segment, toString index]
  | .pop segment index => ["pop", spelling segment, toString index]
  | .arithmetic command => [spelling command]
  | .label name => ["label", name]
  | .goto name => ["goto", name]
  | .ifGoto name => ["if-goto", name]
  | .call callee count => ["call", callee, toString count]
  | .function name count => ["function", name, toString count]
  | .ret => ["return"]

/-- The line of a call. -/
def line (call : Call) : String :=
  " ".intercalate call.words

end Call

/-! ### Single calls -/

/-- A call writes its line if it names an instruction, and is refused otherwise. -/
inductive Outcome (call : Call) : Except Failure (Instruction String) → Prop where
  | line {i : Instruction String} (valid : call.Valid) (spelled : i.text = call.line) :
      Outcome call (.ok i)
  | refusal {failure : Failure} (refused : call.Refused failure) :
      Outcome call (.error failure)

theorem exists_segment {literal : Literal} (h : literal ∈ segments) :
    ∃ segment ∈ Segment.all, literal = .text segment.text := by
  have named : ∀ literal ∈ segments, ∃ segment ∈ Segment.all, literal = .text segment.text := by
    decide
  exact named literal h

theorem exists_command {literal : Literal} (h : literal ∈ commands) :
    ∃ command ∈ Command.all, literal = .text command.text := by
  have named : ∀ literal ∈ commands, ∃ command ∈ Command.all, literal = .text command.text := by
    decide
  exact named literal h

/-- A literal names a segment or is refused. -/
theorem segment_cases (literal : Literal) :
    (∃ segment : Segment, literal = .text segment.text) ∨
      literal ∉ segments ∧ Segment.ofLiteral literal = .error (.notSegment literal) := by
  cases found : literal.member? Segment.all Segment.text with
  | some segment => exact .inl ⟨segment, Literal.eq_of_member? found⟩
  | none =>
      refine .inr ⟨fun inside => ?_, by rw [Segment.ofLiteral, found]⟩
      obtain ⟨segment, known, rfl⟩ := exists_segment inside
      exact Literal.ne_of_member? found known rfl

theorem command_cases (literal : Literal) :
    (∃ command : Command, literal = .text command.text) ∨
      literal ∉ commands ∧ Command.ofLiteral literal = .error (.notCommand literal) := by
  cases found : literal.member? Command.all Command.text with
  | some command => exact .inl ⟨command, Literal.eq_of_member? found⟩
  | none =>
      refine .inr ⟨fun inside => ?_, by rw [Command.ofLiteral, found]⟩
      obtain ⟨command, known, rfl⟩ := exists_command inside
      exact Literal.ne_of_member? found known rfl

theorem operand_cases (value : Int) :
    (∃ n : Nat, value = n) ∨ value < 0 ∧ operand value = .error (.negativeOperand value) := by
  by_cases negative : value < 0
  · exact .inr ⟨negative, by rw [operand, if_pos negative]⟩
  · exact .inl (Int.eq_ofNat_of_zero_le (not_lt.mp negative))

theorem mem_segments (segment : Segment) : .text segment.text ∈ segments :=
  List.mem_map_of_mem segment.text_mem

theorem named_eq_line {call : Call} {command front name : String}
    (spaced : command ++ " " = front) (h : call.words = [command, name]) :
    front ++ name = call.line := by
  rw [Call.line, h, String.intercalate_cons_cons, String.intercalate_singleton, spaced]

theorem counted_eq_line {call : Call} {command front name count : String}
    (spaced : command ++ " " = front) (h : call.words = [command, name, count]) :
    front ++ name ++ " " ++ count = call.line := by
  rw [Call.line, h, String.intercalate_cons_cons, String.intercalate_cons_cons,
    String.intercalate_singleton, spaced, String.append_assoc, String.append_assoc,
    String.append_assoc]

theorem outcome_instruction (call : Call) : Outcome call (instruction call) := by
  cases call with
  | push segment index =>
      obtain ⟨segment, rfl⟩ | ⟨unknown, refused⟩ := segment_cases segment
      · rw [instruction, Segment.ofLiteral_text]
        obtain ⟨n, rfl⟩ | ⟨negative, refused⟩ := operand_cases index
        · rw [operand_natCast]
          exact .line ⟨mem_segments segment, Int.natCast_nonneg n⟩ (counted_eq_line (by decide) rfl)
        · rw [refused]
          exact .refusal (.pushOperand (mem_segments segment) negative)
      · rw [instruction, refused]
        exact .refusal (.pushSegment unknown)
  | pop segment index =>
      obtain ⟨segment, rfl⟩ | ⟨unknown, refused⟩ := segment_cases segment
      · rw [instruction, Segment.ofLiteral_text]
        by_cases constant : segment = .constant
        · subst constant
          exact .refusal .popConstant
        · have writable : Literal.text segment.text ≠ .text "constant" := by
            cases segment with
            | constant => exact absurd rfl constant
            | _ => decide
          simp only [bind, Except.bind, if_neg constant, pure, Except.pure]
          obtain ⟨n, rfl⟩ | ⟨negative, refused⟩ := operand_cases index
          · rw [operand_natCast]
            exact .line ⟨mem_segments segment, writable, Int.natCast_nonneg n⟩
              (counted_eq_line (by decide) rfl)
          · rw [refused]
            exact .refusal (.popOperand (mem_segments segment) writable negative)
      · rw [instruction, refused]
        exact .refusal (.popSegment unknown)
  | arithmetic command =>
      obtain ⟨command, rfl⟩ | ⟨unknown, refused⟩ := command_cases command
      · rw [instruction, Command.ofLiteral_text]
        exact .line (List.mem_map_of_mem command.text_mem) rfl
      · rw [instruction, refused]
        exact .refusal (.command unknown)
  | label name | goto name | ifGoto name => exact .line trivial (named_eq_line (by decide) rfl)
  | call callee count =>
      obtain ⟨n, rfl⟩ | ⟨negative, refused⟩ := operand_cases count
      · rw [instruction, operand_natCast]
        exact .line (Int.natCast_nonneg n) (counted_eq_line (by decide) rfl)
      · rw [instruction, refused]
        exact .refusal (.callOperand negative)
  | function name count =>
      obtain ⟨n, rfl⟩ | ⟨negative, refused⟩ := operand_cases count
      · rw [instruction, operand_natCast]
        exact .line (Int.natCast_nonneg n) (counted_eq_line (by decide) rfl)
      · rw [instruction, refused]
        exact .refusal (.functionOperand negative)
  | ret => exact .line trivial rfl

/-! ### Runs -/

/-- Carry out calls one after the other. -/
def performAll : List Call → List (Instruction String) →
    List (Except Failure Unit) × List (Instruction String)
  | [], written => ([], written)
  | call :: later, written =>
    let rest := performAll later (perform call written).2
    ((perform call written).1 :: rest.1, rest.2)

/-- What a call is answered. -/
inductive Answered (call : Call) : Except Failure Unit → Prop where
  | accepted (valid : call.Valid) : Answered call (.ok ())
  | refused {failure : Failure} (invalid : ¬ call.Valid) (refused : call.Refused failure) :
      Answered call (.error failure)

/-- The lines of the calls that name instructions. -/
def transcript (calls : List Call) : String :=
  String.join (((calls.filter (·.Valid)).map Call.line).map (· ++ "\n"))

theorem transcript_cons (call : Call) (later : List Call) :
    transcript (call :: later) =
      (if call.Valid then call.line ++ "\n" else "") ++ transcript later := by
  by_cases valid : call.Valid
  · rw [transcript, List.filter_cons_of_pos (by simpa), List.map_cons, List.map_cons,
      String.join_cons, if_pos valid]
    rfl
  · rw [transcript, List.filter_cons_of_neg (by simpa), if_neg valid, String.empty_append]
    rfl

variable {call : Call} {calls : List Call} {written : List (Instruction String)}

/-- A call adds an instruction with its line, or it is refused and adds nothing. -/
theorem perform_cases (call : Call) (written : List (Instruction String)) :
    (call.Valid ∧ ∃ i : Instruction String, i.text = call.line ∧
        perform call written = (.ok (), i :: written)) ∨
      ¬ call.Valid ∧ ∃ failure, call.Refused failure ∧
        perform call written = (.error failure, written) := by
  have outcome := outcome_instruction call
  unfold perform
  cases found : instruction call with
  | ok i =>
      rw [found] at outcome
      cases outcome with
      | line valid spelled => exact .inl ⟨valid, i, spelled, rfl⟩
  | error failure =>
      rw [found] at outcome
      cases outcome with
      | refusal refused => exact .inr ⟨refused.not_valid, failure, refused, rfl⟩

theorem answered_perform (call : Call) (written : List (Instruction String)) :
    Answered call (perform call written).1 := by
  obtain ⟨valid, i, -, done⟩ | ⟨invalid, failure, refused, done⟩ := perform_cases call written
  · rw [done]
    exact .accepted valid
  · rw [done]
    exact .refused invalid refused

theorem text_cons (i : Instruction String) (written : List (Instruction String)) :
    text (i :: written) = text written ++ (i.text ++ "\n") := by
  simp only [text, Instruction.program, List.reverse_cons, List.map_append, List.map_cons,
    List.map_nil, String.join_append, String.join_cons, String.join_nil, String.append_empty]

theorem text_perform (call : Call) (written : List (Instruction String)) :
    text (perform call written).2 =
      text written ++ if call.Valid then call.line ++ "\n" else "" := by
  obtain ⟨valid, i, spelled, done⟩ | ⟨invalid, failure, -, done⟩ := perform_cases call written
  · rw [done, text_cons, spelled, if_pos valid]
  · rw [done, if_neg invalid, String.append_empty]

theorem answered_performAll (calls : List Call) (written : List (Instruction String)) :
    List.Forall₂ Answered calls (performAll calls written).1 := by
  induction calls generalizing written with
  | nil => exact .nil
  | cons call later ih => exact .cons (answered_perform call written) (ih _)

theorem text_performAll (calls : List Call) (written : List (Instruction String)) :
    text (performAll calls written).2 = text written ++ transcript calls := by
  induction calls generalizing written with
  | nil => exact (String.append_empty).symm
  | cons call later ih =>
      rw [performAll, ih, text_perform, transcript_cons, String.append_assoc]

/-! ### Reading transcripts -/

/-- The call of the given words. -/
def Call.ofWords? : List String → Option Call
  | ["push", segment, index] => index.toInt?.map (.push (.text segment))
  | ["pop", segment, index] => index.toInt?.map (.pop (.text segment))
  | ["label", name] => some (.label name)
  | ["goto", name] => some (.goto name)
  | ["if-goto", name] => some (.ifGoto name)
  | ["call", callee, count] => count.toInt?.map (.call callee)
  | ["function", name, count] => count.toInt?.map (.function name)
  | ["return"] => some .ret
  | [command] => some (.arithmetic (.text command))
  | _ => none

/-- The call of a line. -/
def Call.ofLine? (line : String) : Option Call :=
  ofWords? ((line.toList.splitOn ' ').map String.ofList)

/-- The calls of a transcript. -/
def readTranscript (text : String) : Option (List Call) :=
  (lines text).mapM Call.ofLine?

/-- Whether no character of a text is blank. -/
def Solid (text : String) : Prop :=
  ∀ c ∈ text.toList, isBlank c = false

instance (text : String) : Decidable (Solid text) :=
  decidable_of_iff (text.toList.all fun c => !isBlank c) (by simp [Solid])

/-- Whether the names in a call have no blanks. -/
def Call.Named : Call → Prop
  | .label name | .goto name | .ifGoto name | .call name _ | .function name _ => Solid name
  | .push _ _ | .pop _ _ | .arithmetic _ | .ret => True

instance : DecidablePred Call.Named
  | .label _ | .goto _ | .ifGoto _ | .call _ _ | .function _ _ =>
    inferInstanceAs (Decidable (Solid _))
  | .push _ _ | .pop _ _ | .arithmetic _ | .ret => inferInstanceAs (Decidable True)

theorem ofWords?_words (valid : call.Valid) : Call.ofWords? call.words = some call := by
  cases call with
  | push segment index | pop segment index =>
      obtain ⟨name, -, rfl⟩ := List.mem_map.mp valid.1
      simp [Call.words, Call.ofWords?, Call.spelling]
  | arithmetic command =>
      obtain ⟨name, known, rfl⟩ := List.mem_map.mp valid
      have read : ∀ name ∈ commandNames,
          Call.ofWords? [name] = some (.arithmetic (.text name)) := by
        simp [commandNames, Call.ofWords?]
      exact read name known
  | call callee count | function name count => simp [Call.words, Call.ofWords?]
  | label | goto | ifGoto | ret => rfl

theorem isBlank_of_isLineEnd {c : Char} (h : isLineEnd c = true) : isBlank c = true := by
  simp only [isLineEnd, isBlank, Bool.or_eq_true, Bool.and_eq_true, decide_eq_true_eq,
    beq_iff_eq] at h ⊢
  omega

theorem Solid.unbroken {text : String} (h : Solid text) : Unbroken text := by
  intro c inside
  by_contra ends
  have blank := isBlank_of_isLineEnd (Bool.not_eq_false _ ▸ ends)
  rw [h c inside] at blank
  cases blank

theorem solid_toString {i : Int} (h : 0 ≤ i) : Solid (toString i) := by
  obtain ⟨n, rfl⟩ := Int.eq_ofNat_of_zero_le h
  exact fun c inside => isBlank_eq_false_of_isWordChar (isWordChar_of_mem_toString inside)

theorem solid_of_mem_words (valid : call.Valid) (named : call.Named) :
    ∀ word ∈ call.words, Solid word := by
  have segmentWords : ∀ name ∈ segmentNames, Solid name := by decide
  have commandWords : ∀ name ∈ commandNames, Solid name := by decide
  have last : ∀ word ∈ ([] : List String), Solid word := List.forall_mem_nil _
  cases call with
  | push segment index =>
      obtain ⟨name, known, rfl⟩ := List.mem_map.mp valid.1
      simp only [Call.words, List.forall_mem_cons]
      exact ⟨by decide, segmentWords name known, solid_toString valid.2, last⟩
  | pop segment index =>
      obtain ⟨name, known, rfl⟩ := List.mem_map.mp valid.1
      simp only [Call.words, List.forall_mem_cons]
      exact ⟨by decide, segmentWords name known, solid_toString valid.2.2, last⟩
  | arithmetic command =>
      obtain ⟨name, known, rfl⟩ := List.mem_map.mp valid
      exact List.forall_mem_singleton.mpr (commandWords name known)
  | call name count | function name count =>
      simp only [Call.words, List.forall_mem_cons]
      exact ⟨by decide, named, solid_toString valid, last⟩
  | label name | goto name | ifGoto name =>
      simp only [Call.words, List.forall_mem_cons]
      exact ⟨by decide, named, last⟩
  | ret => exact List.forall_mem_singleton.mpr (by decide)

theorem unbroken_intercalate {words : List String} (h : ∀ word ∈ words, Unbroken word) :
    Unbroken (" ".intercalate words) := by
  induction words with
  | nil => decide
  | cons word words ih =>
      rw [List.forall_mem_cons] at h
      cases words with
      | nil => simpa using h.1
      | cons next words =>
          rw [String.intercalate_cons_cons, unbroken_append, unbroken_append]
          exact ⟨⟨h.1, by decide⟩, ih h.2⟩

/-- A line has one reading. -/
theorem ofLine?_line (valid : call.Valid) (named : call.Named) :
    Call.ofLine? call.line = some call := by
  have solid := solid_of_mem_words valid named
  have apart : ∀ word ∈ call.words.map String.toList, ' ' ∉ word :=
    List.forall_mem_map.mpr fun word inside space => by cases solid word inside ' ' space
  have some : call.words.map String.toList ≠ [] := by cases call <;> simp [Call.words]
  have cut : call.line.toList.splitOn ' ' = call.words.map String.toList := by
    rw [Call.line, String.toList_intercalate]
    exact List.splitOn_intercalate ' ' apart some
  rw [Call.ofLine?, cut, List.map_map]
  simpa [Function.comp_def] using ofWords?_words valid

theorem lines_transcript (named : ∀ call ∈ calls, call.Named) :
    lines (transcript calls) = (calls.filter (·.Valid)).map Call.line := by
  refine lines_join (List.forall_mem_map.mpr fun call inside => ?_)
  obtain ⟨given, valid⟩ := List.mem_filter.mp inside
  exact unbroken_intercalate fun word among =>
    (solid_of_mem_words (by simpa using valid) (named call given) word among).unbroken

theorem mapM_ofLine? {calls : List Call} (h : ∀ call ∈ calls, Call.ofLine? call.line = some call) :
    (calls.map Call.line).mapM Call.ofLine? = some calls := by
  induction calls with
  | nil => rfl
  | cons call later ih =>
      rw [List.forall_mem_cons] at h
      rw [List.map_cons, List.mapM_cons, h.1, ih h.2]
      rfl

/-- Reading a transcript gives back the calls that it has lines of. -/
theorem readTranscript_transcript (named : ∀ call ∈ calls, call.Named) :
    readTranscript (transcript calls) = some (calls.filter (·.Valid)) := by
  rw [readTranscript, lines_transcript named]
  refine mapM_ofLine? fun call inside => ?_
  obtain ⟨given, valid⟩ := List.mem_filter.mp inside
  exact ofLine?_line (by simpa using valid) (named call given)

/-- Each call is accepted or refused for what is wrong with it. What is written is a line for each
call that was accepted, in order; a call that is refused writes nothing. As long as the names in the
calls have no blanks, the accepted calls are read back from what is written, so no others write
the same. -/
theorem transcripts_are_faithful (calls : List Call) :
    List.Forall₂ Answered calls (performAll calls []).1 ∧
    text (performAll calls []).2 = transcript calls ∧
    (∀ call written failure, (perform call written).1 = .error failure →
      text (perform call written).2 = text written) ∧
    ((∀ call ∈ calls, call.Named) →
      readTranscript (text (performAll calls []).2) = some (calls.filter (·.Valid)) ∧
      ∀ others : List Call, (∀ call ∈ others, call.Named) →
        text (performAll others []).2 = text (performAll calls []).2 →
        others.filter (·.Valid) = calls.filter (·.Valid)) := by
  have written (calls : List Call) : text (performAll calls []).2 = transcript calls :=
    (text_performAll calls []).trans String.empty_append
  refine ⟨answered_performAll calls [], written calls, fun call before failure failed => ?_,
    fun named => ⟨?_, fun others named' same => ?_⟩⟩
  · obtain ⟨-, i, -, done⟩ | ⟨-, _, -, done⟩ := perform_cases call before
    · rw [done] at failed
      cases failed
    · rw [done]
  · rw [written, readTranscript_transcript named]
  · rw [written, written] at same
    have read := readTranscript_transcript named'
    rw [same, readTranscript_transcript named] at read
    exact (Option.some.inj read).symm

/-- The names look like commands and numbers, and half of the calls are refused. -/
theorem transcripts_are_faithful_at_keywords :
    let calls : List Call :=
      [.push (.text "constant") 7, .pop (.text "constant") (-1), .label "return", .push .null 0,
        .call "push" 10, .arithmetic (.text "mul"), .ifGoto "0", .function "add" (-1), .ret]
    let accepted : List Call :=
      [.push (.text "constant") 7, .label "return", .call "push" 10, .ifGoto "0", .ret]
    (performAll calls []).1 = [.ok (), .error .popConstant, .ok (), .error (.notSegment .null),
        .ok (), .error (.notCommand (.text "mul")), .ok (), .error (.negativeOperand (-1)),
        .ok ()] ∧
      (∀ call ∈ calls, call.Named) ∧
      text (performAll calls []).2 =
        "push constant 7\nlabel return\ncall push 10\nif-goto 0\nreturn\n" ∧
      readTranscript (text (performAll calls []).2) = some accepted := by
  intro calls accepted
  obtain ⟨-, written, -, decoded⟩ := transcripts_are_faithful calls
  have named : ∀ call ∈ calls, call.Named := by decide
  refine ⟨rfl, named, ?_, (decoded named).1.trans rfl⟩
  rw [written]
  rfl

end Writer

end Jack
