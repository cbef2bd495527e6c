import Jack.Proofs.Entering
import Jack.Proofs.EntryPoints
import Jack.Proofs.Interleaving
import Jack.Proofs.OutputForm
import Jack.Proofs.Slots

/-! # What a compilation reports

The log of a compilation for debugging has a record for each chunk that was read, one for the class
and one for each subroutine, and behind them all one for the class that was made. What they say is
what the source, its tree and the output say.
-/

namespace Jack

/-! ### Tokens that were passed -/

namespace Reader

variable {filename : Option String} {r rest : Reader} {before : List Token} {t : Token}

/-- What a reader finds is in its outlook, which has nothing behind it if that is the end. -/
theorem Finds.outlook (filename : Option String) (h : r.Finds (before ++ [t]) rest) :
    before <+: (r.outlook filename).tokens ∧
      (t.isEnd = true → (r.outlook filename).tokens = before) := by
  induction before generalizing r with
  | nil =>
      refine ⟨List.nil_prefix, fun ended => ?_⟩
      cases h with
      | token found =>
          rw [Token.isEnd_of_proper (proper_of_nextToken found)] at ended
          cases ended
      | ended found => rw [outlook_of_end found]
  | cons first before ih =>
      generalize whole : first :: before ++ [t] = row at h
      cases h with
      | nothing => cases whole
      | token found more =>
          obtain ⟨rfl, rfl⟩ := List.cons.inj whole
          obtain ⟨front, ended⟩ := ih more
          rw [outlook_of_token found]
          exact ⟨(List.prefix_cons_inj first).mpr front, fun last => by rw [ended last]⟩
      | ended => simp at whole

end Reader

/-! ### Records -/

/-- The record of a chunk that was read. -/
def Delivery.record (d : Delivery) : LogRecord :=
  ⟨.lexer, .debug, "Read " ++ toString d.size ++ " characters (line " ++ toString d.line ++ ")"⟩

/-- The record of a class or a subroutine that was entered. -/
def Entered.record (e : Entered) : LogRecord :=
  match e.heading with
  | .ofClass name => ⟨.engine, .debug, "Compiling class " ++ name⟩
  | .ofSubroutine kind name =>
    ⟨.engine, .debug,
      "Compiling " ++ kind.text ++ " " ++ name ++ " (" ++ toString e.locals ++ " locals)"⟩

/-- The record of a class that was made. -/
def CompiledClass.summary (c : CompiledClass) : LogRecord :=
  ⟨.context, .info,
    "Compiled class " ++ c.className ++ " (" ++ toString c.lines.length ++ " instructions)"⟩

section Records

variable (events : List Event)

theorem records_of_lexer :
    (events.filterMap Event.record?).filter (·.logger = .lexer) =
      (events.filterMap Event.delivery?).map Delivery.record := by
  induction events with
  | nil => rfl
  | cons event events ih =>
      cases event with
      | delivered d => exact congrArg (d.record :: ·) ih
      | classEntered | subroutineEntered | listRead => exact ih

theorem records_of_engine :
    (events.filterMap Event.record?).filter (·.logger = .engine) =
      (events.filterMap Event.entered?).map Entered.record := by
  induction events with
  | nil => rfl
  | cons event events ih =>
      cases event with
      | classEntered name => exact congrArg (Entered.record ⟨.ofClass name, 0⟩ :: ·) ih
      | subroutineEntered kind name locals =>
          exact congrArg (Entered.record ⟨.ofSubroutine kind name, locals⟩ :: ·) ih
      | delivered | listRead => exact ih

/-- Whatever happens in a compilation is recorded for debugging. -/
theorem severity_of_records : ∀ r ∈ events.filterMap Event.record?, r.severity = .debug := by
  intro r inside
  obtain ⟨event, -, made⟩ := List.mem_filterMap.mp inside
  cases event <;> cases made <;> rfl

end Records

/-! ### Compilations -/

/-- What was entered is what the headings say, with as many local variables as the headers say. -/
theorem entered_eq {made : List Entered} {subs : List Tree.Subroutine} {name : String}
    (headed : made.map Entered.heading =
      subs.map fun s => .ofSubroutine s.kind (name ++ "." ++ s.name))
    (headers : made.filterMap Entered.header? =
      subs.map fun s => .function (name ++ "." ++ s.name) s.localCount) :
    made = subs.map fun s => ⟨.ofSubroutine s.kind (name ++ "." ++ s.name), s.localCount⟩ := by
  induction subs generalizing made with
  | nil => exact List.map_eq_nil_iff.mp headed
  | cons s subs ih =>
      obtain ⟨⟨heading, locals⟩, made, rfl, rfl, headed'⟩ := List.map_eq_cons_iff.mp headed
      simp only [List.filterMap_cons, Entered.header?, List.map_cons, List.cons.injEq] at headers
      obtain ⟨counted, headers⟩ := headers
      cases counted
      rw [ih headed' headers]
      rfl

section Compile

variable {r : Reader} {filename : Option String} {strict : Bool} {compilation : Compilation}
  {events : List Event}

/-- The chunks that were read for a class that was compiled make up its source. -/
theorem deliveries_of_compile (orderly : r.Orderly)
    (h : compile ⟨r, filename, none⟩ strict = (.ok compilation, events)) :
    let chunks := events.filterMap Event.delivery?
    (∀ d ∈ chunks, 0 < d.size) ∧ (chunks.map Delivery.size).sum = r.coming.length ∧
      (chunks.map Delivery.line).Pairwise (· ≤ ·) := by
  intro chunks
  have whole := (recorded_of_compile h).1
  rw [Engine.flatMap_characters] at whole
  obtain ⟨t, e, found, reached, -, rfl⟩ := exists_of_compile h
  obtain ⟨last, reads⟩ := Engine.exists_reads_of_run found reached
  have ordered := reads.moves.orderly orderly.forget
  have same : chunks = last.deliveries.reverse := by
    rw [reads.deliveries, Engine.deliveries, ← List.filterMap_reverse]
  refine ⟨?_, ?_, ?_⟩
  · rw [same]
    exact fun d inside => ordered.sizes d (List.mem_reverse.mp inside)
  · rw [← whole, List.length_flatMap]
    rfl
  · rw [same, List.map_reverse, List.pairwise_reverse]
    exact ordered.lines

theorem outlook_of_tokensFrom {tokens : List Token} (filename : Option String)
    (read : (r.tokensFrom []).1 = .ok tokens) : (r.outlook filename).tokens = tokens := by
  have found := r.fst_tokensFrom filename []
  rw [read] at found
  cases ended : (r.outlook filename).ending with
  | error failure =>
      rw [ended] at found
      cases found
  | ok place =>
      rw [ended] at found
      exact (Except.ok.inj found).symm

/-- What was entered for a class that was compiled is the class and its subroutines. -/
theorem entered_of_compile (h : compile ⟨r, filename, none⟩ strict = (.ok compilation, events)) :
    ∃ (tokens : List Token) (c : Tree.Class) (n : Nat), (r.tokensFrom []).1 = .ok tokens ∧
      tokens.map Token.lexeme = c.lexemes ∧ compilation = ⟨c.name, c.code⟩ ∧
      events.filterMap Event.entered? = ⟨.ofClass c.name, n⟩ :: c.subroutines.map fun s =>
        ⟨.ofSubroutine s.kind (c.name ++ "." ++ s.name), s.localCount⟩ := by
  obtain ⟨t, e, found, reached, rfl, rfl⟩ := exists_of_compile h
  obtain ⟨ended, tokens, read, driven⟩ := Engine.drive_of_atStart found reached
  obtain ⟨c, spelled, -, named, written⟩ := exists_tree_of_drive driven
  obtain ⟨before, ⟨rest, finds, -⟩, headed, headers⟩ := Engine.entered_of_run found reached
  have passed : tokens = before :=
    (outlook_of_tokensFrom filename read).symm.trans ((finds.outlook filename).2 ended)
  rw [← passed, spelled, c.headings_lexemes] at headed
  rw [written, c.headers_code] at headers
  obtain ⟨⟨heading, n⟩, made, whole, rfl, headed⟩ := List.map_eq_cons_iff.mp headed
  refine ⟨tokens, c, n, read, spelled, by rw [named, written], ?_⟩
  rw [whole, List.filterMap_cons_none rfl] at headers
  rw [← Engine.entered, whole, entered_eq headed headers.symm]

theorem entered_of_chunks (chunks : List Delivery) :
    (chunks.map Event.delivered).filterMap Event.entered? = [] := by
  simp [Event.entered?]

/-- What the tokens in front of a cursor introduce is a front of what those of the source do. -/
theorem headings_of_passed {before : List Token} {last : Cursor}
    (passed : last.Passed filename r before) :
    headings (before.map Token.lexeme) <+:
      headings ((r.outlook filename).tokens.map Token.lexeme) := by
  obtain ⟨rest, finds, -⟩ := passed
  exact headings_mono ((finds.outlook filename).1.map Token.lexeme)

/-- What is entered before a failure is a front of what the tokens of the source introduce, also if
the source breaks off. -/
theorem entered_of_compile_error {ending : Option Failure} {failure : Failure}
    (h : compileUntil ending ⟨r, filename, none⟩ strict = (.error failure, events)) :
    (events.filterMap Event.entered?).map Entered.heading <+:
      headings ((r.outlook filename).tokens.map Token.lexeme) := by
  cases ending with
  | none =>
      obtain ⟨chunks, rfl⟩ | ⟨t, e, found, reached, rfl⟩ := exists_of_compile_error h
      · rw [entered_of_chunks]
        exact List.nil_prefix
      · obtain ⟨before, last, passed, entered⟩ :=
          Engine.entered_of_stops found (Engine.stops_of_run reached)
        exact entered.trans (headings_of_passed passed)
  | some broken =>
      obtain ⟨-, ⟨chunks, rfl⟩ | ⟨t, found, stops⟩⟩ := exists_of_compile_broken h
      · rw [entered_of_chunks]
        exact List.nil_prefix
      · obtain ⟨before, last, passed, entered⟩ := Engine.entered_of_stops found stops
        rw [List.reverse_reverse] at entered
        exact entered.trans (headings_of_passed passed)

end Compile

/-- The lines of the output that start with `function` are those of the headers. -/
theorem Tree.Class.lines_of_headers {c : Tree.Class} (proper : ∀ l ∈ c.lexemes, l.Proper) :
    (lines (Code.program c.code)).filter (firstWord · = "function") =
      c.subroutines.map fun s =>
        "function " ++ (c.name ++ "." ++ s.name) ++ " " ++ toString s.localCount := by
  have first : ∀ i ∈ c.code, decide (firstWord i.text = "function") = i.isHeader := by
    intro i inside
    have form := (c.allows_text proper i inside).ofWord?_firstWord
    cases header : i.isHeader with
    | true =>
        rw [decide_eq_true_eq]
        cases i with
        | function name count =>
            have whole : Code.text (.function name count) =
                "function " ++ name ++ " " ++ toString count := rfl
            rw [whole]
            exact firstWord_eq (by decide) (by simp)
        | _ => cases header
    | false =>
        rw [decide_eq_false_iff_not]
        intro same
        rw [same] at form
        cases i with
        | function => cases header
        | _ => cases form
  rw [c.lines_program proper, List.filter_map]
  refine (congrArg (List.map Code.text) (List.filter_congr first)).trans ?_
  rw [c.headers_code, List.map_map]
  rfl

namespace Workspace

variable {w : Workspace} {input : Input} {source : Source} {filename : Option String}
  {events : List Event}

/-- For debugging every record is kept. -/
theorem keep_debugging (r : LogRecord) : LogLevels.debugging.keep r = true := by
  obtain ⟨logger, severity, message⟩ := r
  cases logger <;> cases severity <;> rfl

theorem log_report (levels : w.levels = .debugging) (records : List LogRecord) :
    (w.report records).log = records.reverse ++ w.log := by
  have kept : records.filter w.levels.keep = records :=
    List.filter_eq_self.mpr fun r _ => by rw [levels, keep_debugging]
  rw [report, kept]

theorem perform_of_compile {compilation : Compilation} (debug : w.options.debug = true)
    (positive : 0 < w.options.chunkSize)
    (h : compileUntil input.failure
      ⟨.ofSource w.options.chunkSize.toNat input.source, filename, none⟩ w.options.strict =
        (.ok compilation, events)) :
    let compiled : CompiledClass :=
      ⟨recorded events, compilation.className, Code.program compilation.code, filename⟩
    (w.perform (.compile input filename)).1 = .ok (.compiled compiled) ∧
      (w.perform (.compile input filename)).2.log.reverse =
        events.filterMap Event.record? ++ [compiled.summary] := by
  intro compiled
  simp only [perform, compileWith, withLogging, debug, if_true, Lexer.ofSource_of_pos positive, h,
    keepClass, answered]
  refine ⟨rfl, ?_⟩
  rw [log_report rfl, log_report rfl, List.append_nil, List.reverse_append, List.reverse_reverse]
  rfl

theorem perform_of_compile_error {failure : Failure} (debug : w.options.debug = true)
    (positive : 0 < w.options.chunkSize)
    (h : compileUntil input.failure
      ⟨.ofSource w.options.chunkSize.toNat input.source, filename, none⟩ w.options.strict =
        (.error failure, events)) :
    (w.perform (.compile input filename)).1 = .error failure ∧
      (w.perform (.compile input filename)).2.log.reverse =
        events.filterMap Event.record? := by
  simp only [perform, compileWith, withLogging, debug, if_true, Lexer.ofSource_of_pos positive, h,
    keepClass, answered]
  refine ⟨rfl, ?_⟩
  rw [log_report rfl, List.append_nil, List.reverse_reverse]

/-- No source can be read with such options, and nothing is on record. -/
theorem perform_of_not_pos (debug : w.options.debug = true) (small : ¬ 0 < w.options.chunkSize) :
    (w.perform (.compile input filename)).1 = .error (.chunkSize w.options.chunkSize) ∧
      (w.perform (.compile input filename)).2.log.reverse = [] := by
  simp only [perform, compileWith, withLogging, debug, if_true, Lexer.ofSource,
    if_pos (not_lt.mp small), keepClass, answered]
  exact ⟨rfl, rfl⟩

/-- A log agrees with a class that was compiled from a source with a tree. -/
structure Agrees (source : Source) (c : Tree.Class) (compiled : CompiledClass)
    (log : List LogRecord) : Prop where
  /-- The chunks on record make up the source, and none starts on a line before an earlier one. -/
  chunks : ∃ chunks : List Delivery,
    log.filter (·.logger = .lexer) = chunks.map Delivery.record ∧ (∀ d ∈ chunks, 0 < d.size) ∧
      (chunks.map Delivery.size).sum = source.characters.length ∧
      (chunks.map Delivery.line).Pairwise (· ≤ ·)
  /-- Behind the class its subroutines are on record as they are declared. -/
  entered : log.filter (·.logger = .engine) =
    Entered.record ⟨.ofClass compiled.className, 0⟩ ::
      c.subroutines.map (fun s =>
        Entered.record ⟨.ofSubroutine s.kind (compiled.className ++ "." ++ s.name), s.localCount⟩)
  /-- The output has the same names, with the same numbers of local variables. -/
  headers : compiled.lines.filter (firstWord · = "function") =
    c.subroutines.map (fun s =>
      "function " ++ (compiled.className ++ "." ++ s.name) ++ " " ++ toString s.localCount)
  /-- The last record tells what was made, and all before it are for debugging. -/
  last : ∃ earlier, log = earlier ++ [compiled.summary] ∧ ∀ r ∈ earlier, r.severity = .debug

theorem agrees_of_compile {size : Int} {strict : Bool} {compilation : Compilation}
    (positive : 0 < size)
    (h : Jack.compile ⟨.ofSource size.toNat source, filename, none⟩ strict =
      (.ok compilation, events)) :
    let compiled : CompiledClass :=
      ⟨recorded events, compilation.className, Code.program compilation.code, filename⟩
    ∃ (tokens : List Token) (c : Tree.Class), Lexer.tokensOf source size filename = .ok tokens ∧
      tokens.map Token.lexeme = c.lexemes ∧ compiled.className = c.name ∧
      Agrees source c compiled (events.filterMap Event.record? ++ [compiled.summary]) := by
  intro compiled
  obtain ⟨tokens, c, n, read, spelled, rfl, entered⟩ := entered_of_compile h
  obtain ⟨sizes, sum, ordered⟩ :=
    deliveries_of_compile (Reader.orderly_ofSource size.toNat source) h
  have read : Lexer.tokensOf source size filename = .ok tokens :=
    (Lexer.tokensOf_eq_ok_iff positive tokens).mpr read
  have proper := Lexer.proper_of_tokensOf positive read
  rw [spelled] at proper
  refine ⟨tokens, c, read, spelled, rfl, ?_, ?_, c.lines_of_headers proper, ?_⟩
  · refine ⟨events.filterMap Event.delivery?, ?_, sizes, ?_, ordered⟩
    · rw [List.filter_append, records_of_lexer]
      exact List.append_nil _
    · rw [sum, Reader.coming, Reader.ofSource, Option.getD_some, Source.flatten_chunks]
  · rw [List.filter_append, records_of_engine, entered, List.map_cons, List.map_map]
    exact List.append_nil _
  · exact ⟨_, rfl, severity_of_records events⟩

/-- The log of a compilation for debugging agrees with what was compiled. A compilation that fails
has only records for debugging, and what it has entered is a front of what the tokens of its source
introduce. -/
theorem debug_log_agrees_with_compilation (w : Workspace) (input : Input)
    (filename : Option String) (debug : w.options.debug = true) :
    let found := w.perform (.compile input filename)
    let log := found.2.log.reverse
    (∀ answer, found.1 = .ok answer →
      ∃ (compiled : CompiledClass) (tokens : List Token) (c : Tree.Class),
        answer = .compiled compiled ∧
        Lexer.tokensOf input.source w.options.chunkSize filename = .ok tokens ∧
        tokens.map Token.lexeme = c.lexemes ∧ compiled.className = c.name ∧
        Agrees input.source c compiled log) ∧
    ∀ failure, found.1 = .error failure →
      (∀ r ∈ log, r.severity = .debug) ∧
      ∃ made : List Entered, log.filter (·.logger = .engine) = made.map Entered.record ∧
        made.map Entered.heading <+:
          headings (((Reader.ofSource w.options.chunkSize.toNat input.source).outlook
            filename).tokens.map Token.lexeme) := by
  intro found log
  by_cases positive : 0 < w.options.chunkSize
  · obtain ⟨outcome, events, compiled⟩ : ∃ outcome events, compileUntil input.failure
        ⟨.ofSource w.options.chunkSize.toNat input.source, filename, none⟩ w.options.strict =
          (outcome, events) := ⟨_, _, rfl⟩
    cases outcome with
    | error failure =>
        obtain ⟨answered, logged⟩ := perform_of_compile_error debug positive compiled
        refine ⟨fun answer given => ?_, fun _ _ => ⟨?_, events.filterMap Event.entered?, ?_, ?_⟩⟩
        · cases answered.symm.trans given
        · exact fun r inside => severity_of_records events r (logged ▸ inside)
        · rw [← records_of_engine, ← logged]
        · exact entered_of_compile_error compiled
    | ok compilation =>
        obtain ⟨answered, logged⟩ := perform_of_compile debug positive compiled
        refine ⟨fun answer given => ?_, fun failure given => ?_⟩
        · obtain ⟨tokens, c, read, spelled, named, agrees⟩ :=
            agrees_of_compile positive (compile_of_compileUntil compiled).2
          rw [← logged] at agrees
          have same := Except.ok.inj (given.symm.trans answered)
          exact ⟨_, tokens, c, same, read, spelled, named, agrees⟩
        · cases answered.symm.trans given
  · obtain ⟨answered, logged⟩ := perform_of_not_pos debug positive
    have none : log = [] := logged
    rw [none]
    refine ⟨fun answer given => ?_, fun _ _ => ⟨List.forall_mem_nil _, [], rfl, List.nil_prefix⟩⟩
    cases answered.symm.trans given

end Workspace

/-- A class with one method, which has two local variables. -/
def Tree.lone : Tree.Class where
  name := "A"
  declarations := []
  subroutines :=
    [{ kind := .method
       result := none
       name := "f"
       parameters := []
       locals := [⟨.int, "x", ["y"]⟩]
       body := .cons (.ret none) .nil }]

open Workspace in
/-- The second source ends among the local variables of the method. -/
theorem debug_log_agrees_with_compilation_at_method :
    let w : Workspace := ⟨⟨20, false, true⟩, .empty, .unset, [], none⟩
    let front := "class A\x7b\nmethod void f()\x7bvar int x,y"
    let whole : Source := .text (front ++ ";return;\x7d\x7d")
    let inClass : LogRecord := ⟨.engine, .debug, "Compiling class A"⟩
    let found := w.perform (.compile whole none)
    let found' := w.perform (.compile (Source.text front) none)
    w.options.debug = true ∧
      (∃ compiled, found.1 = .ok (.compiled compiled) ∧
        Agrees whole Tree.lone compiled found.2.log.reverse ∧
        found.2.log.reverse.filter (·.logger = .engine) =
          [inClass, ⟨.engine, .debug, "Compiling method A.f (2 locals)"⟩]) ∧
      (∃ failure, found'.1 = .error failure) ∧
      found'.2.log.reverse.filter (·.logger = .engine) = [inClass] ∧
      ∀ r ∈ found'.2.log.reverse, r.severity = .debug := by
  intro w front whole inClass found found'
  have debug : w.options.debug = true := rfl
  refine ⟨debug, ?_, ?_⟩
  · have read : (Lexer.tokensOf whole 20 none).toOption.map (·.map Token.lexeme) =
        some Tree.lone.lexemes := by
      decide +kernel
    have done : found.1.isOk = true := by decide +kernel
    have log := (debug_log_agrees_with_compilation w whole none debug).1
    cases answered : (w.perform (.compile whole none)).1 with
    | error failure =>
        rw [answered] at done
        cases done
    | ok answer =>
        obtain ⟨compiled, tokens, c, rfl, row, spelled, named, agrees⟩ := log answer answered
        rw [row] at read
        obtain rfl : c = Tree.lone :=
          Tree.Class.lexemes_inj (spelled.symm.trans (Option.some.inj read))
        refine ⟨compiled, rfl, agrees, agrees.entered.trans ?_⟩
        rw [named]
        rfl
  · have computed : (found'.1.isOk, found'.2.log.reverse.filter (·.logger = .engine)) =
        (false, [inClass]) := by
      decide +kernel
    obtain ⟨failed, entered⟩ := Prod.mk.inj computed
    cases answered : (w.perform (.compile (Source.text front) none)).1 with
    | ok answer =>
        rw [answered] at failed
        cases failed
    | error failure =>
        have log := (debug_log_agrees_with_compilation w (Source.text front) none debug).2
        exact ⟨⟨failure, rfl⟩, entered, (log failure answered).1⟩

end Jack
