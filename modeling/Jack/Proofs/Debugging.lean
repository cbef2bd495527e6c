import Jack.Workspace
import Mathlib.Data.List.Forall2

/-! # Debugging leaves no trace

A call may be made for debugging, and under any levels; only the log can tell. Two workspaces with
the same files and the same class, whose options differ at most in whether they are for debugging,
answer every call alike and are like each other behind it. Whatever comes of a call, the levels
behind it are those in front of it.
-/

namespace Jack

/-- Options that read and compile sources in the same way. -/
structure Options.Alike (o o' : Options) : Prop where
  chunkSize : o.chunkSize = o'.chunkSize
  strict : o.strict = o'.strict

namespace Workspace

/-- Calls for the same, where one with options of its own may or may not be made for debugging. -/
inductive Call.Alike : Call → Call → Prop where
  | same (call : Call) : Alike call call
  | compileWith {o o' : Options} (options : o.Alike o') (input : Input) :
      Alike (.compileWith o input) (.compileWith o' input)

/-- Two workspaces that differ in nothing but levels, logs and debugging. -/
structure Alike (w w' : Workspace) : Prop where
  options : w.options.Alike w'.options
  files : w.files = w'.files
  current : w.current = w'.current

/-- Two results are the same, and come with workspaces that are alike. -/
def SameResult {α : Type} (x y : α × Workspace) : Prop :=
  x.1 = y.1 ∧ x.2.Alike y.2

/-- Carry out calls in order, whatever is answered; each answer comes with the workspace behind
it. -/
def performAll : List Call → Workspace → List (Except Failure Answer × Workspace)
  | [], _ => []
  | call :: calls, w => w.perform call :: performAll calls (w.perform call).2

/-! ### Levels -/

section Levels

variable {α : Type} (w : Workspace)

/-- Levels that were lowered for debugging are put back, also where the levels would be changed. -/
theorem levels_withLogging (debug : Bool) {body : Workspace → α × Workspace}
    (kept : ∀ w, (body w).2.levels = w.levels) :
    (withLogging debug w body).2.levels = w.levels := by
  unfold withLogging
  split
  · rfl
  · exact kept w

theorem levels_compileWith (o : Options) (input : Input) (filename : Option String) :
    (compileWith o input filename w).2.levels = w.levels := by
  refine levels_withLogging w o.debug fun w => ?_
  split
  · rfl
  · dsimp only
    split <;> rfl

theorem levels_tokenize (input : Input) (filename : Option String) :
    (tokenize input filename w).2.levels = w.levels := by
  refine levels_withLogging w w.options.debug fun w => ?_
  split <;> rfl

theorem levels_keepClass (result : Except Failure CompiledClass × Workspace) :
    (keepClass result).2.levels = result.2.levels := by
  unfold keepClass
  split <;> rfl

theorem levels_compileFile (path : String) : (compileFile path w).2.levels = w.levels := by
  unfold compileFile
  split
  · exact levels_compileWith w ..
  · rfl

theorem levels_compileFileText (path : String) (strict : Bool) :
    (compileFileText path strict w).2.levels = w.levels := by
  unfold compileFileText
  split
  · rfl
  · dsimp only
    split <;> rfl

theorem levels_saveClass (path : Option String) : (saveClass path w).2.levels = w.levels := by
  unfold saveClass
  split
  · rfl
  · split <;> rfl

/-- Behind a call the levels are those in front of it. -/
theorem levels_perform (call : Call) : (w.perform call).2.levels = w.levels := by
  cases call with
  | compile input filename =>
      exact (levels_keepClass _).trans (levels_compileWith _ ..)
  | compileWith o input =>
      rw [perform]
      split
      · exact (levels_keepClass _).trans (levels_compileWith _ ..)
      · rfl
  | compileFile path => exact (levels_keepClass _).trans (levels_compileFile _ path)
  | compileFileText path strict => exact levels_compileFileText _ path strict
  | tokenize input filename | listing input filename => exact levels_tokenize _ input filename
  | load path | new compiled => exact levels_keepClass _
  | save path => exact levels_saveClass _ path
  | read path | list => rfl

theorem levels_performAll (calls : List Call) :
    ∀ result ∈ w.performAll calls, result.2.levels = w.levels := by
  induction calls generalizing w with
  | nil => exact List.forall_mem_nil _
  | cons call calls ih =>
      have first := levels_perform w call
      exact List.forall_mem_cons.mpr ⟨first, fun result inside => (ih _ result inside).trans first⟩

end Levels

/-! ### Results -/

namespace Alike

variable {w w' : Workspace}

theorem report (h : w.Alike w') (records records' : List LogRecord) :
    (w.report records).Alike (w'.report records') :=
  ⟨h.options, h.files, h.current⟩

/-- What is done under other levels has the same result if it does not depend on the levels. -/
theorem withLogging {α : Type} (h : w.Alike w') (debug debug' : Bool)
    {body body' : Workspace → α × Workspace}
    (same : ∀ w w', w.Alike w' → SameResult (body w) (body' w')) :
    SameResult (withLogging debug w body) (withLogging debug' w' body') := by
  have under (levels levels' : LogLevels) := same { w with levels } { w' with levels := levels' }
    ⟨h.options, h.files, h.current⟩
  have put {x y : α × Workspace} (found : SameResult x y) (levels levels' : LogLevels) :
      SameResult (x.1, { x.2 with levels }) (y.1, { y.2 with levels := levels' }) :=
    ⟨found.1, found.2.options, found.2.files, found.2.current⟩
  cases debug <;> cases debug'
  · exact under _ _
  · exact put (under _ _) _ _
  · exact put (under _ _) _ _
  · exact put (under _ _) _ _

theorem compileWith (h : w.Alike w') {o o' : Options} (options : o.Alike o') (input : Input)
    (filename : Option String) :
    SameResult (compileWith o input filename w) (compileWith o' input filename w') := by
  obtain ⟨chunkSize, strict, debug⟩ := o
  obtain ⟨chunkSize', strict', debug'⟩ := o'
  obtain ⟨rfl, rfl⟩ := options
  refine h.withLogging debug debug' fun w w' h => ?_
  dsimp only
  cases Lexer.ofSource input.source chunkSize filename with
  | error failure => exact ⟨rfl, h⟩
  | ok lexer =>
      dsimp only
      cases (compileUntil input.failure lexer strict).1 with
      | error failure => exact ⟨rfl, h.report _ _⟩
      | ok compilation => exact ⟨rfl, (h.report _ _).report _ _⟩

theorem tokenize (h : w.Alike w') (input : Input) (filename : Option String) :
    SameResult (tokenize input filename w) (tokenize input filename w') := by
  refine h.withLogging _ _ fun w w' h => ?_
  simp only [h.options.chunkSize]
  split
  · exact ⟨rfl, h⟩
  · exact ⟨rfl, h.report _ _⟩

theorem keepClass {x y : Except Failure CompiledClass × Workspace} (h : SameResult x y) :
    SameResult (keepClass x) (keepClass y) := by
  obtain ⟨found, w⟩ := x
  obtain ⟨found', w'⟩ := y
  obtain ⟨rfl, h⟩ := h
  cases found with
  | error failure => exact ⟨rfl, h⟩
  | ok compiled => exact ⟨rfl, h.options, h.files, rfl⟩

theorem answered {α : Type} (wrap : α → Answer) {x y : Except Failure α × Workspace}
    (h : SameResult x y) : SameResult (answered wrap x) (answered wrap y) :=
  ⟨congrArg (·.map wrap) h.1, h.2⟩

theorem compileFile (h : w.Alike w') (path : String) :
    SameResult (compileFile path w) (compileFile path w') := by
  simp only [Workspace.compileFile, h.files, h.options.chunkSize]
  split
  · exact h.compileWith h.options _ _
  · exact ⟨rfl, h⟩

theorem compileFileText (h : w.Alike w') (path : String) (strict : Bool) :
    SameResult (compileFileText path strict w) (compileFileText path strict w') := by
  simp only [Workspace.compileFileText, h.files]
  split
  · exact ⟨rfl, h⟩
  · split
    · exact ⟨rfl, h⟩
    · exact ⟨rfl, h.report _ _⟩

theorem saveClass (h : w.Alike w') (path : Option String) :
    SameResult (saveClass path w) (saveClass path w') := by
  simp only [Workspace.saveClass, h.files, h.current]
  split
  · exact ⟨rfl, h⟩
  · split
    · exact ⟨rfl, h.options, rfl, rfl⟩
    · exact ⟨rfl, h⟩

/-- Calls for the same are answered alike. -/
theorem perform (h : w.Alike w') {call call' : Call} (same : call.Alike call') :
    SameResult (w.perform call) (w'.perform call') := by
  have fresh : Alike { w with log := [] } { w' with log := [] } := ⟨h.options, h.files, h.current⟩
  cases same with
  | @compileWith o o' options input =>
      simp only [Workspace.perform, Options.check, options.chunkSize]
      by_cases low : o'.chunkSize ≤ 0
      · simp only [if_pos low]
        exact ⟨rfl, fresh⟩
      · simp only [if_neg low]
        exact answered _ (keepClass (fresh.compileWith options input none))
  | same =>
      cases call with
      | compile input filename =>
          exact answered _ (keepClass (fresh.compileWith h.options input filename))
      | compileWith o input =>
          rw [Workspace.perform, Workspace.perform]
          split
          · exact answered _ (keepClass (fresh.compileWith ⟨rfl, rfl⟩ input none))
          · exact ⟨rfl, fresh⟩
      | compileFile path => exact answered _ (keepClass (fresh.compileFile path))
      | compileFileText path strict => exact answered _ (fresh.compileFileText path strict)
      | tokenize input filename | listing input filename =>
          exact answered _ (fresh.tokenize input filename)
      | load path => exact answered _ (keepClass ⟨by rw [h.files], fresh⟩)
      | new compiled => exact answered _ (keepClass ⟨rfl, fresh⟩)
      | save path => exact answered _ (fresh.saveClass path)
      | read path => exact ⟨by simp only [Workspace.perform, h.files], fresh⟩
      | list => exact ⟨by simp only [Workspace.perform, h.files], fresh⟩

theorem performAll (h : w.Alike w') {calls calls' : List Call}
    (same : List.Forall₂ Call.Alike calls calls') :
    List.Forall₂ SameResult (w.performAll calls) (w'.performAll calls') := by
  induction same generalizing w w' with
  | nil => exact .nil
  | cons first later ih =>
      have result := h.perform first
      exact .cons result (ih result.2)

end Alike

/-- Whatever calls are made, and whatever comes of them, the levels behind each call are those in
front of it. Made for debugging or not, and under any levels, the calls have the same answers and
failures and leave the same files and the same class behind. -/
theorem debugging_leaves_no_trace (w w' : Workspace) (calls calls' : List Call) (alike : w.Alike w')
    (same : List.Forall₂ Call.Alike calls calls') :
    (∀ result ∈ w.performAll calls, result.2.levels = w.levels) ∧
      (∀ result ∈ w'.performAll calls', result.2.levels = w'.levels) ∧
      List.Forall₂ SameResult (w.performAll calls) (w'.performAll calls') :=
  ⟨levels_performAll w calls, levels_performAll w' calls', alike.performAll same⟩

/-- Only the first workspace is for debugging. The string of the first failing call has no end, the
stream of the second one breaks off, and the file of the third one has a byte of no text. -/
theorem debugging_leaves_no_trace_at_failure :
    let files : Files := ⟨[['w']], [], [([['w'], ['b']], ⟨#[0x63, 0xFF]⟩)]⟩
    let w : Workspace := ⟨⟨4, false, true⟩, files, ⟨0, 35⟩, [], none⟩
    let w' : Workspace := ⟨⟨4, false, false⟩, files, ⟨10, 0⟩, [], none⟩
    let calls : List Call :=
      [.listing (Source.text "let s = \"") none,
        .compile (Source.text "class A \x7b\x7d") (some "/w/A.jack"), .save none,
        .compile ⟨.stream ["class A", " \x7b\x7d"], some (.unreadable "closed")⟩ none,
        .compileFile "b", .load "A.vm"]
    w.Alike w' ∧ List.Forall₂ Call.Alike calls calls ∧
      (w'.performAll calls).map (·.1.isOk) = [false, true, true, false, false, true] ∧
      (∀ result ∈ w.performAll calls, result.2.levels = ⟨0, 35⟩) ∧
      (w.performAll calls).map Prod.fst = (w'.performAll calls).map Prod.fst := by
  intro files w w' calls
  have alike : w.Alike w' := ⟨⟨rfl, rfl⟩, rfl, rfl⟩
  have same : List.Forall₂ Call.Alike calls calls := List.forall₂_same.mpr fun call _ => .same call
  obtain ⟨levels, -, results⟩ := debugging_leaves_no_trace w w' calls calls alike same
  refine ⟨alike, same, by decide +kernel, levels, ?_⟩
  rw [← List.forall₂_eq_eq_eq, List.forall₂_map_left_iff, List.forall₂_map_right_iff]
  exact results.imp fun _ _ result => result.1

end Workspace

end Jack
