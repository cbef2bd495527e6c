import Jack.Proofs.Decoding
import Jack.Proofs.Delivery
import Jack.Proofs.Interruption
import Jack.Proofs.Recognizing
import Jack.Proofs.Recording
import Jack.Workspace

/-! # Ways to compile a class

A class can be compiled in a workspace, under options of its own, and from a file. However that is
asked for, and whatever is logged along the way, it is compiled in the same way; a class that was
compiled comes with all of its source and with the name that it has there.
-/

namespace Jack

/-! ### Compiling in front of a reader -/

section Compile

variable {r : Reader} {filename : Option String} {strict : Bool} {compilation : Compilation}
  {events : List Event}

theorem exists_of_compile (h : compile ⟨r, filename, none⟩ strict = (.ok compilation, events)) :
    ∃ t e, (TokenStream.readFrom filename [] r).next.1.outcome = .ok t ∧
      (Engine.atStart (.readFrom filename [] r) t strict filename).run [.classDeclaration] =
        (.ok (), e) ∧
      compilation = ⟨e.scope.className, e.code⟩ ∧ events = e.events.reverse := by
  rw [compile, compileStream_eq] at h
  dsimp only [TokenStream.ofLexer, Option.map_none, Option.toList_none] at h
  split at h
  · cases h
  · next t found =>
    cases reached : (Engine.atStart (.readFrom filename [] r) t strict filename).run
        [.classDeclaration] with
    | mk outcome e =>
        rw [reached] at h
        cases outcome with
        | error failure => cases h
        | ok => cases h; exact ⟨t, e, found, reached, rfl, rfl⟩

/-- What fails to compile makes no first token, or the run from its first token fails. -/
theorem exists_of_compile_error {failure : Failure}
    (h : compile ⟨r, filename, none⟩ strict = (.error failure, events)) :
    (∃ chunks : List Delivery, events = chunks.map Event.delivered) ∨
    ∃ t e, (TokenStream.readFrom filename [] r).next.1.outcome = .ok t ∧
      (Engine.atStart (.readFrom filename [] r) t strict filename).run [.classDeclaration] =
        (.error failure, e) ∧
      events = e.events.reverse := by
  rw [compile, compileStream_eq] at h
  dsimp only [TokenStream.ofLexer, Option.map_none, Option.toList_none] at h
  split at h
  · cases h
    exact .inl ⟨_, rfl⟩
  · next t found =>
    cases reached : (Engine.atStart (.readFrom filename [] r) t strict filename).run
        [.classDeclaration] with
    | mk outcome e =>
        rw [reached] at h
        cases outcome with
        | ok => cases h
        | error failure => cases h; exact .inr ⟨t, e, found, reached, rfl⟩

/-- A class that was compiled has the name behind its first word, and the chunks that were read for
it are all that the source has. -/
theorem recorded_of_compile (h : compile ⟨r, filename, none⟩ strict = (.ok compilation, events)) :
    events.flatMap Event.characters = r.coming ∧
      ∃ tokens, (r.tokensFrom []).1 = .ok tokens ∧
        (tokens.map Token.lexeme).take 2 =
          [.keyword .classWord, .identifier compilation.className] := by
  obtain ⟨t, e, found, reached, rfl, rfl⟩ := exists_of_compile h
  obtain ⟨ended, tokens, read, driven⟩ := Engine.drive_of_atStart found reached
  obtain ⟨c, spelled, -, named, -⟩ := exists_tree_of_drive driven
  refine ⟨?_, tokens, read, ?_⟩
  · obtain ⟨rest, reads⟩ := Engine.exists_reads_of_run found reached
    exact reads.records.received_eq ended
  · rw [spelled, named]
    rfl

end Compile

theorem Source.ne_nil_of_mem_cut (size : Nat) (text : List Char) :
    ∀ chunk ∈ cut size text, chunk ≠ [] := by
  fun_induction cut size text with
  | case1 => exact List.forall_mem_nil _
  | case2 c rest ih => exact List.forall_mem_cons.mpr ⟨List.cons_ne_nil _ _, ih⟩

/-- A stream may return a text in chunks. -/
theorem Source.delivers_cut (size : Nat) (text : List Char) :
    (Source.stream ((cut size text).map String.ofList)).Delivers (String.ofList text) := by
  have filled : ∀ part ∈ (cut size text).map String.ofList, part ≠ "" := by
    refine List.forall_mem_map.mpr fun chunk inside => ?_
    rw [Ne, ← String.toList_eq_nil_iff, String.toList_ofList]
    exact ne_nil_of_mem_cut size text chunk inside
  have whole : String.join ((cut size text).map String.ofList) = String.ofList text := by
    rw [← String.toList_inj, String.toList_join, List.flatMap, List.map_map]
    simp [Function.comp_def, flatten_cut]
  rw [← List.append_nil ((cut size text).map String.ofList)]
  exact .stream filled whole (by simp)

namespace Workspace

/-- Whether a text is that of a class with a name: the name is the identifier behind `class`. -/
def Names (text name : String) : Prop :=
  ∃ tokens, Lexer.tokensOf (.text text) Source.defaultChunkSize none = .ok tokens ∧
    (tokens.map Token.lexeme).take 2 = [.keyword .classWord, .identifier name]

/-- What is answered for a text that compiles to code, or that fails to. -/
inductive Answers (text : String) (filename : Option String) :
    Except Failure String → Except Failure Answer → Prop where
  | compiled {code name : String} (named : Names text name) :
      Answers text filename (.ok code) (.ok (.compiled ⟨text, name, code, filename⟩))
  | failed (failure : Failure) : Answers text filename (.error failure) (.error failure)

theorem fst_withLogging {α : Type} (debug : Bool) (w : Workspace)
    {body : Workspace → α × Workspace} (same : ∀ w w', (body w).1 = (body w').1) :
    (withLogging debug w body).1 = (body w).1 := by
  unfold withLogging
  split
  · exact same _ w
  · rfl

theorem fst_keepClass (result : Except Failure CompiledClass × Workspace) :
    (keepClass result).1 = result.1 := by
  unfold keepClass
  split <;> rfl

section Answers

variable {source source' : Source} {text : String} {o : Options} {size : Int}
  {filename : Option String} {strict : Bool}

theorem compileText_of_pos (positive : 0 < size) :
    compileText source filename strict size =
      (compile ⟨.ofSource size.toNat source, filename, none⟩ strict).1.map
        (Code.program ·.code) := by
  simp only [compileText, compileSource, Lexer.ofSource_of_pos positive, bind, Except.bind]
  cases (compile ⟨.ofSource size.toNat source, filename, none⟩ strict).1 <;> rfl

theorem compileText_congr {size' : Int} (delivered : source.Delivers text)
    (delivered' : source'.Delivers text) (positive : 0 < size) (positive' : 0 < size') :
    compileText source filename strict size = compileText source' filename strict size' := by
  have same := delivered.characters.trans delivered'.characters.symm
  rw [compileText, compileSource_congr same positive positive']
  rfl

theorem names_of_tokensFrom {tokens : List Token} {name : String}
    (delivered : source.Delivers text) (positive : 0 < size)
    (read : ((Reader.ofSource size.toNat source).tokensFrom []).1 = .ok tokens)
    (spelled : (tokens.map Token.lexeme).take 2 = [.keyword .classWord, .identifier name]) :
    Names text name := by
  have same := delivered.characters.trans Source.Delivers.text.characters.symm
  refine ⟨tokens, ?_, spelled⟩
  rw [← Lexer.tokensOf_congr same positive (by decide), Lexer.tokensOf_eq_ok_iff positive]
  exact read

theorem fst_compileWith (input : Input) (positive : 0 < o.chunkSize) (w : Workspace) :
    let found := compileUntil input.failure
      ⟨.ofSource o.chunkSize.toNat input.source, filename, none⟩ o.strict
    (compileWith o input filename w).1 = found.1.map fun compilation =>
      ⟨recorded found.2, compilation.className, Code.program compilation.code, filename⟩ := by
  intro found
  rw [compileWith, Lexer.ofSource_of_pos positive]
  cases compiled : compileUntil input.failure
      ⟨.ofSource o.chunkSize.toNat input.source, filename, none⟩ o.strict with
  | mk outcome events =>
      simp only [found, compiled]
      -- What is logged stays in the workspace and has no part in the result.
      cases outcome with
      | error failure => exact fst_withLogging o.debug w fun _ _ => rfl
      | ok compilation => exact fst_withLogging o.debug w fun _ _ => rfl

/-- A class is compiled with all of its source on record. -/
theorem answers_compileWith (w : Workspace) (delivered : source.Delivers text)
    (delivered' : source'.Delivers text) (positive : 0 < o.chunkSize) (positive' : 0 < size) :
    Answers text filename (compileText source' filename o.strict size)
      ((compileWith o source filename w).1.map .compiled) := by
  rw [← compileText_congr delivered delivered' positive positive', compileText_of_pos positive,
    fst_compileWith source positive, compileUntil]
  cases compiled : compile ⟨.ofSource o.chunkSize.toNat source, filename, none⟩ o.strict with
  | mk outcome events =>
      cases outcome with
      | error failure => exact .failed failure
      | ok compilation =>
          obtain ⟨all, tokens, read, spelled⟩ := recorded_of_compile compiled
          have whole : recorded events = text := by
            rw [recorded, all, Reader.coming, Reader.ofSource, Option.getD_some,
              Source.flatten_chunks, delivered.characters, String.ofList_toList]
          subst whole
          exact .compiled (names_of_tokensFrom delivered positive read spelled)

end Answers

/-! ### Calls -/

section Perform

variable (w : Workspace) {o : Options} (input : Input) (filename : Option String)
  {path : String} {file : TextFile}

theorem fst_perform_compile :
    (w.perform (.compile input filename)).1 =
      (compileWith w.options input filename { w with log := [] }).1.map .compiled := by
  simp only [perform, answered, fst_keepClass]

theorem fst_perform_compileWith (positive : 0 < o.chunkSize) :
    (w.perform (.compileWith o input)).1 =
      (compileWith o input none { w with log := [] }).1.map .compiled := by
  simp only [perform, Options.check, if_neg (not_le.mpr positive), answered, fst_keepClass]

theorem check_of_not_pos (low : o.chunkSize ≤ 0) : o.check = .error (.chunkSize o.chunkSize) := by
  rw [Options.check, if_pos low]

theorem fst_perform_compileFile (opened : w.files.openText path = .ok file) :
    (w.perform (.compileFile path)).1 =
      (compileWith w.options (file.input w.options.chunkSize.toNat) (some path)
        { w with log := [] }).1.map .compiled := by
  simp only [perform, compileFile, opened, answered, fst_keepClass]

theorem fst_perform_compileFileText (opened : w.files.openText path = .ok file)
    (sound : (file.input Source.defaultChunkSize).failure = none) (strict : Bool) :
    (w.perform (.compileFileText path strict)).1 =
      (compileText (file.input Source.defaultChunkSize).source (some path) strict
        Source.defaultChunkSize).map .text := by
  have positive : (0 : Int) < Source.defaultChunkSize := by decide
  simp only [perform, compileFileText, opened, Lexer.ofSource_of_pos positive, answered, sound,
    compileUntil, compileText_of_pos positive]

theorem toList_toUTF8 (content : String) :
    content.toUTF8.data.toList = encode content.toList := by
  rw [String.toUTF8_eq_toByteArray, ← String.utf8Encode_toList, List.utf8Encode,
    List.data_toByteArray]
  rfl

/-- A file that holds a text is opened to be read from its start. -/
theorem openText_of_read {files : Files} {content : String}
    (h : files.read path = .ok content.toUTF8) :
    files.openText path = .ok (.ofBytes (encode content.toList)) := by
  rw [Files.openText, h, Except.map, toList_toUTF8]

/-- What is read of a file that holds a text is that text, with every line end as one line feed. -/
theorem exists_input_of_text (size : Nat) (positive : 0 < size) (text : List Char) :
    ∃ source : Source, (TextFile.ofBytes (encode text)).input size = source ∧
      source.Delivers (String.ofList (unifyNewlines text)) := by
  have read := (TextFile.holds_ofBytes text).reads positive
  exact ⟨_, by rw [TextFile.input, read], Source.delivers_cut size _⟩

/-- The text of a file is read from its bytes, with every line end as one line feed. -/
theorem readUnified_of_read {files : Files} {content : String}
    (h : files.read path = .ok content.toUTF8) :
    files.readUnified path = .ok (String.ofList (unifyNewlines content.toList)) := by
  have decoded : String.fromUTF8? content.toUTF8 = some content := by
    rw [String.fromUTF8?, String.toUTF8_eq_toByteArray, dif_pos content.isValidUTF8]
    rfl
  simp only [Files.readUnified, Files.readText, h, bind, Except.bind, decoded]
  rfl

end Perform

/-- However a class is asked for, it is compiled in the same way. In a workspace it comes with the
text that its source delivers and the name that it has there; the class in a file is that of the
text with every line end as one line feed. A source that breaks off fails in a workspace with what
it fails with elsewhere, and options that sources cannot be read with are refused by all ways
alike. -/
theorem entry_points_agree (w : Workspace) (o : Options) (size : Int) (source : Source)
    (filename : Option String) (positive : 0 < w.options.chunkSize) (positive' : 0 < o.chunkSize)
    (positive'' : 0 < size) :
    (∃ text, source.Delivers text ∧ ∀ source', source'.Delivers text →
      Answers text filename (compileText source' filename w.options.strict size)
          (w.perform (.compile source filename)).1 ∧
        Answers text none (compileText source' none o.strict size)
          (w.perform (.compileWith o source)).1) ∧
    (∀ path (content : String), w.files.read path = .ok content.toUTF8 →
      let text := String.ofList (unifyNewlines content.toList)
      Answers text (some path) (compileText (.text text) (some path) w.options.strict size)
          (w.perform (.compileFile path)).1 ∧
        ∀ strict, (w.perform (.compileFileText path strict)).1 =
          (compileText (.text text) (some path) strict size).map .text) ∧
    (∀ failure, ∃ failed,
      (compileUntil (some failure) ⟨.ofSource w.options.chunkSize.toNat source, filename, none⟩
        w.options.strict).1 = .error failed ∧
        (w.perform (.compile ⟨source, some failure⟩ filename)).1 = .error failed) ∧
    ∀ refused : Options, refused.chunkSize ≤ 0 → ∃ failure,
      create refused w.files w.levels = .error failure ∧
        (w.perform (.compileWith refused source)).1 = .error failure ∧
        compileText source filename refused.strict refused.chunkSize = .error failure := by
  obtain ⟨text, delivered⟩ := source.exists_delivers
  refine ⟨⟨text, delivered, fun source' delivered' => ⟨?_, ?_⟩⟩, fun path content stored => ?_,
    fun failure => ?_, fun refused low => ?_⟩
  · rw [fst_perform_compile]
    exact answers_compileWith _ delivered delivered' positive positive''
  · rw [fst_perform_compileWith w source positive']
    exact answers_compileWith _ delivered delivered' positive' positive''
  · have opened := openText_of_read stored
    refine ⟨?_, fun strict => ?_⟩
    · have chunks : 0 < w.options.chunkSize.toNat := by omega
      obtain ⟨input, read, delivered⟩ := exists_input_of_text _ chunks content.toList
      rw [fst_perform_compileFile w opened, read]
      exact answers_compileWith _ delivered .text positive positive''
    · obtain ⟨input, read, delivered⟩ :=
        exists_input_of_text Source.defaultChunkSize (by decide) content.toList
      rw [fst_perform_compileFileText w opened (by rw [read]), read,
        compileText_congr delivered .text (by decide) positive'']
  · obtain ⟨failed, broken⟩ := exists_failed_of_broken failure
      (.ofSource w.options.chunkSize.toNat source) filename w.options.strict
    refine ⟨failed, broken, ?_⟩
    rw [fst_perform_compile, fst_compileWith _ positive]
    dsimp only
    rw [broken]
    rfl
  · have check := check_of_not_pos low
    refine ⟨.chunkSize refused.chunkSize, ?_, ?_, ?_⟩
    · rw [create, check]
      rfl
    · simp only [perform, check]
    · rw [compileText, compileSource_of_not_pos (not_lt.mpr low)]
      rfl

/-- The stream has another part behind its end, and the class in the file is on two lines. -/
theorem entry_points_agree_at_comment :
    let files : Files :=
      ⟨[['w']], [], [([['s'], ['A', '.', 'j']], "class A\x7b\r\n\x7d".toUTF8)]⟩
    let w : Workspace := ⟨⟨3, true, true⟩, files, .unset, [], none⟩
    let source : Source := .stream (["class A\x7b/*", "*/\x7d//", " end"] ++ ["", "class"])
    0 < w.options.chunkSize ∧ (0 : Int) < 1 ∧ (0 : Int) < 4096 ∧
      w.files.read "/s/A.j" = .ok "class A\x7b\r\n\x7d".toUTF8 ∧
      Answers "class A\x7b/**/\x7d// end" (some "A") (.ok "")
        (w.perform (.compile source (some "A"))).1 ∧
      Answers "class A\x7b\n\x7d" (some "/s/A.j") (.ok "")
        (w.perform (.compileFile "/s/A.j")).1 := by
  intro files w source
  have stored : w.files.read "/s/A.j" = .ok "class A\x7b\r\n\x7d".toUTF8 := rfl
  have delivered : source.Delivers "class A\x7b/**/\x7d// end" :=
    .stream (by decide) (by decide) (by decide)
  obtain ⟨⟨text, unique, agrees⟩, inFile, -⟩ := entry_points_agree w ⟨1, false, false⟩ 4096 source
    (some "A") (by decide) (by decide) (by decide)
  obtain rfl : text = "class A\x7b/**/\x7d// end" :=
    String.toList_inj.mp (unique.characters.symm.trans delivered.characters)
  have code : compileText (.text "class A\x7b/**/\x7d// end") (some "A") true 4096 = .ok "" := by
    decide +kernel
  have code' : compileText (.text "class A\x7b\n\x7d") (some "/s/A.j") true 4096 = .ok "" := by
    decide +kernel
  refine ⟨by decide, by decide, by decide, stored, ?_, ?_⟩
  · rw [← code]
    exact (agrees _ .text).1
  · rw [← code']
    exact (inFile "/s/A.j" _ stored).1

end Workspace

end Jack
