import Jack.Proofs.EntryPoints
import Jack.Proofs.OutputForm
import Jack.Proofs.Paths
import Jack.Proofs.Storing

/-! # Saving and loading

A class that was saved is found again where it was saved. Its code has other line ends then, unless
it has no carriage return, but the lines are the same.
-/

namespace Jack

/-! ### Line ends -/

theorem linesFrom_of_isLineEnd {c : Char} {rest : List Char} (h : isLineEnd c = true)
    (apart : c = '\r' → ∀ more, rest ≠ '\n' :: more) (line : List Char) :
    linesFrom line (c :: rest) = String.ofList line.reverse :: linesFrom [] rest := by
  rw [linesFrom.eq_def]
  split
  · next same => cases same
  · next same =>
    obtain ⟨rfl, rfl⟩ := List.cons.inj same
    exact absurd rfl (apart rfl _)
  · next same =>
    obtain ⟨rfl, rfl⟩ := List.cons.inj same
    rw [if_pos h]

/-- Lines do not depend on how their ends are written. -/
theorem linesFrom_unifyNewlines (line text : List Char) :
    linesFrom line (unifyNewlines text) = linesFrom line text := by
  fun_induction unifyNewlines text generalizing line with
  | case1 => rfl
  | case2 rest ih =>
      rw [linesFrom_of_isLineEnd (by decide) (fun same => by cases same), ih, linesFrom]
  | case3 c rest apart ih =>
      cases ended : isLineEnd c with
      | false =>
          have other : c ≠ '\r' := by rintro rfl; cases ended
          rw [if_neg (by simpa using other), linesFrom_cons ended, linesFrom_cons ended, ih]
      | true =>
          rw [linesFrom_of_isLineEnd ended fun same more behind => apart more same behind]
          split
          · rw [linesFrom_of_isLineEnd (by decide) (fun same => by cases same), ih]
          · next other =>
            rw [linesFrom_of_isLineEnd ended fun same => absurd (by simp [same]) other, ih]

theorem not_mem_unifyNewlines (text : List Char) : '\r' ∉ unifyNewlines text := by
  fun_induction unifyNewlines text with
  | case1 => exact List.not_mem_nil
  | case2 rest ih => exact List.not_mem_cons_of_ne_of_not_mem (by decide) ih
  | case3 c rest _ ih =>
      refine List.not_mem_cons_of_ne_of_not_mem ?_ ih
      split
      · decide
      · next other => exact fun same => other (by simp [← same])

theorem unifyNewlines_of_not_mem {text : List Char} (h : '\r' ∉ text) :
    unifyNewlines text = text := by
  fun_induction unifyNewlines text with
  | case1 => rfl
  | case2 rest => exact absurd (List.mem_cons_self ..) h
  | case3 c rest _ ih =>
      rw [List.mem_cons, not_or] at h
      rw [if_neg (by simpa using Ne.symm h.1), ih h.2]

theorem unifyNewlines_eq_self_iff {text : List Char} :
    unifyNewlines text = text ↔ '\r' ∉ text :=
  ⟨fun h => h ▸ not_mem_unifyNewlines text, unifyNewlines_of_not_mem⟩

/-! ### Saved classes -/

namespace CompiledClass

variable {c : CompiledClass} {fs fs' : Files} {path : Option String} {target : Path}
  {key : List Component}

/-- What loading makes of a class that was saved at a path. -/
def reloaded (c : CompiledClass) (target : Path) : CompiledClass :=
  ⟨"", target.stem, String.ofList (unifyNewlines c.code.toList), some target.text⟩

theorem lines_reloaded (c : CompiledClass) (target : Path) :
    (c.reloaded target).lines = c.lines := by
  rw [lines, Jack.lines, reloaded, String.toList_ofList, linesFrom_unifyNewlines]
  rfl

theorem code_reloaded_eq_iff : (c.reloaded target).code = c.code ↔ '\r' ∉ c.code.toList := by
  rw [reloaded, ← String.toList_inj, String.toList_ofList, unifyNewlines_eq_self_iff]

theorem code_reloaded_reloaded (c : CompiledClass) (target target' : Path) :
    ((c.reloaded target).reloaded target').code = (c.reloaded target).code := by
  rw [code_reloaded_eq_iff, reloaded, String.toList_ofList]
  exact not_mem_unifyNewlines _

theorem normal_of_target (h : c.target path = .ok target) : target.Normal := by
  unfold CompiledClass.target at h
  split at h
  · cases h
    exact Path.normal_ofText _
  · exact (Path.normal_ofText _).withSuffix (by decide) (by decide) h
  · cases h

theorem save_eq_ok_iff : c.save path fs = .ok (target, fs') ↔
    c.target path = .ok target ∧
      ∃ key, fs.Reaches target.text key ∧ fs' = fs.put key c.code.toUTF8 := by
  rw [← Files.write_eq_ok_iff, save]
  cases c.target path with
  | error failure => simp [bind, Except.bind]
  | ok found =>
      constructor
      · intro h
        cases written : fs.write found.text c.code with
        | error failure => simp [written, bind, Except.bind] at h
        | ok after =>
            simp only [written, bind, Except.bind] at h
            cases h
            exact ⟨rfl, written⟩
      · rintro ⟨known, written⟩
        cases known
        simp only [written, bind, Except.bind]
        rfl

theorem load_eq (normal : target.Normal) (reached : fs.Reaches target.text key)
    (stored : fs.bytes? key = some c.code.toUTF8) :
    load target.text fs = .ok (c.reloaded target) := by
  have read := Workspace.readUnified_of_read (reached.read stored)
  simp only [load, normal.ofText_text, read, bind, Except.bind]
  rfl

theorem load_of_save (saved : c.save path fs = .ok (target, fs')) :
    load target.text fs' = .ok (c.reloaded target) := by
  obtain ⟨known, key, reached, rfl⟩ := save_eq_ok_iff.mp saved
  exact load_eq (normal_of_target known) (reached.put.mpr reached) (Files.bytes?_put_self ..)

/-- A class that was saved and loaded can be saved there again. -/
theorem save_reloaded {again : Option String} (saved : c.save path fs = .ok (target, fs'))
    (same : (c.reloaded target).target again = .ok target) :
    ∃ after, (c.reloaded target).save again fs' = .ok (target, after) := by
  obtain ⟨-, key, reached, rfl⟩ := save_eq_ok_iff.mp saved
  exact ⟨_, save_eq_ok_iff.mpr ⟨same, key, reached.put.mpr reached, rfl⟩⟩

theorem target_reloaded (known : c.target path = .ok target) :
    (c.reloaded target).target (some target.text) = .ok target := by
  rw [CompiledClass.target, (normal_of_target known).ofText_text]

/-- Saving changes the file that it saves to and no other one. -/
theorem locate_of_save (saved : c.save path fs = .ok (target, fs')) :
    ∃ key, fs'.locate target.text = .ok (.file key c.code.toUTF8) ∧
      ∀ other, other ≠ key → fs'.bytes? other = fs.bytes? other ∧
        ∀ path bytes, fs'.locate path = .ok (.file other bytes) ↔
          fs.locate path = .ok (.file other bytes) := by
  obtain ⟨-, key, reached, rfl⟩ := save_eq_ok_iff.mp saved
  refine ⟨key, ?_, fun other different => ⟨Files.bytes?_put_of_ne different, fun path bytes => ?_⟩⟩
  · exact Files.locate_eq_file_iff.mpr ⟨reached.put.mpr reached, Files.bytes?_put_self ..⟩
  · rw [Files.locate_eq_file_iff, Files.locate_eq_file_iff, reached.put,
      Files.bytes?_put_of_ne different]

/-! ### Compiled code -/

theorem not_mem_join {written : List String} (h : ∀ line ∈ written, Unbroken line) :
    '\r' ∉ (String.join (written.map (· ++ "\n"))).toList := by
  induction written with
  | nil => decide
  | cons line written ih =>
      rw [List.forall_mem_cons] at h
      have first : '\r' ∉ line.toList := fun inside => absurd (h.1 _ inside) (by decide)
      rw [List.map_cons, String.join_cons, String.toList_append, String.toList_append,
        List.mem_append, List.mem_append]
      exact not_or.mpr ⟨not_or.mpr ⟨first, by decide⟩, ih h.2⟩

theorem not_mem_of_compileText {source : Source} {filename : Option String} {strict : Bool}
    {size : Int} {text : String} (h : compileText source filename strict size = .ok text) :
    '\r' ∉ text.toList := by
  obtain ⟨code, done, rfl⟩ := compileText_eq_ok_iff.mp h
  have positive := pos_of_compileSource done
  obtain ⟨tokens, tree, read, spelled, -, rfl⟩ := exists_tree_of_compileSource positive done
  have proper := Lexer.proper_of_tokensOf positive read
  rw [spelled] at proper
  rw [Code.program_eq]
  exact not_mem_join (List.forall_mem_map.mpr fun i inside =>
    (tree.allows_text proper i inside).unbroken)

theorem not_mem_of_compileWith {o : Options} {input : Input} {filename : Option String}
    {w : Workspace} (h : (Workspace.compileWith o input filename w).1 = .ok c) :
    '\r' ∉ c.code.toList := by
  by_cases positive : 0 < o.chunkSize
  · rw [Workspace.fst_compileWith input positive] at h
    cases compiled : compileUntil input.failure
        ⟨.ofSource o.chunkSize.toNat input.source, filename, none⟩ o.strict with
    | mk outcome events =>
        rw [compiled] at h
        cases outcome with
        | error failure => cases h
        | ok compilation =>
            have text : compileText input.source filename o.strict o.chunkSize =
                .ok (Code.program compilation.code) := by
              rw [Workspace.compileText_of_pos positive, (compile_of_compileUntil compiled).2]
              rfl
            cases h
            exact not_mem_of_compileText text
  · rw [Workspace.compileWith, Lexer.ofSource, if_pos (not_lt.mp positive),
      Workspace.fst_withLogging _ _ fun _ _ => rfl] at h
    cases h

end CompiledClass

open CompiledClass

/-- A class that was saved is loaded with the same lines, and with the same code if no carriage
return is in it, as in what a compilation gives none is. No file changes but the one that is saved
to. The class that was loaded can be saved there again, and wherever it is saved it is loaded with
the code it has. -/
theorem saved_classes_are_loaded (c : CompiledClass) (path : Option String) (fs fs' : Files)
    (target : Path) (saved : c.save path fs = .ok (target, fs')) :
    ∃ loaded, load target.text fs' = .ok loaded ∧
      loaded.lines = c.lines ∧ loaded.size = c.size ∧
      (loaded.code = c.code ↔ '\r' ∉ c.code.toList) ∧
      (∀ o input filename w, (Workspace.compileWith o input filename w).1 = .ok c →
        loaded.code = c.code) ∧
      (∃ key, fs'.locate target.text = .ok (.file key c.code.toUTF8) ∧
        ∀ other, other ≠ key → fs'.bytes? other = fs.bytes? other ∧
          ∀ path bytes, fs'.locate path = .ok (.file other bytes) ↔
            fs.locate path = .ok (.file other bytes)) ∧
      (∃ after, loaded.save (some target.text) fs' = .ok (target, after)) ∧
      ∀ path target' after, loaded.save path fs' = .ok (target', after) →
        ∃ again, load target'.text after = .ok again ∧ again.code = loaded.code := by
  have known := (save_eq_ok_iff.mp saved).1
  refine ⟨c.reloaded target, load_of_save saved, c.lines_reloaded target, ?_, code_reloaded_eq_iff,
    fun o input filename w compiled => code_reloaded_eq_iff.mpr (not_mem_of_compileWith compiled),
    locate_of_save saved, save_reloaded saved (target_reloaded known),
    fun path target' after saved' => ?_⟩
  · rw [size, lines_reloaded, size]
  · exact ⟨_, load_of_save saved', c.code_reloaded_reloaded target target'⟩

/-- Line ends of all sorts, saved from the root through a directory with no files and back into
it. -/
theorem saved_classes_are_loaded_at_line_ends :
    let c : CompiledClass := ⟨"", "B", "add\r\nsub\r\r\u2028not", none⟩
    let fs : Files := ⟨[['w']], [[['t']]], []⟩
    let after := fs.put [['t'], ['B', '.', 'v', 'm']] c.code.toUTF8
    let target : Path := ⟨['/'], [['t'], ['.', '.'], ['t'], ['B', '.', 'v', 'm']]⟩
    c.save (some "/t//.././t/B.vm") fs = .ok (target, after) ∧
      ∃ loaded, load target.text after = .ok loaded ∧ loaded.lines = c.lines ∧
        loaded.code ≠ c.code ∧ c.lines = ["add", "sub", "", "", "not"] := by
  intro c fs after target
  have saved : c.save (some "/t//.././t/B.vm") fs = .ok (target, after) := rfl
  obtain ⟨loaded, read, lines, -, same, -⟩ :=
    saved_classes_are_loaded c (some "/t//.././t/B.vm") fs after target saved
  refine ⟨saved, loaded, read, lines, fun unchanged => ?_, by decide⟩
  exact absurd (same.mp unchanged) (by decide)

/-! ### Default paths -/

variable {c : CompiledClass} {filename : String} {fs : Files} {dir : List Component}
  {name stem : Component} {key : List Component}

theorem CompiledClass.target_none (named : c.filename = some filename) :
    c.target none = (Path.ofText filename).withSuffix suffix := by
  unfold CompiledClass.target
  rw [named]

/-- The path in the directory of a file that has the suffix of saved classes behind a stem. -/
def beside (filename : String) (dir : List Component) (stem : Component) : Path :=
  ⟨(Path.ofText filename).root, dir ++ [stem ++ suffix.toList]⟩

section Beside

variable (parts : Path.components filename = dir ++ [name]) (h : Path.IsStem name stem)

include parts h

theorem withSuffix_eq_beside :
    (Path.ofText filename).withSuffix suffix = .ok (beside filename dir stem) := by
  simp only [Path.withSuffix, Path.name?, Path.parts_ofText, parts, List.getLast?_concat,
    List.dropLast_concat, Path.isStem_iff.mp h, beside]

theorem normal_beside : (beside filename dir stem).Normal :=
  (Path.normal_ofText filename).withSuffix (by decide) (by decide) (withSuffix_eq_beside parts h)

theorem isStem_beside : Path.IsStem (stem ++ suffix.toList) stem := by
  have inside : name ∈ Path.components filename := by simp [parts]
  have more : name ≠ [] := (of_decide_eq_true (List.mem_filter.mp inside).2).1
  exact Path.isStem_suffixed h more (by decide) (by decide)

theorem isName_beside : Files.IsName (stem ++ suffix.toList) := by
  refine ⟨((normal_beside parts h).parts _ (by simp [beside])).moves, fun same => ?_⟩
  have last := congrArg List.getLast? same
  simp [suffix] at last

/-- The path beside a file opens the file of its name in the directory that the other components
lead to. -/
theorem reaches_beside_iff : fs.Reaches (beside filename dir stem).text key ↔
    ∃ there, fs.Leads (fs.start (Path.ofText filename).root) dir there ∧
      fs.hasDirectory (there ++ [stem ++ suffix.toList]) = false ∧
        key = there ++ [stem ++ suffix.toList] := by
  have normal := normal_beside parts h
  have more : (beside filename dir stem).parts ≠ [] := by simp [beside]
  obtain ⟨named, head⟩ := normal.head_text more
  have start : fs.start (beside filename dir stem).text.toList =
      fs.start (Path.ofText filename).root := by
    simp only [Files.start, head]
    rfl
  have slashes : ∀ part ∈ (Path.ofText filename).root.map fun _ => ([] : Component),
      Path.isStay part = true := by simp [Path.isStay]
  have cut : Path.cut (beside filename dir stem).text.toList =
      ((Path.ofText filename).root.map fun _ => []) ++ dir ++ [stem ++ suffix.toList] := by
    rw [normal.cut_text more, List.append_assoc]
    rfl
  constructor
  · rintro ⟨-, opens⟩
    rw [start, cut] at opens
    obtain ⟨there, leads, -, free, same⟩ := Files.opens_append_iff.mp opens
    exact ⟨there, (Files.leads_append_iff slashes).mp leads, free, same⟩
  · rintro ⟨there, leads, free, rfl⟩
    refine ⟨named, ?_⟩
    rw [start, cut]
    exact .intro ((Files.leads_append_iff slashes).mpr leads) (isName_beside parts h) free

theorem target_reloaded_beside :
    (c.reloaded (beside filename dir stem)).target none = .ok (beside filename dir stem) := by
  have normal := normal_beside parts h
  have again : Path.components (beside filename dir stem).text =
      dir ++ [stem ++ suffix.toList] := by
    rw [← Path.parts_ofText, normal.ofText_text, beside]
  rw [target_none rfl, withSuffix_eq_beside again (isStem_beside parts h), beside,
    normal.ofText_text, beside]

end Beside

/-- A class is saved in the directory of its source file, under the stem of that file's name and
with the suffix of saved classes, unless it cannot be written there. It is loaded with the stem as
its name, and is saved in the same place again. A path without a last component gives no such
place, and nothing is saved. -/
theorem classes_are_saved_beside_their_sources (c : CompiledClass) (filename : String)
    (named : c.filename = some filename) (fs : Files) :
    (∀ name, ∃! stem, Path.IsStem name stem) ∧
      (∀ dir name stem, Path.components filename = dir ++ [name] → Path.IsStem name stem →
        ∃ target, c.target none = .ok target ∧
          target.text.toList = (Path.ofText filename).root ++
            ['/'].intercalate (dir ++ [stem ++ ".vm".toList]) ∧
          (∀ there, fs.Leads (fs.start (Path.ofText filename).root) dir there →
            fs.hasDirectory (there ++ [stem ++ ".vm".toList]) = false →
            c.save none fs =
              .ok (target, fs.put (there ++ [stem ++ ".vm".toList]) c.code.toUTF8)) ∧
          ∀ target' fs', c.save none fs = .ok (target', fs') →
            target' = target ∧
            (∃ there, fs.Leads (fs.start (Path.ofText filename).root) dir there ∧
              fs' = fs.put (there ++ [stem ++ ".vm".toList]) c.code.toUTF8) ∧
            ∃ loaded, load target.text fs' = .ok loaded ∧
              loaded.className = String.ofList stem ∧ loaded.filename = some target.text ∧
              ∃ after, loaded.save none fs' = .ok (target, after)) ∧
      (Path.components filename = [] →
        c.save none fs = .error (.emptyName (Path.ofText filename).text) ∧
        ∀ w, w.current = some c →
          Workspace.saveClass none w =
            (.error (.emptyName (Path.ofText filename).text), w)) := by
  refine ⟨fun name => ⟨_, Path.isStem_stemOf name, fun other h => (Path.isStem_iff.mp h).symm⟩,
    fun dir name stem parts h => ?_, fun empty => ?_⟩
  · have known : c.target none = .ok (beside filename dir stem) := by
      rw [target_none named, withSuffix_eq_beside parts h]
    refine ⟨_, known, ?_, fun there leads free => ?_, fun target' fs' saved => ?_⟩
    · exact Path.toList_text (by simp [beside]) (normal_beside parts h)
    · exact save_eq_ok_iff.mpr
        ⟨known, _, (reaches_beside_iff parts h).mpr ⟨there, leads, free, rfl⟩, rfl⟩
    · obtain ⟨same, key, reached, rfl⟩ := save_eq_ok_iff.mp saved
      obtain rfl := Except.ok.inj (known.symm.trans same)
      obtain ⟨there, leads, -, rfl⟩ := (reaches_beside_iff parts h).mp reached
      refine ⟨rfl, ⟨there, leads, rfl⟩, _, load_of_save saved, ?_, rfl,
        save_reloaded saved (target_reloaded_beside parts h)⟩
      have last : (beside filename dir stem).name? = some (stem ++ suffix.toList) := by
        rw [Path.name?, beside, List.getLast?_concat]
      rw [reloaded, Path.stem, last, Option.getD_some,
        Path.isStem_iff.mp (isStem_beside parts h)]
  · have refused : c.target none = .error (.emptyName (Path.ofText filename).text) := by
      rw [target_none named, Path.withSuffix, Path.components_eq_nil_iff.mp empty]
    have unsaved (fs : Files) :
        c.save none fs = .error (.emptyName (Path.ofText filename).text) := by
      rw [save, refused]
      rfl
    refine ⟨unsaved fs, fun w current => ?_⟩
    rw [Workspace.saveClass, current]
    simp only [unsaved]

/-- A name that starts with two dots has a dot as its stem. -/
theorem classes_are_saved_beside_their_sources_at_dots :
    let c : CompiledClass := ⟨"", "B", "add\n", some "/./A//..b/"⟩
    let fs : Files := ⟨[['w']], [[['A']]], []⟩
    let after := fs.put [['A'], ['.', '.', 'v', 'm']] c.code.toUTF8
    ∃ target, target.text.toList = "/A/..vm".toList ∧ c.save none fs = .ok (target, after) ∧
      ∃ loaded, load target.text after = .ok loaded ∧ loaded.className = "." ∧
        loaded.filename = some target.text ∧
        ∃ again, loaded.save none after = .ok (target, again) := by
  intro c fs after
  obtain ⟨-, beside, -⟩ := classes_are_saved_beside_their_sources c "/./A//..b/" rfl fs
  have stem : Path.IsStem (['.'] ++ '.' :: ['b']) ['.'] :=
    .cut (by decide) (by decide) (by decide)
  obtain ⟨target, -, text, written, found⟩ := beside [['A']] _ ['.'] (by decide) stem
  have saved : c.save none fs = .ok (target, after) :=
    written [['A']] (.enter ⟨by decide, by decide⟩ (by decide) .here) (by decide)
  obtain ⟨-, -, loaded, read, name, filename, again⟩ := found target after saved
  exact ⟨target, text.trans (by decide), saved, loaded, read, name, filename, again⟩

end Jack
