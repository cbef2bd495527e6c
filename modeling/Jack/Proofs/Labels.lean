import Jack.Proofs.Numbering
import Jack.Proofs.Places
import Jack.Proofs.Tagging
import Mathlib.Data.List.Count

/-! # Labels and jumps

Which labels compiled code sets, where it jumps, and which word of the class each label belongs
to. The branches of a class are numbered by the words that open them, and so are its loops; all
jumps of a construct lead to its own two labels, which are set in its own code.
-/

namespace Jack

open Jack.Tree

/-! ### Texts -/

/-- Labels are written in different ways. -/
theorem Label.text_injective : Function.Injective Label.text := by
  have numbered {stem tag : String} {id id' : Nat}
      (h : Numbering.label stem tag id = Numbering.label stem tag id') : id = id' :=
    Int.ofNat.inj (Numbering.label_inj.mp h).2
  intro name other same
  cases name with
  | branchNot id =>
      cases other with
      | branchNot id' => rw [numbered same]
      | _ => simpa [Label.text, Numbering.label] using congrArg String.toList same
  | branchEnd id =>
      cases other with
      | branchEnd id' => rw [numbered same]
      | _ => simpa [Label.text, Numbering.label] using congrArg String.toList same
  | loopStart id =>
      cases other with
      | loopStart id' => rw [numbered same]
      | _ => simpa [Label.text, Numbering.label] using congrArg String.toList same
  | loopEnd id =>
      cases other with
      | loopEnd id' => rw [numbered same]
      | _ => simpa [Label.text, Numbering.label] using congrArg String.toList same

/-! ### Constructs -/

/-- Whether code neither sets a label nor jumps to it. -/
def Code.Avoids (name : Label) (code : List Code) : Prop :=
  name ∉ Code.labels code ∧ name ∉ Code.targets code

/-- Code of a branch that has the labels of a number for itself. -/
def Code.IsBranch (id : Nat) (code : List Code) : Prop :=
  ∃ condition body other : List Code,
    code = condition ++ .arithmetic .not :: .ifGoto (.branchNot id) :: (body ++
      .goto (.branchEnd id) :: .label (.branchNot id) :: (other ++ [.label (.branchEnd id)])) ∧
    ∀ part ∈ [condition, body, other],
      Avoids (.branchNot id) part ∧ Avoids (.branchEnd id) part

/-- Code of a loop that has the labels of a number for itself. -/
def Code.IsLoop (id : Nat) (code : List Code) : Prop :=
  ∃ condition body : List Code,
    code = .label (.loopStart id) :: (condition ++ .arithmetic .not :: .ifGoto (.loopEnd id) ::
      (body ++ [.goto (.loopStart id), .label (.loopEnd id)])) ∧
    ∀ part ∈ [condition, body], Avoids (.loopStart id) part ∧ Avoids (.loopEnd id) part

section Constructs

variable {f : Frame} {name : Label} {b b' l l' : Nat}

theorem avoids_expression (e : Expression) : Code.Avoids name (e.code f) := by
  simp [Code.Avoids]

theorem avoids_statements (ss : Statements)
    (h : ¬ name.Between b (b + ss.branches) l (l + ss.loops)) :
    Code.Avoids name (ss.code f b l) := by
  have unset : name ∉ Code.labels (ss.code f b l) :=
    fun inside => h (ss.labels_between b l name inside)
  exact ⟨unset, fun inside => unset ((ss.targets_perm b l).mem_iff.mp inside)⟩

/-- Statements have nothing to do with branches that start before them. -/
theorem avoids_branch (ss : Statements) {id : Nat} (before : id < b) :
    Code.Avoids (.branchNot id) (ss.code f b l) ∧ Code.Avoids (.branchEnd id) (ss.code f b l) :=
  ⟨avoids_statements ss fun between => absurd between.1 (by omega),
    avoids_statements ss fun between => absurd between.1 (by omega)⟩

/-- Statements have nothing to do with loops that start before them. -/
theorem avoids_loop (ss : Statements) {id : Nat} (before : id < l) :
    Code.Avoids (.loopStart id) (ss.code f b l) ∧ Code.Avoids (.loopEnd id) (ss.code f b l) :=
  ⟨avoids_statements ss fun between => absurd between.1 (by omega),
    avoids_statements ss fun between => absurd between.1 (by omega)⟩

theorem isBranch_of_head? {st : Statement}
    (h : st.lexemes.head? = some (.keyword .ifWord)) : Code.IsBranch b (st.code f b l) := by
  cases st with
  | branch condition body =>
      refine ⟨condition.code f, body.code f (b + 1) l, [], rfl, ?_⟩
      rw [List.forall_mem_cons, List.forall_mem_cons, List.forall_mem_singleton]
      exact ⟨⟨avoids_expression _, avoids_expression _⟩, avoids_branch body (by omega),
        by simp [Code.Avoids]⟩
  | branchElse condition body other =>
      refine ⟨condition.code f, body.code f (b + 1) l, _, rfl, ?_⟩
      rw [List.forall_mem_cons, List.forall_mem_cons, List.forall_mem_singleton]
      exact ⟨⟨avoids_expression _, avoids_expression _⟩, avoids_branch body (by omega),
        avoids_branch other (by omega)⟩
  | ret value => cases value <;> simp [Statement.lexemes] at h
  | _ => simp [Statement.lexemes] at h

theorem isLoop_of_head? {st : Statement}
    (h : st.lexemes.head? = some (.keyword .whileWord)) : Code.IsLoop l (st.code f b l) := by
  cases st with
  | loop condition body =>
      refine ⟨condition.code f, body.code f b (l + 1), rfl, ?_⟩
      rw [List.forall_mem_cons, List.forall_mem_singleton]
      exact ⟨⟨avoids_expression _, avoids_expression _⟩, avoids_loop body (by omega)⟩
  | ret value => cases value <;> simp [Statement.lexemes] at h
  | _ => simp [Statement.lexemes] at h

end Constructs

/-! ### Classes -/

section Classes

variable {c : Tree.Class} {block code : List Code} {name : Label}

theorem mem_labels_of_blocks (h : block ∈ Code.blocks code) (inside : name ∈ Code.labels block) :
    name ∈ Code.labels code := by
  rw [Code.mem_labels] at inside ⊢
  rw [← flatten_blocks code]
  exact List.mem_flatten.mpr ⟨block, h, inside⟩

theorem Tree.Member.labels_between (c : Tree.Class) (m : Member) :
    ∀ name ∈ Code.labels (m.code c), name.Between 0
      ((m.before ++ m.subroutine.lexemes).count (.keyword .ifWord)) 0
      ((m.before ++ m.subroutine.lexemes).count (.keyword .whileWord)) := by
  intro name inside
  rw [Member.code, Subroutine.labels_code] at inside
  rw [List.count_append, List.count_append, m.subroutine.count_ifWord,
    m.subroutine.count_whileWord]
  exact (m.subroutine.body.labels_between _ _ name inside).mono (Nat.zero_le _) (Nat.le_refl _)
    (Nat.zero_le _) (Nat.le_refl _)

/-- The labels of a class have the numbers of its words for branches and loops. -/
theorem Tree.Class.labels_between (c : Tree.Class) :
    ∀ name ∈ Code.labels c.code, name.Between 0 (c.lexemes.count (.keyword .ifWord)) 0
      (c.lexemes.count (.keyword .whileWord)) := by
  intro name inside
  rw [Code.mem_labels, ← flatten_blocks c.code, c.blocks_code] at inside
  obtain ⟨block, found, set⟩ := List.mem_flatten.mp inside
  obtain ⟨m, member, rfl⟩ := List.mem_map.mp found
  have row := (c.prefix_members m member).sublist
  exact (m.labels_between c name (Code.mem_labels.mpr set)).mono (Nat.le_refl _)
    (row.count_le _) (Nat.le_refl _) (row.count_le _)

/-- A jump leads to a label of its own function. -/
theorem Tree.Class.mem_labels_of_target (h : block ∈ Code.blocks c.code) {i : Code}
    (inside : i ∈ block) (target : i.target? = some name) : name ∈ Code.labels block := by
  obtain ⟨m, -, rfl⟩ := List.mem_map.mp (c.blocks_code ▸ h)
  exact (m.subroutine.targets_perm c _ _).mem_iff.mp (List.mem_filterMap.mpr ⟨i, inside, target⟩)

end Classes

section Sources

variable {source : Source} {filename : Option String} {strict : Bool} {chunkSize : Int}
  {code : List Code}

theorem nodup_labels_of_compileSource
    (h : compileSource source filename strict chunkSize = .ok code) :
    (Code.labels code).Nodup := by
  rw [compileSource_of_pos (pos_of_compileSource h)] at h
  dsimp only at h
  split at h
  · cases h
  · next t _ =>
    split at h
    · next e ran =>
      cases h
      have started : (Engine.atStart (.readFrom filename [] (.ofSource chunkSize.toNat source)) t
          strict filename).Fresh [.classDeclaration] :=
        ⟨List.nodup_nil, fun name inside => by cases inside⟩
      have once := started.run.once
      rw [ran] at once
      simpa using once
    · cases h

end Sources

/-- No session with an engine sets a label twice, also not by calls that fail. In the code of a
source every jump leads to the only place of its label, in the same function; the labels have the
numbers of the words for branches and loops, and each of these words opens a statement that has
the labels of its number for itself. -/
theorem labels_are_owned :
    (∀ (lexer : Lexer) (strict : Bool) (filename : Option String) (e : Engine)
        (events : List Event) (calls : List Engine.Call),
      Engine.ofLexer lexer strict filename = (.ok e, events) →
      (∀ goal, .reach goal ∈ calls → goal.Production) →
      ((Code.labels (e.performAll calls).code).map Label.text).Nodup) ∧
    ∀ (source : Source) (filename : Option String) (strict : Bool) (chunkSize : Int)
        (code : List Code),
      compileSource source filename strict chunkSize = .ok code →
      ∃ (tokens : List Token) (c : Tree.Class),
        Lexer.tokensOf source chunkSize filename = .ok tokens ∧
        c.lexemes = tokens.map Token.lexeme ∧
        (∀ block ∈ Code.blocks code, ∀ i ∈ block, ∀ name, i.target? = some name →
          name ∈ Code.labels block ∧
            ((Code.labels code).map Label.text).count name.text = 1) ∧
        (∀ name ∈ Code.labels code, name.Between 0 (c.lexemes.count (.keyword .ifWord)) 0
          (c.lexemes.count (.keyword .whileWord))) ∧
        (∀ before after, c.lexemes = before ++ .keyword .ifWord :: after →
          ∃ m ∈ c.members, ∃ site ∈ m.sites c, site.row = before ∧
            m.code c ∈ Code.blocks code ∧
            site.Stands (m.subroutine.frame c) c.lexemes (m.code c) ∧
            Code.IsBranch (before.count (.keyword .ifWord))
              (site.statement.code (m.subroutine.frame c) site.branches site.loops)) ∧
        ∀ before after, c.lexemes = before ++ .keyword .whileWord :: after →
          ∃ m ∈ c.members, ∃ site ∈ m.sites c, site.row = before ∧
            m.code c ∈ Code.blocks code ∧
            site.Stands (m.subroutine.frame c) c.lexemes (m.code c) ∧
            Code.IsLoop (before.count (.keyword .whileWord))
              (site.statement.code (m.subroutine.frame c) site.branches site.loops) := by
  refine ⟨fun lexer strict filename e events calls started allowed => ?_, ?_⟩
  · have once := ((Engine.fresh_ofLexer started).performAll allowed).once
    rw [List.flatMap_nil, List.append_nil] at once
    exact once.map Label.text_injective
  · intro source filename strict chunkSize code compiled
    have once := nodup_labels_of_compileSource compiled
    obtain ⟨tokens, c, read, spelled, -, rfl, functions⟩ :=
      exists_members_of_compileSource compiled
    have stands {m : Member} (member : m ∈ c.members) {site : Site} (there : site ∈ m.sites c) :
        m.code c ∈ Code.blocks c.code ∧
          site.Stands (m.subroutine.frame c) c.lexemes (m.code c) := by
      rw [functions]
      exact ⟨List.mem_map_of_mem member,
        (m.sites_stand c site there).mono (c.prefix_members m member) List.prefix_rfl⟩
    refine ⟨tokens, c, read, spelled, ?_, c.labels_between, ?_, ?_⟩
    · intro block found i inside name target
      have own := Tree.Class.mem_labels_of_target found inside target
      refine ⟨own, ?_⟩
      rw [List.count_map_of_injective _ _ Label.text_injective]
      exact List.count_eq_one_of_mem once (mem_labels_of_blocks found own)
    · intro before after whole
      obtain ⟨m, member, site, there, rfl, word⟩ := Tree.Class.exists_site rfl whole
      obtain ⟨block, standing⟩ := stands member there
      exact ⟨m, member, site, there, rfl, block, standing, isBranch_of_head? word⟩
    · intro before after whole
      obtain ⟨m, member, site, there, rfl, word⟩ := Tree.Class.exists_site rfl whole
      obtain ⟨block, standing⟩ := stands member there
      exact ⟨m, member, site, there, rfl, block, standing, isLoop_of_head? word⟩

/-- The first loop of the session misses its word and keeps its number. -/
theorem labels_are_owned_after_failure :
    let lexer : Lexer := ⟨.ofSource 64 (.text "if while(1)\x7b\x7d"), none, none⟩
    let calls : List Engine.Call := [.reach .whileStatement, .advance, .reach .whileStatement]
    let source : Source :=
      .text ("class A\x7bfunction void f()\x7b" ++
        "if(1)\x7bwhile(2)\x7b\x7d\x7dif(3)\x7b\x7dreturn;\x7d\x7d")
    (∃ e events, Engine.ofLexer lexer false none = (.ok e, events) ∧
      (∀ goal, .reach goal ∈ calls → goal.Production) ∧
      Code.labels (e.performAll calls).code = [.loopStart 0, .loopStart 1, .loopEnd 1] ∧
      ((Code.labels (e.performAll calls).code).map Label.text).Nodup) ∧
    ∃ code, compileSource source none false 64 = .ok code ∧
      ∃ block ∈ Code.blocks code, ∃ part, part <:+: block ∧ Code.IsBranch 1 part := by
  intro lexer calls source
  refine ⟨?_, ?_⟩
  · have allowed : ∀ goal, .reach goal ∈ calls → goal.Production := by
      intro goal asked
      obtain rfl : goal = .whileStatement := by simpa [calls] using asked
      exact .whileStatement
    have set : ((Engine.ofLexer lexer false none).1.toOption.map fun e =>
        Code.labels (e.performAll calls).code) = some [.loopStart 0, .loopStart 1, .loopEnd 1] := by
      decide +kernel
    rcases started : Engine.ofLexer lexer false none with ⟨_ | e, events⟩
    · rw [started] at set
      cases set
    · rw [started] at set
      exact ⟨e, events, rfl, allowed, Option.some.inj set,
        labels_are_owned.1 lexer false none e events calls started allowed⟩
  · let before : List Lexeme :=
      [.keyword .classWord, .identifier "A", .symbol .openBrace, .keyword .functionWord,
        .keyword .voidWord, .identifier "f", .symbol .openParen, .symbol .closeParen,
        .symbol .openBrace, .keyword .ifWord, .symbol .openParen, .integer "1" 1,
        .symbol .closeParen, .symbol .openBrace, .keyword .whileWord, .symbol .openParen,
        .integer "2" 2, .symbol .closeParen, .symbol .openBrace, .symbol .closeBrace,
        .symbol .closeBrace]
    let after : List Lexeme :=
      [.symbol .openParen, .integer "3" 3, .symbol .closeParen, .symbol .openBrace,
        .symbol .closeBrace, .keyword .returnWord, .symbol .semicolon, .symbol .closeBrace,
        .symbol .closeBrace]
    have compiles : (compileSource source none false 64).toOption.isSome := by decide +kernel
    have read : (Lexer.tokensOf source 64 none).toOption.map (·.map Token.lexeme) =
        some (before ++ .keyword .ifWord :: after) := by
      decide +kernel
    cases compiled : compileSource source none false 64 with
    | error failure => rw [compiled] at compiles; cases compiles
    | ok code =>
        obtain ⟨tokens, c, found, spelled, -, -, branches, -⟩ :=
          labels_are_owned.2 source none false 64 code compiled
        rw [found] at read
        obtain ⟨m, -, site, -, -, block, stands, owns⟩ :=
          branches before after (spelled.trans (Option.some.inj read))
        obtain ⟨rest, whole⟩ := stands.code
        exact ⟨code, rfl, m.code c, block, _, ⟨site.code, rest, whole⟩, owns⟩

end Jack
