import Jack.Proofs.Independence
import Jack.Proofs.Mentions
import Jack.Proofs.Respelling
import Mathlib.Logic.Equiv.Basic

/-! # Names of variables

What is written for a variable is its kind and its number, and for a call on it its type. So a
subroutine can have other names for its parameters and its local variables: where the tables have
under the new names what they had under the old ones, the code is the same.
-/

namespace Jack

/-! ### Tables -/

/-- What is known of a variable apart from its name. -/
def SymbolEntry.unnamed (entry : SymbolEntry) : String × VariableKind × Nat :=
  (entry.type, entry.kind, entry.index)

namespace SymbolTable

/-- A table has under new names what another one has under the old ones. -/
structure Renamed (r : String → String) (t t' : SymbolTable) : Prop where
  lookup : ∀ name, (t'.lookup? (r name)).map SymbolEntry.unnamed =
    (t.lookup? name).map SymbolEntry.unnamed
  count : ∀ kind, t'.count kind = t.count kind

variable {r : String → String} {t t' : SymbolTable}

theorem renamed_empty : Renamed r empty empty :=
  ⟨fun _ => rfl, fun _ => rfl⟩

theorem Renamed.define (h : Renamed r t t') (injective : Function.Injective r)
    (name type : String) (kind : VariableKind) :
    Renamed r (t.define name type kind) (t'.define (r name) type kind) where
  lookup other := by
    rw [lookup?_define, lookup?_define]
    by_cases same : name = other
    · rw [if_pos same, if_pos (congrArg r same)]
      simp [SymbolEntry.unnamed, newEntry, h.count]
    · rw [if_neg same, if_neg (injective.ne same), h.lookup]
  count other := by rw [count_define, count_define, h.count]

theorem Renamed.defineAll (h : Renamed r t t') (injective : Function.Injective r)
    (names : List String) (type : String) (kind : VariableKind) :
    Renamed r (t.defineAll names type kind) (t'.defineAll (names.map r) type kind) := by
  induction names generalizing t t' with
  | nil => exact h
  | cons name names ih => exact ih (h.define injective name type kind)

theorem Renamed.foldl {α : Type} {declare : SymbolTable → α → SymbolTable} {rename : α → α}
    (step : ∀ {t t'} a, Renamed r t t' → Renamed r (declare t a) (declare t' (rename a)))
    (h : Renamed r t t') (items : List α) :
    Renamed r (items.foldl declare t) ((items.map rename).foldl declare t') := by
  induction items generalizing t t' with
  | nil => exact h
  | cons item items ih => exact ih (step item h)

end SymbolTable

namespace Tree

section Tables

variable {r : String → String}

theorem Subroutine.renamed_table (injective : Function.Injective r) (object : r "this" = "this")
    (s : Subroutine) (className : String) :
    SymbolTable.Renamed r (s.table className) ((s.rename r).table className) := by
  have receiver : SymbolTable.Renamed r (s.receiver className) (s.receiver className) := by
    unfold Subroutine.receiver
    cases s.kind with
    | constructor => exact SymbolTable.renamed_empty
    | function => exact SymbolTable.renamed_empty
    | method =>
        have own := SymbolTable.renamed_empty.define injective "this" className .argument
        rwa [object] at own
  refine SymbolTable.Renamed.foldl (fun d h => ?_) (SymbolTable.Renamed.foldl (fun p h => ?_)
    receiver _) _
  · exact h.defineAll injective d.names d.type.text .localVar
  · exact h.define injective p.name p.type.text .argument

end Tables

/-! ### Code -/

/-- Two names for the same variable, each in its frame, or one name that is no variable. -/
structure Frame.Same (f f' : Frame) (name name' : String) : Prop where
  resolved : (f'.resolve? name').map SymbolEntry.unnamed =
    (f.resolve? name).map SymbolEntry.unnamed
  unresolved : f.resolve? name = none → name' = name

section Same

variable {f f' : Frame} {name name' : String}

/-- Either name has an entry of the same kind, number and type, or neither has one. -/
theorem Frame.Same.cases (h : f.Same f' name name') :
    (f.resolve? name = none ∧ f'.resolve? name' = none ∧ name' = name) ∨
      ∃ entry entry', f.resolve? name = some entry ∧ f'.resolve? name' = some entry' ∧
        entry'.type = entry.type ∧ entry'.kind = entry.kind ∧ entry'.index = entry.index := by
  obtain ⟨resolved, unresolved⟩ := h
  cases found : f.resolve? name with
  | none =>
      rw [found, Option.map_none, Option.map_eq_none_iff] at resolved
      exact .inl ⟨rfl, resolved, unresolved found⟩
  | some entry =>
      rw [found, Option.map_some, Option.map_eq_some_iff] at resolved
      obtain ⟨entry', found', same⟩ := resolved
      simp only [SymbolEntry.unnamed, Prod.mk.injEq] at same
      exact .inr ⟨entry, entry', rfl, found', same⟩

theorem Frame.Same.push_eq (h : f.Same f' name name') : f'.push name' = f.push name := by
  obtain ⟨found, found', -⟩ | ⟨entry, entry', found, found', -, kind, index⟩ := h.cases
  · rw [push, push, found, found']
  · simp only [push, found, found', kind, index]

theorem Frame.Same.pop_eq (h : f.Same f' name name') : f'.pop name' = f.pop name := by
  obtain ⟨found, found', -⟩ | ⟨entry, entry', found, found', -, kind, index⟩ := h.cases
  · rw [pop, pop, found, found']
  · simp only [pop, found, found', kind, index]

/-- A name keeps what it stands for if it does not change or is found in the table of the
subroutine. -/
theorem Frame.same_of_renamed {r : String → String} {className : String}
    {shared t t' : SymbolTable} (tables : SymbolTable.Renamed r t t')
    (h : r name = name ∨ (t.lookup? name).isSome) :
    Same ⟨className, shared, t⟩ ⟨className, shared, t'⟩ name (r name) where
  resolved := by
    have own := tables.lookup name
    rw [resolve?, resolve?]
    rcases h with same | known
    · rw [same] at own ⊢
      rw [Option.map_or, Option.map_or, own]
    · obtain ⟨entry, found⟩ := Option.isSome_iff_exists.mp known
      rw [found, Option.map_some, Option.map_eq_some_iff] at own
      obtain ⟨entry', found', same⟩ := own
      rw [found, found', Option.some_or, Option.some_or, Option.map_some, Option.map_some, same]
  unresolved none := by
    rcases h with same | known
    · exact same
    · rw [resolve?, Option.or_eq_none_iff] at none
      rw [none.1] at known
      cases known

end Same

/-- A renaming keeps what the mentioned names of variables stand for. -/
def Keeps (r : String → String) (f f' : Frame) (mentions : List Mention) : Prop :=
  ∀ m ∈ mentions, m.role.isVariable → f.Same f' m.name (r m.name)

section Keeps

variable {r : String → String} {f f' : Frame}

@[simp] theorem keeps_cons {m : Mention} {more : List Mention} :
    Keeps r f f' (m :: more) ↔
      (m.role.isVariable → f.Same f' m.name (r m.name)) ∧ Keeps r f f' more :=
  List.forall_mem_cons

@[simp] theorem keeps_append {first more : List Mention} :
    Keeps r f f' (first ++ more) ↔ Keeps r f f' first ∧ Keeps r f f' more :=
  List.forall_mem_append

theorem Arguments.count_rename (arguments : Arguments) :
    (arguments.rename r).count = arguments.count := by
  cases arguments with
  | nil => rfl
  | cons first rest => rw [rename, count, count, rest.count_rename]

mutual

theorem Term.code_rename (named : f'.className = f.className) (t : Term)
    (h : Keeps r f f' t.mentions) : (t.rename r).code f' = t.code f := by
  cases t with
  | integer digits value => rfl
  | string content => rfl
  | constant word => rfl
  | var name =>
      simp only [Term.mentions, keeps_cons] at h
      exact (h.1 rfl).push_eq
  | element base index =>
      simp only [Term.mentions, keeps_cons] at h
      rw [Term.rename, Term.code, Term.code, (h.1 rfl).push_eq, index.code_rename named h.2]
  | call call => exact call.code_rename named h
  | group inner => exact inner.code_rename named h
  | unary op operand => rw [Term.rename, Term.code, Term.code, operand.code_rename named h]
termination_by structural t

theorem Expression.code_rename (named : f'.className = f.className) (e : Expression)
    (h : Keeps r f f' e.mentions) : (e.rename r).code f' = e.code f := by
  cases e with
  | of first rest =>
      rw [Expression.mentions, keeps_append] at h
      rw [Expression.rename, Expression.code, Expression.code, first.code_rename named h.1,
        rest.code_rename named h.2]
termination_by structural e

theorem Operations.code_rename (named : f'.className = f.className) (rest : Operations)
    (h : Keeps r f f' rest.mentions) : (rest.rename r).code f' = rest.code f := by
  cases rest with
  | nil => rfl
  | cons op operand rest =>
      rw [Operations.mentions, keeps_append] at h
      rw [Operations.rename, Operations.code, Operations.code, operand.code_rename named h.1,
        rest.code_rename named h.2]
termination_by structural rest

theorem Call.code_rename (named : f'.className = f.className) (call : Call)
    (h : Keeps r f f' call.mentions) : (call.rename r).code f' = call.code f := by
  cases call with
  | own name arguments =>
      simp only [Call.mentions, keeps_cons] at h
      rw [Call.rename, Call.code, Call.code, named, arguments.code_rename named h.2,
        arguments.count_rename]
  | qualified qualifier name arguments =>
      simp only [Call.mentions, keeps_cons] at h
      rw [Call.rename, Call.code, Call.code, arguments.code_rename named h.2.2,
        arguments.count_rename]
      -- A qualifier that is no variable is written out, but then it is not renamed.
      obtain ⟨found, found', same⟩ | ⟨entry, entry', found, found', type, kind, index⟩ :=
        (h.1 rfl).cases
      · rw [same] at found' ⊢
        simp only [found, found']
      · simp only [found, found', type, kind, index]
termination_by structural call

theorem Arguments.code_rename (named : f'.className = f.className) (arguments : Arguments)
    (h : Keeps r f f' arguments.mentions) : (arguments.rename r).code f' = arguments.code f := by
  cases arguments with
  | nil => rfl
  | cons first rest =>
      rw [Arguments.mentions, keeps_append] at h
      rw [Arguments.rename, Arguments.code, Arguments.code, first.code_rename named h.1,
        rest.code_rename named h.2]
termination_by structural arguments

end

mutual

/-- Other names make no other branches and loops. -/
theorem Statement.counts_rename (st : Statement) :
    (st.rename r).branches = st.branches ∧ (st.rename r).loops = st.loops := by
  cases st with
  | assign | store | perform | ret => exact ⟨rfl, rfl⟩
  | branch condition body =>
      simp [Statement.rename, Statement.branches, Statement.loops, body.counts_rename]
  | branchElse condition body other =>
      simp [Statement.rename, Statement.branches, Statement.loops, body.counts_rename,
        other.counts_rename]
  | loop condition body =>
      simp [Statement.rename, Statement.branches, Statement.loops, body.counts_rename]
termination_by structural st

theorem Statements.counts_rename (ss : Statements) :
    (ss.rename r).branches = ss.branches ∧ (ss.rename r).loops = ss.loops := by
  cases ss with
  | nil => exact ⟨rfl, rfl⟩
  | cons first rest =>
      simp [Statements.rename, Statements.branches, Statements.loops, first.counts_rename,
        rest.counts_rename]
termination_by structural ss

end

mutual

theorem Statement.code_rename (named : f'.className = f.className) (st : Statement)
    (h : Keeps r f f' st.mentions) (b l : Nat) : (st.rename r).code f' b l = st.code f b l := by
  cases st with
  | assign target value =>
      simp only [Statement.mentions, keeps_cons] at h
      rw [Statement.rename, Statement.code, Statement.code, value.code_rename named h.2,
        (h.1 rfl).pop_eq]
  | store base index value =>
      simp only [Statement.mentions, keeps_cons, keeps_append] at h
      rw [Statement.rename, Statement.code, Statement.code, (h.1 rfl).push_eq,
        index.code_rename named h.2.1, value.code_rename named h.2.2]
  | branch condition body =>
      rw [Statement.mentions, keeps_append] at h
      rw [Statement.rename, Statement.code, Statement.code, condition.code_rename named h.1,
        body.code_rename named h.2]
  | branchElse condition body other =>
      rw [Statement.mentions, keeps_append, keeps_append] at h
      rw [Statement.rename, Statement.code, Statement.code, condition.code_rename named h.1,
        body.code_rename named h.2.1, other.code_rename named h.2.2, body.counts_rename.1,
        body.counts_rename.2]
  | loop condition body =>
      rw [Statement.mentions, keeps_append] at h
      rw [Statement.rename, Statement.code, Statement.code, condition.code_rename named h.1,
        body.code_rename named h.2]
  | perform call => rw [Statement.rename, Statement.code, Statement.code, call.code_rename named h]
  | ret value =>
      cases value with
      | none => rfl
      | some value =>
          rw [Statement.rename, Option.map_some, Statement.code, Statement.code,
            value.code_rename named h]
termination_by structural st

theorem Statements.code_rename (named : f'.className = f.className) (ss : Statements)
    (h : Keeps r f f' ss.mentions) (b l : Nat) : (ss.rename r).code f' b l = ss.code f b l := by
  cases ss with
  | nil => rfl
  | cons first rest =>
      rw [Statements.mentions, keeps_append] at h
      rw [Statements.rename, Statements.code, Statements.code, first.code_rename named h.1,
        first.counts_rename.1, first.counts_rename.2, rest.code_rename named h.2]
termination_by structural ss

end

end Keeps

/-! ### Names that have to be declared -/

section Uses

variable {r : String → String}

mutual

theorem Term.uses_rename (t : Term) : (t.rename r).uses = t.uses.map r := by
  cases t with
  | integer | string | constant => rfl
  | var name => rfl
  | element base index => rw [Term.rename, Term.uses, Term.uses, index.uses_rename, List.map_cons]
  | call call => exact call.uses_rename
  | group inner => exact inner.uses_rename
  | unary op operand => exact operand.uses_rename
termination_by structural t

theorem Expression.uses_rename (e : Expression) : (e.rename r).uses = e.uses.map r := by
  cases e with
  | of first rest =>
      rw [Expression.rename, Expression.uses, Expression.uses, first.uses_rename,
        rest.uses_rename, List.map_append]
termination_by structural e

theorem Operations.uses_rename (rest : Operations) : (rest.rename r).uses = rest.uses.map r := by
  cases rest with
  | nil => rfl
  | cons op operand rest =>
      rw [Operations.rename, Operations.uses, Operations.uses, operand.uses_rename,
        rest.uses_rename, List.map_append]
termination_by structural rest

theorem Call.uses_rename (call : Call) : (call.rename r).uses = call.uses.map r := by
  cases call with
  | own name arguments => exact arguments.uses_rename
  | qualified qualifier name arguments => exact arguments.uses_rename
termination_by structural call

theorem Arguments.uses_rename (arguments : Arguments) :
    (arguments.rename r).uses = arguments.uses.map r := by
  cases arguments with
  | nil => rfl
  | cons first rest =>
      rw [Arguments.rename, Arguments.uses, Arguments.uses, first.uses_rename, rest.uses_rename,
        List.map_append]
termination_by structural arguments

end

mutual

theorem Statement.uses_rename (st : Statement) : (st.rename r).uses = st.uses.map r := by
  cases st with
  | assign target value =>
      rw [Statement.rename, Statement.uses, Statement.uses, value.uses_rename, List.map_cons]
  | store base index value =>
      rw [Statement.rename, Statement.uses, Statement.uses, index.uses_rename, value.uses_rename,
        List.map_cons, List.map_append]
  | branch condition body =>
      rw [Statement.rename, Statement.uses, Statement.uses, condition.uses_rename,
        body.uses_rename, List.map_append]
  | branchElse condition body other =>
      rw [Statement.rename, Statement.uses, Statement.uses, condition.uses_rename,
        body.uses_rename, other.uses_rename, List.map_append, List.map_append]
  | loop condition body =>
      rw [Statement.rename, Statement.uses, Statement.uses, condition.uses_rename,
        body.uses_rename, List.map_append]
  | perform call => exact call.uses_rename
  | ret value =>
      cases value with
      | none => rfl
      | some value => exact value.uses_rename
termination_by structural st

theorem Statements.uses_rename (ss : Statements) : (ss.rename r).uses = ss.uses.map r := by
  cases ss with
  | nil => rfl
  | cons first rest =>
      rw [Statements.rename, Statements.uses, Statements.uses, first.uses_rename,
        rest.uses_rename, List.map_append]
termination_by structural ss

end

theorem Subroutine.localNames_rename (s : Subroutine) :
    (s.rename r).locals.flatMap Declaration.names =
      (s.locals.flatMap Declaration.names).map r := by
  rw [rename, List.flatMap_map, List.map_flatMap]
  rfl

theorem Subroutine.names_rename (s : Subroutine) : (s.rename r).names = s.names.map r := by
  rw [names, s.localNames_rename, names, List.map_append, rename, List.map_map, List.map_map]
  rfl

theorem Subroutine.distinct_rename (injective : Function.Injective r) (object : r "this" = "this")
    {s : Subroutine} (h : s.Distinct) : (s.rename r).Distinct := by
  obtain ⟨once, own⟩ := h
  rw [Distinct, names_rename]
  refine ⟨once.map injective, fun method inside => ?_⟩
  obtain ⟨name, inside, same⟩ := List.mem_map.mp inside
  obtain rfl := injective (same.trans object.symm)
  exact own method inside

end Uses

/-! ### Classes -/

namespace Class

/-- A class with other names for the variables of one subroutine. -/
def renameIn (c : Class) (before : List Subroutine) (s : Subroutine) (after : List Subroutine)
    (r : String → String) : Class :=
  { c with subroutines := before ++ s.rename r :: after }

/-- The row of a class with another row for one subroutine. -/
def rowWith (c : Class) (before : List Subroutine) (row : List Lexeme)
    (after : List Subroutine) : List Lexeme :=
  c.opening ++ (before.flatMap Subroutine.lexemes ++
    (row ++ (after.flatMap Subroutine.lexemes ++ [.symbol .closeBrace])))

end Class

/-- A renaming of the variables of one subroutine of a class: no two names become one, and no name
changes that is not one of its variables. -/
structure Renaming (c : Class) (s : Subroutine) (r : String → String) : Prop where
  injective : Function.Injective r
  object : r "this" = "this"
  spares : Spares r s.mentions
  own : ∀ m ∈ s.mentions, r m.name = m.name ∨ m.name ∈ s.names

namespace Renaming

variable {c : Class} {s : Subroutine} {r : String → String} {before after : List Subroutine}

theorem keeps (h : Renaming c s r) :
    Keeps r (s.frame c) ((s.rename r).frame c) s.body.mentions := by
  intro m inside _
  refine Frame.same_of_renamed (s.renamed_table h.injective h.object c.name) ?_
  have mentioned : m ∈ s.mentions := by simp [Subroutine.mentions, inside]
  refine (h.own m mentioned).imp_right fun declared => ?_
  exact (lookup?_subroutine_table s c.name m.name).mpr (.inl declared)

theorem code_eq (h : Renaming c s r) (b l : Nat) : (s.rename r).code c b l = s.code c b l := by
  have locals : (s.rename r).localCount = s.localCount := by
    rw [Subroutine.localCount, s.localNames_rename, List.length_map]
    rfl
  have body : (s.rename r).body.code ((s.rename r).frame c) b l = s.body.code (s.frame c) b l :=
    Statements.code_rename (by rfl) s.body h.keeps b l
  rw [Subroutine.code, locals, body]
  rfl

theorem codeFrom_eq (h : Renaming c s r) (b l : Nat) :
    c.codeFrom b l (before ++ s.rename r :: after) = c.codeFrom b l (before ++ s :: after) := by
  induction before generalizing b l with
  | nil =>
      have branches : (s.rename r).body.branches = s.body.branches := s.body.counts_rename.1
      have loops : (s.rename r).body.loops = s.body.loops := s.body.counts_rename.2
      rw [List.nil_append, List.nil_append, Class.codeFrom, Class.codeFrom, h.code_eq, branches,
        loops]
  | cons sub before ih =>
      rw [List.cons_append, List.cons_append, Class.codeFrom, Class.codeFrom, ih]

theorem class_code_eq (h : Renaming c s r) (split : c.subroutines = before ++ s :: after) :
    (c.renameIn before s after r).code = c.code := by
  -- The code of a subroutine depends on its class, but not on the other subroutines.
  have others (b l : Nat) (subs : List Subroutine) :
      (c.renameIn before s after r).codeFrom b l subs = c.codeFrom b l subs := by
    induction subs generalizing b l with
    | nil => rfl
    | cons sub subs ih =>
        rw [Class.codeFrom, Class.codeFrom, ih]
        rfl
  rw [Class.code, Class.code, others, split, ← h.codeFrom_eq]
  rfl

theorem class_lexemes_eq (h : Renaming c s r) :
    (c.renameIn before s after r).lexemes =
      c.rowWith before (s.lexemes.map (Lexeme.rename r)) after := by
  rw [Class.lexemes_eq, Class.renameIn, Class.rowWith, ← s.lexemes_rename h.spares,
    List.flatMap_append, List.flatMap_cons, List.append_assoc, List.append_assoc]
  rfl

theorem wellScoped (h : Renaming c s r) (split : c.subroutines = before ++ s :: after)
    (declared : c.WellScoped) : (c.renameIn before s after r).WellScoped := by
  rw [Class.WellScoped, split] at declared
  simp only [List.forall_mem_append, List.forall_mem_cons] at declared
  obtain ⟨first, here, last⟩ := declared
  simp only [Class.WellScoped, Class.renameIn, List.forall_mem_append, List.forall_mem_cons]
  refine ⟨first, fun name used => ?_, last⟩
  rw [Subroutine.names_rename]
  obtain ⟨old, needed, rfl⟩ := List.mem_map.mp (s.body.uses_rename ▸ used)
  rcases here old needed with own | shared
  · exact .inl (List.mem_map_of_mem own)
  · have mentioned : old ∈ s.body.mentions.map Mention.name := by
      rw [s.body.names_mentions, Lexeme.mem_names]
      exact s.body.mem_lexemes_of_uses needed
    obtain ⟨m, inside, rfl⟩ := List.mem_map.mp mentioned
    rcases h.own m (by simp [Subroutine.mentions, inside]) with same | own
    · exact .inr (same.symm ▸ shared)
    · exact .inl (List.mem_map_of_mem own)

theorem distinct (h : Renaming c s r) (split : c.subroutines = before ++ s :: after)
    (once : c.Distinct) : (c.renameIn before s after r).Distinct := by
  rw [Class.Distinct, split] at once
  simp only [List.forall_mem_append, List.forall_mem_cons] at once
  obtain ⟨shared, first, here, last⟩ := once
  simp only [Class.Distinct, Class.renameIn, List.forall_mem_append, List.forall_mem_cons]
  exact ⟨shared, first, Subroutine.distinct_rename h.injective h.object here, last⟩

end Renaming

/-- The two names of a renaming that puts a new name in the place of a variable. -/
theorem renaming_of_fresh {c : Class} {s : Subroutine} {x y : String} (declared : x ∈ s.names)
    (roles : ∀ m ∈ s.mentions, m.name = x → m.role.isVariable)
    (fresh : .identifier y ∉ s.lexemes) (notObject : x ≠ "this" ∧ y ≠ "this") :
    Renaming c s (Equiv.swap x y) := by
  have others : ∀ m ∈ s.mentions, m.name ≠ x → Equiv.swap x y m.name = m.name := by
    intro m inside apart
    refine Equiv.swap_apply_of_ne_of_ne apart fun same => fresh ?_
    rw [← same, ← Lexeme.mem_names, ← s.names_mentions]
    exact List.mem_map_of_mem inside
  refine ⟨(Equiv.swap x y).injective, ?_, fun m inside fixed => ?_, fun m inside => ?_⟩
  · exact Equiv.swap_apply_of_ne_of_ne notObject.1.symm notObject.2.symm
  · refine others m inside fun same => ?_
    rw [roles m inside same] at fixed
    cases fixed
  · by_cases same : m.name = x
    · exact .inr (same ▸ declared)
    · exact .inl (others m inside same)

/-- A class is spelled with its own row for each subroutine. -/
theorem Class.rowWith_self {c : Class} {before after : List Subroutine} {s : Subroutine}
    (split : c.subroutines = before ++ s :: after) :
    c.rowWith before s.lexemes after = c.lexemes := by
  rw [c.lexemes_eq, split, Class.rowWith, List.flatMap_append, List.flatMap_cons,
    List.append_assoc, List.append_assoc]

theorem Class.mem_lexemes_of_subroutine {c : Class} {before after : List Subroutine}
    {s : Subroutine} (split : c.subroutines = before ++ s :: after) {l : Lexeme}
    (h : l ∈ s.lexemes) : l ∈ c.lexemes := by
  rw [← c.rowWith_self split]
  simp [Class.rowWith, h]

theorem Class.forall_mem_rowWith {c : Class} {before after : List Subroutine} {s : Subroutine}
    {row : List Lexeme} {p : Lexeme → Prop} (split : c.subroutines = before ++ s :: after)
    (all : ∀ l ∈ c.lexemes, p l) (h : ∀ l ∈ row, p l) : ∀ l ∈ c.rowWith before row after, p l := by
  rw [← c.rowWith_self split] at all
  simp only [Class.rowWith, List.forall_mem_append] at all ⊢
  exact ⟨all.1, all.2.1, h, all.2.2.2⟩

/-- Rows that differ in a subroutine differ as the rows of this subroutine do. -/
theorem Class.yields_rowWith (c : Class) (before after : List Subroutine)
    {row row' : List Lexeme} (h : List.Forall₂ Lexeme.Yields row row') :
    List.Forall₂ Lexeme.Yields (c.rowWith before row after) (c.rowWith before row' after) := by
  have same (row : List Lexeme) : List.Forall₂ Lexeme.Yields row row :=
    List.forall₂_same.mpr fun l _ => .same l
  exact List.rel_append (same _) (List.rel_append (same _) (List.rel_append h (same _)))

/-- Every variable of a subroutine is mentioned where it is declared. -/
theorem Subroutine.exists_declares {s : Subroutine} {name : String} (h : name ∈ s.names) :
    ∃ kind, ⟨.declares kind, name⟩ ∈ s.mentions := by
  simp only [mentions, List.mem_append, List.mem_cons, List.mem_flatMap]
  rcases List.mem_append.mp h with inside | inside
  · obtain ⟨p, isParameter, rfl⟩ := List.mem_map.mp inside
    exact ⟨.argument, .inr (.inr (.inl ⟨p, isParameter, by simp [Parameter.mentions]⟩))⟩
  · obtain ⟨d, isLocal, inside⟩ := List.mem_flatMap.mp inside
    have mentioned : ⟨.declares .localVar, name⟩ ∈ d.mentions := by
      simp [Declaration.mentions, inside]
    exact ⟨.localVar, .inr (.inr (.inr (.inl ⟨d, isLocal, mentioned⟩)))⟩

theorem Subroutine.mem_lexemes_of_names {s : Subroutine} {name : String} (h : name ∈ s.names) :
    .identifier name ∈ s.lexemes := by
  obtain ⟨kind, declared⟩ := exists_declares h
  rw [← Lexeme.mem_names, ← s.names_mentions]
  exact List.mem_map_of_mem declared

end Tree

section Fresh

variable {x y : String} {row : List Lexeme}

/-- Where a name does not occur, it can be put in the place of another one by changing places. -/
theorem Lexeme.rename_eq_swap (fresh : .identifier y ∉ row) :
    row.map (rename fun name => if name = x then y else name) =
      row.map (rename (Equiv.swap x y)) := by
  refine List.map_congr_left fun l inside => ?_
  cases l with
  | identifier name =>
      have apart : name ≠ y := fun same => fresh (same ▸ inside)
      by_cases same : name = x
      · simp [same]
      · simp [same, Equiv.swap_apply_of_ne_of_ne same apart]
  | _ => rfl

theorem Lexeme.yields_rename (r : String → String) (row : List Lexeme) :
    List.Forall₂ Yields row (row.map (rename r)) := by
  rw [List.forall₂_map_right_iff, List.forall₂_same]
  intro l _
  cases l with
  | identifier name => exact .renamed name (r name)
  | _ => exact .same _

theorem Lexeme.proper_rename {l : Lexeme} (proper : (Lexeme.identifier y).Proper) (h : l.Proper) :
    (l.rename fun name => if name = x then y else name).Proper := by
  cases l with
  | identifier name =>
      by_cases same : name = x
      · simpa [same] using proper
      · simpa [same] using h
  | _ => exact h

theorem Lexeme.ne_this {name : String} (proper : (Lexeme.identifier name).Proper) :
    name ≠ "this" :=
  (proper.2 .thisWord).symm

end Fresh

section Compile

variable {source : Source} {filename : Option String} {strict : Bool} {chunkSize : Int}

/-- A source that compiles divides into the lexemes of a class and into gaps. -/
theorem exists_division_of_compileText {text : String}
    (compiled : compileText source filename strict chunkSize = .ok text) :
    0 < chunkSize ∧ ∃ (c : Tree.Class) (pieces : List Piece) (last : List Char),
      Splits source.characters pieces last ∧
      Lexer.tokensOf source chunkSize filename = .ok (pieces.map Piece.token) ∧
      lexemesOf pieces = c.lexemes ∧ (∀ l ∈ c.lexemes, l.Proper) ∧
      c.WellScoped ∧ (strict → c.Distinct) ∧ text = Code.program c.code := by
  obtain ⟨code, found, rfl⟩ := compileText_eq_ok_iff.mp compiled
  have positive : 0 < chunkSize := by
    by_contra small
    rw [compileSource_of_not_pos small] at found
    cases found
  obtain ⟨tokens, c, read, spelled, -, -⟩ := exists_tree_of_compileSource positive found
  have spells : source.Spells filename chunkSize c := ⟨tokens, read, spelled⟩
  obtain ⟨declared, distinct, rfl⟩ := spells.compileSource_eq_ok_iff.mp found
  have proper := Lexer.proper_of_tokensOf positive read
  rw [spelled] at proper
  have start : (Reader.ofSource chunkSize.toNat source).position = .behind [] := rfl
  obtain ⟨pieces, last, divides, whole, rfl⟩ :=
    Reader.divides_of_tokensFrom start ((Lexer.tokensOf_eq_ok_iff positive _).mp read)
  rw [Reader.remaining_ofSource] at whole
  rw [List.reverse_nil, List.nil_append] at read spelled
  exact ⟨positive, c, pieces, last, ⟨whole, divides⟩, read,
    (List.map_map ..).symm.trans spelled, proper, declared, distinct, rfl⟩

/-- A class compiles to the same text with other names for the variables of a subroutine. -/
theorem Tree.Renaming.compileText_eq {c : Class} {before after : List Subroutine} {s : Subroutine}
    {r : String → String} (h : Renaming c s r) (split : c.subroutines = before ++ s :: after)
    (declared : c.WellScoped) (distinct : strict → c.Distinct)
    (spells : source.Spells filename chunkSize (c.renameIn before s after r)) :
    compileText source filename strict chunkSize = .ok (Code.program c.code) := by
  refine compileText_eq_ok_iff.mpr ⟨c.code, spells.compileSource_eq_ok_iff.mpr ?_, rfl⟩
  exact ⟨h.wellScoped split declared, fun strictly => h.distinct split (distinct strictly),
    (h.class_code_eq split).symm⟩

end Compile

open Jack.Tree in
/-- Names of variables never reach the output. Where a parameter or a local variable of a subroutine
is mentioned in no other role, it can have another name there that the class does not have yet. The
class then compiles to the same text: every source that spells it does, and so does the source with
the one name in the places of the other. -/
theorem variable_names_never_reach_the_output (source : Source) (filename : Option String)
    (strict : Bool) (chunkSize : Int) (text : String)
    (compiled : compileText source filename strict chunkSize = .ok text) :
    ∃ (c : Tree.Class) (pieces : List Piece) (last : List Char),
      Splits source.characters pieces last ∧
      Lexer.tokensOf source chunkSize filename = .ok (pieces.map Piece.token) ∧
      lexemesOf pieces = c.lexemes ∧
      ∀ (before : List Subroutine) (s : Subroutine) (after : List Subroutine) (x y : String),
        c.subroutines = before ++ s :: after → x ∈ s.names →
        (∀ m ∈ s.mentions, m.name = x → m.role.isVariable) →
        (Lexeme.identifier y).Proper → .identifier y ∉ c.lexemes →
        let rename := Lexeme.rename fun name => if name = x then y else name
        let row := c.rowWith before (s.lexemes.map rename) after
        (∀ (source' : Source) (filename' : Option String) (chunkSize' : Int)
            (tokens' : List Token),
          Lexer.tokensOf source' chunkSize' filename' = .ok tokens' →
          tokens'.map Token.lexeme = row →
          compileText source' filename' strict chunkSize' = .ok text) ∧
        ∀ (source' : Source) (filename' : Option String) (chunkSize' : Int), 0 < chunkSize' →
          source'.characters = rowOf (respelled pieces row) last →
          compileText source' filename' strict chunkSize' = .ok text := by
  obtain ⟨positive, c, pieces, last, splits, read, lexemes, allProper, declared, distinct, rfl⟩ :=
    exists_division_of_compileText compiled
  refine ⟨c, pieces, last, splits, read, lexemes, ?_⟩
  intro before s after x y split own roles proper fresh rename row
  have inside {l : Lexeme} (h : l ∈ s.lexemes) : l ∈ c.lexemes :=
    c.mem_lexemes_of_subroutine split h
  have apart : .identifier y ∉ s.lexemes := fun h => fresh (inside h)
  have properOwn := allProper _ (inside (Subroutine.mem_lexemes_of_names own))
  have renames : Renaming c s (Equiv.swap x y) :=
    renaming_of_fresh own roles apart ⟨Lexeme.ne_this properOwn, Lexeme.ne_this proper⟩
  have row_eq : row = (c.renameIn before s after (Equiv.swap x y)).lexemes := by
    rw [renames.class_lexemes_eq, ← Lexeme.rename_eq_swap apart]
  have compiles (source' : Source) (filename' : Option String) (chunkSize' : Int)
      (tokens' : List Token) (read' : Lexer.tokensOf source' chunkSize' filename' = .ok tokens')
      (spelled' : tokens'.map Token.lexeme = row) :
      compileText source' filename' strict chunkSize' = .ok (Code.program c.code) :=
    renames.compileText_eq split declared distinct ⟨tokens', read', spelled'.trans row_eq⟩
  refine ⟨compiles, fun source' filename' chunkSize' positive' whole' => ?_⟩
  have yields : List.Forall₂ Lexeme.Yields (lexemesOf pieces) row := by
    rw [lexemes, ← c.rowWith_self split]
    exact c.yields_rowWith before after (Lexeme.yields_rename _ s.lexemes)
  have properRow : ∀ l ∈ row, l.Proper := by
    refine c.forall_mem_rowWith split allProper fun l found => ?_
    obtain ⟨old, among, rfl⟩ := List.mem_map.mp found
    exact Lexeme.proper_rename proper (allProper _ (inside among))
  obtain ⟨tokens', read', spelled'⟩ :=
    Lexer.lexemes_of_respelled positive splits read yields properRow positive' whole'
  exact compiles source' filename' chunkSize' tokens' read' spelled'

/-- A method with a parameter, which it calls a method on. -/
def Tree.calling : Subroutine where
  kind := .method
  result := none
  name := "f"
  parameters := [⟨.object "A", "x"⟩]
  locals := []
  body :=
    .cons (.perform (.qualified "x" "g" (.cons (.of (.var "x") .nil) .nil)))
      (.cons (.ret none) .nil)

/-- A method that returns a field. -/
def Tree.returning : Subroutine where
  kind := .method
  result := some .int
  name := "g"
  parameters := [⟨.object "A", "y"⟩]
  locals := []
  body := .cons (.ret (some (.of (.var "x") .nil))) .nil

/-- A class with a field that one of its methods has a parameter of the same name for. -/
def Tree.shadowing : Tree.Class where
  name := "A"
  declarations := [⟨.field, ⟨.int, "x", []⟩⟩]
  subroutines := [calling, returning]

open Jack.Tree in
/-- A parameter gets another name than the field that it hides. -/
theorem variable_names_never_reach_the_output_at_shadowing :
    let source : Source := .text ("class A\x7bfield int x;method void f(A x)\x7bdo x.g(x);" ++
      "return;\x7dmethod int g(A y)\x7breturn x;\x7d\x7d")
    let source' : Source := .text ("class A\x7bfield int x;method void f(A it)\x7bdo it.g(it);" ++
      "return;\x7dmethod int g(A y)\x7breturn x;\x7d\x7d")
    ∃ text, compileText source none true 7 = .ok text ∧ "x" ∈ calling.names ∧
      (∀ m ∈ calling.mentions, m.name = "x" → m.role.isVariable) ∧
      (Lexeme.identifier "it").Proper ∧ .identifier "it" ∉ shadowing.lexemes ∧
      compileText source' none true 3 = .ok text := by
  intro source source'
  have spells : source.Spells none 7 shadowing := .of_tokensOf (by decide +kernel)
  have proper : (Lexeme.identifier "it").Proper :=
    ⟨by decide, fun word => by cases word <;> decide⟩
  have declared : shadowing.WellScoped := by
    intro sub inside name
    rcases List.mem_cons.mp inside with rfl | inside
    · decide +revert
    · obtain rfl := List.mem_singleton.mp inside
      decide +revert
  obtain ⟨text, compiled⟩ : ∃ text, compileText source none true 7 = .ok text :=
    spells.compiles_iff.mpr ⟨declared, fun _ => by decide⟩
  obtain ⟨c, pieces, last, -, read, lexemes, renamed⟩ :=
    variable_names_never_reach_the_output source none true 7 text compiled
  obtain ⟨tokens, read', spelled⟩ := spells
  obtain rfl : c = shadowing := by
    refine Tree.Class.lexemes_inj ?_
    obtain rfl : pieces.map Piece.token = tokens := Except.ok.inj (read.symm.trans read')
    rw [← spelled, ← lexemes, List.map_map]
    rfl
  have roles : ∀ m ∈ calling.mentions, m.name = "x" → m.role.isVariable := by decide
  have fresh : .identifier "it" ∉ shadowing.lexemes := by decide
  obtain ⟨compiles, -⟩ :=
    renamed [] calling [returning] "x" "it" rfl (by decide) roles proper fresh
  have spells' : source'.Spells none 3 (shadowing.renameIn [] calling [returning]
      fun name => if name = "x" then "it" else name) := .of_tokensOf (by decide +kernel)
  obtain ⟨tokens', found', spelled'⟩ := spells'
  exact ⟨text, compiled, by decide, roles, proper, fresh,
    compiles source' none 3 tokens' found' (spelled'.trans (by decide +kernel))⟩

end Jack
