import Jack.Proofs.Layout
import Jack.Proofs.Recognizing

/-! # Where statements stand

Every statement of a class has a place: the row of the class that is read before it, and
the code of its function that is written before it. The numbers of its branches and loops
are the numbers of the words for these in the row, so a statement is where its word stands
and nothing else has to be known about it.
-/

namespace Jack

namespace Lexeme

/-- Whether a statement can start with a lexeme. -/
def opensStatement : Lexeme → Bool
  | .keyword .letWord | .keyword .ifWord | .keyword .whileWord | .keyword .doWord
  | .keyword .returnWord => true
  | _ => false

@[simp] theorem opensStatement_symbol (mark : Symbol) : (symbol mark).opensStatement = false := rfl

@[simp] theorem opensStatement_identifier (name : String) :
    (identifier name).opensStatement = false := rfl

end Lexeme

namespace Tree

/-! ### Words of statements in a row -/

section Words

theorem terms_open_nothing : InTerms fun l => l.opensStatement = false where
  integer _ _ := rfl
  string _ := rfl
  constant word := by cases word <;> rfl
  identifier _ := rfl
  symbol _ := rfl

theorem Expression.opens_nothing (e : Expression) : ∀ l ∈ e.lexemes, l.opensStatement = false :=
  e.forall_mem_lexemes terms_open_nothing

theorem Call.opens_nothing (call : Call) : ∀ l ∈ call.lexemes, l.opensStatement = false :=
  call.forall_mem_lexemes terms_open_nothing

/-- A row that opens no statement has no word of one in it. -/
theorem count_of_opens_nothing {row : List Lexeme} (h : ∀ l ∈ row, l.opensStatement = false)
    {l : Lexeme} (opens : l.opensStatement = true) : row.count l = 0 := by
  refine List.count_eq_zero.mpr fun inside => ?_
  rw [h l inside] at opens
  cases opens

@[simp] theorem Expression.count_ifWord (e : Expression) :
    e.lexemes.count (.keyword .ifWord) = 0 :=
  count_of_opens_nothing e.opens_nothing rfl

@[simp] theorem Expression.count_whileWord (e : Expression) :
    e.lexemes.count (.keyword .whileWord) = 0 :=
  count_of_opens_nothing e.opens_nothing rfl

@[simp] theorem Call.count_ifWord (call : Call) : call.lexemes.count (.keyword .ifWord) = 0 :=
  count_of_opens_nothing call.opens_nothing rfl

@[simp] theorem Call.count_whileWord (call : Call) :
    call.lexemes.count (.keyword .whileWord) = 0 :=
  count_of_opens_nothing call.opens_nothing rfl

mutual

theorem Statement.numbered (st : Statement) :
    st.lexemes.count (.keyword .ifWord) = st.branches ∧
      st.lexemes.count (.keyword .whileWord) = st.loops := by
  cases st with
  | assign target value => simp [Statement.lexemes, Statement.branches, Statement.loops]
  | store base index value => simp [Statement.lexemes, Statement.branches, Statement.loops]
  | branch condition body =>
      simp [Statement.lexemes, Statement.branches, Statement.loops, body.numbered, Nat.add_comm]
  | branchElse condition body other =>
      simp [Statement.lexemes, Statement.branches, Statement.loops, body.numbered, other.numbered,
        Nat.add_assoc, Nat.add_comm]
  | loop condition body =>
      simp [Statement.lexemes, Statement.branches, Statement.loops, body.numbered, Nat.add_comm]
  | perform call => simp [Statement.lexemes, Statement.branches, Statement.loops]
  | ret value => cases value <;> simp [Statement.lexemes, Statement.branches, Statement.loops]
termination_by structural st

/-- The words for branches and loops in a row of statements are as many as the branches and the
loops. -/
theorem Statements.numbered (ss : Statements) :
    ss.lexemes.count (.keyword .ifWord) = ss.branches ∧
      ss.lexemes.count (.keyword .whileWord) = ss.loops := by
  cases ss with
  | nil => exact ⟨rfl, rfl⟩
  | cons first rest =>
      simp [Statements.lexemes, Statements.branches, Statements.loops, first.numbered,
        rest.numbered]
termination_by structural ss

end

@[simp] theorem Statement.count_ifWord (st : Statement) :
    st.lexemes.count (.keyword .ifWord) = st.branches :=
  st.numbered.1

@[simp] theorem Statement.count_whileWord (st : Statement) :
    st.lexemes.count (.keyword .whileWord) = st.loops :=
  st.numbered.2

@[simp] theorem Statements.count_ifWord (ss : Statements) :
    ss.lexemes.count (.keyword .ifWord) = ss.branches :=
  ss.numbered.1

@[simp] theorem Statements.count_whileWord (ss : Statements) :
    ss.lexemes.count (.keyword .whileWord) = ss.loops :=
  ss.numbered.2

theorem Statement.exists_lexemes (st : Statement) : ∃ l row, st.lexemes = l :: row := by
  cases st with
  | ret value => cases value <;> exact ⟨_, _, rfl⟩
  | _ => exact ⟨_, _, rfl⟩

end Words

/-! ### Places -/

/-- A place in a class: what is read before it, and what its function has been written before
it. -/
structure Place where
  row : List Lexeme
  code : List Code

namespace Place

variable (f : Frame) (p : Place)

/-- The number of branches before a place. -/
def branches : Nat := p.row.count (.keyword .ifWord)

/-- The number of loops before a place. -/
def loops : Nat := p.row.count (.keyword .whileWord)

def past (row : List Lexeme) (code : List Code) : Place :=
  ⟨p.row ++ row, p.code ++ code⟩

/-- The place behind a statement. -/
def behind (st : Statement) : Place :=
  p.past st.lexemes (st.code f p.branches p.loops)

/-- The place behind statements. -/
def behindAll (ss : Statements) : Place :=
  p.past ss.lexemes (ss.code f p.branches p.loops)

/-- The place inside the first way of a branch. -/
def inBranch (condition : Expression) : Place :=
  p.past
    (.keyword .ifWord :: .symbol .openParen ::
      (condition.lexemes ++ [.symbol .closeParen, .symbol .openBrace]))
    (condition.code f ++ [.arithmetic .not, .ifGoto (.branchNot p.branches)])

/-- The place inside the second way of a branch. -/
def inElse (condition : Expression) (body : Statements) : Place :=
  (p.inBranch f condition).past
    (body.lexemes ++ [.symbol .closeBrace, .keyword .elseWord, .symbol .openBrace])
    (body.code f (p.branches + 1) p.loops ++
      [.goto (.branchEnd p.branches), .label (.branchNot p.branches)])

/-- The place inside a loop. -/
def inLoop (condition : Expression) : Place :=
  p.past
    (.keyword .whileWord :: .symbol .openParen ::
      (condition.lexemes ++ [.symbol .closeParen, .symbol .openBrace]))
    (.label (.loopStart p.loops) ::
      (condition.code f ++ [.arithmetic .not, .ifGoto (.loopEnd p.loops)]))

@[simp] theorem branches_behind (st : Statement) :
    (p.behind f st).branches = p.branches + st.branches := by
  simp [branches, behind, past]

@[simp] theorem loops_behind (st : Statement) :
    (p.behind f st).loops = p.loops + st.loops := by
  simp [loops, behind, past]

@[simp] theorem branches_inBranch (condition : Expression) :
    (p.inBranch f condition).branches = p.branches + 1 := by
  simp [branches, inBranch, past]

@[simp] theorem loops_inBranch (condition : Expression) :
    (p.inBranch f condition).loops = p.loops := by
  simp [loops, inBranch, past]

@[simp] theorem branches_inElse (condition : Expression) (body : Statements) :
    (p.inElse f condition body).branches = p.branches + 1 + body.branches := by
  have inner := p.branches_inBranch f condition
  rw [branches] at inner
  simp [branches, inElse, past, inner]

@[simp] theorem loops_inElse (condition : Expression) (body : Statements) :
    (p.inElse f condition body).loops = p.loops + body.loops := by
  have inner := p.loops_inBranch f condition
  rw [loops] at inner
  simp [loops, inElse, past, inner]

@[simp] theorem branches_inLoop (condition : Expression) :
    (p.inLoop f condition).branches = p.branches := by
  simp [branches, inLoop, past]

@[simp] theorem loops_inLoop (condition : Expression) :
    (p.inLoop f condition).loops = p.loops + 1 := by
  simp [loops, inLoop, past]

end Place

/-- A statement at its place. -/
structure Site extends Place where
  statement : Statement

mutual

/-- The statements in a statement at a place, in the order of their words: itself first. -/
def Statement.sites (f : Frame) (p : Place) : Statement → List Site
  | .branch condition body =>
    ⟨p, .branch condition body⟩ :: body.sites f (p.inBranch f condition)
  | .branchElse condition body other =>
    ⟨p, .branchElse condition body other⟩ ::
      (body.sites f (p.inBranch f condition) ++ other.sites f (p.inElse f condition body))
  | .loop condition body => ⟨p, .loop condition body⟩ :: body.sites f (p.inLoop f condition)
  | .assign target value => [⟨p, .assign target value⟩]
  | .store base index value => [⟨p, .store base index value⟩]
  | .perform call => [⟨p, .perform call⟩]
  | .ret value => [⟨p, .ret value⟩]

def Statements.sites (f : Frame) (p : Place) : Statements → List Site
  | .nil => []
  | .cons first rest => first.sites f p ++ rest.sites f (p.behind f first)

end

/-- A statement stands at its place in a row and in code. -/
structure Site.Stands (f : Frame) (row : List Lexeme) (code : List Code) (site : Site) : Prop where
  row : site.row ++ site.statement.lexemes <+: row
  code : site.code ++ site.statement.code f site.branches site.loops <+: code

theorem Site.Stands.mono {f : Frame} {row more : List Lexeme} {code rest : List Code} {site : Site}
    (h : site.Stands f row code) (inRow : row <+: more) (inCode : code <+: rest) :
    site.Stands f more rest :=
  ⟨h.row.trans inRow, h.code.trans inCode⟩

/-- Whatever is read and written before one place is also before the other one. -/
structure Place.Before (p q : Place) : Prop where
  row : p.row <+: q.row
  code : p.code <+: q.code

section Standing

variable {f : Frame} {p q r : Place}

namespace Place

theorem Before.refl (p : Place) : p.Before p :=
  ⟨List.prefix_rfl, List.prefix_rfl⟩

theorem Before.trans (h : p.Before q) (h' : q.Before r) : p.Before r :=
  ⟨h.row.trans h'.row, h.code.trans h'.code⟩

theorem before_branch (condition : Expression) (body : Statements) :
    ((p.inBranch f condition).behindAll f body).Before (p.behind f (.branch condition body)) where
  row := ⟨[.symbol .closeBrace], by simp [behind, behindAll, inBranch, past, Statement.lexemes]⟩
  code := by
    rw [behindAll, branches_inBranch, loops_inBranch]
    exact ⟨[.goto (.branchEnd p.branches), .label (.branchNot p.branches),
      .label (.branchEnd p.branches)], by simp [behind, inBranch, past, Statement.code]⟩

theorem before_branchElse (condition : Expression) (body other : Statements) :
    ((p.inBranch f condition).behindAll f body).Before
      (p.behind f (.branchElse condition body other)) where
  row := ⟨.symbol .closeBrace :: .keyword .elseWord :: .symbol .openBrace ::
    (other.lexemes ++ [.symbol .closeBrace]),
    by simp [behind, behindAll, inBranch, past, Statement.lexemes]⟩
  code := by
    rw [behindAll, branches_inBranch, loops_inBranch]
    exact ⟨.goto (.branchEnd p.branches) :: .label (.branchNot p.branches) ::
      (other.code f (p.branches + 1 + body.branches) (p.loops + body.loops) ++
        [.label (.branchEnd p.branches)]), by simp [behind, inBranch, past, Statement.code]⟩

theorem before_else (condition : Expression) (body other : Statements) :
    ((p.inElse f condition body).behindAll f other).Before
      (p.behind f (.branchElse condition body other)) where
  row := ⟨[.symbol .closeBrace],
    by simp [behind, behindAll, inElse, inBranch, past, Statement.lexemes]⟩
  code := by
    rw [behindAll, branches_inElse, loops_inElse]
    exact ⟨[.label (.branchEnd p.branches)],
      by simp [behind, inElse, inBranch, past, Statement.code]⟩

theorem before_loop (condition : Expression) (body : Statements) :
    ((p.inLoop f condition).behindAll f body).Before (p.behind f (.loop condition body)) where
  row := ⟨[.symbol .closeBrace], by simp [behind, behindAll, inLoop, past, Statement.lexemes]⟩
  code := by
    rw [behindAll, branches_inLoop, loops_inLoop]
    exact ⟨[.goto (.loopStart p.loops), .label (.loopEnd p.loops)],
      by simp [behind, inLoop, past, Statement.code]⟩

theorem behindAll_cons (first : Statement) (rest : Statements) :
    p.behindAll f (.cons first rest) = (p.behind f first).behindAll f rest := by
  rw [behindAll, behindAll, branches_behind, loops_behind]
  simp [behind, past, Statements.lexemes, Statements.code]

theorem before_behindAll (ss : Statements) : p.Before (p.behindAll f ss) :=
  ⟨List.prefix_append _ _, List.prefix_append _ _⟩

end Place

mutual

theorem Statement.sites_before (st : Statement) (p : Place) : ∀ site ∈ st.sites f p,
    (site.behind f site.statement).Before (p.behind f st) := by
  cases st with
  | branch condition body =>
      rw [Statement.sites, List.forall_mem_cons]
      exact ⟨.refl _, fun site inside =>
        (body.sites_before _ site inside).trans (Place.before_branch condition body)⟩
  | branchElse condition body other =>
      rw [Statement.sites, List.forall_mem_cons, List.forall_mem_append]
      exact ⟨.refl _,
        fun site inside =>
          (body.sites_before _ site inside).trans (Place.before_branchElse condition body other),
        fun site inside =>
          (other.sites_before _ site inside).trans (Place.before_else condition body other)⟩
  | loop condition body =>
      rw [Statement.sites, List.forall_mem_cons]
      exact ⟨.refl _, fun site inside =>
        (body.sites_before _ site inside).trans (Place.before_loop condition body)⟩
  | _ =>
      rw [Statement.sites, List.forall_mem_singleton]
      exact .refl _
termination_by structural st

/-- Every one of the statements at a place ends before the place behind them. -/
theorem Statements.sites_before (ss : Statements) (p : Place) : ∀ site ∈ ss.sites f p,
    (site.behind f site.statement).Before (p.behindAll f ss) := by
  cases ss with
  | nil => simp [Statements.sites]
  | cons first rest =>
      rw [Statements.sites, List.forall_mem_append, Place.behindAll_cons]
      exact ⟨fun site inside =>
        (first.sites_before p site inside).trans (Place.before_behindAll rest),
        rest.sites_before _⟩
termination_by structural ss

end

end Standing

/-! ### All statements -/

/-- Where a row opens statements: the rows in front of their words. -/
def openings (before : List Lexeme) : List Lexeme → List (List Lexeme)
  | [] => []
  | l :: row => (if l.opensStatement then [before] else []) ++ openings (before ++ [l]) row

theorem openings_append (before row more : List Lexeme) :
    openings before (row ++ more) = openings before row ++ openings (before ++ row) more := by
  induction row generalizing before with
  | nil => simp [openings]
  | cons l row ih => rw [List.cons_append, openings, ih, openings]; simp

theorem openings_eq_nil {row : List Lexeme} (h : ∀ l ∈ row, l.opensStatement = false)
    (before : List Lexeme) : openings before row = [] := by
  induction row generalizing before with
  | nil => rfl
  | cons l row ih =>
      obtain ⟨first, rest⟩ := List.forall_mem_cons.mp h
      rw [openings, first, ih rest]
      rfl

/-- Wherever the word of a statement stands, a row opens one. -/
theorem mem_openings (before front back : List Lexeme) {l : Lexeme}
    (opens : l.opensStatement = true) :
    before ++ front ∈ openings before (front ++ l :: back) := by
  rw [openings_append, openings, opens]
  simp

section Openings

variable {f : Frame}

@[simp] theorem openings_expression (before : List Lexeme) (e : Expression) :
    openings before e.lexemes = [] :=
  openings_eq_nil e.opens_nothing before

@[simp] theorem openings_call (before : List Lexeme) (call : Call) :
    openings before call.lexemes = [] :=
  openings_eq_nil call.opens_nothing before

mutual

theorem Statement.rows_sites (st : Statement) (p : Place) :
    (st.sites f p).map (·.row) = openings p.row st.lexemes := by
  cases st with
  | assign target value =>
      simp [Statement.sites, Statement.lexemes, openings, openings_append, Lexeme.opensStatement]
  | store base index value =>
      simp [Statement.sites, Statement.lexemes, openings, openings_append, Lexeme.opensStatement]
  | branch condition body =>
      simp [Statement.sites, Statement.lexemes, openings, openings_append, Lexeme.opensStatement,
        body.rows_sites, Place.inBranch, Place.past]
  | branchElse condition body other =>
      simp [Statement.sites, Statement.lexemes, openings, openings_append, Lexeme.opensStatement,
        body.rows_sites, other.rows_sites, Place.inElse, Place.inBranch, Place.past]
  | loop condition body =>
      simp [Statement.sites, Statement.lexemes, openings, openings_append, Lexeme.opensStatement,
        body.rows_sites, Place.inLoop, Place.past]
  | perform call =>
      simp [Statement.sites, Statement.lexemes, openings, openings_append, Lexeme.opensStatement]
  | ret value =>
      cases value <;>
        simp [Statement.sites, Statement.lexemes, openings, openings_append, Lexeme.opensStatement]
termination_by structural st

/-- Wherever the row of statements opens one, one of them stands. -/
theorem Statements.rows_sites (ss : Statements) (p : Place) :
    (ss.sites f p).map (·.row) = openings p.row ss.lexemes := by
  cases ss with
  | nil => rfl
  | cons first rest =>
      rw [Statements.sites, Statements.lexemes, List.map_append, first.rows_sites,
        rest.rows_sites, openings_append]
      rfl
termination_by structural ss

end

end Openings

/-! ### Classes -/

/-- The row of a subroutine in front of its statements. -/
def Subroutine.opening (s : Subroutine) : List Lexeme :=
  .keyword (keywordOf s.kind) :: s.resultLexeme :: .identifier s.name :: .symbol .openParen ::
    (Parameter.rowOf s.parameters ++ .symbol .closeParen :: .symbol .openBrace ::
      s.locals.flatMap (Declaration.lexemes .varWord))

theorem Subroutine.lexemes_eq (s : Subroutine) :
    s.lexemes = s.opening ++ (s.body.lexemes ++ [.symbol .closeBrace]) := by
  simp [Subroutine.lexemes, Subroutine.tail, Subroutine.bodyLexemes, Subroutine.opening]

/-- The row of a class in front of its subroutines. -/
def Class.opening (c : Class) : List Lexeme :=
  .keyword .classWord :: .identifier c.name :: .symbol .openBrace ::
    c.declarations.flatMap ClassVariables.lexemes

theorem Class.lexemes_eq (c : Class) :
    c.lexemes = c.opening ++ (c.subroutines.flatMap Subroutine.lexemes ++
      [.symbol .closeBrace]) := by
  simp [Class.lexemes, Class.opening]

theorem TypeName.opens_nothing (type : TypeName) : type.lexeme.opensStatement = false := by
  cases type <;> rfl

theorem Declaration.opens_nothing {word : Keyword}
    (h : (Lexeme.keyword word).opensStatement = false) (d : Declaration) :
    ∀ l ∈ d.lexemes word, l.opensStatement = false := by
  rw [Declaration.lexemes, Declaration.tail, Declaration.moreLexemes, List.forall_mem_cons,
    List.forall_mem_cons, List.forall_mem_cons, List.forall_mem_append, List.forall_mem_flatMap]
  exact ⟨h, d.type.opens_nothing, rfl, by simp, by simp⟩

theorem Parameter.opens_nothing (ps : List Parameter) :
    ∀ l ∈ Parameter.rowOf ps, l.opensStatement = false := by
  cases ps with
  | nil => simp [Parameter.rowOf]
  | cons first more =>
      rw [Parameter.rowOf, Parameter.moreLexemes, List.forall_mem_append, List.forall_mem_flatMap]
      simp [Parameter.lexemes, TypeName.opens_nothing]

theorem Subroutine.opens_nothing (s : Subroutine) :
    ∀ l ∈ s.opening, l.opensStatement = false := by
  have result : s.resultLexeme.opensStatement = false := by
    unfold Subroutine.resultLexeme
    cases s.result with
    | none => rfl
    | some type => exact type.opens_nothing
  have locals : ∀ l ∈ s.locals.flatMap (Declaration.lexemes .varWord),
      l.opensStatement = false := by
    rw [List.forall_mem_flatMap]
    exact fun d _ => d.opens_nothing rfl
  rw [Subroutine.opening, List.forall_mem_cons, List.forall_mem_cons, List.forall_mem_cons,
    List.forall_mem_cons, List.forall_mem_append, List.forall_mem_cons, List.forall_mem_cons]
  exact ⟨by cases s.kind <;> rfl, result, rfl, rfl, Parameter.opens_nothing _, rfl, rfl, locals⟩

theorem Subroutine.count_ifWord (s : Subroutine) :
    s.lexemes.count (.keyword .ifWord) = s.body.branches := by
  have none := count_of_opens_nothing s.opens_nothing (l := .keyword .ifWord) rfl
  simp [Subroutine.lexemes_eq, none]

theorem Subroutine.count_whileWord (s : Subroutine) :
    s.lexemes.count (.keyword .whileWord) = s.body.loops := by
  have none := count_of_opens_nothing s.opens_nothing (l := .keyword .whileWord) rfl
  simp [Subroutine.lexemes_eq, none]

theorem Class.opens_nothing (c : Class) : ∀ l ∈ c.opening, l.opensStatement = false := by
  rw [Class.opening, List.forall_mem_cons, List.forall_mem_cons, List.forall_mem_cons,
    List.forall_mem_flatMap]
  exact ⟨rfl, rfl, rfl, fun v _ => v.declaration.opens_nothing (by cases v.keeping <;> rfl)⟩

/-- A subroutine of a class and the row of the class before it. -/
structure Member where
  before : List Lexeme
  subroutine : Subroutine

namespace Member

variable (c : Class) (m : Member)

/-- The place in front of its statements. -/
def start : Place where
  row := m.before ++ m.subroutine.opening
  code := .function (c.name ++ "." ++ m.subroutine.name) m.subroutine.localCount ::
    m.subroutine.prologue c

def code : List Code :=
  m.subroutine.code c (m.before.count (.keyword .ifWord)) (m.before.count (.keyword .whileWord))

/-- All its statements, in the order of their words. -/
def sites : List Site :=
  m.subroutine.body.sites (m.subroutine.frame c) (m.start c)

theorem branches_start : (m.start c).branches = m.before.count (.keyword .ifWord) := by
  rw [Place.branches, start, List.count_append,
    count_of_opens_nothing m.subroutine.opens_nothing rfl, Nat.add_zero]

theorem loops_start : (m.start c).loops = m.before.count (.keyword .whileWord) := by
  rw [Place.loops, start, List.count_append,
    count_of_opens_nothing m.subroutine.opens_nothing rfl, Nat.add_zero]

theorem code_eq : m.code c = (m.start c).code ++
    m.subroutine.body.code (m.subroutine.frame c) (m.start c).branches (m.start c).loops := by
  rw [branches_start, loops_start]
  rfl

/-- Every statement stands at its place in the row of the class and in the code of its
function. -/
theorem sites_stand : ∀ site ∈ m.sites c,
    site.Stands (m.subroutine.frame c) (m.before ++ m.subroutine.lexemes) (m.code c) := by
  intro site inside
  obtain ⟨row, code⟩ := Statements.sites_before m.subroutine.body (m.start c) site inside
  refine ⟨row.trans ⟨[.symbol .closeBrace], ?_⟩, ?_⟩
  · simp [Place.behindAll, Place.past, start, Subroutine.lexemes_eq]
  · rwa [code_eq]

theorem rows_sites : (m.sites c).map (·.row) = openings m.before m.subroutine.lexemes := by
  rw [Subroutine.lexemes_eq, openings_append, openings_eq_nil m.subroutine.opens_nothing,
    openings_append, sites, Statements.rows_sites]
  simp [start, openings, Lexeme.opensStatement]

end Member

namespace Class

def membersFrom (before : List Lexeme) : List Subroutine → List Member
  | [] => []
  | s :: rest => ⟨before, s⟩ :: membersFrom (before ++ s.lexemes) rest

def members (c : Class) : List Member :=
  membersFrom c.opening c.subroutines

theorem subroutines_membersFrom (before : List Lexeme) (subs : List Subroutine) :
    (membersFrom before subs).map (·.subroutine) = subs := by
  induction subs generalizing before with
  | nil => rfl
  | cons s subs ih => exact congrArg (s :: ·) (ih _)

theorem blocksFrom_eq (c : Class) (before : List Lexeme) (subs : List Subroutine) :
    c.blocksFrom (before.count (.keyword .ifWord)) (before.count (.keyword .whileWord)) subs =
      (membersFrom before subs).map (Member.code c) := by
  induction subs generalizing before with
  | nil => rfl
  | cons s subs ih =>
      have later := ih (before ++ s.lexemes)
      rw [List.count_append, List.count_append, s.count_ifWord, s.count_whileWord] at later
      exact congrArg (s.code c _ _ :: ·) later

/-- The functions of the code of a class are the codes of its subroutines. -/
theorem blocks_code (c : Class) : Code.blocks c.code = c.members.map (Member.code c) := by
  have functions := c.blocksFrom_eq c.opening c.subroutines
  rw [count_of_opens_nothing c.opens_nothing rfl, count_of_opens_nothing c.opens_nothing rfl]
    at functions
  exact (c.blocks_codeFrom 0 0 _).trans functions

theorem rows_membersFrom (c : Class) (before : List Lexeme) (subs : List Subroutine) :
    ((membersFrom before subs).flatMap (Member.sites c)).map (·.row) =
      openings before (subs.flatMap Subroutine.lexemes) := by
  induction subs generalizing before with
  | nil => rfl
  | cons s subs ih =>
      rw [membersFrom, List.flatMap_cons, List.flatMap_cons, List.map_append, ih,
        openings_append, Member.rows_sites]

/-- Wherever the row of a class opens a statement, one of a subroutine stands. -/
theorem rows_sites (c : Class) :
    (c.members.flatMap (Member.sites c)).map (·.row) = openings [] c.lexemes := by
  rw [members, rows_membersFrom, Class.lexemes_eq, openings_append, openings_append,
    openings_eq_nil c.opens_nothing]
  simp [openings, Lexeme.opensStatement]

theorem prefix_membersFrom (before : List Lexeme) (subs : List Subroutine) :
    ∀ m ∈ membersFrom before subs, m.before ++ m.subroutine.lexemes <+:
      before ++ subs.flatMap Subroutine.lexemes := by
  induction subs generalizing before with
  | nil => simp [membersFrom]
  | cons s subs ih =>
      rw [membersFrom, List.forall_mem_cons, List.flatMap_cons, ← List.append_assoc]
      exact ⟨List.prefix_append _ _, ih _⟩

/-- Every member stands in the row of its class. -/
theorem prefix_members (c : Class) :
    ∀ m ∈ c.members, m.before ++ m.subroutine.lexemes <+: c.lexemes := by
  intro m inside
  refine (prefix_membersFrom c.opening c.subroutines m inside).trans ?_
  exact ⟨[.symbol .closeBrace], by rw [Class.lexemes_eq, List.append_assoc]⟩

/-- Wherever a class has the word of a statement, a statement with this word stands in a member. -/
theorem exists_site {c : Class} {before after : List Lexeme} {l : Lexeme}
    (opens : l.opensStatement = true) (whole : c.lexemes = before ++ l :: after) :
    ∃ m ∈ c.members, ∃ site ∈ m.sites c,
      site.row = before ∧ site.statement.lexemes.head? = some l := by
  have opened : before ∈ openings [] c.lexemes := by
    rw [whole]
    exact mem_openings [] before after opens
  rw [← c.rows_sites] at opened
  obtain ⟨site, inside, rfl⟩ := List.mem_map.mp opened
  obtain ⟨m, member, there⟩ := List.mem_flatMap.mp inside
  refine ⟨m, member, site, there, rfl, ?_⟩
  have stands := (m.sites_stand c site there).row.trans (c.prefix_members m member)
  rw [whole, List.prefix_append_right_inj] at stands
  obtain ⟨word, row, spelled⟩ := site.statement.exists_lexemes
  rw [spelled] at stands ⊢
  exact congrArg some (List.cons_prefix_cons.mp stands).1

theorem subroutines_members (c : Class) : c.members.map (·.subroutine) = c.subroutines :=
  subroutines_membersFrom c.opening c.subroutines

theorem mem_subroutines {c : Class} {m : Member} (h : m ∈ c.members) :
    m.subroutine ∈ c.subroutines := by
  rw [← c.subroutines_members]
  exact List.mem_map_of_mem h

end Class

end Tree

/-! ### Sources -/

section Sources

variable {source : Source} {filename : Option String} {strict : Bool} {chunkSize : Int}
  {code : List Code}

theorem pos_of_compileSource (h : compileSource source filename strict chunkSize = .ok code) :
    0 < chunkSize := by
  by_contra small
  rw [compileSource, Lexer.ofSource, if_pos (by omega)] at h
  cases h

/-- A source that compiles is written as a class. Its code is that of the class, and the functions
of the code are those of the members. -/
theorem exists_members_of_compileSource
    (h : compileSource source filename strict chunkSize = .ok code) :
    ∃ (tokens : List Token) (c : Tree.Class),
      Lexer.tokensOf source chunkSize filename = .ok tokens ∧
        c.lexemes = tokens.map Token.lexeme ∧
        (∀ m ∈ c.members, (m.subroutine.frame c).Resolves m.subroutine.body.uses) ∧
        code = c.code ∧ Code.blocks code = c.members.map (Tree.Member.code c) := by
  obtain ⟨tokens, c, read, spelled, declared, rfl⟩ :=
    exists_tree_of_compileSource (pos_of_compileSource h) h
  exact ⟨tokens, c, read, spelled.symm,
    fun m inside => resolves_of_wellScoped declared _ (Tree.Class.mem_subroutines inside),
    rfl, c.blocks_code⟩

end Sources

end Jack
