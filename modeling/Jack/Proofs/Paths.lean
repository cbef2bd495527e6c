import Jack.Files.Path
import Mathlib.Data.List.Basic
import Mathlib.Data.List.Infix
import Mathlib.Data.List.TakeDrop
import Mathlib.Data.List.TakeWhile

/-! # Normal paths

What reading a text as a path leaves of it is written as a text that is read as the same path. So is
a path whose name got another suffix, because no stem is empty.
-/

namespace Jack

namespace Path

variable {p target : Path} {name stem : Component} {suffix : String}

/-- The components of a text that say something. -/
def components (text : String) : List Component :=
  (text.toList.splitOn '/').filter fun part => part ≠ [] ∧ part ≠ ['.']

theorem cut_eq_splitOn (text : List Char) : cut text = text.splitOn '/' := by
  induction text with
  | nil => rfl
  | cons c rest ih =>
      rw [cut, List.splitOn_cons_eq_if_modifyHead, ih]
      split
      · rfl
      · cases parts : rest.splitOn '/' with
        | nil => exact absurd parts (List.splitOn_ne_nil _ _)
        | cons part parts => rfl

theorem isStay_eq (part : Component) : (!isStay part) = decide (part ≠ [] ∧ part ≠ ['.']) := by
  by_cases empty : part = [] <;> by_cases dot : part = ['.'] <;> simp [isStay, empty, dot]

theorem parts_ofText (text : String) : (ofText text).parts = components text := by
  simp only [ofText, components, cut_eq_splitOn, isStay_eq]

/-! ### Stems -/

/-- What stands in front of the last dot of a name, or the whole name if the last dot is its first
or its last character. -/
inductive IsStem : Component → Component → Prop
  | cut {front after : Component} (more : front ≠ []) (behind : after ≠ []) (last : '.' ∉ after) :
      IsStem (front ++ '.' :: after) front
  | whole {name : Component}
      (h : ∀ front after, name = front ++ '.' :: after → '.' ∉ after → front = [] ∨ after = []) :
      IsStem name name

theorem last_dot_unique {front front' after after' : Component}
    (same : front ++ '.' :: after = front' ++ '.' :: after') (last : '.' ∉ after)
    (last' : '.' ∉ after') : front = front' ∧ after = after' := by
  obtain ⟨middle, rfl, rest⟩ | ⟨middle, rfl, rest⟩ := List.append_eq_append_iff.mp same
  all_goals
    cases middle with
    | nil => exact ⟨by simp, by simpa [eq_comm] using rest⟩
    | cons c middle => simp_all

theorem IsStem.unique {stem' : Component} (h : IsStem name stem) (h' : IsStem name stem') :
    stem = stem' := by
  cases h with
  | @cut front after more behind last =>
      generalize same : stem ++ '.' :: after = name at h'
      cases h' with
      | cut more' behind' last' => exact (last_dot_unique same last last').1
      | whole h => exact absurd (h _ _ same.symm last) (not_or.mpr ⟨more, behind⟩)
  | whole h =>
      cases h' with
      | cut more behind last => exact absurd (h _ _ rfl last) (not_or.mpr ⟨more, behind⟩)
      | whole => rfl

theorem isStem_stemOf (name : Component) : IsStem name (stemOf name) := by
  have plain : '.' ∉ name.reverse.takeWhile (· != '.') := fun inside => by
    simpa using List.mem_takeWhile_imp inside
  have split : name.reverse.takeWhile (· != '.') ++ name.reverse.dropWhile (· != '.') =
    name.reverse := List.takeWhile_append_dropWhile
  have first := List.head?_dropWhile_not (· != '.') name.reverse
  simp only [stemOf, List.span_eq_takeWhile_dropWhile]
  generalize name.reverse.takeWhile (· != '.') = after at plain split ⊢
  generalize name.reverse.dropWhile (· != '.') = before at first split ⊢
  have plain : '.' ∉ after.reverse := by rwa [List.mem_reverse]
  cases before with
  | nil =>
      have whole : name = after.reverse := by
        rw [← List.reverse_reverse name, ← split, List.append_nil]
      refine .whole fun front behind same last => absurd ?_ plain
      rw [← whole, same]
      simp
  | cons c before =>
      obtain rfl : c = '.' := by simpa using first
      have whole : name = before.reverse ++ '.' :: after.reverse := by
        rw [← List.reverse_reverse name, ← split]
        simp
      split
      · next c front same =>
        obtain ⟨-, rfl⟩ := List.cons.inj same
        split
        · next empty =>
          refine .whole fun front behind same last => ?_
          obtain ⟨rfl, rfl⟩ := last_dot_unique (whole.symm.trans same) plain last
          simpa [or_comm] using empty
        · next more =>
          rw [Bool.or_eq_true, not_or] at more
          have stem : IsStem (before.reverse ++ '.' :: after.reverse) before.reverse :=
            .cut (by simpa using more.2) (by simpa using more.1) plain
          rwa [← whole] at stem
      · next other => exact absurd rfl (other before)

theorem isStem_iff : IsStem name stem ↔ stemOf name = stem :=
  ⟨fun h => (isStem_stemOf name).unique h, fun h => h ▸ isStem_stemOf name⟩

theorem IsStem.ne_nil (h : IsStem name stem) (named : name ≠ []) : stem ≠ [] := by
  cases h with
  | cut more => exact more
  | whole => exact named

theorem IsStem.mem_of_mem {c : Char} (h : IsStem name stem) (inside : c ∈ stem) : c ∈ name := by
  cases h with
  | cut => exact List.mem_append_left _ inside
  | whole => exact inside

/-! ### Normal paths -/

/-- A component that leads somewhere. -/
structure Plain (part : Component) : Prop where
  moves : isStay part = false
  whole : '/' ∉ part

theorem Plain.ne_nil {part : Component} (h : Plain part) : part ≠ [] := by
  rintro rfl
  cases h.moves

/-- A path as reading a text makes it. -/
structure Normal (p : Path) : Prop where
  root : p.root ∈ [[], ['/'], ['/', '/']]
  parts : ∀ part ∈ p.parts, Plain part

theorem not_mem_of_mem_splitOn {text part : List Char} (inside : part ∈ text.splitOn '/') :
    '/' ∉ part := by
  induction text generalizing part with
  | nil => simp_all
  | cons c rest ih =>
      rw [List.splitOn_cons_eq_if_modifyHead] at inside
      split at inside
      · obtain rfl | inside := List.mem_cons.mp inside
        · exact List.not_mem_nil
        · exact ih inside
      · next other =>
        cases cut : rest.splitOn '/' with
        | nil => exact absurd cut (List.splitOn_ne_nil _ _)
        | cons front parts =>
            rw [cut] at inside ih
            obtain rfl | inside := List.mem_cons.mp inside
            · have separate : '/' ≠ c := fun same => other (beq_iff_eq.mpr same.symm)
              exact List.not_mem_cons_of_ne_of_not_mem separate (ih (List.mem_cons_self ..))
            · exact ih (List.mem_cons_of_mem _ inside)

theorem normal_ofText (text : String) : (ofText text).Normal where
  root := by
    simp only [ofText, rootOf]
    split <;> simp
  parts part inside := by
    rw [ofText, cut_eq_splitOn, List.mem_filter] at inside
    exact ⟨by simpa using inside.2, not_mem_of_mem_splitOn inside.1⟩

theorem components_eq_nil_iff {text : String} :
    components text = [] ↔ (ofText text).name? = none := by
  rw [← parts_ofText, name?, List.getLast?_eq_none_iff]

theorem join_cons_cons (first next : Component) (parts : List Component) :
    join (first :: next :: parts) = first ++ '/' :: join (next :: parts) := by
  simp [join]

theorem head_join {parts : List Component} (h : ∀ part ∈ parts, Plain part) (more : parts ≠ []) :
    ∃ c rest, join parts = c :: rest ∧ c ≠ '/' := by
  obtain ⟨first, parts, rfl⟩ := List.exists_cons_of_ne_nil more
  have first_plain := h first (List.mem_cons_self ..)
  obtain ⟨c, front, rfl⟩ := List.exists_cons_of_ne_nil first_plain.ne_nil
  have other : c ≠ '/' := fun same => first_plain.whole (same ▸ List.mem_cons_self ..)
  cases parts with
  | nil => exact ⟨c, front, by simp [join], other⟩
  | cons next parts => exact ⟨c, _, join_cons_cons .., other⟩

theorem filter_plain {parts : List Component} (h : ∀ part ∈ parts, Plain part) :
    parts.filter (fun part => !isStay part) = parts :=
  List.filter_eq_self.mpr fun part inside => by simp [(h part inside).moves]

theorem toList_text (h : p.parts ≠ []) (normal : p.Normal) :
    p.text.toList = p.root ++ join p.parts := by
  obtain ⟨c, rest, whole, -⟩ := head_join normal.parts h
  simp [text, whole]

theorem Normal.root_cases (h : p.Normal) :
    p.root = [] ∨ p.root = ['/'] ∨ p.root = ['/', '/'] := by
  simpa using h.root

/-- The text of a path is cut into its components, behind an empty one for each slash in front. -/
theorem Normal.cut_text (h : p.Normal) (more : p.parts ≠ []) :
    cut p.text.toList = p.root.map (fun _ => []) ++ p.parts := by
  have joined : cut (join p.parts) = p.parts := by
    rw [cut_eq_splitOn]
    exact List.splitOn_intercalate '/' (fun part inside => (h.parts part inside).whole) more
  rw [toList_text more h]
  rcases h.root_cases with root | root | root <;> simp [root, cut, joined]

/-- The text of a path starts with a slash if the path does. -/
theorem Normal.head_text (h : p.Normal) (more : p.parts ≠ []) :
    p.text.toList ≠ [] ∧ (p.text.toList.head? == some '/') = (p.root.head? == some '/') := by
  obtain ⟨c, rest, whole, other⟩ := head_join h.parts more
  rw [toList_text more h, whole]
  rcases h.root_cases with root | root | root <;> simp [root, other]

/-- A path is read back from its text. -/
theorem Normal.ofText_text (h : p.Normal) : ofText p.text = p := by
  obtain ⟨root, parts⟩ := p
  have roots : root = [] ∨ root = ['/'] ∨ root = ['/', '/'] := h.root_cases
  by_cases more : parts = []
  · subst more
    rcases roots with rfl | rfl | rfl <;> decide
  · obtain ⟨c, rest, whole, other⟩ := head_join h.parts more
    have front : rootOf (root ++ join parts) = root := by
      rw [whole]
      rcases roots with rfl | rfl | rfl <;> simp [rootOf, other]
    have slashes : (root.map fun _ => ([] : Component)).filter (fun part => !isStay part) = [] := by
      simp [isStay]
    rw [ofText, h.cut_text more, List.filter_append, slashes, filter_plain h.parts,
      toList_text more h, front, List.nil_append]

/-- A name keeps its stem when it gets another suffix. -/
theorem isStem_suffixed (h : IsStem name stem) (named : name ≠ []) {after : Component}
    (more : after ≠ []) (last : '.' ∉ after) : IsStem (stem ++ '.' :: after) stem :=
  .cut (h.ne_nil named) more last

theorem Normal.withSuffix (h : p.Normal) (separate : '/' ∉ suffix.toList)
    (more : 2 ≤ suffix.toList.length) (changed : p.withSuffix suffix = .ok target) :
    target.Normal := by
  unfold Path.withSuffix at changed
  split at changed <;> cases changed
  next name last =>
  refine ⟨h.root, List.forall_mem_append.mpr
    ⟨fun part inside => h.parts part (List.mem_of_mem_dropLast inside),
      List.forall_mem_singleton.mpr ⟨?_, ?_⟩⟩⟩
  · have long : 2 ≤ (stemOf name ++ suffix.toList).length := by
      rw [List.length_append]
      omega
    match stemOf name ++ suffix.toList, long with
    | _ :: _ :: _, _ => simp [isStay]
  · have plain := (h.parts name (List.mem_of_getLast? last)).whole
    rw [List.mem_append]
    exact not_or.mpr ⟨fun inside => plain ((isStem_stemOf name).mem_of_mem inside), separate⟩

end Path

end Jack
