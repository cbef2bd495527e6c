import Jack.Machine.Label
import Mathlib.Data.List.Nodup
import Std.Data.String.ToInt

/-! # Labels by tag and number

The stem, the tag and the number of a label are joined by underscores. An underscore can stand in
the stem and in the tag but never in a number, so the last one of a label ends its tag. A numbering
gives out its numbers in order, whoever asks for them, so labels that it made for different calls
are different.
-/

namespace Jack.Numbering

/-! ### Parts of a label -/

theorem underscore_not_mem_toString (id : Int) : '_' ∉ (toString id).toList := by
  have digits (n : Nat) : '_' ∉ n.repr.toList := by
    rw [Nat.toList_repr]
    exact fun inside =>
      absurd (Nat.isDigit_of_mem_toDigits (by decide) (by decide) inside) (by decide)
  cases id with
  | ofNat n => exact digits n
  | negSucc n =>
      have signed : (toString (Int.negSucc n)).toList = '-' :: n.succ.repr.toList :=
        String.toList_append
      rw [signed, List.mem_cons, not_or]
      exact ⟨by decide, digits n.succ⟩

/-- A row is cut at the last place of a mark in one way. -/
theorem append_cons_inj {α : Type} {mark : α} {front front' back back' : List α}
    (plain : mark ∉ back) (plain' : mark ∉ back')
    (h : front ++ mark :: back = front' ++ mark :: back') : front = front' ∧ back = back' := by
  -- If one front were longer, its mark would stand in the other back.
  obtain ⟨more, longer, split⟩ | ⟨more, longer, split⟩ := List.append_eq_append_iff.mp h
  · cases more with
    | nil => exact ⟨by simp [longer], (List.cons.inj split).2⟩
    | cons c more => simp [(List.cons.inj split).2] at plain
  · cases more with
    | nil => exact ⟨by simp [longer], (List.cons.inj split).2.symm⟩
    | cons c more => simp [(List.cons.inj split).2] at plain'

/-- A label determines its tag and its number. -/
theorem label_inj {stem tag tag' : String} {id id' : Int} :
    label stem tag id = label stem tag' id' ↔ tag = tag' ∧ id = id' := by
  refine ⟨fun h => ?_, by rintro ⟨rfl, rfl⟩; rfl⟩
  simp only [label, String.append_assoc, String.append_right_inj] at h
  have joined := congrArg String.toList h
  simp only [String.toList_append] at joined
  obtain ⟨same, same'⟩ := append_cons_inj (underscore_not_mem_toString id)
    (underscore_not_mem_toString id') joined
  exact ⟨String.toList_injective same, Int.repr_injective (String.toList_injective same')⟩

/-! ### Runs -/

/-- Carry out calls one after the other. -/
def performAll : List Call → Numbering → List Answer × Numbering
  | [], n => ([], n)
  | call :: later, n =>
    let rest := performAll later (perform call n).2
    ((perform call n).1 :: rest.1, rest.2)

/-- Whether a call takes a number. -/
def Call.takesNumber : Call → Bool
  | .nextId | .newLabels _ => true
  | .label _ _ => false

/-- The answer to a call when the next number is the given one. -/
def answerWith (stem : String) (next : Nat) : Call → Answer
  | .nextId => .number next
  | .label tag id => .label (label stem tag id)
  | .newLabels tags => .labels (tags.map fun tag => label stem tag next)

/-- The labels of a new construct. -/
def Answer.made : Answer → List String
  | .number _ | .label _ => []
  | .labels texts => texts

variable {call : Call} {calls : List Call} {n : Numbering} {text : String}

theorem numbersTaken_cons (call : Call) (later : List Call) :
    (call :: later).countP Call.takesNumber =
      [call].countP Call.takesNumber + later.countP Call.takesNumber := by
  rw [← List.countP_append, List.singleton_append]

theorem perform_eq (call : Call) (n : Numbering) :
    perform call n =
      (answerWith n.stem n.next call, ⟨n.stem, n.next + [call].countP Call.takesNumber⟩) := by
  cases call <;> rfl

/-- Every call is answered with the number that the calls before it have left. -/
theorem fst_performAll (calls : List Call) (n : Numbering) :
    (performAll calls n).1 = calls.mapIdx fun i call =>
      answerWith n.stem (n.next + (calls.take i).countP Call.takesNumber) call := by
  induction calls generalizing n with
  | nil => rfl
  | cons call later ih =>
      rw [performAll, List.mapIdx_cons, ih, perform_eq]
      refine congrArg (_ :: List.mapIdx · later) (funext fun i => funext fun call' => ?_)
      rw [List.take_succ_cons, numbersTaken_cons call (later.take i), Nat.add_assoc]

theorem snd_performAll (calls : List Call) (n : Numbering) :
    (performAll calls n).2 = ⟨n.stem, n.next + calls.countP Call.takesNumber⟩ := by
  induction calls generalizing n with
  | nil => rfl
  | cons call later ih =>
      rw [performAll, ih, perform_eq, numbersTaken_cons call later, Nat.add_assoc]

/-- The labels that a call makes have the number that it takes. -/
theorem exists_of_mem_made (h : text ∈ (perform call n).1.made) :
    (∃ tag, text = label n.stem tag n.next) ∧ (perform call n).2.next = n.next + 1 := by
  cases call with
  | nextId | label => cases h
  | newLabels tags =>
      obtain ⟨tag, -, rfl⟩ := List.mem_map.mp h
      exact ⟨⟨tag, rfl⟩, rfl⟩

/-- The labels that a run makes have numbers from the first one on. -/
theorem exists_of_mem_flatMap_made (h : text ∈ (performAll calls n).1.flatMap Answer.made) :
    ∃ (tag : String) (id : Nat), text = label n.stem tag id ∧ n.next ≤ id := by
  induction calls generalizing n with
  | nil => cases h
  | cons call later ih =>
      obtain first | rest := List.mem_append.mp h
      · obtain ⟨⟨tag, rfl⟩, -⟩ := exists_of_mem_made first
        exact ⟨tag, n.next, rfl, Nat.le_refl _⟩
      · obtain ⟨tag, id, named, behind⟩ := ih rest
        rw [perform_eq] at named behind
        exact ⟨tag, id, named, Nat.le_trans (Nat.le_add_right _ _) behind⟩

theorem nodup_made_iff :
    (perform call n).1.made.Nodup ↔ ∀ tags, call = .newLabels tags → tags.Nodup := by
  cases call with
  | nextId | label => simp [perform, Answer.made]
  | newLabels given =>
      have injective : Function.Injective fun tag => label n.stem tag n.next :=
        fun _ _ same => (label_inj.mp same).1
      simp only [perform, Answer.made, List.nodup_map_iff injective, Call.newLabels.injEq,
        forall_eq']

/-- The labels of a run repeat only if tags of one call do. -/
theorem nodup_flatMap_made_iff :
    ((performAll calls n).1.flatMap Answer.made).Nodup ↔
      ∀ tags, .newLabels tags ∈ calls → tags.Nodup := by
  induction calls generalizing n with
  | nil => simp [performAll]
  | cons call later ih =>
      have apart : ((perform call n).1.made).Disjoint
          ((performAll later (perform call n).2).1.flatMap Answer.made) := by
        intro text first rest
        obtain ⟨⟨tag, named⟩, next⟩ := exists_of_mem_made first
        obtain ⟨tag', id, named', behind⟩ := exists_of_mem_flatMap_made rest
        rw [next] at behind
        rw [named, perform_eq] at named'
        have := (label_inj.mp named').2
        omega
      rw [performAll, List.flatMap_cons, List.nodup_append', nodup_made_iff, ih]
      simp only [apart, and_true, List.mem_cons, or_imp, forall_and, eq_comm]

/-- A numbering with a stem answers any calls by the numbers 0, 1, 2 and so on: each call that takes
one gets the number of such calls before it. A label says what tag and number it was made from,
so the labels of all new constructs are different if those of each construct have different tags. -/
theorem labels_never_repeat (stem : String) (nonempty : stem ≠ "") :
    ∃ fresh : Numbering, ofLiteral (.text stem) = .ok fresh ∧
      (∀ tag tag' id id', label stem tag id = label stem tag' id' → tag = tag' ∧ id = id') ∧
      ∀ calls : List Call,
        (performAll calls fresh).1 = calls.mapIdx (fun i call =>
          answerWith stem ((calls.take i).countP Call.takesNumber) call) ∧
        (performAll calls fresh).2 = ⟨stem, calls.countP Call.takesNumber⟩ ∧
        (((performAll calls fresh).1.flatMap Answer.made).Nodup ↔
          ∀ tags, .newLabels tags ∈ calls → tags.Nodup) := by
  refine ⟨⟨stem, 0⟩, ?_, fun _ _ _ _ => label_inj.mp, fun calls => ⟨?_, ?_, ?_⟩⟩
  · simp [ofLiteral, nonempty]
  · simpa using fst_performAll calls ⟨stem, 0⟩
  · simpa using snd_performAll calls ⟨stem, 0⟩
  · exact nodup_flatMap_made_iff

/-- The first tag ends like the label of a later construct. -/
theorem labels_never_repeat_at_underscores :
    let calls : List Call :=
      [.newLabels ["GO_2", "GO"], .label "GO" (-2), .nextId, .newLabels [], .newLabels ["GO_2"]]
    ("A_" : String) ≠ "" ∧ ∃ fresh : Numbering, ofLiteral (.text "A_") = .ok fresh ∧
      (performAll calls fresh).1.flatMap Answer.made = ["A__GO_2_0", "A__GO_0", "A__GO_2_3"] ∧
      ((performAll calls fresh).1.flatMap Answer.made).Nodup ∧
      (performAll calls fresh).2 = ⟨"A_", 4⟩ := by
  intro calls
  obtain ⟨fresh, begins, -, runs⟩ := labels_never_repeat "A_" (by decide)
  obtain ⟨-, last, distinct⟩ := runs calls
  have tagged : ∀ tags, .newLabels tags ∈ calls → tags.Nodup := by simp [calls]
  refine ⟨by decide, fresh, begins, ?_, distinct.mpr tagged, last⟩
  obtain rfl : ⟨"A_", 0⟩ = fresh := Except.ok.inj begins
  rfl

end Jack.Numbering
