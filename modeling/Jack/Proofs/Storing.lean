import Jack.Files.Basic
import Mathlib.Data.List.Basic
import Mathlib.Data.List.Infix

/-! # Storing files

Putting a file where a path opens one makes no directory and leaves every one in place. So all paths
lead where they led, and but for the file that was put all files are as they were.
-/

namespace Jack

namespace Files

variable {fs fs' : Files} {key here there : List Component} {dir rest parts : List Component}
  {part : Component} {bytes : ByteArray} {path text : String} {place : Place}

/-! ### Keys -/

@[simp] theorem bytes?_put_self (fs : Files) (key : List Component) (bytes : ByteArray) :
    (fs.put key bytes).bytes? key = some bytes := by
  simp [bytes?, put]

theorem lookup_filter_ne {entries : List (List Component × ByteArray)} {other : List Component}
    (different : other ≠ key) :
    (entries.filter (·.1 != key)).lookup other = entries.lookup other := by
  induction entries with
  | nil => rfl
  | cons entry entries ih =>
      obtain ⟨stored, content⟩ := entry
      by_cases found : stored = key
      · have skipped : (other == stored) = false := by simpa [found] using different
        rw [List.filter_cons_of_neg (by simp [found]), ih, List.lookup_cons, skipped]
      · rw [List.filter_cons_of_pos (by simp [found]), List.lookup_cons, List.lookup_cons, ih]

theorem bytes?_put_of_ne {other : List Component} (different : other ≠ key) :
    (fs.put key bytes).bytes? other = fs.bytes? other := by
  have skipped : (other == key) = false := by simpa using different
  rw [bytes?, put, List.lookup_cons, skipped, bytes?]
  exact lookup_filter_ne different

/-! ### Directories -/

theorem hasDirectory_iff : fs.hasDirectory key = true ↔
    (∃ made ∈ fs.working :: fs.directories, key <+: made) ∨
      ∃ entry ∈ fs.entries, key <+: entry.1 ∧ key ≠ entry.1 := by
  simp [hasDirectory]

/-- The directories above a directory are there. -/
theorem hasDirectory_above (h : fs.hasDirectory key = true) (above : there <+: key) :
    fs.hasDirectory there = true := by
  rw [hasDirectory_iff] at h ⊢
  obtain ⟨made, known, front⟩ | ⟨entry, stored, front, longer⟩ := h
  · exact .inl ⟨made, known, above.trans front⟩
  · refine .inr ⟨entry, stored, above.trans front, ?_⟩
    rintro rfl
    exact longer (front.eq_of_length_le above.length_le)

/-- A file in a directory makes no other directory, and keeps every one. -/
theorem hasDirectory_put (h : fs.hasDirectory there = true) (other : List Component) :
    (fs.put (there ++ [part]) bytes).hasDirectory other = fs.hasDirectory other := by
  rw [Bool.eq_iff_iff, hasDirectory_iff]
  constructor
  · rintro (made | ⟨entry, stored, front, longer⟩)
    · exact hasDirectory_iff.mpr (.inl made)
    · obtain rfl | stored := List.mem_cons.mp stored
      · have above := (List.prefix_concat_iff.mp front).resolve_left longer
        exact hasDirectory_above h above
      · exact hasDirectory_iff.mpr (.inr ⟨entry, (List.mem_filter.mp stored).1, front, longer⟩)
  · intro known
    obtain made | ⟨entry, stored, front, longer⟩ := hasDirectory_iff.mp known
    · exact .inl made
    · by_cases same : entry.1 = there ++ [part]
      · exact .inr ⟨_, List.mem_cons_self .., same ▸ front, same ▸ longer⟩
      · refine .inr ⟨entry, List.mem_cons_of_mem _ ?_, front, longer⟩
        exact List.mem_filter.mpr ⟨stored, by simpa using same⟩

/-- The directory that a path leads on from is there. -/
theorem hasDirectory_start (fs : Files) (path : List Char) :
    fs.hasDirectory (fs.start path) = true := by
  refine hasDirectory_iff.mpr (.inl ⟨fs.working, List.mem_cons_self .., ?_⟩)
  unfold start
  split
  · exact List.nil_prefix
  · exact List.prefix_rfl

/-- A component that is the name of a file or of a directory. -/
def IsName (part : Component) : Prop :=
  Path.isStay part = false ∧ part ≠ ['.', '.']

/-- The directory that the components of a path lead to from a directory. -/
inductive Leads (fs : Files) : List Component → List Component → List Component → Prop
  | here {here : List Component} : Leads fs here [] here
  | stay {part : Component} {here rest there : List Component} (stays : Path.isStay part = true)
      (h : Leads fs here rest there) : Leads fs here (part :: rest) there
  | back {here rest there : List Component} (h : Leads fs here.dropLast rest there) :
      Leads fs here (['.', '.'] :: rest) there
  | enter {part : Component} {here rest there : List Component} (name : IsName part)
      (below : fs.hasDirectory (here ++ [part]) = true) (h : Leads fs (here ++ [part]) rest there) :
      Leads fs here (part :: rest) there

theorem Leads.hasDirectory (h : fs.Leads here dir there) (start : fs.hasDirectory here = true) :
    fs.hasDirectory there = true := by
  induction h with
  | here => exact start
  | stay _ _ ih => exact ih start
  | back _ ih => exact ih (hasDirectory_above start (List.dropLast_prefix _))
  | enter _ below _ ih => exact ih below

theorem Leads.congr (h : fs.Leads here dir there)
    (same : ∀ key, fs'.hasDirectory key = fs.hasDirectory key) : fs'.Leads here dir there := by
  induction h with
  | here => exact .here
  | stay stays _ ih => exact .stay stays ih
  | back _ ih => exact .back ih
  | enter name below _ ih => exact .enter name ((same _).trans below) ih

/-- Components that lead nowhere else can be left out. -/
theorem leads_append_iff {front : List Component}
    (stays : ∀ part ∈ front, Path.isStay part = true) :
    fs.Leads here (front ++ rest) there ↔ fs.Leads here rest there := by
  induction front with
  | nil => rfl
  | cons part front ih =>
      rw [List.forall_mem_cons] at stays
      rw [← ih stays.2]
      refine ⟨fun h => ?_, .stay stays.1⟩
      cases h with
      | stay _ h => exact h
      | back => exact absurd stays.1 (by decide)
      | enter name => exact absurd stays.1 (by simp [name.1])

theorem Leads.follow_append (h : fs.Leads here dir there) (rest : List Component) :
    fs.follow here (dir ++ rest) = fs.follow there rest := by
  induction h with
  | here => rfl
  | stay stays _ ih => rw [List.cons_append, follow, if_pos stays, ih]
  | back _ ih => rw [List.cons_append, follow, if_neg (by decide), if_pos (by decide), ih]
  | enter name below _ ih =>
      rw [List.cons_append, follow, if_neg (by simp [name.1]), if_neg (by simp [name.2]),
        if_pos below, ih]

/-! ### Files -/

/-- What is at a key that no directory has. -/
def opened (fs : Files) (key : List Component) : Place :=
  match fs.bytes? key with
  | some bytes => .file key bytes
  | none => .missing key

/-- The key of the file that the components of a path open from a directory, if it is there, or make
if it is not. -/
inductive Opens (fs : Files) (here : List Component) : List Component → List Component → Prop
  | intro {part : Component} {dir there : List Component} (leads : fs.Leads here dir there)
      (name : IsName part) (free : fs.hasDirectory (there ++ [part]) = false) :
      Opens fs here (dir ++ [part]) (there ++ [part])

theorem opens_append_iff : fs.Opens here (dir ++ [part]) key ↔
    ∃ there, fs.Leads here dir there ∧ IsName part ∧ fs.hasDirectory (there ++ [part]) = false ∧
      key = there ++ [part] := by
  constructor
  · intro h
    generalize whole : dir ++ [part] = parts at h
    obtain ⟨leads, name, free⟩ := h
    obtain ⟨rfl, last⟩ := List.append_inj' whole rfl
    obtain rfl := List.singleton_inj.mp last
    exact ⟨_, leads, name, free, rfl⟩
  · rintro ⟨there, leads, name, free, rfl⟩
    exact .intro leads name free

theorem Opens.follow (h : fs.Opens here parts key) :
    fs.follow here parts = .ok (fs.opened key) := by
  obtain ⟨leads, name, free⟩ := h
  rw [leads.follow_append, Files.follow, if_neg (by simp [name.1]), if_neg (by simp [name.2]),
    if_neg (by simp [free]), opened]
  split <;> simp [*]

theorem Opens.stay (h : fs.Opens here rest key) (stays : Path.isStay part = true) :
    fs.Opens here (part :: rest) key := by
  obtain ⟨leads, name, free⟩ := h
  exact .intro (.stay stays leads) name free

theorem Opens.back (h : fs.Opens here.dropLast rest key) :
    fs.Opens here (['.', '.'] :: rest) key := by
  obtain ⟨leads, name, free⟩ := h
  exact .intro (.back leads) name free

theorem Opens.enter (h : fs.Opens (here ++ [part]) rest key) (name : IsName part)
    (below : fs.hasDirectory (here ++ [part]) = true) : fs.Opens here (part :: rest) key := by
  obtain ⟨leads, last, free⟩ := h
  exact .intro (.enter name below leads) last free

/-- A path leads to a directory or opens a file. -/
theorem opens_of_follow (h : fs.follow here parts = .ok place) :
    place = .directory ∨ ∃ key, fs.Opens here parts key ∧ place = fs.opened key := by
  fun_induction follow fs here parts with
  | case1 => exact .inl (Except.ok.inj h).symm
  | case2 here part rest stays ih =>
      exact (ih h).imp_right fun ⟨key, opens, found⟩ => ⟨key, opens.stay stays, found⟩
  | case3 here part rest moves back ih =>
      obtain rfl := beq_iff_eq.mp back
      exact (ih h).imp_right fun ⟨key, opens, found⟩ => ⟨key, opens.back, found⟩
  | case4 here part rest moves onward key below ih =>
      have name : IsName part := ⟨by simpa using moves, by simpa using onward⟩
      exact (ih h).imp_right fun ⟨key, opens, found⟩ => ⟨key, opens.enter name below, found⟩
  | case5 here part rest moves onward key free bytes stored last
  | case7 here part rest moves onward key free stored last =>
      obtain rfl := List.isEmpty_iff.mp last
      have name : IsName part := ⟨by simpa using moves, by simpa using onward⟩
      refine .inr ⟨key, .intro .here name (by simpa using free), ?_⟩
      rw [opened, stored]
      exact (Except.ok.inj h).symm
  | case6 | case8 => cases h

/-- A path opens a file. -/
structure Reaches (fs : Files) (path : String) (key : List Component) : Prop where
  named : path.toList ≠ []
  opens : fs.Opens (fs.start path.toList) (Path.cut path.toList) key

theorem locate_eq (named : path.toList ≠ []) :
    fs.locate path = fs.follow (fs.start path.toList) (Path.cut path.toList) := by
  unfold locate
  split
  · next empty => exact absurd empty named
  · rfl

theorem Reaches.locate (h : fs.Reaches path key) : fs.locate path = .ok (fs.opened key) := by
  rw [locate_eq h.named, h.opens.follow]

theorem reaches_of_locate (h : fs.locate path = .ok place) :
    place = .directory ∨ ∃ key, fs.Reaches path key ∧ place = fs.opened key := by
  have named : path.toList ≠ [] := by
    intro empty
    rw [Files.locate, empty] at h
    cases h
  rw [locate_eq named] at h
  exact (opens_of_follow h).imp_right fun ⟨key, opens, found⟩ => ⟨key, ⟨named, opens⟩, found⟩

theorem locate_eq_file_iff :
    fs.locate path = .ok (.file key bytes) ↔ fs.Reaches path key ∧ fs.bytes? key = some bytes := by
  constructor
  · intro h
    obtain found | ⟨other, reaches, found⟩ := reaches_of_locate h
    · cases found
    · unfold opened at found
      split at found
      · next stored =>
        cases found
        exact ⟨reaches, stored⟩
      · cases found
  · rintro ⟨reaches, stored⟩
    rw [reaches.locate, opened, stored]

theorem write_eq_ok_iff :
    fs.write path text = .ok fs' ↔ ∃ key, fs.Reaches path key ∧ fs' = fs.put key text.toUTF8 := by
  constructor
  · intro h
    unfold write at h
    cases found : fs.locate path with
    | error failure => simp [found, bind, Except.bind] at h
    | ok place =>
        simp only [found, bind, Except.bind] at h
        obtain rfl | ⟨key, reaches, rfl⟩ := reaches_of_locate found
        · cases h
        · refine ⟨key, reaches, ?_⟩
          unfold opened at h
          cases stored : fs.bytes? key <;> simp only [stored] at h <;>
            exact (Except.ok.inj h).symm
  · rintro ⟨key, reaches, rfl⟩
    simp only [write, reaches.locate, opened, bind, Except.bind]
    cases fs.bytes? key <;> rfl

/-- Putting a file where a path opens one leaves all paths as they are. -/
theorem Reaches.put (h : fs.Reaches path key) {other : String} {key' : List Component} :
    (fs.put key bytes).Reaches other key' ↔ fs.Reaches other key' := by
  have same : ∀ key', (fs.put key bytes).hasDirectory key' = fs.hasDirectory key' := by
    obtain ⟨-, opens⟩ := h
    generalize Path.cut path.toList = parts at opens
    obtain ⟨leads, name, free⟩ := opens
    exact hasDirectory_put (leads.hasDirectory (fs.hasDirectory_start _))
  constructor
  · rintro ⟨named, opens⟩
    refine ⟨named, ?_⟩
    generalize Path.cut other.toList = parts at opens
    obtain ⟨leads, name, free⟩ := opens
    exact .intro (leads.congr fun key' => (same key').symm) name ((same _).symm.trans free)
  · rintro ⟨named, opens⟩
    refine ⟨named, ?_⟩
    generalize Path.cut other.toList = parts at opens
    obtain ⟨leads, name, free⟩ := opens
    exact .intro (leads.congr same) name ((same _).trans free)

theorem Reaches.read (h : fs.Reaches path key) (stored : fs.bytes? key = some bytes) :
    fs.read path = .ok bytes := by
  simp only [Files.read, h.locate, opened, stored, bind, Except.bind]
  rfl

end Files

end Jack
