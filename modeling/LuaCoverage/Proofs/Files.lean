import LuaCoverage.Files
import LuaCoverage.Proofs.Path
import LuaCoverage.Proofs.Text.Utf8

/-!
# Reading, and what writing leaves as it is

Making directories changes no file, and writing a text changes the file at its path only, whatever
else stands in the tree. So the bytes at a path and the files below a directory are known behind
every operation that succeeds. A text is read from the bytes of its file alone.

A path is *free* if a text can be written there: there is no directory at the path, and no file
where one of the directories that it lies in would have to be.

Results:
* `Files.below_of_outside`: what lies below one directory and outside another.
* `Files.exists_written`: a text can be written at a free path.
* `Files.bytes?_makeDirectories`, `Files.bytes?_writeText_eq`: the bytes behind an operation.
* `Files.mem_below_makeDirectories`, `Files.mem_below_writeText`: the files behind an operation.
* `Files.readText_of_bytes?`, `Files.readText_error`: when a text is read, and why one cannot be.
-/

namespace LuaCoverage.Files
open LuaCoverage.Text

variable {files made written : Files} {p q directory : Path} {label text : String}

theorem find?_without_of_ne (files : Files) (h : q ≠ p) :
    (files.without p).find? q = files.find? q := by
  simp only [find?, without, List.find?_filter]
  congr 2
  funext entry
  by_cases hq : entry.1 = q
  · simp [hq, h]
  · simp [hq]

theorem bytes?_write_of_ne (files : Files) (h : q ≠ p) (bytes : Bytes) :
    (files.write p bytes).bytes? q = files.bytes? q := by
  have hfind : (files.write p bytes).find? q = (files.without p).find? q := by
    simp [find?, write, List.find?_append, Ne.symm h]
  simp only [bytes?, hfind, find?_without_of_ne files h]

/-- A directory is made only where nothing stands, so it takes the place of no file. -/
theorem bytes?_makeDirectory (files : Files) (p q : Path) :
    (files.makeDirectory p).bytes? q = files.bytes? q := by
  simp only [makeDirectory]
  split
  · rfl
  · by_cases hq : q = p
    · subst hq
      next hnone =>
      have hfile : files.bytes? q = none := by
        simp only [exists?, isFile, Bool.or_eq_true, not_or, Bool.not_eq_true] at hnone
        exact Option.not_isSome_iff_eq_none.1 (by simp [hnone.1])
      rw [hfile]
      cases hfind : files.find? q with
      | none =>
        have hentries : files.entries.find? (fun entry => entry.1 == q) = none := by
          simpa [find?] using hfind
        simp [bytes?, find?, List.find?_append, hentries]
      | some entry =>
        obtain ⟨found, hfound, rfl⟩ := Option.map_eq_some_iff.1 hfind
        cases hentry : found.2 with
        | directory => simp [bytes?, find?, List.find?_append, hfound, hentry]
        | file bytes => simp [bytes?, find?, hfound, hentry] at hfile
    · simp [bytes?, find?, List.find?_append, Ne.symm hq]

/-- Directories are made where there are none. -/
theorem makeDirectories_cases (h : files.makeDirectories p label = .ok made) :
    made = files ∨ made = files.makeDirectory p := by
  unfold makeDirectories at h
  split at h
  · cases h
  · split at h
    · cases h
      exact .inl rfl
    · split at h
      · cases h
      · split at h <;> cases h
        exact .inr rfl

/-- A text is written as a file. -/
theorem writeText_eq (h : files.writeText p label text = .ok written) :
    written = files.write p (Utf8.ofString text) := by
  unfold writeText at h
  split at h
  · cases h
  · split at h
    · cases h
    · split at h
      · cases h
      · split at h <;> cases h
        rfl

theorem bytes?_makeDirectories (h : files.makeDirectories p label = .ok made) (q : Path) :
    made.bytes? q = files.bytes? q := by
  rcases makeDirectories_cases h with rfl | rfl
  · rfl
  · exact bytes?_makeDirectory files p q

theorem bytes?_writeText_eq (h : files.writeText p label text = .ok written) (q : Path) :
    written.bytes? q = if q = p then some (Utf8.ofString text) else files.bytes? q := by
  rw [writeText_eq h]
  split
  · next hq => rw [hq, bytes?_write]
  · next hq => exact bytes?_write_of_ne files hq _

/-! ## Files below a directory -/

theorem mem_below : q ∈ files.below directory
    ↔ (∃ bytes, (q, FileEntry.file bytes) ∈ files.entries) ∧ q.isBelow directory = true := by
  simp only [below, List.mem_mergeSort, List.mem_filterMap]
  constructor
  · rintro ⟨⟨p, entry⟩, hentry, hq⟩
    cases entry with
    | directory => simp at hq
    | file bytes =>
      simp only [Option.ite_none_right_eq_some, Option.some.injEq] at hq
      obtain ⟨hbelow, rfl⟩ := hq
      exact ⟨⟨bytes, hentry⟩, hbelow⟩
  · rintro ⟨⟨bytes, hentry⟩, hbelow⟩
    exact ⟨_, hentry, by simp [hbelow]⟩

/-! ## Files outside a directory

What lies below one directory and outside another is told from the entries of the tree, and comes
in an order of its own. -/

theorem namesPrecede_total (as bs : List String) :
    (namesPrecede as bs || namesPrecede bs as) = true := by
  induction as generalizing bs with
  | nil => simp [namesPrecede]
  | cons a as ih =>
    cases bs with
    | nil => simp [namesPrecede]
    | cons b bs =>
      by_cases hab : a = b
      · simpa [namesPrecede, hab] using ih bs
      · simpa [namesPrecede, hab, Ne.symm hab] using precedes_total a b

theorem namesPrecede_trans {as bs cs : List String} (hab : namesPrecede as bs = true)
    (hbc : namesPrecede bs cs = true) : namesPrecede as cs = true := by
  induction as generalizing bs cs with
  | nil => simp [namesPrecede]
  | cons a as ih =>
    cases bs with
    | nil => simp [namesPrecede] at hab
    | cons b bs =>
      cases cs with
      | nil => simp [namesPrecede] at hbc
      | cons c cs =>
        simp only [namesPrecede] at hab hbc ⊢
        by_cases h : a = b
        · subst h
          rw [if_pos rfl] at hab
          split
          · next hc => exact ih hab (by simpa [hc] using hbc)
          · next hc => simpa [hc] using hbc
        · rw [if_neg h] at hab
          split at hbc
          · next hc =>
            subst hc
            rwa [if_neg h]
          · split
            · next hc =>
              -- The first names precede one another, and would be the same.
              subst hc
              exact absurd (precedes_antisymm hab hbc) h
            · exact precedes_trans hab hbc

theorem namesPrecede_antisymm {as bs : List String} (hab : namesPrecede as bs = true)
    (hba : namesPrecede bs as = true) : as = bs := by
  induction as generalizing bs with
  | nil =>
    cases bs with
    | nil => rfl
    | cons b bs => simp [namesPrecede] at hba
  | cons a as ih =>
    cases bs with
    | nil => simp [namesPrecede] at hab
    | cons b bs =>
      by_cases h : a = b
      · subst h
        simp only [namesPrecede, if_true] at hab hba
        rw [ih hab hba]
      · simp only [namesPrecede, if_neg h, if_neg (Ne.symm h)] at hab hba
        exact absurd (precedes_antisymm hab hba) h

/-- The paths of the files that do not lie below a directory. -/
def outside (files : Files) (directory : Path) : List Path :=
  files.entries.filterMap fun entry =>
    match entry.2 with
    | .file _ => if entry.1.isBelow directory then none else some entry.1
    | .directory => none

theorem perm_outside (files : Files) (directory within : Path) :
    ((files.below within).filter fun p => !p.isBelow directory).Perm
      ((files.outside directory).filter fun p => p.isBelow within) := by
  refine ((List.mergeSort_perm ..).filter _).trans (.of_eq ?_)
  rw [outside, List.filter_filterMap, List.filter_filterMap]
  refine List.filterMap_congr fun entry _ => ?_
  cases entry.2 with
  | directory => rfl
  | file bytes =>
    cases hwithin : entry.1.isBelow within <;> cases hout : entry.1.isBelow directory
      <;> simp [Option.filter, hwithin, hout]

/-- The files below one directory and outside another depend on what there is outside. -/
theorem below_of_outside (h : made.outside directory = files.outside directory) (within : Path) :
    ((made.below within).filter fun p => !p.isBelow directory)
      = (files.below within).filter fun p => !p.isBelow directory := by
  have hbelowSorted : ∀ t : Files, (t.below within).Pairwise
      fun p q => namesPrecede p.names q.names = true := fun t => by
    refine List.pairwise_mergeSort (fun p q r hpq hqr => ?_) (fun p q => ?_) _
    · exact namesPrecede_trans hpq hqr
    · exact namesPrecede_total p.names q.names
  have hsorted := fun t => (hbelowSorted t).filter fun p => !p.isBelow directory
  have hbelow : ∀ {t : Files} {p : Path},
      p ∈ (t.below within).filter (fun p => !p.isBelow directory) → p.isBelow within = true :=
    fun hp => (mem_below.1 (List.mem_filter.1 hp).1).2
  refine List.Perm.eq_of_pairwise (fun p q hp hq hpq hqp => ?_) (hsorted made) (hsorted files)
    ((perm_outside made directory within).trans
      ((List.Perm.of_eq (by rw [h])).trans (perm_outside files directory within).symm))
  obtain ⟨_, -, hp⟩ := Path.isBelow_iff.1 (hbelow hp)
  obtain ⟨_, -, hq⟩ := Path.isBelow_iff.1 (hbelow hq)
  have hroot : p.root = q.root := by rw [hp, hq]
  exact congrArg₂ Path.mk hroot (namesPrecede_antisymm hpq hqp)

theorem outside_makeDirectory (files : Files) (p directory : Path) :
    (files.makeDirectory p).outside directory = files.outside directory := by
  simp only [makeDirectory]
  split
  · rfl
  · simp [outside]

theorem outside_makeDirectories (h : files.makeDirectories p label = .ok made) (directory : Path) :
    made.outside directory = files.outside directory := by
  rcases makeDirectories_cases h with rfl | rfl
  · rfl
  · exact outside_makeDirectory files p directory

theorem outside_without (files : Files) (h : p.isBelow directory = true) :
    (files.without p).outside directory = files.outside directory := by
  rw [outside, outside, without, List.filterMap_filter]
  refine List.filterMap_congr fun entry _ => ?_
  by_cases hp : entry.1 = p
  · cases hentry : entry.2 <;> simp [hp, h]
  · simp [hp]

theorem outside_writeText (h : files.writeText p label text = .ok written)
    (hp : p.isBelow directory = true) : written.outside directory = files.outside directory := by
  have hwrite : (files.write p (Utf8.ofString text)).outside directory
      = (files.without p).outside directory := by
    simp [outside, write, hp]
  rw [writeText_eq h, hwrite, outside_without files hp]

theorem outside_remove (files : Files) (h : p.isBelow directory = true) :
    (files.remove p).outside directory = files.outside directory := by
  rw [remove, outside_without _ h, outside_makeDirectory]

theorem bytes?_remove_of_ne (files : Files) (h : q ≠ p) :
    (files.remove p).bytes? q = files.bytes? q := by
  have hfind := find?_without_of_ne (files.makeDirectory p.parent) h
  rw [← bytes?_makeDirectory files p.parent q]
  simp only [bytes?, remove, hfind]

theorem mem_below_makeDirectories (h : files.makeDirectories p label = .ok made) :
    q ∈ made.below directory ↔ q ∈ files.below directory := by
  rcases makeDirectories_cases h with rfl | rfl
  · rfl
  · simp only [mem_below, makeDirectory]
    split
    · rfl
    · simp

theorem mem_below_writeText (h : files.writeText p label text = .ok written) (hq : q ≠ p) :
    q ∈ written.below directory ↔ q ∈ files.below directory := by
  simp [mem_below, writeText_eq h, write, without, hq]

/-! ## Free paths -/

/-- Whether a path can be the name of a file, with no directory at it and no file above it. -/
def isFree (files : Files) (p : Path) : Bool :=
  !isUnnamable p && !files.isDirectory p && !files.isBlocked p

/-- What lies above a path that can be a name can be one. -/
theorem isUnnamable_of_isBelow (hq : q.isBelow p = true) (h : isUnnamable q = false) :
    isUnnamable p = false := by
  obtain ⟨names, -, rfl⟩ := Path.isBelow_iff.1 hq
  rw [isUnnamable, List.any_append, Bool.or_eq_false_iff] at h
  exact h.1

theorem mem_of_isFile (h : files.isFile p = true) : ∃ bytes, (p, .file bytes) ∈ files.entries := by
  simp only [isFile, bytes?, find?] at h
  split at h
  · next bytes hfind =>
    obtain ⟨⟨q, entry⟩, hentry, rfl⟩ := Option.map_eq_some_iff.1 hfind
    have hq : q = p := by simpa using List.find?_some hentry
    exact ⟨bytes, hq ▸ List.mem_of_find?_eq_some hentry⟩
  · cases h

theorem isBlocked_of_isFile (h : files.isFile p = true) (hq : q.isBelow p = true) :
    files.isBlocked q = true := by
  obtain ⟨bytes, hentry⟩ := mem_of_isFile h
  exact List.any_eq_true.2 ⟨_, hentry, by simp [hq]⟩

/-- What stands in the way of a path stands in the way of all below it. -/
theorem isBlocked_of_isBlocked (h : files.isBlocked p = true) (hq : q.isBelow p = true) :
    files.isBlocked q = true := by
  obtain ⟨entry, hentry, hblocks⟩ := List.any_eq_true.1 h
  simp only [Bool.and_eq_true] at hblocks
  exact List.any_eq_true.2 ⟨entry, hentry, by simp [Path.isBelow_trans hq hblocks.1, hblocks.2]⟩

/-- In front of a free path, directories can be made, which leave it free. -/
theorem exists_made (hq : q.isBelow p = true) (hfree : files.isFree q = true) (label : String) :
    ∃ made, files.makeDirectories p label = .ok made ∧ made.isDirectory p = true
      ∧ made.isFree q = true := by
  simp only [isFree, Bool.and_eq_true, Bool.not_eq_true'] at hfree
  have hname := isUnnamable_of_isBelow hq hfree.1.1
  have hfile : files.isFile p = false := by
    cases h : files.isFile p with
    | false => rfl
    | true => exact absurd (isBlocked_of_isFile h hq) (by simp [hfree.2])
  have hblocked : files.isBlocked p = false := by
    cases h : files.isBlocked p with
    | false => rfl
    | true => exact absurd (isBlocked_of_isBlocked h hq) (by simp [hfree.2])
  cases hdirectory : files.isDirectory p with
  | true =>
    exact ⟨files, by simp [makeDirectories, hname, hdirectory], hdirectory, by simp [isFree, hfree]⟩
  | false =>
    have hentries : (files.makeDirectory p).entries = files.entries ++ [(p, .directory)] := by
      simp [makeDirectory, exists?, hfile, hdirectory]
    have hfiles : ∀ r, (files.makeDirectory p).isFile r = files.isFile r := fun r => by
      simp only [isFile, bytes?_makeDirectory]
    -- The new directory lies above the path, so it is neither at it nor below it.
    obtain ⟨hne, hbelow⟩ := Path.isBelow_asymm hq
    refine ⟨files.makeDirectory p, by simp [makeDirectories, hname, hdirectory, hfile, hblocked],
      ?_, ?_⟩
    · simp [isDirectory, hentries, hfiles, hfile]
    · have hdirectory' : (files.makeDirectory p).isDirectory q = files.isDirectory q := by
        simp [isDirectory, hentries, hfiles, beq_false_of_ne hne, hbelow]
      have hblocked' : (files.makeDirectory p).isBlocked q = files.isBlocked q := by
        simp [isBlocked, hentries]
      simp [isFree, hdirectory', hblocked', hfree]

/-- A text can be written at a free path, behind the directories that it lies in. -/
theorem exists_written (hq : q.isBelow q.parent = true) (hfree : files.isFree q = true)
    (label label' text : String) : ∃ made written,
      files.makeDirectories q.parent label = .ok made ∧ made.writeText q label' text = .ok written := by
  obtain ⟨made, hmade, hdirectory, hfree⟩ := exists_made hq hfree label
  simp only [isFree, Bool.and_eq_true, Bool.not_eq_true'] at hfree
  exact ⟨made, made.write q (Utf8.ofString text), hmade, by simp [writeText, hfree, hdirectory]⟩

/-! ## Reading -/

/-- A text without carriage returns is read from the bytes that it is written as. -/
theorem readText_of_bytes? (h : files.bytes? p = some (Utf8.ofString text))
    (hreturn : '\r' ∉ text.toList) (label : String) : files.readText p label = .ok text := by
  simp only [readText, h, Utf8.ofString, Utf8.decode_encode, unifyNewlines_of_not_mem hreturn,
    String.ofList_toList]

theorem isFile_of_readText (h : files.readText p label = .ok text) :
    files.isFile p = true := by
  unfold readText at h
  split at h
  · cases h
  · next hbytes => rw [isFile, hbytes, Option.isSome_some]

end LuaCoverage.Files
