import Mathlib
import Scriptlet.Proofs.EntryPoints

/-!
# Laws of files

What a command may count on when it reads and writes files: reading leaves the files as they are
(`StableFiles`), and writing makes a text the content of one file or fails and leaves the files as
they are (`LawfulFiles`). What files there are is told by a view of the file system (`FileView`).

Files in memory have these laws. A text that was written is at the place that its path led to
before, because a plain file was put where no directory was, so every directory that the path leads
through is still there.
-/

namespace Scriptlet

/-! ## File systems -/

/-- Files that reading leaves as they are. -/
class StableFiles (σ : Type) [FileAccess (StateM σ)] : Prop where
  read_run_snd : ∀ (path : String) (files : σ),
    ((FileAccess.read path : StateM σ Content).run files).2 = files

/-- The files of a file system: the places that can hold one, what each place holds, and the place
that a path leads to. -/
class FileView (σ : Type) where
  Place : Type
  content? : σ → Place → Option ByteArray
  Leads : σ → String → Place → Prop

/-- The files before and after a text was made the content of the file that a path leads to. All
other files are the same. -/
def Written {σ : Type} [FileView σ] (before : σ) (path text : String) (after : σ) : Prop :=
  ∃ place, FileView.Leads after path place ∧
    FileView.content? after place = some text.toUTF8 ∧
    ∀ other, other ≠ place → FileView.content? after other = FileView.content? before other

/-- Files that are read as they are, and of which one is written as a whole or none. -/
class LawfulFiles (σ : Type) [FileAccess (StateM σ)] [FileView σ] : Prop
    extends StableFiles σ where
  read_eq_ok_iff : ∀ (path text : String) (files : σ),
    resultOn files (FileAccess.read path) = .ok text ↔
      ∃ place, FileView.Leads files path place ∧
        FileView.content? files place = some text.toUTF8
  write_error : ∀ (path text : String) (before after : σ) (error : FileError),
    (FileAccess.write path text : StateM σ _).run before = (.error error, after) → after = before
  write_ok : ∀ (path text : String) (before after : σ),
    (FileAccess.write path text : StateM σ _).run before = (.ok (), after) →
      Written before path text after

section

variable {σ : Type} [FileAccess (StateM σ)]

/-- What comes after reading a file finds the files as they were. -/
theorem run_read_bind [StableFiles σ] {α : Type} (path : String) (files : σ)
    (next : Content → StateM σ α) :
    (FileAccess.read path >>= next).run files =
      (next (resultOn files (FileAccess.read path))).run files := by
  rw [StateT.run_bind]
  exact congrArg (next (resultOn files (FileAccess.read path))).run
    (StableFiles.read_run_snd path files)

/-- What was written is read. -/
theorem Written.read_eq [FileView σ] [LawfulFiles σ] {before after : σ} {path text : String}
    (h : Written before path text after) : resultOn after (FileAccess.read path) = .ok text := by
  obtain ⟨place, hleads, hcontent, -⟩ := h
  exact (LawfulFiles.read_eq_ok_iff path text after).2 ⟨place, hleads, hcontent⟩

end

/-! ## Files in memory -/

/-- What is made of a result is made of its value. -/
theorem Except.exists_of_bind {ε α β : Type} {result : Except ε α}
    {make : α → Except ε β} {value : β} (h : result >>= make = .ok value) :
    ∃ found, result = .ok found ∧ make found = .ok value := by
  cases result with
  | ok found => exact ⟨found, rfl, h⟩
  | error error => cases h

namespace Store

variable {store after : Store} {place other there : FilePlace} {parts : List String}
  {path text : String}

/-- The place that a path leads to: a directory, if the path ends in a slash. -/
def resolve (store : Store) (path : String) : Except FileError FilePlace := do
  needPath path
  let place ← store.follow (.base path) (pathParts path)
  if path.endsWith "/" then
    store.needDirectory place
  return place

/-- The content of the file at a place. -/
def content? (store : Store) (place : FilePlace) : Option ByteArray :=
  match store.entry? place with
  | some (.file content) => some content
  | _ => none

/-- The text of what is found at a place. -/
def textOf : Option FileEntry → Except FileError String
  | some (.file content) =>
    match String.fromUTF8? content with
    | some text => .ok text
    | none => .error .notText
  | some .directory => .error .isDirectory
  | none => .error .missing

instance : FileView Store :=
  ⟨FilePlace, content?, fun store path place => store.resolve path = .ok place⟩

theorem needDirectory_eq_ok_iff :
    store.needDirectory place = .ok () ↔ store.entry? place = some .directory := by
  unfold needDirectory
  split <;> simp [*]

theorem content?_eq_some_iff {content : ByteArray} :
    store.content? place = some content ↔ store.entry? place = some (.file content) := by
  unfold content?
  cases store.entry? place with
  | none => simp
  | some entry => cases entry <;> simp

theorem fromUTF8?_eq_some_iff {content : ByteArray} :
    String.fromUTF8? content = some text ↔ content = text.toUTF8 := by
  unfold String.fromUTF8?
  constructor
  · intro h
    split at h <;> cases h
    rfl
  · rintro rfl
    exact dif_pos text.isValidUTF8

theorem textOf_eq_ok_iff {found : Option FileEntry} :
    textOf found = .ok text ↔ found = some (.file text.toUTF8) := by
  cases found with
  | none => simp [textOf]
  | some entry =>
      cases entry with
      | directory => simp [textOf]
      | file content =>
          rw [Option.some_inj, FileEntry.file.injEq, ← fromUTF8?_eq_some_iff, textOf]
          cases String.fromUTF8? content <;> simp

/-! ### Putting an entry -/

/-- Where an entry was put, it is. -/
theorem put_entry_self (h : place.isAround = false) (entry : FileEntry) :
    entry? (store.put place entry) place = some entry := by
  simp [put, entry?, h]

/-- Elsewhere nothing changes. -/
theorem put_entry_of_ne (h : other ≠ place) (entry : FileEntry) :
    entry? (store.put place entry) other = store.entry? other := by
  unfold entry? put
  rw [List.lookup_cons, beq_eq_false_iff_ne.2 h]

/-- A directory is still there if none is replaced. -/
theorem put_entry_directory (hplace : store.entry? place ≠ some .directory)
    (h : store.entry? other = some .directory) (entry : FileEntry) :
    entry? (store.put place entry) other = some .directory := by
  -- The place that is put to holds no directory, so it is another one.
  have hne : other ≠ place := fun heq => hplace (heq ▸ h)
  rw [put_entry_of_ne hne, h]

theorem follow_cons_eq_ok_iff {start : FilePlace} {part : String} :
    store.follow start (part :: parts) = .ok there ↔
      store.entry? start = some .directory ∧ part.utf8ByteSize ≤ nameLimit ∧
        store.follow (start.step part) parts = .ok there := by
  rw [follow, ← needDirectory_eq_ok_iff]
  cases store.needDirectory start with
  | error error =>
      refine iff_of_false (fun h => ?_) fun h => ?_
      · cases h
      · cases h.1
  | ok directory =>
      by_cases hlong : nameLimit < part.utf8ByteSize
      · rw [if_pos hlong]
        refine iff_of_false (fun h => ?_) fun h => absurd hlong (Nat.not_lt.2 h.2.1)
        cases h
      · rw [if_neg hlong]
        exact ⟨fun h => ⟨rfl, Nat.not_lt.1 hlong, h⟩, fun h => h.2.2⟩

/-- The parts of a path still lead where they led if no directory is replaced. -/
theorem follow_put (hplace : store.entry? place ≠ some .directory) (entry : FileEntry)
    {start : FilePlace} (h : store.follow start parts = .ok there) :
    (store.put place entry).follow start parts = .ok there := by
  induction parts generalizing start with
  | nil => exact h
  | cons part parts ih =>
      obtain ⟨hdirectory, hlength, hrest⟩ := follow_cons_eq_ok_iff.1 h
      exact follow_cons_eq_ok_iff.2
        ⟨put_entry_directory hplace hdirectory entry, hlength, ih hrest⟩

/-! ### Paths -/

theorem resolve_eq_ok_iff :
    store.resolve path = .ok place ↔
      needPath path = .ok () ∧ store.follow (.base path) (pathParts path) = .ok place ∧
        (path.endsWith "/" = true → store.entry? place = some .directory) := by
  rw [resolve, ← needDirectory_eq_ok_iff]
  cases needPath path with
  | error error =>
      refine iff_of_false (fun h => ?_) fun h => ?_
      · cases h
      · cases h.1
  | ok =>
      cases store.follow (.base path) (pathParts path) with
      | error error =>
          refine iff_of_false (fun h => ?_) fun h => ?_
          · cases h
          · cases h.2.1
      | ok found =>
          by_cases hslash : path.endsWith "/" = true
          · simp only [hslash, if_true, bind, Except.bind]
            cases hdirectory : store.needDirectory found with
            | error error =>
                refine iff_of_false (fun h => ?_) ?_
                · cases h
                · rintro ⟨-, hfound, hneeded⟩
                  cases hfound
                  cases hdirectory.symm.trans (hneeded trivial)
            | ok =>
                refine ⟨fun h => ⟨trivial, h, fun _ => ?_⟩, fun h => h.2.1⟩
                cases h
                exact hdirectory
          · simp [hslash, bind, Except.bind, pure, Except.pure]

/-- A path still leads where it led if no directory is replaced. -/
theorem resolve_put (hplace : store.entry? place ≠ some .directory) (entry : FileEntry)
    (h : store.resolve path = .ok there) : (store.put place entry).resolve path = .ok there := by
  obtain ⟨hpath, hfollow, hslash⟩ := resolve_eq_ok_iff.1 h
  exact resolve_eq_ok_iff.2 ⟨hpath, follow_put hplace entry hfollow, fun h =>
    put_entry_directory hplace (hslash h) entry⟩

/-! ### Reading and writing -/

/-- What is read is the text of what the path leads to. -/
theorem read_eq (store : Store) (path : String) :
    store.read path = (do textOf (store.entry? (← store.resolve path))) := by
  rw [read, resolve]
  cases needPath path with
  | error error => rfl
  | ok =>
      cases store.follow (.base path) (pathParts path) with
      | error error => rfl
      | ok place =>
          by_cases hslash : path.endsWith "/" = true
          · simp only [hslash, if_true, bind, Except.bind]
            cases store.needDirectory place <;> rfl
          · simp only [hslash, bind, Except.bind]
            rfl

theorem read_eq_ok_iff :
    store.read path = .ok text ↔
      ∃ place, store.resolve path = .ok place ∧ store.content? place = some text.toUTF8 := by
  rw [read_eq]
  cases store.resolve path with
  | error error =>
      refine iff_of_false (fun h => ?_) ?_
      · cases h
      · rintro ⟨place, h, -⟩
        cases h
  | ok place =>
      show textOf (store.entry? place) = .ok text ↔ _
      simp [textOf_eq_ok_iff, content?_eq_some_iff]

/-- What is written replaces no directory, and is put where the path leads. -/
theorem exists_of_write_eq_ok (h : store.write path text = .ok after) :
    ∃ place, store.resolve path = .ok place ∧ store.entry? place ≠ some .directory ∧
      after = store.put place (.file text.toUTF8) := by
  simp only [write] at h
  obtain ⟨_, hpath, h⟩ := Except.exists_of_bind h
  by_cases hslash : path.endsWith "/" = true
  · rw [if_pos hslash] at h
    obtain ⟨parent, -, h⟩ := Except.exists_of_bind h
    obtain ⟨-, -, h⟩ := Except.exists_of_bind h
    cases h
  · rw [if_neg hslash] at h
    obtain ⟨place, hfollow, h⟩ := Except.exists_of_bind h
    refine ⟨place, resolve_eq_ok_iff.2 ⟨hpath, hfollow, fun hends => absurd hends hslash⟩, ?_⟩
    split at h
    · cases h
    · next hentry =>
      cases h
      exact ⟨hentry, rfl⟩

/-- Where no directory is, a place has a name of its own. -/
theorem isAround_eq_false (h : store.entry? place ≠ some .directory) : place.isAround = false := by
  refine Bool.eq_false_iff.2 fun haround => h ?_
  unfold entry?
  exact if_pos haround

theorem written_of_write_eq_ok (h : store.write path text = .ok after) :
    Written store path text after := by
  obtain ⟨place, hresolve, hplace, rfl⟩ := exists_of_write_eq_ok h
  refine ⟨place, resolve_put hplace _ hresolve, ?_, fun other hne => ?_⟩
  · exact content?_eq_some_iff.2 (put_entry_self (isAround_eq_false hplace) _)
  · show (store.put place _).content? other = store.content? other
    rw [content?, content?, put_entry_of_ne hne]

/-- Writing a file in memory gives the new files or an error. -/
theorem run_write (path text : String) (before : Store) :
    (FileAccess.write path text : StateM Store _).run before =
      match before.write path text with
      | .ok after => (.ok (), after)
      | .error error => (.error error, before) := by
  show (match before.write path text with
    | .ok store => (do set store; return .ok () : StateM Store (Except FileError Unit))
    | .error error => return .error error).run before = _
  cases before.write path text <;> rfl

end Store

/-- Files in memory are read as they are, and one is written as a whole or none. -/
instance : LawfulFiles Store where
  read_run_snd _ _ := rfl
  read_eq_ok_iff _ _ _ := Store.read_eq_ok_iff
  write_error path text before after error h := by
    rw [Store.run_write] at h
    cases hwrite : before.write path text <;> rw [hwrite] at h <;> cases h
    rfl
  write_ok path text before after h := by
    rw [Store.run_write] at h
    cases hwrite : before.write path text <;> rw [hwrite] at h <;> cases h
    exact Store.written_of_write_eq_ok hwrite

end Scriptlet
