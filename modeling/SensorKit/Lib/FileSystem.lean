import Mathlib.Data.List.Basic

/-!
# A file system of plain files

Names stand for files. Opening a name for writing truncates its file or makes a new one; what is
appended then goes to the opened file, whatever its name has become; renaming moves a file, in
place of the one that had the new name. No file has two names.
-/

namespace SensorKit.Lib

variable {P B : Type*}

/-- Files by number, the names that they have, and what they hold. -/
structure FileSystem (P B : Type*) where
  file : P → Option ℕ
  data : ℕ → List B
  next : ℕ
  made : ∀ (p : P) (h : ℕ), file p = some h → h < next
  unlinked : ∀ (p q : P) (h : ℕ), file p = some h → file q = some h → p = q

namespace FileSystem

/-- No files. -/
def empty : FileSystem P B where
  file _ := none
  data _ := []
  next := 0
  made := by simp
  unlinked := by simp

variable {fs fs' : FileSystem P B} {p q r : P} {h h' : ℕ} {bytes c : List B}

/-- What the file of that name holds. -/
def contents (fs : FileSystem P B) (p : P) : Option (List B) :=
  (fs.file p).map fs.data

theorem contents_of_file (named : fs.file p = some h) : fs.contents p = some (fs.data h) := by
  unfold contents
  rw [named]
  rfl

/-- Append to an opened file. -/
def append (fs : FileSystem P B) (h : ℕ) (bytes : List B) : FileSystem P B :=
  { fs with data := Function.update fs.data h (fs.data h ++ bytes) }

theorem contents_append_self (named : fs.file p = some h) :
    (fs.append h bytes).contents p = some (fs.data h ++ bytes) := by
  have kept : (fs.append h bytes).file p = some h := named
  rw [contents_of_file kept]
  exact congrArg some (Function.update_self ..)

/-- Only the name of the opened file sees what is appended to it. -/
theorem contents_append_of_ne (named : fs.file p = some h) (ne : q ≠ p) :
    (fs.append h bytes).contents q = fs.contents q := by
  unfold contents append
  cases there : fs.file q with
  | none => rw [Option.map_none, Option.map_none]
  | some h' =>
    have apart : h' ≠ h := by
      rintro rfl
      exact ne (fs.unlinked q p h' there named)
    rw [Option.map_some, Option.map_some]
    exact congrArg some (Function.update_of_ne apart ..)

variable [DecidableEq P]

/-- Open a name for writing: its file, now empty, or a new one. -/
def truncate (fs : FileSystem P B) (p : P) : FileSystem P B × ℕ :=
  match named : fs.file p with
  | some h => ({ fs with data := Function.update fs.data h [] }, h)
  | none =>
    ({ file := Function.update fs.file p (some fs.next)
       data := Function.update fs.data fs.next []
       next := fs.next + 1
       made := by
        intro q h there
        rw [Function.update_apply] at there
        split_ifs at there
        · cases there
          omega
        · have less := fs.made q h there
          omega
       unlinked := by
        intro q r h there there'
        rw [Function.update_apply] at there there'
        split_ifs at there there' with first second second
        · exact first.trans second.symm
        · cases there
          exact absurd (fs.made r _ there') (Nat.lt_irrefl _)
        · cases there'
          exact absurd (fs.made q _ there) (Nat.lt_irrefl _)
        · exact fs.unlinked q r h there there' }, fs.next)

theorem truncate_file : (fs.truncate p).1.file = Function.update fs.file p (some (fs.truncate p).2) := by
  unfold truncate
  split
  · rename_i h named
    exact (Function.update_eq_self_iff.2 named.symm).symm
  · rfl

theorem truncate_data : (fs.truncate p).1.data = Function.update fs.data (fs.truncate p).2 [] := by
  unfold truncate
  split <;> rfl

theorem truncate_file_self : (fs.truncate p).1.file p = some (fs.truncate p).2 := by
  rw [truncate_file, Function.update_self]

theorem truncate_file_of_ne (ne : q ≠ p) : (fs.truncate p).1.file q = fs.file q := by
  rw [truncate_file, Function.update_of_ne ne]

theorem contents_truncate_self : (fs.truncate p).1.contents p = some [] := by
  rw [contents_of_file truncate_file_self, truncate_data, Function.update_self]

/-- Other names still show what they did. -/
theorem contents_truncate_of_ne (ne : q ≠ p) : (fs.truncate p).1.contents q = fs.contents q := by
  have named : (fs.truncate p).1.file q = fs.file q := truncate_file_of_ne ne
  unfold contents
  rw [named, truncate_data]
  cases there : fs.file q with
  | none => rw [Option.map_none, Option.map_none]
  | some h =>
    have apart : h ≠ (fs.truncate p).2 := by
      rintro rfl
      exact ne ((fs.truncate p).1.unlinked q p _ (named.trans there) truncate_file_self)
    rw [Option.map_some, Option.map_some, Function.update_of_ne apart]

/-- Move the file of a name to another name; there has to be one. -/
def rename (fs : FileSystem P B) (p q : P) : Option (FileSystem P B) :=
  match named : fs.file p with
  | none => none
  | some h => some
    { fs with
      file := Function.update (Function.update fs.file p none) q (some h)
      made := by
        intro r h' there
        simp only [Function.update_apply] at there
        split_ifs at there
        · cases there
          exact fs.made p h named
        · exact fs.made r h' there
      unlinked := by
        intro r r' h' there there'
        simp only [Function.update_apply] at there there'
        have alone := fs.unlinked
        by_cases moved : r = q
        · by_cases moved' : r' = q
          · exact moved.trans moved'.symm
          · grind
        · by_cases moved' : r' = q <;> grind }

section

variable (renamed : fs.rename p q = some fs')
include renamed

theorem rename_eq_some : ∃ h, fs.file p = some h ∧
    fs'.file = Function.update (Function.update fs.file p none) q (some h) ∧ fs'.data = fs.data := by
  unfold rename at renamed
  split at renamed
  · cases renamed
  · rename_i h named
    cases renamed
    exact ⟨h, named, rfl, rfl⟩

theorem contents_rename_self : fs'.contents q = fs.contents p := by
  obtain ⟨h, named, moved, same⟩ := rename_eq_some renamed
  have there : fs'.file q = some h := by rw [moved, Function.update_self]
  rw [contents_of_file there, contents_of_file named, same]

theorem contents_rename_old (ne : p ≠ q) : fs'.contents p = none := by
  obtain ⟨h, -, moved, -⟩ := rename_eq_some renamed
  unfold contents
  rw [moved, Function.update_of_ne ne, Function.update_self]
  rfl

theorem rename_file_of_ne (ne : r ≠ p) (ne' : r ≠ q) : fs'.file r = fs.file r := by
  obtain ⟨h, -, moved, -⟩ := rename_eq_some renamed
  rw [moved, Function.update_of_ne ne', Function.update_of_ne ne]

theorem contents_rename_of_ne (ne : r ≠ p) (ne' : r ≠ q) : fs'.contents r = fs.contents r := by
  obtain ⟨h, -, -, same⟩ := rename_eq_some renamed
  unfold contents
  rw [rename_file_of_ne renamed ne ne', same]

end

end FileSystem

end SensorKit.Lib
