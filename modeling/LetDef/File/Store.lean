/-!
# Loaded files

A store keeps the texts of files in the order in which they were loaded.  A `FileId` is a place in
that order, so it goes on naming the same file however many others are loaded later.  Files may have
the same path; each time one is loaded it becomes an entry of its own.
-/

namespace LetDef

/-- The place of a file in a store. -/
structure FileId where
  /-- How many files were loaded before it. -/
  index : Nat
deriving DecidableEq

/-- The number that a file is called by, counted from one. -/
def FileId.number (id : FileId) : Nat := id.index + 1

/-- A file that was loaded. -/
structure SourceFile where
  /-- The path that was asked for. -/
  path : String
  /-- What the file held. -/
  text : String
deriving DecidableEq

/-- The files that were loaded, in order. -/
structure FileStore where
  /-- The files, in order. -/
  files : List SourceFile

namespace FileStore

/-- A store without files. -/
def empty : FileStore := ⟨[]⟩

/-- Adds a file at the end and names it. -/
def load (store : FileStore) (path text : String) : FileId × FileStore :=
  (⟨store.files.length⟩, ⟨store.files ++ [⟨path, text⟩]⟩)

/-- Adds a file if its text could be read; else there is nothing to name and nothing changes. -/
def loadIfRead (store : FileStore) (path : String) (text : Option String) :
    Option FileId × FileStore :=
  match text with
  | none => (none, store)
  | some text =>
    let (id, store) := store.load path text
    (some id, store)

/-- The file that an id names, if the store has so many files. -/
def get? (store : FileStore) (id : FileId) : Option SourceFile := store.files[id.index]?

/-- All files with their ids, in order. -/
def entries (store : FileStore) : List (FileId × SourceFile) :=
  store.files.zipIdx.map fun (file, index) => (⟨index⟩, file)

@[simp] theorem files_load (store : FileStore) (path text : String) :
    (store.load path text).2.files = store.files ++ [⟨path, text⟩] := rfl

/-- What was just loaded can be got under its id. -/
theorem get?_load_self (store : FileStore) (path text : String) :
    (store.load path text).2.get? (store.load path text).1 = some ⟨path, text⟩ := by
  simp [load, get?]

/-- Loading changes nothing about the files loaded before. -/
theorem get?_load_of_get? {store : FileStore} {id : FileId} {file : SourceFile} (path text : String)
    (h : store.get? id = some file) : (store.load path text).2.get? id = some file := by
  have hlt : id.index < store.files.length := by
    simp only [get?] at h
    exact (List.getElem?_eq_some_iff.1 h).1
  simpa [load, get?, List.getElem?_append_left hlt] using h

end FileStore

end LetDef
