import LetDef.Proofs.CommandLine.Passes

/-!
# Ids stay valid

The id of a file is made from the number of files that were there before it, and it is looked up by
its number in a store that may have grown since.  Nothing but the way in which stores grow keeps the
two together: a load adds its file at the end, and a load that fails adds nothing.  So the files of
a store are those of the loads that have succeeded, in order (`FileStore.files_loadEach`), and what
an id has once named it names for ever (`FileStore.get?_loadEach`).
-/

namespace LetDef

open CommandLine

/-- The file that is loaded from a source, if the source could be read. -/
def CommandLine.Source.file? (source : Source) : Option SourceFile :=
  source.text.map fun text => ⟨source.path, text⟩

namespace FileStore

variable {store : FileStore} {id : FileId} {file : SourceFile}

/-- What trying to load from a source answers, and the store after it. -/
def loadFrom (store : FileStore) (source : Source) : Option FileId × FileStore :=
  store.loadIfRead source.path source.text

/-- The store after trying to load from each of the sources. -/
def loadEach (store : FileStore) (sources : List Source) : FileStore :=
  sources.foldl (fun store source => (store.loadFrom source).2) store

lemma files_loadFrom (store : FileStore) (source : Source) :
    (store.loadFrom source).2.files = store.files ++ source.file?.toList := by
  obtain ⟨path, _ | text⟩ := source
  · exact (List.append_nil store.files).symm
  · exact files_load store path text

/-- What is got under an id is got under it after any further load. -/
lemma get?_loadFrom (h : store.get? id = some file) (source : Source) :
    (store.loadFrom source).2.get? id = some file := by
  obtain ⟨path, _ | text⟩ := source
  · exact h
  · exact get?_load_of_get? path text h

theorem files_loadEach (store : FileStore) (sources : List Source) :
    (store.loadEach sources).files = store.files ++ sources.filterMap Source.file? := by
  induction sources generalizing store with
  | nil => exact (List.append_nil store.files).symm
  | cons source sources ih =>
    have hstep := ih (store.loadFrom source).2
    rw [files_loadFrom, List.append_assoc] at hstep
    rw [loadEach, List.foldl_cons]
    refine hstep.trans (congrArg (store.files ++ ·) ?_)
    cases hfile : source.file? <;> simp [hfile]

theorem get?_loadEach (h : store.get? id = some file) (sources : List Source) :
    (store.loadEach sources).get? id = some file := by
  induction sources generalizing store with
  | nil => exact h
  | cons source sources ih => exact ih (get?_loadFrom h source)

/-- Loading all sources of a run is trying to load from each of them. -/
lemma store_loadAll {L : Type} (sources : List Source) (store : FileStore) (c : Collector L) :
    (loadAll sources store c).1 = store.loadEach sources := by
  induction sources generalizing store c with
  | nil => rfl
  | cons source sources ih =>
    obtain ⟨path, _ | text⟩ := source
    · exact ih store _
    · exact ih (store.load path text).2 c

/-- The files of a store are numbered from one on, without a gap. -/
lemma number_entries (store : FileStore) :
    store.entries.map (fun e => e.1.number) = List.range' 1 store.files.length := by
  rw [entries, List.map_map]
  have hnumber : ((fun e : FileId × SourceFile => e.1.number) ∘
      fun p : SourceFile × Nat => ((⟨p.2⟩, p.1) : FileId × SourceFile)) = (1 + ·) ∘ Prod.snd :=
    funext fun p => Nat.add_comm p.2 1
  rw [hnumber, ← List.map_map, List.zipIdx_map_snd, List.map_add_range']

/-- The store keeps faith with the loads from the sources, which it has come about by. -/
structure Names (sources : List Source) (store : FileStore) : Prop where
  /-- A further load that fails answers nothing and changes nothing. -/
  failed : ∀ source : Source, source.text = none → store.loadFrom source = (none, store)
  /-- One that succeeds answers with its number among the loads that have succeeded, and however
  many loads follow, this id goes on naming the file. -/
  loaded : ∀ (source : Source) (text : String), source.text = some text →
    ∃ id later, store.loadFrom source = (some id, later) ∧
      id.number = (sources.filterMap Source.file?).length + 1 ∧
      ∀ after, (later.loadEach after).get? id = some ⟨source.path, text⟩
  /-- The store lists the files of the loads that have succeeded, in order. -/
  listed : store.entries.map Prod.snd = sources.filterMap Source.file?
  /-- They are numbered from one on. -/
  numbered : store.entries.map (fun e => e.1.number) =
    List.range' 1 (sources.filterMap Source.file?).length
  /-- Each of them is got under the id that it is listed with. -/
  got : ∀ e ∈ store.entries, store.get? e.1 = some e.2

/-- Ids stay valid whatever is loaded, and whatever cannot be. -/
theorem names_loadEach (sources : List Source) : (empty.loadEach sources).Names sources := by
  have hfiles : (empty.loadEach sources).files = sources.filterMap Source.file? :=
    files_loadEach empty sources
  refine ⟨?_, ?_, ?_, ?_, fun e he => get?_of_mem_entries he⟩
  · rintro ⟨path, _⟩ rfl
    rfl
  · rintro ⟨path, _⟩ text rfl
    refine ⟨_, _, rfl, ?_, fun after => get?_loadEach (get?_load_self _ path text) after⟩
    rw [← hfiles]
    rfl
  · rw [map_snd_entries, hfiles]
  · rw [number_entries, hfiles]

end FileStore

end LetDef
