import Mathlib
import LetDef.CommandLine.Run

/-!
# What passes collect

A pass goes over a list, keeps what succeeds and collects what fails (`pass_eq`).  A run begins each
pass with a collector that holds no error, so this module says for each pass of a run what it keeps
and which diagnostics it collects, starting from nothing.

What is collected about a file bears the id of the file and not its path.  The ids of a store lead
back to its files (`get?_of_mem_entries`), so the lines that the user sees can be said from the
files alone (`lines_faults`).

From this follows what a run has in hand when it stops, for each pass that can be its last one
(`ending_of_unloaded` and the theorems after it).
-/

namespace LetDef

/-! ## Attempts -/

/-- What an attempt fails with, if it fails. -/
def failure? {ε α : Type} : Except ε α → Option ε
  | .ok _ => none
  | .error e => some e

section Attempts

variable {ε α β : Type} {f : α → Except ε β} {as : List α} {bs : List β}

lemma failure?_eq_none_iff {answer : Except ε α} :
    failure? answer = none ↔ ∃ a, answer = .ok a := by
  cases answer <;> simp [failure?]

/-- Where nothing fails, all that is attempted is kept. -/
lemma filterMap_toOption_of_forall₂ (h : List.Forall₂ (fun a b => f a = .ok b) as bs) :
    as.filterMap (fun a => (f a).toOption) = bs := by
  induction h with
  | nil => rfl
  | cons hab _ ih => rw [List.filterMap_cons, hab, ih]; rfl

lemma filterMap_failure?_of_forall₂ (h : List.Forall₂ (fun a b => f a = .ok b) as bs) :
    as.filterMap (fun a => failure? (f a)) = [] := by
  induction h with
  | nil => rfl
  | cons hab _ ih => rw [List.filterMap_cons, hab, ih]; rfl

/-- Everything succeeds, or something fails. -/
lemma exists_forall₂_or_exists_error (f : α → Except ε β) (as : List α) :
    (∃ bs, List.Forall₂ (fun a b => f a = .ok b) as bs) ∨ ∃ a ∈ as, ∃ e, f a = .error e := by
  induction as with
  | nil => exact .inl ⟨[], .nil⟩
  | cons a as ih =>
    cases ha : f a with
    | error e => exact .inr ⟨a, List.mem_cons_self, e, ha⟩
    | ok b =>
      rcases ih with ⟨bs, hbs⟩ | ⟨a', ha', e, he⟩
      · exact .inl ⟨b :: bs, .cons ha hbs⟩
      · exact .inr ⟨a', List.mem_cons_of_mem a ha', e, he⟩

lemma filterMap_failure?_ne_nil (h : ∃ a ∈ as, ∃ e, f a = .error e) :
    as.filterMap (fun a => failure? (f a)) ≠ [] := by
  obtain ⟨a, ha, e, he⟩ := h
  exact List.ne_nil_of_mem (List.mem_filterMap.2 ⟨a, ha, by rw [he]; rfl⟩)

end Attempts

/-! ## What is collected -/

namespace Collector

variable {L : Type}

lemma diagnostics_foldl_add (ds : List Diagnostic) (c : Collector L) :
    (ds.foldl add c).diagnostics = c.diagnostics ++ ds := by
  induction ds generalizing c with
  | nil => exact (List.append_nil _).symm
  | cons d ds ih => rw [List.foldl_cons, ih, List.append_cons]; rfl

lemma errorCount_foldl_add {ds : List Diagnostic} (h : ∀ d ∈ ds, d.severity = .error)
    (c : Collector L) : (ds.foldl add c).errorCount = c.errorCount + ds.length := by
  induction ds generalizing c with
  | nil => rfl
  | cons d ds ih =>
    obtain ⟨hd, hds⟩ := List.forall_mem_cons.1 h
    have hadd : (c.add d).errorCount = c.errorCount + 1 := by simp [add, hd]
    rw [List.foldl_cons, ih hds, hadd, List.length_cons]
    omega

/-- A collector that has collected the diagnostics and has no listener. -/
def ofList (ds : List Diagnostic) : Collector L := ds.foldl add empty

@[simp] lemma ofList_nil : (ofList [] : Collector L) = empty := rfl

@[simp] lemma hasErrors_empty : (empty : Collector L).hasErrors = false := rfl

lemma diagnostics_ofList (ds : List Diagnostic) : (ofList ds : Collector L).diagnostics = ds :=
  diagnostics_foldl_add ds empty

/-- A collector of errors has met an error unless it is empty. -/
lemma hasErrors_ofList {ds : List Diagnostic} (h : ∀ d ∈ ds, d.severity = .error) :
    (ofList ds : Collector L).hasErrors = !ds.isEmpty := by
  rw [hasErrors, ofList, errorCount_foldl_add h]
  cases ds <;> simp [empty]

end Collector

namespace FileStore

lemma map_snd_entries (store : FileStore) : store.entries.map Prod.snd = store.files := by
  have hsnd : (Prod.snd ∘ fun (p : SourceFile × Nat) => ((⟨p.2⟩, p.1) : FileId × SourceFile)) =
      Prod.fst := rfl
  rw [entries, List.map_map, hsnd, List.zipIdx_map_fst]

/-- What is done for each entry by its file alone is done for the files. -/
lemma filterMap_entries {β : Type} (store : FileStore) (g : SourceFile → Option β) :
    store.entries.filterMap (fun e => g e.2) = store.files.filterMap g := by
  rw [← store.map_snd_entries, List.filterMap_map]
  rfl

/-- An id leads back to the file that it came with. -/
lemma get?_of_mem_entries {store : FileStore} {e : FileId × SourceFile} (h : e ∈ store.entries) :
    store.get? e.1 = some e.2 := by
  obtain ⟨⟨file, index⟩, hmem, rfl⟩ := List.mem_map.1 h
  exact (List.mem_zipIdx_iff_getElem?).1 hmem

end FileStore

namespace CommandLine

variable {L : Type}

/-- A pass keeps what succeeds and collects what fails, both in order. -/
lemma pass_eq {α β : Type} (f : α → Except Diagnostic β) (as : List α) (c : Collector L) :
    pass f as c = (as.filterMap fun a => (f a).toOption,
      (as.filterMap fun a => failure? (f a)).foldl Collector.add c) := by
  induction as generalizing c with
  | nil => rfl
  | cons a as ih =>
    rw [pass]
    cases ha : f a with
    | ok b => simp [ih, ha, failure?, Except.toOption]
    | error d => simp [ih, ha, failure?, Except.toOption]

/-- What a run leaves behind when all it has collected are errors. -/
lemma report_ofList {ds : List Diagnostic} (h : ∀ d ∈ ds, d.severity = .error)
    (store : FileStore) (output : String) :
    (⟨store, .ofList ds, output⟩ : Ending).report =
      ⟨ds.isEmpty, output, String.join (ds.map fun d => d.render store ++ "\n")⟩ := by
  simp only [Ending.report, Collector.hasErrors_ofList h, Collector.diagnostics_ofList,
    Bool.not_not]

/-! ## Lines for the user -/

/-- The line about a source that could not be read. -/
def unreadLine? (source : Source) : Option String :=
  match source.text with
  | none => some ("ERROR could not load file " ++ source.path ++ "\n")
  | some _ => none

/-- The line about what is wrong with a file: its path, the line and the column, and the message. -/
def faultLine? {α : Type} (file : SourceFile) (answer : Except Fault α) : Option String :=
  (failure? answer).map fun fault =>
    "ERROR " ++ file.path ++ ":" ++ (Position.locate file.text fault.offset).render ++ " " ++
      fault.message ++ "\n"

/-! ## Loading -/

/-- A source that could be read. -/
def Source.ofFile (file : SourceFile) : Source := ⟨file.path, some file.text⟩

/-- What is collected about a source that could not be read. -/
def unloaded? (source : Source) : Option Diagnostic :=
  match source.text with
  | none => some (unreadable source.path)
  | some _ => none

lemma collector_loadAll (sources : List Source) (store : FileStore) (c : Collector L) :
    (loadAll sources store c).2 = (sources.filterMap unloaded?).foldl Collector.add c := by
  induction sources generalizing store c with
  | nil => rfl
  | cons source sources ih =>
    obtain ⟨path, _ | text⟩ := source
    · exact ih store (c.add (unreadable path))
    · exact ih (store.load path text).2 c

lemma loadAll_ofFile (files : List SourceFile) (store : FileStore) (c : Collector L) :
    loadAll (files.map .ofFile) store c = (⟨store.files ++ files⟩, c) := by
  induction files generalizing store with
  | nil => rw [List.append_nil]; rfl
  | cons file files ih =>
    rw [List.append_cons]
    exact ih (store.load file.path file.text).2

/-- A run over sources that could all be read begins with their files in the store. -/
lemma loadAll_ofFile_empty (files : List SourceFile) (c : Collector L) :
    loadAll (files.map .ofFile) .empty c = (⟨files⟩, c) :=
  loadAll_ofFile files .empty c

lemma exists_unloaded_or_eq_map_ofFile (sources : List Source) :
    (∃ source ∈ sources, source.text = none) ∨ ∃ files : List SourceFile,
      sources = files.map .ofFile := by
  induction sources with
  | nil => exact .inr ⟨[], rfl⟩
  | cons source sources ih =>
    obtain ⟨path, _ | text⟩ := source
    · exact .inl ⟨_, List.mem_cons_self, rfl⟩
    rcases ih with ⟨source, hmem, hnone⟩ | ⟨files, rfl⟩
    · exact .inl ⟨source, List.mem_cons_of_mem _ hmem, hnone⟩
    · exact .inr ⟨⟨path, text⟩ :: files, rfl⟩

lemma isEmpty_unloaded {sources : List Source} (h : ∃ source ∈ sources, source.text = none) :
    (sources.filterMap unloaded?).isEmpty = false := by
  obtain ⟨⟨path, _⟩, hmem, rfl⟩ := h
  exact List.isEmpty_eq_false_iff.2
    (List.ne_nil_of_mem (List.mem_filterMap.2 ⟨⟨path, none⟩, hmem, rfl⟩))

lemma severity_unloaded (sources : List Source) :
    ∀ d ∈ sources.filterMap unloaded?, d.severity = .error := by
  intro d hd
  obtain ⟨⟨path, _ | text⟩, -, h⟩ := List.mem_filterMap.1 hd
  · obtain rfl := Option.some.inj h
    rfl
  · exact absurd h (by simp [unloaded?])

lemma lines_unloaded (sources : List Source) (store : FileStore) :
    ((sources.filterMap unloaded?).map fun d => d.render store ++ "\n") =
      sources.filterMap unreadLine? := by
  rw [List.map_filterMap]
  refine List.filterMap_congr fun ⟨path, text⟩ _ => ?_
  cases text <;> rfl

/-! ## Passes over files that were loaded -/

/-- What is collected about the files of a store when each is asked for an answer. -/
def faults {α : Type} (store : FileStore) (answer : SourceFile → Except Fault α) :
    List Diagnostic :=
  store.entries.filterMap fun e => (failure? (answer e.2)).map (Diagnostic.ofFault e.1)

section Faults

variable {α : Type} (store : FileStore) (answer : SourceFile → Except Fault α)

lemma severity_faults : ∀ d ∈ faults store answer, d.severity = .error := by
  intro d hd
  obtain ⟨e, -, h⟩ := List.mem_filterMap.1 hd
  obtain ⟨fault, -, rfl⟩ := Option.map_eq_some_iff.1 h
  rfl

/-- The line about a fault has the path of the file and the line and the column of the place. -/
lemma render_ofFault {id : FileId} {file : SourceFile} (h : store.get? id = some file)
    (fault : Fault) : (Diagnostic.ofFault id fault).render store ++ "\n" =
      "ERROR " ++ file.path ++ ":" ++ (Position.locate file.text fault.offset).render ++ " " ++
        fault.message ++ "\n" := by
  simp only [Diagnostic.ofFault, Diagnostic.render, Location.render, h, Severity.label,
    String.append_assoc]
  rfl

/-- What is collected about files comes out as lines in the order of the files. -/
lemma lines_faults : ((faults store answer).map fun d => d.render store ++ "\n") =
    store.files.filterMap fun file => faultLine? file (answer file) := by
  rw [faults, List.map_filterMap, ← store.filterMap_entries]
  refine List.filterMap_congr fun e he => ?_
  rw [Option.map_map]
  exact congrArg (Option.map · (failure? (answer e.2)))
    (funext (render_ofFault store (FileStore.get?_of_mem_entries he)))

lemma isEmpty_faults_iff : (faults store answer).isEmpty ↔
    store.files.filterMap (fun file => failure? (answer file)) = [] := by
  rw [List.isEmpty_iff, faults, ← store.filterMap_entries]
  simp only [List.filterMap_eq_nil_iff, Option.map_eq_none_iff]

lemma isEmpty_faults {files : List SourceFile} {answer : SourceFile → Except Fault α}
    (h : ∃ file ∈ files, ∃ fault, answer file = .error fault) :
    (faults ⟨files⟩ answer).isEmpty = false :=
  Bool.eq_false_iff.2 fun hempty =>
    filterMap_failure?_ne_nil h ((isEmpty_faults_iff ⟨files⟩ answer).1 hempty)

/-- Where a file is refused, the pass has met an error. -/
lemma hasErrors_faults {files : List SourceFile} {answer : SourceFile → Except Fault α}
    (h : ∃ file ∈ files, ∃ fault, answer file = .error fault) :
    (Collector.ofList (faults ⟨files⟩ answer) : Collector L).hasErrors := by
  rw [Collector.hasErrors_ofList (severity_faults _ _), isEmpty_faults h]
  rfl

lemma faults_eq_nil {files : List SourceFile} {answer : SourceFile → Except Fault α}
    {answers : List α} (h : List.Forall₂ (fun file a => answer file = .ok a) files answers) :
    faults ⟨files⟩ answer = [] :=
  List.isEmpty_iff.1 ((isEmpty_faults_iff ⟨files⟩ answer).2 (filterMap_failure?_of_forall₂ h))

end Faults

/-! ### Cutting into tokens -/

lemma failure?_tokenizeFile (e : FileId × SourceFile) :
    failure? (tokenizeFile e) = (failure? (tokenize e.2.text)).map (Diagnostic.ofFault e.1) := by
  obtain ⟨id, file⟩ := e
  rw [tokenizeFile]
  cases tokenize file.text <;> rfl

lemma toOption_tokenizeFile (e : FileId × SourceFile) :
    (tokenizeFile e).toOption = (tokenize e.2.text).toOption.map (Prod.mk e.1) := by
  obtain ⟨id, file⟩ := e
  rw [tokenizeFile]
  cases tokenize file.text <;> rfl

/-- The token lists of all files of a store that can be cut, with the ids of the files. -/
def tokenLists (store : FileStore) : List (FileId × List Token) :=
  store.entries.filterMap fun e => (tokenize e.2.text).toOption.map (Prod.mk e.1)

/-- What the first pass over the texts keeps and collects. -/
lemma pass_tokenizeFile (store : FileStore) :
    pass tokenizeFile store.entries (Collector.empty : Collector L) =
      (tokenLists store, .ofList (faults store fun file => tokenize file.text)) := by
  simp only [pass_eq, failure?_tokenizeFile, toOption_tokenizeFile, tokenLists, faults,
    Collector.ofList]

lemma map_snd_tokenLists (store : FileStore) :
    (tokenLists store).map Prod.snd =
      store.files.filterMap fun f => (tokenize f.text).toOption := by
  rw [tokenLists, List.map_filterMap, ← store.filterMap_entries]
  refine List.filterMap_congr fun e _ => ?_
  rw [Option.map_map]
  exact Option.map_id'

/-! ### Reading programs -/

lemma failure?_readFile (limit : Nat) (e : FileId × List Token) :
    failure? (readFile limit e) =
      (failure? (Program.ofTokens limit e.2)).map (Diagnostic.ofFault e.1) := by
  obtain ⟨id, tokens⟩ := e
  rw [readFile]
  cases Program.ofTokens limit tokens <;> rfl

lemma toOption_readFile (limit : Nat) (e : FileId × List Token) :
    (readFile limit e).toOption = (Program.ofTokens limit e.2).toOption := by
  obtain ⟨id, tokens⟩ := e
  rw [readFile]
  cases Program.ofTokens limit tokens <;> rfl

lemma ofText_of_tokenize {text : String} {tokens : List Token} (h : tokenize text = .ok tokens)
    (limit : Nat) : Program.ofText limit text = Program.ofTokens limit tokens := by
  rw [Program.ofText, h]
  rfl

/-- When all files could be cut, the next pass finds in their token lists what there is to find in
their texts. -/
lemma filterMap_tokenLists {α : Type} {store : FileStore} {lists : List (List Token)}
    (h : List.Forall₂ (fun file tokens => tokenize file.text = .ok tokens) store.files lists)
    (limit : Nat) (g : FileId → Except Fault Program → Option α) :
    (tokenLists store).filterMap (fun e => g e.1 (Program.ofTokens limit e.2)) =
      store.entries.filterMap fun e => g e.1 (Program.ofText limit e.2.text) := by
  rw [tokenLists, List.filterMap_filterMap]
  refine List.filterMap_congr fun e he => ?_
  have hfile : e.2 ∈ store.files := by
    rw [← store.map_snd_entries]
    exact List.mem_map_of_mem he
  have hnone := List.filterMap_eq_nil_iff.1 (filterMap_failure?_of_forall₂ h) e.2 hfile
  obtain ⟨tokens, htokens⟩ := failure?_eq_none_iff.1 hnone
  rw [ofText_of_tokenize htokens, htokens]
  rfl

/-- What the second pass keeps and collects, said from the texts. -/
lemma pass_readFile (store : FileStore) {lists : List (List Token)}
    (h : List.Forall₂ (fun file tokens => tokenize file.text = .ok tokens) store.files lists)
    (limit : Nat) :
    pass (readFile limit) (tokenLists store) (Collector.empty : Collector L) =
      (store.files.filterMap fun file => (Program.ofText limit file.text).toOption,
        .ofList (faults store fun file => Program.ofText limit file.text)) := by
  have hkept := filterMap_tokenLists h limit fun _ answer => answer.toOption
  have hfaults := filterMap_tokenLists h limit fun id answer =>
    (failure? answer).map (Diagnostic.ofFault id)
  simp only [pass_eq, failure?_readFile, toOption_readFile]
  rw [hkept, hfaults, store.filterMap_entries fun file => (Program.ofText limit file.text).toOption]
  rfl

/-! ### Writing down -/

/-- The tree of a token list never nests too deeply, so it is written in every layout. -/
lemma exists_write_ofTokens (format : Format) (tokens : List Token) :
    ∃ text, format.write (.ofTokens tokens) = .ok text := by
  cases format with
  | debug => exact ⟨_, rfl⟩
  | ron =>
    have hitems : Datum.nestingItems (tokens.map Token.datum) ≤ 3 := by
      induction tokens with
      | nil => exact Nat.zero_le 3
      | cons t tokens ih => exact Nat.max_le.2 ⟨Nat.le_refl 3, ih⟩
    have hnesting : (Datum.ofTokens tokens).nesting ≤ Datum.maxNesting := by
      simp only [Datum.ofTokens, Datum.nesting, Datum.maxNesting]
      omega
    exact ⟨_, by rw [Format.write, Datum.ron?, if_pos hnesting]⟩

lemma failure?_writeDatum (format : Format) (complaint : String) (d : Datum) :
    failure? (writeDatum format complaint d) =
      (failure? (format.write d)).map fun _ => .unplaced complaint := by
  rw [writeDatum]
  cases format.write d <;> rfl

lemma toOption_writeDatum (format : Format) (complaint : String) (d : Datum) :
    (writeDatum format complaint d).toOption = (format.write d).toOption := by
  rw [writeDatum]
  cases format.write d <;> rfl

/-- The trees that can be written down make up the result, and each of the others is collected. -/
lemma writeAll_eq (store : FileStore) (format : Format) (complaint : String)
    (trees : List Datum) : writeAll store .empty format complaint trees =
      ⟨store,
        .ofList (trees.filterMap fun d =>
          (failure? (format.write d)).map fun _ => .unplaced complaint),
        String.join (trees.filterMap fun d => (format.write d).toOption)⟩ := by
  simp only [writeAll, pass_eq, failure?_writeDatum, toOption_writeDatum, Collector.ofList]

/-! ## How a run ends

A run stops after the first pass that has collected something, so the collector that a pass begins
with is empty. -/

/-- The end of a run in which a source could not be read. -/
theorem ending_of_unloaded {sources : List Source} (h : ∃ source ∈ sources, source.text = none)
    (stage : Stage) (format : Format) (limit : Nat) :
    ending stage format limit sources =
      ⟨(loadAll sources .empty (.empty : Collector Unit)).1,
        .ofList (sources.filterMap unloaded?), ""⟩ := by
  have hcollector : (loadAll sources .empty (.empty : Collector Unit)).2 =
      .ofList (sources.filterMap unloaded?) := collector_loadAll sources .empty .empty
  have herrors : (Collector.ofList (sources.filterMap unloaded?) : Collector Unit).hasErrors := by
    rw [Collector.hasErrors_ofList (severity_unloaded sources), isEmpty_unloaded h]
    rfl
  simp only [ending, hcollector]
  exact if_pos herrors

section Files

variable {files : List SourceFile} (format : Format) (limit : Nat)

/-- The end of a run in which a text could not be cut into tokens. -/
theorem ending_of_uncut (stage : Stage)
    (h : ∃ file ∈ files, ∃ fault, tokenize file.text = .error fault) :
    ending stage format limit (files.map .ofFile) =
      ⟨⟨files⟩, .ofList (faults ⟨files⟩ fun file => tokenize file.text), ""⟩ := by
  simp only [ending, loadAll_ofFile_empty, pass_tokenizeFile]
  exact if_pos (hasErrors_faults h)

variable {lists : List (List Token)}
  (h : List.Forall₂ (fun file tokens => tokenize file.text = .ok tokens) files lists)

include h

/-- The end of a run that was asked for the tokens, after all files could be cut. -/
theorem ending_lexer_of_cut : ending .lexer format limit (files.map .ofFile) =
    writeAll ⟨files⟩ .empty format "could not dump the tokens to stdout"
      (lists.map Datum.ofTokens) := by
  have htokens : (tokenLists ⟨files⟩).map (fun e => Datum.ofTokens e.2) =
      lists.map Datum.ofTokens := by
    rw [← filterMap_toOption_of_forall₂ h, ← map_snd_tokenLists ⟨files⟩, List.map_map]
    rfl
  rw [← htokens]
  simp [ending, loadAll_ofFile_empty, pass_tokenizeFile, faults_eq_nil h]

/-- The last two passes, after all files could be cut. -/
lemma ending_parser_of_cut : ending .parser format limit (files.map .ofFile) =
    let collector : Collector Unit :=
      .ofList (faults ⟨files⟩ fun file => Program.ofText limit file.text)
    if collector.hasErrors then ⟨⟨files⟩, collector, ""⟩
    else
      writeAll ⟨files⟩ collector format "could not dump an ast to stdout"
        ((files.filterMap fun file => (Program.ofText limit file.text).toOption).map
          Program.datum) := by
  simp [ending, loadAll_ofFile_empty, pass_tokenizeFile, faults_eq_nil h,
    pass_readFile ⟨files⟩ h limit]

/-- The end of a run in which a text did not read as a program. -/
theorem ending_parser_of_unread
    (hunread : ∃ file ∈ files, ∃ fault, Program.ofText limit file.text = .error fault) :
    ending .parser format limit (files.map .ofFile) =
      ⟨⟨files⟩, .ofList (faults ⟨files⟩ fun file => Program.ofText limit file.text), ""⟩ := by
  rw [ending_parser_of_cut format limit h]
  exact if_pos (hasErrors_faults hunread)

/-- The end of a run in which all texts read as programs. -/
theorem ending_parser_of_read {programs : List Program}
    (hread : List.Forall₂ (fun file program => Program.ofText limit file.text = .ok program)
      files programs) :
    ending .parser format limit (files.map .ofFile) =
      writeAll ⟨files⟩ .empty format "could not dump an ast to stdout"
        (programs.map Program.datum) := by
  rw [ending_parser_of_cut format limit h, faults_eq_nil hread, filterMap_toOption_of_forall₂ hread]
  simp

end Files

end CommandLine

end LetDef
