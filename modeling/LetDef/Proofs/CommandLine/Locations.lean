import LetDef.Proofs.CommandLine.Loading
import LetDef.Proofs.CommandLine.Outcome
import LetDef.Proofs.Grammar.TruthfulFault
import LetDef.Proofs.Lexical.Lines

/-!
# Every location leads to its file

A diagnostic about a text names the file by an id.  The id comes from the store, goes through the
passes along with the tokens, past the files that have dropped out, and is looked up at last when
the diagnostic is shown.  `Reports` says what a user gets in the end: the place is in the file whose
text was refused, and the line that is shown says so.

Diagnostics of this kind come about in two ways: files are loaded and looked into in any order with
one store (`Session.mem_iff_reports`), or the program is run (`located_ending`).  A run may also
collect diagnostics without a place, about sources that could not be read and about trees that could
not be written down; `Ending.Located` says when it does, so that nothing is left out where a text
was refused.
-/

namespace LetDef

open CommandLine

/-! ## Faults of a text -/

/-- A text is asked whether it can be cut into tokens, or also whether these spell a program: the
fault for which it is refused. -/
def refusal? (stage : Stage) (limit : Nat) (file : SourceFile) : Option Fault :=
  match stage with
  | .lexer => failure? (tokenize file.text)
  | .parser => failure? (Program.ofText limit file.text)

section Offsets

variable {stage : Stage} {limit : Nat} {text : String} {ts : List Token} {fault : Fault}

lemma failure?_eq_some_iff {ε α : Type} {answer : Except ε α} {e : ε} :
    failure? answer = some e ↔ answer = .error e := by
  cases answer <;> simp [failure?]

/-- A text that cannot be cut is refused for a place in it. -/
lemma offset_le_of_tokenize_error (h : tokenize text = .error fault) :
    fault.offset ≤ text.length := by
  have hle := ((Cutting.iff_tokenize_eq.2 h).offset_le fault rfl).2
  rwa [Nat.zero_add, String.length_toList] at hle

/-- Tokens are refused for the place of one of them or for the end of the list. -/
lemma offset_of_ofTokens_error (h : Program.ofTokens limit ts = .error fault) :
    (∃ t ∈ ts, fault.offset = t.offset) ∨ fault.offset = (TokenInput.ofList ts).endOffset := by
  let p : Passage := ⟨ts, 0⟩
  have haccount := Passage.balanced_program (p := p) limit 0 0 le_rfl (Nat.zero_le _)
    Passage.open_start
  rw [Program.ofTokens] at h
  rw [show p.input 0 = TokenInput.ofList ts from rfl] at haccount
  cases hrun : Grammar.program (Grammar.innerAt limit) (TokenInput.ofList ts) with
  | ok program output =>
    rw [hrun] at h
    cases h
  | error raised output =>
    rw [hrun] at h haccount
    obtain rfl := Except.error.inj h
    obtain ⟨i, -, -, -, htruthful⟩ := haccount
    by_cases hcause : raised.cause = .malformedLiteral
    · obtain ⟨k, t, -, -, ht, hoffset⟩ := htruthful.behind hcause
      exact .inl ⟨t, List.mem_of_getElem? ht, hoffset⟩
    · rw [htruthful.ahead hcause, Passage.input, TokenInput.nextOffset_advanceBy]
      cases hnext : ts[i]? with
      | none => exact .inr rfl
      | some t => exact .inl ⟨t, List.mem_of_getElem? hnext, rfl⟩

/-- A text is refused for a place in it or at its end. -/
theorem offset_le_of_refusal {file : SourceFile} (h : refusal? stage limit file = some fault) :
    fault.offset ≤ file.text.length := by
  cases stage with
  | lexer => exact offset_le_of_tokenize_error (failure?_eq_some_iff.1 h)
  | parser =>
    have hrefused : Program.ofText limit file.text = .error fault := failure?_eq_some_iff.1 h
    cases hcut : tokenize file.text with
    | error raised =>
      rw [Program.ofText, hcut] at hrefused
      obtain rfl := Except.error.inj hrefused
      exact offset_le_of_tokenize_error hcut
    | ok ts =>
      rw [ofText_of_tokenize hcut] at hrefused
      obtain ⟨hoffsets, hend⟩ := offset_le_of_tokenize hcut
      rcases offset_of_ofTokens_error hrefused with ⟨t, ht, hoffset⟩ | hoffset
      · exact hoffset ▸ hoffsets t ht
      · exact hoffset ▸ hend

end Offsets

/-! ## What a user is told -/

/-- The diagnostic tells the user of the store about the fault of the file: it is located in this
file and in no other one, at a place in the text, and shown with the path of the file and the line
and the column of this place. -/
structure Reports (store : FileStore) (id : FileId) (file : SourceFile) (fault : Fault)
    (d : Diagnostic) : Prop where
  eq_ofFault : d = .ofFault id fault
  location : d.location = some ⟨id, fault.offset⟩
  found : store.get? id = some file
  inside : fault.offset ≤ file.text.length
  shown : d.render store ++ "\n" = "ERROR " ++ file.path ++ ":" ++
    (Position.locate file.text fault.offset).render ++ " " ++ fault.message ++ "\n"

lemma reports_ofFault {store : FileStore} {stage : Stage} {limit : Nat} {id : FileId}
    {file : SourceFile} {fault : Fault} (hfound : store.get? id = some file)
    (hrefused : refusal? stage limit file = some fault) :
    Reports store id file fault (.ofFault id fault) where
  eq_ofFault := rfl
  location := rfl
  found := hfound
  inside := offset_le_of_refusal hrefused
  shown := render_ofFault store hfound fault

/-! ## Sessions -/

/-- A store and a collector that are used together. -/
structure Session where
  /-- The files that have been loaded. -/
  store : FileStore
  /-- What has been collected about them. -/
  collector : Collector Unit

namespace Session

/-- What is done in a session. -/
inductive Event where
  /-- A file is loaded, if it can be read. -/
  | load (source : Source)
  /-- The file with the id, if there is one, is cut into tokens, or also read as a program; if it is
  refused, this is collected. -/
  | check (stage : Stage) (limit : Nat) (id : FileId)

/-- A session in which nothing has been done. -/
def start : Session := ⟨.empty, .empty⟩

/-- The session after the event. -/
def perform (s : Session) : Event → Session
  | .load source => { s with store := (s.store.loadFrom source).2 }
  | .check stage limit id =>
    match s.store.get? id with
    | none => s
    | some file =>
      match refusal? stage limit file with
      | none => s
      | some fault => { s with collector := s.collector.add (.ofFault id fault) }

/-- The session after events. -/
def after (events : List Event) : Session := events.foldl perform start

/-- One of the events has looked for the file with the id, has found this one, and it is refused for
the fault. -/
def Finds (events : List Event) (id : FileId) (file : SourceFile) (fault : Fault) : Prop :=
  ∃ before stage limit later, events = before ++ .check stage limit id :: later ∧
    (after before).store.get? id = some file ∧ refusal? stage limit file = some fault

variable {s : Session} {events : List Event} {event : Event} {id : FileId} {file : SourceFile}
  {fault : Fault} {d : Diagnostic}

/-- A session goes on from where it is. -/
lemma after_append (events : List Event) (event : Event) :
    after (events ++ [event]) = (after events).perform event := by
  rw [after, List.foldl_append]
  rfl

/-- An event keeps the files that are there and what has been collected. -/
lemma keeps_perform (s : Session) (event : Event) :
    (∀ id file, s.store.get? id = some file → (s.perform event).store.get? id = some file) ∧
    ∀ d ∈ s.collector.diagnostics, d ∈ (s.perform event).collector.diagnostics := by
  cases event with
  | load source => exact ⟨fun _ _ h => FileStore.get?_loadFrom h source, fun _ => id⟩
  | check stage limit id =>
    rw [perform]
    split
    · exact ⟨fun _ _ h => h, fun _ h => h⟩
    split
    · exact ⟨fun _ _ h => h, fun _ h => h⟩
    · exact ⟨fun _ _ h => h, fun _ h => List.mem_append_left _ h⟩

lemma keeps_after (before later : List Event) :
    (∀ id file, (after before).store.get? id = some file →
      (after (before ++ later)).store.get? id = some file) ∧
    ∀ d ∈ (after before).collector.diagnostics,
      d ∈ (after (before ++ later)).collector.diagnostics := by
  induction later using List.reverseRecOn with
  | nil =>
    rw [List.append_nil]
    exact ⟨fun _ _ h => h, fun _ h => h⟩
  | append_singleton later event ih =>
    obtain ⟨hfiles, hcollected⟩ := keeps_perform (after (before ++ later)) event
    rw [← List.append_assoc, after_append]
    exact ⟨fun id file h => hfiles id file (ih.1 id file h), fun d h => hcollected d (ih.2 d h)⟩

lemma Finds.append (h : Finds events id file fault) (event : Event) :
    Finds (events ++ [event]) id file fault := by
  obtain ⟨before, stage, limit, later, rfl, hfound, hrefused⟩ := h
  exact ⟨before, stage, limit, later ++ [event], List.append_assoc .., hfound, hrefused⟩

/-- A check that finds a file refused collects its fault. -/
lemma mem_perform_check {stage : Stage} {limit : Nat} (hfound : s.store.get? id = some file)
    (hrefused : refusal? stage limit file = some fault) :
    .ofFault id fault ∈ (s.perform (.check stage limit id)).collector.diagnostics := by
  simp only [perform, hfound, hrefused]
  exact List.mem_append_right _ (List.mem_singleton.2 rfl)

/-- What an event has found has been collected. -/
lemma Finds.collected (h : Finds events id file fault) :
    .ofFault id fault ∈ (after events).collector.diagnostics := by
  obtain ⟨before, stage, limit, later, rfl, hfound, hrefused⟩ := h
  rw [List.append_cons]
  refine (keeps_after _ later).2 _ ?_
  rw [after_append]
  exact mem_perform_check hfound hrefused

/-- What has been found is reported, now and however the session continues. -/
lemma Finds.reports (h : Finds events id file fault) (later : List Event) :
    Reports (after (events ++ later)).store id file fault (.ofFault id fault) := by
  obtain ⟨before, stage, limit, rest, rfl, hfound, hrefused⟩ := h
  rw [List.append_assoc]
  exact reports_ofFault ((keeps_after before _).1 id file hfound) hrefused

/-- An event collects nothing, or the fault of a file that it has found. -/
lemma mem_perform (h : d ∈ (s.perform event).collector.diagnostics) :
    d ∈ s.collector.diagnostics ∨ ∃ stage limit id file fault, event = .check stage limit id ∧
      s.store.get? id = some file ∧ refusal? stage limit file = some fault ∧
      d = .ofFault id fault := by
  cases event with
  | load source => exact .inl h
  | check stage limit id =>
    rw [perform] at h
    split at h
    · exact .inl h
    rename_i file hfound
    split at h
    · exact .inl h
    rename_i fault hrefused
    rcases List.mem_append.1 h with hold | hnew
    · exact .inl hold
    · exact .inr ⟨stage, limit, id, file, fault, rfl, hfound, hrefused, List.mem_singleton.1 hnew⟩

/-- What has been collected has been found. -/
lemma exists_finds (events : List Event) : ∀ d ∈ (after events).collector.diagnostics,
    ∃ id file fault, Finds events id file fault ∧ d = .ofFault id fault := by
  induction events using List.reverseRecOn with
  | nil => exact fun d hd => absurd hd List.not_mem_nil
  | append_singleton events event ih =>
    intro d hd
    rw [after_append] at hd
    rcases mem_perform hd with hold | ⟨stage, limit, id, file, fault, rfl, hfound, hrefused, rfl⟩
    · obtain ⟨id, file, fault, hfinds, rfl⟩ := ih d hold
      exact ⟨id, file, fault, hfinds.append event, rfl⟩
    · exact ⟨id, file, fault, ⟨events, stage, limit, [], rfl, hfound, hrefused⟩, rfl⟩

/-- Whatever is done in a session, the diagnostics are those that report what the events have found,
and they go on doing so when more files are loaded. -/
theorem mem_iff_reports (events : List Event) (d : Diagnostic) :
    d ∈ (after events).collector.diagnostics ↔ ∃ id file fault, Finds events id file fault ∧
      ∀ later, Reports (after (events ++ later)).store id file fault d := by
  constructor
  · intro hd
    obtain ⟨id, file, fault, hfinds, rfl⟩ := exists_finds events d hd
    exact ⟨id, file, fault, hfinds, hfinds.reports⟩
  · rintro ⟨id, file, fault, hfinds, hreports⟩
    rw [(hreports []).eq_ofFault]
    exact hfinds.collected

end Session

/-! ## Runs -/

namespace CommandLine

/-- What was collected reports, for each file of the store that is refused when asked, its fault:
one diagnostic for each of those files, in their order, and none besides. -/
def Ending.ReportsAll (asked : Stage) (limit : Nat) (e : Ending) : Prop :=
  List.Forall₂ (fun (entry : FileId × SourceFile) d =>
      ∃ fault, refusal? asked limit entry.2 = some fault ∧ Reports e.store entry.1 entry.2 fault d)
    (e.store.entries.filter fun entry => (refusal? asked limit entry.2).isSome)
    e.collector.diagnostics

/-- The diagnostics without a place about the sources that could not be read. -/
def aboutUnread (sources : List Source) : List Diagnostic :=
  (sources.filter fun source => source.text.isNone).map fun source =>
    .unplaced ("could not load file " ++ source.path)

/-- The diagnostics without a place about the programs that could not be written down. -/
def aboutUnwritten (format : Format) (programs : List Program) : List Diagnostic :=
  (programs.filter fun program => (failure? (format.write program.datum)).isSome).map fun _ =>
    .unplaced "could not dump an ast to stdout"

/-- What a run over sources has collected at its end.  Where a text is refused, all that was
collected reports refusals, each located in the file that it is about, and none is left out.  The
only diagnostics without a place are about sources that could not be read, before any text was
looked into, and about programs that could not be written down, after all texts were in order. -/
inductive Ending.Located (stage : Stage) (format : Format) (limit : Nat) (sources : List Source)
    (e : Ending) : Prop where
  /-- Some source could not be read: there is a diagnostic about each of those. -/
  | unloaded
      (unread : ∃ source ∈ sources, source.text = none)
      (collected : e.collector.diagnostics = aboutUnread sources)
  /-- Some text cannot be cut into tokens: each of those is reported. -/
  | uncut
      (loaded : ∀ source ∈ sources, source.text ≠ none)
      (uncut : ∃ file ∈ e.store.files, refusal? .lexer limit file ≠ none)
      (collected : e.ReportsAll .lexer limit)
  /-- Only the tokens were asked for, and all texts can be cut: nothing was collected. -/
  | cut
      (asked : stage = .lexer)
      (loaded : ∀ source ∈ sources, source.text ≠ none)
      (cut : ∀ file ∈ e.store.files, refusal? .lexer limit file = none)
      (collected : e.collector.diagnostics = [])
  /-- All texts can be cut and some does not read as a program: each of those is reported. -/
  | unread
      (asked : stage = .parser)
      (loaded : ∀ source ∈ sources, source.text ≠ none)
      (cut : ∀ file ∈ e.store.files, refusal? .lexer limit file = none)
      (unread : ∃ file ∈ e.store.files, refusal? .parser limit file ≠ none)
      (collected : e.ReportsAll .parser limit)
  /-- All texts read as programs: there is a diagnostic about each program that could not be
  written down. -/
  | read {programs : List Program}
      (asked : stage = .parser)
      (loaded : ∀ source ∈ sources, source.text ≠ none)
      (read : List.Forall₂ (fun file program => Program.ofText limit file.text = .ok program)
        e.store.files programs)
      (collected : e.collector.diagnostics = aboutUnwritten format programs)

/-! ### What a run collects -/

/-- What is kept comes from the elements for which there is something to keep, in their order. -/
lemma forall₂_filterMap {α β : Type} (f : α → Option β) (as : List α) :
    List.Forall₂ (fun a b => a ∈ as ∧ f a = some b)
      (as.filter fun a => (f a).isSome) (as.filterMap f) := by
  induction as with
  | nil => exact .nil
  | cons a as ih =>
    have ih' := ih.imp fun _ _ h => (⟨List.mem_cons_of_mem a h.1, h.2⟩ : _ ∧ _)
    cases ha : f a with
    | none =>
      rw [List.filterMap_cons_none ha, List.filter_cons_of_neg (by simp [ha])]
      exact ih'
    | some b =>
      rw [List.filterMap_cons_some ha, List.filter_cons_of_pos (by simp [ha])]
      exact .cons ⟨List.mem_cons_self, ha⟩ ih'

/-- What is collected about the files of a store reports all refusals. -/
lemma reportsAll_faults {α : Type} {store : FileStore} {answer : SourceFile → Except Fault α}
    {asked : Stage} {limit : Nat} {output : String}
    (h : ∀ file, failure? (answer file) = refusal? asked limit file) :
    Ending.ReportsAll asked limit ⟨store, .ofList (faults store answer), output⟩ := by
  have hfaults := forall₂_filterMap
    (fun e : FileId × SourceFile => (refusal? asked limit e.2).map (Diagnostic.ofFault e.1))
    store.entries
  simp only [Option.isSome_map] at hfaults
  simp only [Ending.ReportsAll, Collector.diagnostics_ofList, faults, h]
  refine hfaults.imp fun e d h' => ?_
  obtain ⟨hmem, hd⟩ := h'
  obtain ⟨fault, hfault, rfl⟩ := Option.map_eq_some_iff.1 hd
  exact ⟨fault, hfault, reports_ofFault (FileStore.get?_of_mem_entries hmem) hfault⟩

/-- What is collected about sources that could not be read has no place. -/
lemma filterMap_unloaded? (sources : List Source) :
    sources.filterMap unloaded? = aboutUnread sources := by
  rw [aboutUnread, ← List.filterMap_eq_filter, List.map_filterMap]
  refine List.filterMap_congr fun source _ => ?_
  obtain ⟨path, _ | text⟩ := source <;> rfl

lemma text_ofFile_ne_none {files : List SourceFile} :
    ∀ source ∈ files.map Source.ofFile, source.text ≠ none := by
  intro source hsource
  obtain ⟨file, -, rfl⟩ := List.mem_map.1 hsource
  exact Option.some_ne_none file.text

lemma exists_refusal {α : Type} {files : List SourceFile} {answer : SourceFile → Except Fault α}
    (h : ∃ file ∈ files, ∃ fault, answer file = .error fault) :
    ∃ file ∈ files, failure? (answer file) ≠ none := by
  obtain ⟨file, hmem, fault, hfault⟩ := h
  exact ⟨file, hmem, by simp [hfault, failure?]⟩

lemma filterMap_unwritten (format : Format) (programs : List Program) :
    ((programs.map Program.datum).filterMap fun d => (failure? (format.write d)).map fun _ =>
      Diagnostic.unplaced "could not dump an ast to stdout") =
        aboutUnwritten format programs := by
  rw [aboutUnwritten, ← List.filterMap_eq_filter, List.map_filterMap, List.filterMap_map]
  refine List.filterMap_congr fun program _ => ?_
  cases hwrite : format.write program.datum <;> simp [hwrite, failure?]

/-- What a run collects is located as it should be. -/
theorem located_ending (stage : Stage) (format : Format) (limit : Nat) (sources : List Source) :
    (ending stage format limit sources).Located stage format limit sources := by
  obtain ⟨result, h⟩ := exists_outcome stage format limit sources
  cases h with
  | unloaded h =>
    rw [ending_of_unloaded h]
    refine .unloaded h ?_
    rw [Collector.diagnostics_ofList, filterMap_unloaded?]
  | uncut h =>
    rw [ending_of_uncut format limit stage h]
    exact .uncut text_ofFile_ne_none (exists_refusal h) (reportsAll_faults fun _ => rfl)
  | cut hstage h htexts =>
    have hnone := filterMap_failure?_of_forall₂ htexts
    rw [hstage, ending_lexer_of_cut format limit h, writeAll_eq]
    refine .cut rfl text_ofFile_ne_none
      (List.filterMap_eq_nil_iff.1 (filterMap_failure?_of_forall₂ h)) ?_
    rw [Collector.diagnostics_ofList, List.filterMap_map, List.filterMap_eq_nil_iff]
    exact fun ts hts => Option.map_eq_none_iff.2 (List.filterMap_eq_nil_iff.1 hnone ts hts)
  | unread hstage h hunread =>
    rw [hstage, ending_parser_of_unread format limit h hunread]
    exact .unread rfl text_ofFile_ne_none
      (List.filterMap_eq_nil_iff.1 (filterMap_failure?_of_forall₂ h)) (exists_refusal hunread)
      (reportsAll_faults fun _ => rfl)
  | read hstage hread _ =>
    obtain ⟨lists, h⟩ := exists_cut_of_read hread
    rw [hstage, ending_parser_of_read format limit h hread, writeAll_eq]
    refine .read rfl text_ofFile_ne_none hread ?_
    rw [Collector.diagnostics_ofList, filterMap_unwritten]

example : ((ending .parser .debug 64
    [⟨"a", some "LET"⟩, ⟨"b", some ""⟩, ⟨"a", some "\n%"⟩]).collector.diagnostics.map
    fun d => d.location) = [some ⟨⟨0⟩, 3⟩, some ⟨⟨2⟩, 1⟩] := by
  cbv

/-- The store at the end of a run holds what could be loaded. -/
lemma store_ending (stage : Stage) (format : Format) (limit : Nat) (sources : List Source) :
    (ending stage format limit sources).store = FileStore.empty.loadEach sources := by
  rw [← FileStore.store_loadAll sources .empty (.empty : Collector Unit)]
  simp only [ending]
  split
  · rfl
  split
  · rfl
  cases stage with
  | lexer => rfl
  | parser =>
    simp only
    split <;> rfl

end CommandLine

/-! ## Everywhere -/

/-- Ids stay valid, whatever is loaded and whatever cannot be.  So locations lead to the right
files.  Whatever is loaded and checked in a session, the diagnostics are those that report what the
checks have found under the ids they were given, now and at any later time.  And whatever a run is
given, what it shows are the lines of what it has collected, in which the files that it has loaded
and that are refused are reported one by one. -/
theorem locations_leadToFiles :
    (∀ sources, (FileStore.empty.loadEach sources).Names sources) ∧
    (∀ events d, d ∈ (Session.after events).collector.diagnostics ↔ ∃ id file fault,
      Session.Finds events id file fault ∧
      ∀ later, Reports (Session.after (events ++ later)).store id file fault d) ∧
    ∀ stage format limit sources,
      let e := ending stage format limit sources
      (run stage format limit sources).errors =
        String.join (e.collector.diagnostics.map fun d => d.render e.store ++ "\n") ∧
      e.store = FileStore.empty.loadEach sources ∧
      e.Located stage format limit sources :=
  ⟨FileStore.names_loadEach, Session.mem_iff_reports, fun stage format limit sources =>
    ⟨rfl, store_ending stage format limit sources, located_ending stage format limit sources⟩⟩

end LetDef
