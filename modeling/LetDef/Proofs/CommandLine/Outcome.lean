import LetDef.Proofs.CommandLine.Passes

/-!
# What a run comes to

A run goes over its files again and again, and which files a pass goes over, what it collects about
them and whether another pass follows all depends on the passes before.  `Outcome` says what a run
comes to without any of this: there are five ways for a run to end, each with its condition on what
the files hold, its result and its lines for the user, in the order of the files.

The conditions leave nothing out (`exists_outcome`), and a run ends as its condition says, because
all that is collected are errors, so that the first pass in which something fails is the last one
(`run_eq_of_outcome`).  `run_outcome` puts the two together.
-/

namespace LetDef

namespace CommandLine

/-! ## Outcomes -/

/-- The line about a program that could not be written down. -/
def unwrittenLine? (answer : Except Refusal String) : Option String :=
  (failure? answer).map fun _ => "ERROR could not dump an ast to stdout\n"

/-- What a run over sources leaves behind. -/
inductive Outcome (stage : Stage) (format : Format) (limit : Nat) :
    List Source → Report → Prop where
  /-- Some source could not be read: there is a line about each of those. -/
  | unloaded {sources : List Source} :
      (∃ source ∈ sources, source.text = none) →
      Outcome stage format limit sources ⟨false, "", String.join (sources.filterMap unreadLine?)⟩
  /-- Some text cannot be cut into tokens: there is a line about each of those. -/
  | uncut {files : List SourceFile} :
      (∃ file ∈ files, ∃ fault, tokenize file.text = .error fault) →
      Outcome stage format limit (files.map .ofFile)
        ⟨false, "", String.join (files.filterMap fun file => faultLine? file (tokenize file.text))⟩
  /-- Only the tokens were asked for: they are written down. -/
  | cut {files : List SourceFile} {tokenLists : List (List Token)} {texts : List String} :
      stage = .lexer →
      List.Forall₂ (fun file tokens => tokenize file.text = .ok tokens) files tokenLists →
      List.Forall₂ (fun tokens text => format.write (.ofTokens tokens) = .ok text)
        tokenLists texts →
      Outcome stage format limit (files.map .ofFile) ⟨true, String.join texts, ""⟩
  /-- All texts can be cut into tokens and some does not read as a program: there is a line about
  each of those. -/
  | unread {files : List SourceFile} {tokenLists : List (List Token)} :
      stage = .parser →
      List.Forall₂ (fun file tokens => tokenize file.text = .ok tokens) files tokenLists →
      (∃ file ∈ files, ∃ fault, Program.ofText limit file.text = .error fault) →
      Outcome stage format limit (files.map .ofFile)
        ⟨false, "", String.join
          (files.filterMap fun file => faultLine? file (Program.ofText limit file.text))⟩
  /-- All texts read as programs: those that can be are written down, and there is a line about
  each of the others. -/
  | read {files : List SourceFile} {programs : List Program} {succeeded : Bool} :
      stage = .parser →
      List.Forall₂ (fun file program => Program.ofText limit file.text = .ok program)
        files programs →
      (succeeded ↔ ∀ program ∈ programs, ∃ text, format.write program.datum = .ok text) →
      Outcome stage format limit (files.map .ofFile)
        ⟨succeeded, String.join (programs.filterMap fun p => (format.write p.datum).toOption),
          String.join (programs.filterMap fun p => unwrittenLine? (format.write p.datum))⟩

/-! ## The whole run -/

/-- What is left behind when a pass over files that were loaded has met faults. -/
lemma report_faults {α : Type} {files : List SourceFile} {answer : SourceFile → Except Fault α}
    (h : ∃ file ∈ files, ∃ fault, answer file = .error fault) :
    (⟨⟨files⟩, .ofList (faults ⟨files⟩ answer), ""⟩ : Ending).report =
      ⟨false, "", String.join (files.filterMap fun file => faultLine? file (answer file))⟩ := by
  rw [report_ofList (severity_faults _ _), lines_faults, isEmpty_faults h]

/-- What is left behind when the last thing was to write trees down. -/
lemma report_writeAll {α : Type} (store : FileStore) (format : Format) (complaint : String)
    (as : List α) (tree : α → Datum) :
    (writeAll store .empty format complaint (as.map tree)).report =
      ⟨(as.filterMap fun a => failure? (format.write (tree a))).isEmpty,
        String.join (as.filterMap fun a => (format.write (tree a)).toOption),
        String.join (as.filterMap fun a => (failure? (format.write (tree a))).map fun _ =>
          "ERROR " ++ complaint ++ "\n")⟩ := by
  have herrors : ∀ d ∈ (as.map tree).filterMap (fun t => (failure? (format.write t)).map
      fun _ => Diagnostic.unplaced complaint), d.severity = .error := by
    intro d hd
    obtain ⟨t, -, h⟩ := List.mem_filterMap.1 hd
    obtain ⟨_, -, rfl⟩ := Option.map_eq_some_iff.1 h
    rfl
  have hempty : ((as.map tree).filterMap fun t => (failure? (format.write t)).map
      fun _ => Diagnostic.unplaced complaint).isEmpty =
        (as.filterMap fun a => failure? (format.write (tree a))).isEmpty := by
    rw [← List.map_filterMap, List.isEmpty_map, List.filterMap_map]
    rfl
  rw [writeAll_eq, report_ofList herrors, hempty, List.map_filterMap, List.filterMap_map,
    List.filterMap_map]
  simp only [Function.comp_def, Option.map_map]
  rfl

theorem run_of_unloaded {sources : List Source} (h : ∃ source ∈ sources, source.text = none)
    (stage : Stage) (format : Format) (limit : Nat) :
    run stage format limit sources =
      ⟨false, "", String.join (sources.filterMap unreadLine?)⟩ := by
  rw [run, ending_of_unloaded h, report_ofList (severity_unloaded sources), lines_unloaded,
    isEmpty_unloaded h]

lemma exists_cut_of_read {files : List SourceFile} {limit : Nat} {programs : List Program}
    (h : List.Forall₂ (fun file program => Program.ofText limit file.text = .ok program)
      files programs) :
    ∃ lists, List.Forall₂ (fun file tokens => tokenize file.text = .ok tokens) files lists := by
  refine (exists_forall₂_or_exists_error _ files).resolve_right ?_
  rintro ⟨file, hmem, fault, hfault⟩
  have hread := List.filterMap_eq_nil_iff.1 (filterMap_failure?_of_forall₂ h) file hmem
  rw [Program.ofText, hfault] at hread
  exact absurd hread (by simp [failure?, bind, Except.bind])

lemma isEmpty_refusals_iff {format : Format} {programs : List Program} :
    (programs.filterMap fun p => failure? (format.write p.datum)).isEmpty ↔
      ∀ p ∈ programs, ∃ text, format.write p.datum = .ok text := by
  simp only [List.isEmpty_iff, List.filterMap_eq_nil_iff, failure?_eq_none_iff]

/-- A run ends as it should. -/
lemma run_eq_of_outcome {stage : Stage} {format : Format} {limit : Nat} {sources : List Source}
    {result : Report} (h : Outcome stage format limit sources result) :
    run stage format limit sources = result := by
  cases h with
  | unloaded h => exact run_of_unloaded h stage format limit
  | uncut h => rw [run, ending_of_uncut format limit stage h, report_faults h]
  | cut hstage h htexts =>
    rw [hstage, run, ending_lexer_of_cut format limit h, report_writeAll,
      filterMap_toOption_of_forall₂ htexts]
    have hnone := filterMap_failure?_of_forall₂ htexts
    rw [← List.map_filterMap, hnone]
    rfl
  | unread hstage h hunread =>
    rw [hstage, run, ending_parser_of_unread format limit h hunread, report_faults hunread]
  | @read files programs succeeded hstage hread hsucceeded =>
    obtain ⟨lists, h⟩ := exists_cut_of_read hread
    have hisEmpty : (programs.filterMap fun p => failure? (format.write p.datum)).isEmpty =
        succeeded := Bool.eq_iff_iff.2 (isEmpty_refusals_iff.trans hsucceeded.symm)
    rw [hstage, run, ending_parser_of_read format limit h hread, report_writeAll, hisEmpty]
    rfl

/-- Sources that hold anything at all lead to one of the ends. -/
lemma exists_outcome (stage : Stage) (format : Format) (limit : Nat) (sources : List Source) :
    ∃ result, Outcome stage format limit sources result := by
  rcases exists_unloaded_or_eq_map_ofFile sources with hunloaded | ⟨files, rfl⟩
  · exact ⟨_, .unloaded hunloaded⟩
  rcases exists_forall₂_or_exists_error (fun file => tokenize file.text) files with
    ⟨lists, hcut⟩ | huncut
  · cases hstage : stage with
    | lexer =>
      rcases exists_forall₂_or_exists_error (fun ts => format.write (.ofTokens ts)) lists with
        ⟨texts, htexts⟩ | ⟨ts, -, refusal, hrefusal⟩
      · exact ⟨_, .cut rfl hcut htexts⟩
      · obtain ⟨text, htext⟩ := exists_write_ofTokens format ts
        exact absurd (htext.symm.trans hrefusal) (by simp)
    | parser =>
      rcases exists_forall₂_or_exists_error (fun file => Program.ofText limit file.text) files with
        ⟨programs, hread⟩ | hunread
      · exact ⟨_, .read rfl hread isEmpty_refusals_iff⟩
      · exact ⟨_, .unread rfl hcut hunread⟩
  · exact ⟨_, .uncut huncut⟩

/-! ## The exit code -/

lemma join_eq_empty_iff {lines : List String} :
    String.join lines = "" ↔ ∀ line ∈ lines, line = "" := by
  rw [← String.toList_eq_nil_iff, String.toList_join]
  simp

lemma join_filterMap_eq_empty_iff {α : Type} {line? : α → Option String} {as : List α}
    (hline : ∀ a, ∀ line ∈ line? a, line ≠ "") :
    String.join (as.filterMap line?) = "" ↔ ∀ a ∈ as, line? a = none := by
  rw [join_eq_empty_iff]
  constructor
  · intro h a ha
    by_contra hsome
    obtain ⟨line, hmem⟩ := Option.ne_none_iff_exists'.1 hsome
    exact hline a line hmem (h line (List.mem_filterMap.2 ⟨a, ha, hmem⟩))
  · intro h line hmem
    obtain ⟨a, ha, hsome⟩ := List.mem_filterMap.1 hmem
    rw [h a ha] at hsome
    exact absurd hsome (by simp)

lemma unreadLine?_ne_empty (source : Source) : ∀ line ∈ unreadLine? source, line ≠ "" := by
  obtain ⟨path, _ | text⟩ := source <;> simp [unreadLine?]

lemma faultLine?_ne_empty {α : Type} (file : SourceFile) (answer : Except Fault α) :
    ∀ line ∈ faultLine? file answer, line ≠ "" := by
  cases answer <;> simp [faultLine?, failure?]

lemma join_faultLine?_ne_empty {α : Type} {files : List SourceFile}
    {answer : SourceFile → Except Fault α}
    (h : ∃ file ∈ files, ∃ fault, answer file = .error fault) :
    String.join (files.filterMap fun file => faultLine? file (answer file)) ≠ "" := by
  obtain ⟨file, hmem, fault, hfault⟩ := h
  rw [Ne, join_filterMap_eq_empty_iff fun file => faultLine?_ne_empty file (answer file)]
  intro hall
  have hnone := hall file hmem
  rw [hfault] at hnone
  exact absurd hnone (by simp [faultLine?, failure?])

lemma unwrittenLine?_ne_empty (answer : Except Refusal String) :
    ∀ line ∈ unwrittenLine? answer, line ≠ "" := by
  cases answer <;> simp [unwrittenLine?, failure?]

/-- A run succeeds if and only if it has no line for the user. -/
lemma Outcome.succeeded_iff {stage : Stage} {format : Format} {limit : Nat}
    {sources : List Source} {result : Report} (h : Outcome stage format limit sources result) :
    result.succeeded ↔ result.errors = "" := by
  cases h with
  | unloaded h =>
    obtain ⟨⟨path, _⟩, hmem, rfl⟩ := h
    rw [join_filterMap_eq_empty_iff unreadLine?_ne_empty]
    exact iff_of_false Bool.false_ne_true fun hall => absurd (hall _ hmem) (by simp [unreadLine?])
  | uncut h => exact iff_of_false Bool.false_ne_true (join_faultLine?_ne_empty h)
  | cut _ _ _ => exact iff_of_true rfl rfl
  | unread _ _ h => exact iff_of_false Bool.false_ne_true (join_faultLine?_ne_empty h)
  | read _ _ hsucceeded =>
    rw [join_filterMap_eq_empty_iff fun p => unwrittenLine?_ne_empty _]
    simpa only [unwrittenLine?, Option.map_eq_none_iff, failure?_eq_none_iff] using hsucceeded

/-- A run over sources ends in exactly the way that the contents of the sources call for, and it
succeeds if and only if nothing has to be said to the user. -/
theorem run_outcome (stage : Stage) (format : Format) (limit : Nat) (sources : List Source) :
    (∀ result, run stage format limit sources = result ↔
      Outcome stage format limit sources result) ∧
    ((run stage format limit sources).succeeded ↔
      (run stage format limit sources).errors = "") := by
  obtain ⟨result, h⟩ := exists_outcome stage format limit sources
  rw [run_eq_of_outcome h]
  refine ⟨fun result' => ⟨?_, fun h' => ?_⟩, h.succeeded_iff⟩
  · rintro rfl
    exact h
  · rw [← run_eq_of_outcome h, run_eq_of_outcome h']

example : run .parser .debug 64 [⟨"a", some "LET x = ';"⟩, ⟨"b", none⟩] =
    ⟨false, "", "ERROR could not load file b\n"⟩ := by
  cbv

end CommandLine

end LetDef
