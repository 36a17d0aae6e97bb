import LetDef.CommandLine.Options
import LetDef.Diagnostic.Collector
import LetDef.Program.Reading

/-!
# A run of the program

A run loads all files, cuts all of them into tokens, reads all of them as programs and writes all
results down.  Each of these passes goes over all files, so that it reports everything that is wrong
with any of them; if something is, no further pass is begun.  What a pass cannot do for a file
becomes a diagnostic, and the diagnostics of a run are what it prints besides its result.

The files have been read before the run, so a run is a function of its configuration and of the
texts; a text is missing where a file could not be read.
-/

namespace LetDef.CommandLine

/-- A path that was asked for, and what the file holds if it could be read. -/
structure Source where
  /-- The path. -/
  path : String
  /-- What the file holds. -/
  text : Option String

/-- What a run leaves behind. -/
structure Report where
  /-- Whether no error was met. -/
  succeeded : Bool
  /-- The result. -/
  output : String
  /-- The lines of the diagnostics. -/
  errors : String
deriving DecidableEq

/-! ## Passes -/

/-- Goes over all items: what can be done for an item is kept, and what cannot is collected. -/
def pass {L α β : Type} (f : α → Except Diagnostic β) :
    List α → Collector L → List β × Collector L
  | [], collector => ([], collector)
  | a :: as, collector =>
    match f a with
    | .ok b =>
      let (bs, collector) := pass f as collector
      (b :: bs, collector)
    | .error diagnostic => pass f as (collector.add diagnostic)

/-- The diagnostic for a file that could not be read. -/
def unreadable (path : String) : Diagnostic :=
  .unplaced ("could not load file " ++ path)

/-- Loads the files that could be read into the store, in order, and collects the others. -/
def loadAll {L : Type} :
    List Source → FileStore → Collector L → FileStore × Collector L
  | [], store, collector => (store, collector)
  | source :: sources, store, collector =>
    match store.loadIfRead source.path source.text with
    | (some _, store) => loadAll sources store collector
    | (none, store) => loadAll sources store (collector.add (unreadable source.path))

/-- The tokens of a file, along with its id. -/
def tokenizeFile : FileId × SourceFile → Except Diagnostic (FileId × List Token)
  | (id, file) =>
    match tokenize file.text with
    | .ok tokens => .ok (id, tokens)
    | .error fault => .error (.ofFault id fault)

/-- The program that the tokens of a file spell. -/
def readFile (limit : Nat) : FileId × List Token → Except Diagnostic Program
  | (id, tokens) =>
    match Program.ofTokens limit tokens with
    | .ok program => .ok program
    | .error fault => .error (.ofFault id fault)

/-- What is written down for a tree; a refusal is reported in the given words. -/
def writeDatum (format : Format) (complaint : String) (d : Datum) : Except Diagnostic String :=
  match format.write d with
  | .ok text => .ok text
  | .error _ => .error (.unplaced complaint)

/-! ## The whole run -/

/-- What a run has in hand when it stops. -/
structure Ending where
  /-- The files that were loaded. -/
  store : FileStore
  /-- What was collected. -/
  collector : Collector Unit
  /-- The result. -/
  output : String

/-- What is given away at the end: the result and the lines of the diagnostics. -/
def Ending.report (e : Ending) : Report where
  succeeded := !e.collector.hasErrors
  output := e.output
  errors := String.join (e.collector.diagnostics.map fun d => d.render e.store ++ "\n")

/-- Writes trees down, which ends the run. -/
def writeAll (store : FileStore) (collector : Collector Unit) (format : Format)
    (complaint : String) (trees : List Datum) : Ending :=
  let (texts, collector) := pass (writeDatum format complaint) trees collector
  ⟨store, collector, String.join texts⟩

/-- The end of a run over sources that have been read. -/
def ending (stage : Stage) (format : Format) (limit : Nat) (sources : List Source) : Ending :=
  let (store, collector) := loadAll sources .empty .empty
  if collector.hasErrors then ⟨store, collector, ""⟩
  else
    let (tokenLists, collector) := pass tokenizeFile store.entries collector
    if collector.hasErrors then ⟨store, collector, ""⟩
    else
      match stage with
      | .lexer =>
        writeAll store collector format "could not dump the tokens to stdout"
          (tokenLists.map fun (_, tokens) => .ofTokens tokens)
      | .parser =>
        let (programs, collector) := pass (readFile limit) tokenLists collector
        if collector.hasErrors then ⟨store, collector, ""⟩
        else
          writeAll store collector format "could not dump an ast to stdout"
            (programs.map Program.datum)

/-- A run over sources that have been read. -/
def run (stage : Stage) (format : Format) (limit : Nat) (sources : List Source) : Report :=
  (ending stage format limit sources).report

/-! ## Questions about the program -/

/-- The name and the version of the program. -/
def versionText : String := "plc 0.1.0\n"

/-- How the program is used. -/
def usageText : String :=
  "Usage: plc [OPTIONS] <FILE>...\n\n" ++
  "Options:\n" ++
  "  -s, --stage <STAGE>            the stage to stop after [lexer, parser]\n" ++
  "  -f, --format <FORMAT>          the output format [debug, ron]\n" ++
  "      --recursion-limit <DEPTH>  how deeply the parser may nest\n" ++
  "  -h, --help                     Print help\n" ++
  "  -V, --version                  Print version\n"

end LetDef.CommandLine
