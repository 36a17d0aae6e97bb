import LetDef.Datum.Format
import LetDef.Grammar.Construct

/-!
# Reading the command line

Arguments are read from left to right.  An option may stand anywhere before a double hyphen, and
what is neither an option nor the value of one is a path.  The value of an option is attached to it
or is the argument after it, which then must not look like an option itself.  Each option may be
given once.  A question about the program itself is answered as soon as it is reached, so what comes
after it is not looked at, whereas an earlier mistake wins over it.
-/

namespace LetDef.CommandLine

/-- How far a run goes before it writes down what it has. -/
inductive Stage where
  /-- Up to the tokens. -/
  | lexer
  /-- Up to the programs. -/
  | parser
deriving DecidableEq

/-- What a run is asked to do. -/
structure Config where
  /-- The files to load, in order. -/
  paths : List String
  /-- How far the run goes. -/
  stage : Stage
  /-- How its result is written down. -/
  format : Format
  /-- How deeply programs may nest. -/
  limit : Nat
deriving DecidableEq

/-- What the arguments ask for. -/
inductive Request where
  /-- A run. -/
  | run (config : Config)
  /-- The name and the version of the program. -/
  | version
  /-- How the program is used. -/
  | help
  /-- Nothing, since the arguments make no sense. -/
  | misuse
deriving DecidableEq

/-! ## Values of options -/

/-- The stage of a name. -/
def stage? (value : String) : Option Stage :=
  if value = "lexer" then some .lexer
  else if value = "parser" then some .parser
  else none

/-- The layout of a name. -/
def format? (value : String) : Option Format :=
  if value = "debug" then some .debug
  else if value = "ron" then some .ron
  else none

/-- The limit that a value spells: digits, which a plus sign may precede, for a number below
`2 ^ 64`. -/
def limit? (value : String) : Option Nat :=
  let digits := Numeral.withoutPlus value.toList
  if digits.isEmpty ∨ ¬ digits.all Char.isDigit then none
  else
    let limit := Nat.ofDigitChars 10 digits 0
    if limit < 0x10000000000000000 then some limit else none

/-- An option that has a value. -/
inductive Setting where
  /-- How far the run goes. -/
  | stage
  /-- How its result is written down. -/
  | format
  /-- How deeply programs may nest. -/
  | limit
deriving DecidableEq

/-! ## What was given -/

/-- What the arguments so far have said. -/
structure Given where
  /-- The paths, in order. -/
  paths : List String
  /-- How far the run goes, if that was said. -/
  stage : Option Stage
  /-- How its result is written down, if that was said. -/
  format : Option Format
  /-- How deeply programs may nest, if that was said. -/
  limit : Option Nat

namespace Given

/-- Nothing was given yet. -/
def nothing : Given := ⟨[], none, none, none⟩

/-- Adds a path, which may not be empty. -/
def addPath (given : Given) (path : String) : Option Given :=
  if path.isEmpty then none else some { given with paths := given.paths ++ [path] }

/-- Adds paths, none of which may be empty. -/
def addPaths (given : Given) (paths : List String) : Option Given :=
  paths.foldlM addPath given

/-- Gives an option a value.  There is no answer if the option was given before or if the value is
none of its values. -/
def set (given : Given) (setting : Setting) (value : String) : Option Given :=
  match setting with
  | .stage =>
    if given.stage.isSome then none
    else (stage? value).map fun stage => { given with stage := some stage }
  | .format =>
    if given.format.isSome then none
    else (format? value).map fun format => { given with format := some format }
  | .limit =>
    if given.limit.isSome then none
    else (limit? value).map fun limit => { given with limit := some limit }

/-- The run that is asked for; it needs a path, and what was not said has a default. -/
def request (given : Given) : Request :=
  if given.paths.isEmpty then .misuse
  else .run ⟨given.paths, given.stage.getD .parser, given.format.getD .debug,
    given.limit.getD defaultLimit⟩

end Given

/-! ## Arguments -/

/-- What an argument is by its look. -/
inductive Argument where
  /-- The end of the options. -/
  | endOfOptions
  /-- A question about the program itself. -/
  | question (answer : Request)
  /-- An option, possibly with its value attached. -/
  | setting (setting : Setting) (attached : Option String)
  /-- A path. -/
  | path (path : String)
  /-- An option that does not exist. -/
  | unknown

/-- The option with a long name.  A value is attached to it with an equals sign, which a question
does not allow. -/
def Argument.ofLong (cs : List Char) : Argument :=
  let name := String.ofList (cs.takeWhile (· ≠ '='))
  let attached :=
    match cs.dropWhile (· ≠ '=') with
    | [] => none
    | _ :: value => some (String.ofList value)
  if name = "stage" then .setting .stage attached
  else if name = "format" then .setting .format attached
  else if name = "recursion-limit" then .setting .limit attached
  else if attached.isSome then .unknown
  else if name = "version" then .question .version
  else if name = "help" then .question .help
  else .unknown

/-- The option with a short name.  A value is attached to it directly or with an equals sign. -/
def Argument.ofShort (name : Char) (rest : List Char) : Argument :=
  let attached :=
    match rest with
    | [] => none
    | c :: value => some (String.ofList (if c = '=' then value else c :: value))
  if name = 's' then .setting .stage attached
  else if name = 'f' then .setting .format attached
  else if name = 'V' then .question .version
  else if name = 'h' then .question .help
  else .unknown

/-- What an argument is by its look. -/
def Argument.ofString (argument : String) : Argument :=
  match argument.toList with
  | ['-', '-'] => .endOfOptions
  | '-' :: '-' :: long => .ofLong long
  | '-' :: name :: rest => .ofShort name rest
  | _ => .path argument

/-- Whether an argument starts like an option; a hyphen by itself does not. -/
def looksLikeOption (argument : String) : Bool :=
  match argument.toList with
  | '-' :: _ :: _ => true
  | _ => false

/-- What the arguments ask for, after what was given before them. -/
def Request.ofRest (given : Given) : List String → Request
  | [] => given.request
  | argument :: rest =>
    match Argument.ofString argument with
    | .endOfOptions =>
      match given.addPaths rest with
      | some given => given.request
      | none => .misuse
    | .question answer => answer
    | .unknown => .misuse
    | .path path =>
      match given.addPath path with
      | some given => ofRest given rest
      | none => .misuse
    | .setting setting (some value) =>
      match given.set setting value with
      | some given => ofRest given rest
      | none => .misuse
    | .setting setting none =>
      match rest with
      | [] => .misuse
      | value :: rest =>
        if looksLikeOption value then .misuse
        else
          match given.set setting value with
          | some given => ofRest given rest
          | none => .misuse

/-- What the arguments ask for. -/
def Request.ofArguments (arguments : List String) : Request :=
  ofRest Given.nothing arguments

end LetDef.CommandLine
