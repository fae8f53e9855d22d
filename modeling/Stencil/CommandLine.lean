import Stencil.Site.Build
import Stencil.Text.Integer

set_option autoImplicit false

/-! # The command line

The settings of a build come from the environment and from the arguments, which win. A long
option may be cut short as long as it stays unique, and its value follows it as an argument of
its own or after an equals sign.
-/

namespace Stencil.CommandLine

open Text

/-! ## The environment -/

/-- The settings as they are written. -/
structure Settings where
  root : Text
  imports : Text
  content : Text
  output : Text
  activeClass : Text
  exclude : Text
  maxDepth : Int
  workers : Int
  verbose : Bool
  deriving DecidableEq, Repr

/-- The values of the environment by name. -/
abbrev Environment := Text → Option Text

/-- The names of the variables that hold settings. -/
def variableNames : List Text :=
  ["SERGEY_ROOT", "SERGEY_IMPORTS", "SERGEY_CONTENT", "SERGEY_OUTPUT", "SERGEY_ACTIVE_CLASS",
    "SERGEY_EXCLUDE", "SERGEY_MAX_DEPTH", "SERGEY_WORKERS", "SERGEY_VERBOSE"].map String.text

/-- Whether a value stands for yes. -/
def isYes (s : Text) : Bool := ["1", "true", "yes"].any fun word => lower s == word.text

/-- Why a text is not read as an integer. -/
inductive BadInteger where
  | noInteger (source : Text)
  | overlong (n : Overlong)
  deriving DecidableEq, Repr

/-- A text that is not read as an integer, in words. -/
def BadInteger.message : BadInteger → Text
  | .noInteger source => "invalid literal for int() with base 10: ".text ++ quoted source
  | .overlong n => n.message

/-- Reads an integer. -/
def readInteger (s : Text) : Except BadInteger Int :=
  match overlongInteger? s, integer? s with
  | some n, _ => .error (.overlong n)
  | none, some n => .ok n
  | none, none => .error (.noInteger s)

/-- The integer a variable holds. -/
def integerOf (source : Option Text) (default : Int) : Except BadInteger Int :=
  match source with
  | none => .ok default
  | some s => readInteger s

/-- The settings that the environment gives. -/
def Settings.ofEnvironment (env : Environment) : Except BadInteger Settings := do
  let text (name default : String) : Text := (env name.text).getD default.text
  let maxDepth ← integerOf (env "SERGEY_MAX_DEPTH".text) Site.Config.usualDepth
  let workers ← integerOf (env "SERGEY_WORKERS".text) 1
  pure {
    root := text "SERGEY_ROOT" "."
    imports := text "SERGEY_IMPORTS" "_imports"
    content := text "SERGEY_CONTENT" "_imports"
    output := text "SERGEY_OUTPUT" "public"
    activeClass := text "SERGEY_ACTIVE_CLASS" "active"
    exclude := text "SERGEY_EXCLUDE" ""
    maxDepth := maxDepth
    workers := workers
    verbose := isYes (text "SERGEY_VERBOSE" "false") }

/-! ## Arguments -/

/-- The options. All but `help` and `verbose` take a value. -/
inductive Opt where
  | help
  | root
  | imports
  | content
  | output
  | activeClass
  | exclude
  | maxDepth
  | workers
  | verbose
  deriving DecidableEq, Repr

/-- The long names of the options. -/
def longNames : List (Text × Opt) :=
  [("--help", .help), ("--root", .root), ("--imports", .imports), ("--content", .content),
    ("--output", .output), ("--active-class", .activeClass), ("--exclude", .exclude),
    ("--max-depth", .maxDepth), ("--workers", .workers), ("--verbose", .verbose)].map
    fun (name, opt) => (name.text, opt)

/-- The options by all their names. -/
def names : List (Text × Opt) := ("-h".text, .help) :: longNames

/-- Why the arguments end the program before a build: help is asked for, or they are wrong. -/
inductive Exit where
  | help
  | usage
  deriving DecidableEq, Repr

/-- The number an exit is reported by. -/
def Exit.code : Exit → Nat
  | .help => 0
  | .usage => 2

/-- What is printed at an exit. -/
def Exit.text : Exit → Text
  | .help =>
      "Compiles templates into static HTML.\n\n".text ++
        join ['\n'] (longNames.map fun (name, _) => "  ".text ++ name)
  | .usage => "The arguments are not understood; --help lists the options.".text

/-- What an argument is. -/
inductive Argument where
  /-- A value, for the option before it if there is one. -/
  | value (s : Text)
  /-- The mark after which every argument is a value. -/
  | separator
  /-- An option, with the value attached to it by an equals sign. -/
  | option (opt : Opt) (attached : Option Text)
  /-- Short options in one argument, from what follows `-h`. -/
  | shortRow (tail : Text)
  /-- An option that does not exist. -/
  | unknown
  deriving DecidableEq, Repr

/-- Whether a text is a negative number, with or without a decimal point. -/
def isNegativeNumber (s : Text) : Bool :=
  let isDigit (c : CodePoint) : Bool := (digit? c).isSome
  let body (s : Text) : Bool :=
    let rest := s.dropWhile isDigit
    match rest with
    | [] => !s.isEmpty
    | '.' :: fraction => !fraction.isEmpty && fraction.all isDigit
    | _ => false
  match s with
  | '-' :: s => body (if endsWith s ['\n'] then s.dropLast else s)
  | _ => false

/-- Reads an argument that begins with a dash and is no name of an option. -/
def classifyDashed (s : Text) : Except Exit Argument :=
  let name := s.takeWhile (· != char '=')
  let attached := if s.elem (char '=') then some (s.drop (name.length + 1)) else none
  let other : Argument :=
    if isNegativeNumber s || s.elem (char ' ') then .value s else .unknown
  match attached, names.lookup name with
  | some value, some opt => .ok (.option opt (some value))
  | _, _ =>
      if startsWith s [char '-', char '-'] then
        match longNames.filter fun (long, _) => startsWith long name with
        | [] => .ok other
        | [(_, opt)] => .ok (.option opt attached)
        | _ => .error .usage
      else
        match after? ['-', 'h'] s with
        | some tail => .ok (.shortRow tail)
        | none => .ok other

/-- Reads an argument. -/
def classify (s : Text) : Except Exit Argument :=
  match s with
  | '-' :: _ :: _ =>
      match names.lookup s with
      | some opt => .ok (.option opt none)
      | none => classifyDashed s
  | _ => .ok (.value s)

/-- Reads all arguments. -/
def classifyAll : List Text → Except Exit (List Argument)
  | [] => .ok []
  | s :: rest =>
      if s = [char '-', char '-'] then .ok (.separator :: rest.map .value)
      else do
        let first ← classify s
        .ok (first :: (← classifyAll rest))

/-- How a row of short options ends the program, from what follows an `-h`. -/
def exitOfRow : Text → Exit
  | [] => .usage
  | ['h'] => .help
  | c :: rest =>
      if c = '-' then .usage
      else if c = 'h' then if rest.head? == some (char '=') then .usage else exitOfRow rest
      else .help

/-- The settings with the value of an option. -/
def Settings.set (settings : Settings) (opt : Opt) (value : Text) : Except Exit Settings :=
  let integer : Except Exit Int := (readInteger value).mapError fun _ => .usage
  match opt with
  | .root => .ok { settings with root := value }
  | .imports => .ok { settings with imports := value }
  | .content => .ok { settings with content := value }
  | .output => .ok { settings with output := value }
  | .activeClass => .ok { settings with activeClass := value }
  | .exclude => .ok { settings with exclude := value }
  | .maxDepth => integer.map fun n => { settings with maxDepth := n }
  | .workers => integer.map fun n => { settings with workers := n }
  | .help | .verbose => .error .usage

/-- The settings with some arguments taken into account, from the left. A value without an
option is wrong, but help before or after it is still given. -/
def Settings.apply (settings : Settings) : List Argument → Except Exit Settings
  | [] => .ok settings
  | .option .help none :: _ => .error .help
  | .option .verbose none :: rest => { settings with verbose := true }.apply rest
  | .option opt (some value) :: rest => do (← settings.set opt value).apply rest
  | .option opt none :: .value value :: rest => do (← settings.set opt value).apply rest
  | .option _ none :: _ => .error .usage
  | .shortRow tail :: _ => .error (exitOfRow tail)
  | .value _ :: rest | .separator :: rest | .unknown :: rest => do
      let _ ← settings.apply rest
      .error .usage

/-- The settings that the arguments give, on top of others. -/
def Settings.ofArguments (settings : Settings) (arguments : List Text) : Except Exit Settings := do
  settings.apply (← classifyAll arguments)

/-- The configuration that the settings stand for. -/
def Settings.config (s : Settings) : Site.Config where
  root := Path.parse s.root
  imports := stripChar '/' s.imports
  content := stripChar '/' s.content
  output := stripChar '/' s.output
  activeClass := s.activeClass
  exclude := ((splitOn ',' s.exclude).map trim).filter (!·.isEmpty)
  maxDepth := s.maxDepth
  workers := s.workers
  verbose := s.verbose

/-! ## Running -/

/-- Why there is no configuration: a variable is wrong, or the arguments end the program. -/
inductive Trouble where
  | badInteger (bad : BadInteger)
  | exit (exit : Exit)
  deriving DecidableEq, Repr

/-- The configuration that the environment and the arguments give. -/
def readConfig (env : Environment) (arguments : List Text) : Except Trouble Site.Config := do
  let settings ← (Settings.ofEnvironment env).mapError .badInteger
  let settings ← (settings.ofArguments arguments).mapError .exit
  pure settings.config

/-- How the program ends: with a number, with a message, or broken off. -/
inductive Ending where
  | code (n : Nat)
  | refused (message : Text)
  | badInteger (bad : BadInteger)
  | fault (fault : Disk.Fault)
  deriving DecidableEq, Repr

/-- The message of a refusal to build. -/
def refusedMessage (refusal : Site.Config.Refusal) : Text :=
  "[ERROR] ".text ++ refusal.message

/-- Runs the program on a disk. -/
def run (markdown : Text → Except Overlong Text) (markers : List Text → Markers) (env : Environment)
    (arguments : List Text) (disk : Disk) : Ending × Site.Progress :=
  let start : Site.Progress := ⟨disk, []⟩
  match readConfig env arguments with
  | .error (.badInteger bad) => (.badInteger bad, start)
  | .error (.exit exit) => (.code exit.code, start)
  | .ok config =>
      let (result, progress) := (Site.build markdown markers id config).run start
      match result with
      | .ok report => (.code (if report.failures.isEmpty then 0 else 1), progress)
      | .error (.refused refusal) => (.refused (refusedMessage refusal), progress)
      | .error (.fault fault) => (.fault fault, progress)

end Stencil.CommandLine
