import FlowFold.Text.Numeral
import FlowFold.Text.Quoted

/-! # Settings of the command

The settings have defaults, some of which the environment may replace, and are then
changed by the flags on the command line. Flags are read from the left up to the first
argument that is not one; a later flag overrides an earlier one.
-/

namespace FlowFold.Command

structure Settings where
  /-- The samples to fold, separated by commas, or `all`. -/
  sample : String
  format : String
  /-- The header of a Mermaid chart. -/
  chart : String
  /-- Where to write renderings; they are printed if this is empty. -/
  outDir : String
  verbose : Bool
  /-- How many samples may be folded at a time. -/
  jobs : Int
  /-- List the samples and do nothing else. -/
  list : Bool
  /-- Print the statement trees. -/
  outline : Bool
  deriving Repr, DecidableEq

abbrev Environment := String → Option String

/-- A variable's text, where one that is empty counts as not set. -/
def Environment.text (env : Environment) (name standard : String) : String :=
  match env name with
  | none | some "" => standard
  | some s => s

def affirmatives : List String :=
  ["absolutely", "affirmative", "enable", "enabled", "positive", "t", "true", "y", "yes"]

/-- Whether a text says yes: `1`, or an affirmative in small letters, in capitals, or
    with its first letter alone a capital. -/
def isAffirmative (s : String) : Bool :=
  s == "1" || affirmatives.any fun word =>
    s == word || s == word.toUpper || s == word.capitalize

/-- The settings before any flag is read. -/
def Settings.initial (env : Environment) : Settings where
  sample := env.text "CFOLD_SAMPLE" "all"
  format := env.text "CFOLD_FORMAT" "mermaid"
  chart := env.text "CFOLD_GRAPH" "graph TD"
  outDir := env.text "CFOLD_OUTDIR" ""
  verbose := isAffirmative (env.text "CFOLD_VERBOSE" "")
  jobs :=
    match Text.readDecimal (env.text "CFOLD_JOBS" "") with
    | .ok n => n
    | .error _ => 4
  list := false
  outline := false

/-- The flags, in the order in which they are explained. -/
inductive Flag where
  | outline
  | format
  | chart
  | jobs
  | list
  | outDir
  | sample
  | verbose
  deriving Repr, DecidableEq

namespace Flag

def all : List Flag := [outline, format, chart, jobs, list, outDir, sample, verbose]

def name : Flag → String
  | outline => "dumpast"
  | format => "format"
  | chart => "graph"
  | jobs => "jobs"
  | list => "list"
  | outDir => "out"
  | sample => "sample"
  | verbose => "v"

/-- What sort of argument a flag takes; a switch takes none. -/
def argument : Flag → Option String
  | outline | list | verbose => none
  | jobs => some "int"
  | format | chart | outDir | sample => some "string"

def help : Flag → String
  | outline => "dump the statement trees"
  | format => "rendering: mermaid, dot or dump"
  | chart => "mermaid graph header"
  | jobs => "maximum concurrent folds"
  | list => "list samples and exit"
  | outDir => "write renderings into this directory"
  | sample => "comma-separated samples to fold, or all"
  | verbose => "trace the analysis"

/-- The text of a setting that is worth mentioning: not an empty text, zero or false. -/
def standard (s : Settings) : Flag → Option String
  | outline => switch s.outline
  | format => quote s.format
  | chart => quote s.chart
  | jobs => if s.jobs = 0 then none else some (toString s.jobs)
  | list => switch s.list
  | outDir => quote s.outDir
  | sample => quote s.sample
  | verbose => switch s.verbose
where
  switch (b : Bool) : Option String := if b then some "true" else none
  quote (text : String) : Option String := if text.isEmpty then none else some (Text.quoted text)

/-- The explanation of a flag. A switch of one letter has it on the same line. -/
def usage (s : Settings) (f : Flag) : String :=
  let head := "  -" ++ f.name ++ ((f.argument.map (" " ++ ·)).getD "")
  let gap := if head.length ≤ 4 then "\t" else "\n    \t"
  let default := ((f.standard s).map fun text => " (default " ++ text ++ ")").getD ""
  head ++ gap ++ f.help ++ default ++ "\n"

end Flag

/-- The explanation of all flags, with the settings they start from. -/
def usage (initial : Settings) : String :=
  "Usage of cfold:\n" ++ String.join (Flag.all.map (Flag.usage initial))

inductive FlagError where
  /-- The explanation was asked for. -/
  | help
  | badFlag (argument : String)
  | unknown (name : String)
  | noArgument (name : String)
  | badValue (value name : String) (reason : Text.NumeralError)
  | badSwitch (value name : String)
  deriving Repr, DecidableEq

/-- The wording of an error; asking for help is none. -/
def FlagError.message : FlagError → Option String
  | help => none
  | badFlag argument => some ("bad flag syntax: " ++ argument)
  | unknown name => some ("flag provided but not defined: -" ++ name)
  | noArgument name => some ("flag needs an argument: -" ++ name)
  | badValue value name reason =>
      let why := match reason with
        | .malformed => "parse error"
        | .outOfRange => "value out of range"
      some ("invalid value " ++ Text.quoted value ++ " for flag -" ++ name ++ ": " ++ why)
  | badSwitch value name =>
      some ("invalid boolean value " ++ Text.quoted value ++ " for -" ++ name ++ ": parse error")

def readBool? (s : String) : Option Bool :=
  if ["1", "t", "T", "true", "TRUE", "True"].contains s then some true
  else if ["0", "f", "F", "false", "FALSE", "False"].contains s then some false
  else none

def Settings.set (s : Settings) (f : Flag) (value : String) : Except FlagError Settings :=
  match f with
  | .sample => .ok { s with sample := value }
  | .format => .ok { s with format := value }
  | .chart => .ok { s with chart := value }
  | .outDir => .ok { s with outDir := value }
  | .jobs =>
      match Text.readInt value with
      | .ok n => .ok { s with jobs := n }
      | .error reason => .error (.badValue value f.name reason)
  | .verbose => do return { s with verbose := ← switch }
  | .list => do return { s with list := ← switch }
  | .outline => do return { s with outline := ← switch }
where
  switch : Except FlagError Bool :=
    match readBool? value with
    | some b => .ok b
    | none => .error (.badSwitch value f.name)

inductive Argument where
  /-- Not a flag: reading ends before or with it. -/
  | stop
  | malformed
  | flag (name : String) (value : Option String)
  deriving Repr, DecidableEq

/-- Take an argument apart. One or two dashes make a flag, and an equals sign after the
    first letter of its name starts its value. -/
def Argument.ofString (argument : String) : Argument :=
  match argument.toList with
  | ['-', '-'] => .stop
  | '-' :: '-' :: name => ofName name
  | '-' :: c :: name => ofName (c :: name)
  | _ => .stop
where
  ofName (cs : List Char) : Argument :=
    match cs with
    | [] | '-' :: _ | '=' :: _ => .malformed
    | cs =>
        let name := String.ofList (cs.takeWhile (· != '='))
        match cs.dropWhile (· != '=') with
        | [] => .flag name none
        | _ :: value => .flag name (some (String.ofList value))

def Settings.read (s : Settings) : List String → Except FlagError Settings
  | [] => .ok s
  | argument :: rest =>
      match Argument.ofString argument with
      | .stop => .ok s
      | .malformed => .error (.badFlag argument)
      | .flag name value =>
          match Flag.all.find? (·.name == name) with
          | none => .error (if name == "help" || name == "h" then .help else .unknown name)
          | some f =>
              match value, f.argument, rest with
              | some value, _, rest => do (← s.set f value).read rest
              | none, none, rest => do (← s.set f "true").read rest
              | none, some _, value :: rest => do (← s.set f value).read rest
              | none, some _, [] => .error (.noArgument name)

end FlowFold.Command
