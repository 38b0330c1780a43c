/-!
The command line. Words are read from left to right; an option waits for its
value until the next word that is none, and takes effect only when another flag
or option is recognized, or at the end.
-/

namespace FlowGraph.CommandLine

structure Options where
  config : Option String := none
  output : Option String := none
  /-- How often more detail was asked for, up to 255. -/
  verbosity : Nat := 0
  /-- Whether the graphs that the entry does not reach are left out. -/
  noComponents : Bool := false
  deriving DecidableEq

/-- Why the words of a command line do not lead to a run. -/
inductive Stop where
  /-- A word that is no known flag or option, and no option's value. -/
  | unknownArgument
  | missingValue
  | unexpectedValue
  | repeated
  | help
  | version
  deriving DecidableEq

inductive ValueOption where
  | config
  | output
  deriving DecidableEq

inductive Flag where
  | verbose
  | noComponents
  | help
  | version
  deriving DecidableEq

inductive Name where
  | value (option : ValueOption)
  | flag (flag : Flag)

/-- What a name behind two dashes stands for. It cannot be abbreviated. -/
def longName? (name : List Char) : Option Name :=
  match String.ofList name with
  | "config" => some (.value .config)
  | "output" => some (.value .output)
  | "verbose" => some (.flag .verbose)
  | "no-components" => some (.flag .noComponents)
  | "help" => some (.flag .help)
  | "version" => some (.flag .version)
  | _ => none

def shortName? : Char → Option Name
  | 'c' => some (.value .config)
  | 'o' => some (.value .output)
  | 'v' => some (.flag .verbose)
  | 'h' => some (.flag .help)
  | 'V' => some (.flag .version)
  | _ => none

/-! ### Reading words -/

structure State where
  options : Options
  /-- The option that takes effect next, with its value if it has one. -/
  pending : Option (ValueOption × Option String)

def setValue (options : Options) (value : String) : ValueOption → Except Stop Options
  | .config =>
      if options.config.isSome then .error .repeated
      else .ok { options with config := some value }
  | .output =>
      if options.output.isSome then .error .repeated
      else .ok { options with output := some value }

def settle (state : State) : Except Stop Options :=
  match state.pending with
  | none => .ok state.options
  | some (_, none) => .error .missingValue
  | some (option, some value) => setValue state.options value option

def applyFlag (options : Options) : Flag → Except Stop Options
  | .verbose => .ok { options with verbosity := min 255 (options.verbosity + 1) }
  | .noComponents =>
      if options.noComponents then .error .repeated
      else .ok { options with noComponents := true }
  | .help => .error .help
  | .version => .error .version

def readFlag (state : State) (flag : Flag) : Except Stop State := do
  let options ← settle state
  let options ← applyFlag options flag
  .ok { options := options, pending := none }

/-- Reads an option with the value attached to it, if there is one. An attached
value takes effect at once. -/
def readOption (state : State) (option : ValueOption) (attached : Option String) :
    Except Stop State := do
  let options ← settle state
  match attached with
  | none => .ok { options := options, pending := some (option, none) }
  | some value => do
      let options ← setValue options value option
      .ok { options := options, pending := none }

/-- Reads a word that begins with two dashes, which are left out here. A value may
be attached by an equals sign. -/
def readLong (state : State) (word : List Char) : Except Stop State :=
  let name := word.takeWhile (· ≠ '=')
  let attached :=
    match word.dropWhile (· ≠ '=') with
    | [] => none
    | _ :: value => some (String.ofList value)
  match longName? name with
  | none => .error .unknownArgument
  | some (.value option) => readOption state option attached
  | some (.flag flag) =>
      if attached.isSome then .error .unexpectedValue else readFlag state flag

/-- The value attached to a letter: all that follows it, without an equals sign
at the beginning. -/
def attachedTo : List Char → Option String
  | [] => none
  | '=' :: value => some (String.ofList value)
  | value => some (String.ofList value)

def readShort (state : State) : List Char → Except Stop State
  | [] => .ok state
  | letter :: letters =>
      match shortName? letter with
      | none => .error .unknownArgument
      | some (.value option) => readOption state option (attachedTo letters)
      | some (.flag flag) => do
          let state ← readFlag state flag
          readShort state letters

def readPlain (state : State) (word : List Char) : Except Stop State :=
  match state.pending with
  | some (option, none) =>
      .ok { state with pending := some (option, some (String.ofList word)) }
  | _ => .error .unknownArgument

/-- Reads one word. A lone dash is no option. -/
def readWord (state : State) (word : List Char) : Except Stop State :=
  match word with
  | '-' :: '-' :: name => readLong state name
  | '-' :: letter :: letters => readShort state (letter :: letters)
  | _ => readPlain state word

/-- Reads all words. Behind two lone dashes no word is an option or a value, so
there must be none. -/
def readWords (state : State) : List String → Except Stop Options
  | [] => settle state
  | "--" :: [] => settle state
  | "--" :: _ :: _ => .error .unknownArgument
  | word :: words => do
      let state ← readWord state word.toList
      readWords state words

def parse (words : List String) : Except Stop Options :=
  readWords { options := {}, pending := none } words

/-! ### What is used if nothing is said -/

def configVariable : String := "EDGEFOLD_CONFIG"

def defaultConfig : String := "workflow.json"

/-- The file to read: the one named on the command line, else the one named by the
environment, else the default. -/
def Options.configPath (options : Options) (environment : Option String) : String :=
  (options.config.or environment).getD defaultConfig

/-! ### Texts -/

def versionText : String := "edgefold 0.1.0\n"

def helpText : String :=
  "Usage: edgefold [OPTIONS]\n\nOptions:\n" ++
  "  -c, --config <FILE>  Workflow definition file (JSON) [env: EDGEFOLD_CONFIG=] " ++
  "[default: workflow.json]\n" ++
  "  -o, --output <FILE>  Write the compiled graph here instead of stdout\n" ++
  "  -v, --verbose...     Print additional debugging info (repeat for more)\n" ++
  "      --no-components  Leave graphs unreachable from the entrypoint out of the output\n" ++
  "  -h, --help           Print help\n" ++
  "  -V, --version        Print version\n"

def Stop.message : Stop → String
  | .unknownArgument => "unexpected argument found"
  | .missingValue => "a value is required but none was supplied"
  | .unexpectedValue => "unexpected value for a flag"
  | .repeated => "an argument cannot be used multiple times"
  | .help => helpText
  | .version => versionText

end FlowGraph.CommandLine
