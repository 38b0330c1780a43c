import FlowGraph.CommandLine
import FlowGraph.Document.Reader
import FlowGraph.ErrorReport
import FlowGraph.Realization.GraphText
import FlowGraph.Workflow.Loading

/-!
The program between its inputs and its outputs: from the words of the command
line to settings, and from the bytes of a workflow file to the text of its graphs
or to a failure. Reading and writing files is left to the caller.
-/

namespace FlowGraph.Program

structure Settings where
  config : String
  /-- The file to write; nothing stands for standard output. -/
  output : Option String
  verbosity : Nat
  showComponents : Bool
  deriving DecidableEq

def Settings.ofOptions (options : CommandLine.Options) (environment : Option String) : Settings :=
  { config := options.configPath environment
    output := options.output
    verbosity := options.verbosity
    showComponents := !options.noComponents }

/-- What was found at the path of the workflow file. -/
inductive ConfigFile where
  | missing
  /-- There is something, but it cannot be read, for the reason given. -/
  | unreadable (reason : String)
  | content (bytes : ByteArray)

inductive Failure where
  | configNotFound (path : String)
  | unreadable (path reason : String)
  | notText (path : String)
  | invalidDocument (path : String) (fault : Json.Fault)
  | rejectedDocument (failure : LoadFailure)
  | realization (error : RealizeError MissingText)
  /-- No edge of the workflow could be placed in a graph that is shown. -/
  | nothingToOutput
  | unwritable (path reason : String)

/-! ### From a file to text -/

def graphText? (rendered : RenderedGraphs) (showComponents : Bool) : Option String :=
  let shown := if showComponents then rendered.components else []
  if rendered.main.isNone && shown.isEmpty then
    none
  else
    let main := "graph = " ++ rendered.main.getD "None" ++ "\n"
    if shown.isEmpty then
      some main
    else
      let lines := shown.map fun component => "    " ++ component ++ ",\n"
      some (main ++ "\nunused_graphs = \x7b\n" ++ String.join lines ++ "\x7d\n")

def render (settings : Settings) (workflow : Workflow) (compilation : Compilation) :
    Except Failure String :=
  match GraphText.renderAll workflow compilation with
  | .error error => .error (.realization error)
  | .ok rendered =>
      match graphText? rendered settings.showComponents with
      | none => .error .nothingToOutput
      | some text => .ok text

def loadConfig (settings : Settings) : ConfigFile → Except Failure Workflow
  | .missing => .error (.configNotFound settings.config)
  | .unreadable reason => .error (.unreadable settings.config reason)
  | .content bytes =>
      match String.fromUTF8? bytes with
      | none => .error (.notText settings.config)
      | some text =>
          match Document.parse text with
          | .error fault => .error (.invalidDocument settings.config fault)
          | .ok document => (Workflow.load document).mapError Failure.rejectedDocument

def run (settings : Settings) (config : ConfigFile) : Except Failure String := do
  let workflow ← loadConfig settings config
  render settings workflow workflow.compile

/-- What a run records, with as much detail as is asked for: nothing, or all from
information, debugging or tracing on. -/
def logLines (settings : Settings) (workflow : Workflow) : List String :=
  let events := workflow.loadEvents ++ workflow.compile.progress.events
  let shown :=
    match settings.verbosity with
    | 0 => #[]
    | 1 => Event.atLeast .info events
    | 2 => Event.atLeast .debug events
    | _ => events
  (shown.map (Event.line workflow)).toList

/-! ### Failures in words -/

def loadReport (errors : List LoadError) : ErrorReport :=
  { label := "loading workflow", errors := errors.map LoadError.message }

def faultMessage : Json.Fault → String
  | .endOfText => "EOF while parsing a value"
  | .malformed => "invalid JSON"
  | .shape error => error.message

def causeText (cause : String) : String := "\n\nCaused by:\n    " ++ cause

def Failure.message : Failure → String
  | .configNotFound path => "Config file " ++ Text.quotedPath path ++ " does not exist"
  | .unreadable path reason =>
      "while reading config file " ++ Text.quotedPath path ++ causeText reason
  | .notText path =>
      "while reading config file " ++ Text.quotedPath path ++
        causeText "stream did not contain valid UTF-8"
  | .invalidDocument path fault =>
      "while parsing config file " ++ Text.quotedPath path ++ causeText (faultMessage fault)
  | .rejectedDocument (.rejected errors) => (loadReport errors).summary
  | .rejectedDocument (.stopped error) => error.message
  | .realization error => error.message MissingText.message
  | .nothingToOutput => "Nothing to output: no edge in the workflow could be placed in a graph"
  | .unwritable path reason =>
      "while writing output file " ++ Text.quotedPath path ++ causeText reason

/-- What is shown before the failure itself. -/
def Failure.recap : Failure → String
  | .rejectedDocument (.rejected errors) => (loadReport errors).recap
  | _ => ""

def Failure.report (failure : Failure) : String :=
  failure.recap ++ "Error: " ++ failure.message ++ "\n"

/-! ### The end of a run -/

/-- How a run ends: its exit code and what it puts out. -/
structure Exit where
  code : Nat
  output : String
  errorOutput : String
  deriving DecidableEq

def Exit.ofFailure (failure : Failure) : Exit :=
  { code := 1, output := "", errorOutput := failure.report }

def Exit.ofText (text : String) : Exit := { code := 0, output := text, errorOutput := "" }

def Exit.ofStop : CommandLine.Stop → Exit
  | .help => .ofText CommandLine.helpText
  | .version => .ofText CommandLine.versionText
  | stop => { code := 2, output := "", errorOutput := "error: " ++ stop.message ++ "\n" }

/-- The settings of a run, or its end if there is none. -/
def start (words : List String) (environment : Option String) : Except Exit Settings :=
  match CommandLine.parse words with
  | .error stop => .error (.ofStop stop)
  | .ok options => .ok (.ofOptions options environment)

end FlowGraph.Program
