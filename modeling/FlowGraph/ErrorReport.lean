/-!
A list of errors that belong together. They are shown one by one in a recap, and
stand for one failure with a summary of its own.
-/

namespace FlowGraph

structure ErrorReport where
  label : String
  errors : List String
  deriving DecidableEq

namespace ErrorReport

def summary (report : ErrorReport) : String :=
  report.label ++ " failed due to " ++ toString report.errors.length ++ " errors"

def recap (report : ErrorReport) : String :=
  "\nEncountered errors while " ++ report.label ++ ":\n\n" ++
    String.join (report.errors.map fun error => "ERROR: " ++ error ++ "\n") ++ "\n"

def check (report : ErrorReport) : Except ErrorReport Unit :=
  if report.errors.isEmpty then .ok () else .error report

end ErrorReport

end FlowGraph
