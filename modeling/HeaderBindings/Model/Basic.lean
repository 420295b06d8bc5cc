import HeaderBindings.Declaration.Basic

set_option autoImplicit false

namespace HeaderBindings

structure Diagnostic where
  code : String
  message : String
  preview : String
  deriving DecidableEq, Repr

structure Model where
  functions : List Function := []
  diagnostics : List Diagnostic := []
  candidateCount : UInt64 := 0
  deriving DecidableEq, Repr

inductive LogLevel
  | debug
  | info
  | warn
  deriving DecidableEq, Repr

def LogLevel.name : LogLevel → String
  | debug => "debug"
  | info => "info"
  | warn => "warn"

structure LogEntry where
  level : LogLevel
  text : String
  deriving DecidableEq, Repr

namespace Model

def isEmpty (m : Model) : Bool := m.functions.isEmpty

/-- Binary search for a name in `functions[low], …, functions[high - 1]`, which are sorted. -/
def search (functions : Array Function) (name : String) (low high : Nat) : Option Function :=
  if _h : low < high then
    let middle := (low + high) / 2
    match functions[middle]? with
    | none => none
    | some f =>
      if f.name = name then some f
      else if f.name < name then search functions name (middle + 1) high
      else search functions name low middle
  else none
termination_by high - low

def function? (m : Model) (name : String) : Option Function :=
  let functions := m.functions.toArray
  search functions name 0 functions.size

def skipEntry (d : Diagnostic) : LogEntry :=
  ⟨.warn, "Skipped function signature: " ++ d.preview ++ "... (" ++ d.message ++ ")"⟩

/-- What is reported while the model is built. -/
def buildLog (m : Model) : List LogEntry :=
  ⟨.info, "Found " ++ toString m.candidateCount ++ " potential functions in header file."⟩ ::
    m.diagnostics.map skipEntry ++
    [if m.isEmpty then
      ⟨.warn, "No functions parsed; the header does not match the expected declaration shape."⟩
    else
      ⟨.info, "Successfully parsed " ++ toString m.functions.length ++ " functions."⟩]

end Model

end HeaderBindings
