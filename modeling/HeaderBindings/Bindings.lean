import HeaderBindings.Artifact.Document
import HeaderBindings.Artifact.Standard
import HeaderBindings.Model.Build

set_option autoImplicit false

namespace HeaderBindings

structure Artifacts where
  exportSymbols : List String
  runtimeMethods : List String
  declarationDocument : String
  deriving DecidableEq, Repr

namespace Artifacts

def flag (name : String) (values : List String) : String :=
  "-s" ++ name ++ "=[" ++ ",".intercalate values ++ "]"

def exportedFunctionsFlag (a : Artifacts) : String := flag "EXPORTED_FUNCTIONS" a.exportSymbols

def exportedRuntimeMethodsFlag (a : Artifacts) : String :=
  flag "EXPORTED_RUNTIME_METHODS" a.runtimeMethods

def symbols (o : Options) (functions : List Function) : List String :=
  o.runtimeSymbols ++ functions.map fun f => o.symbolFor f.name

def ofFunctions (o : Options) (t : Template) (functions : List Function) : Artifacts where
  exportSymbols := symbols o functions
  runtimeMethods := o.runtimeMethods
  declarationDocument := Document.render o t functions

end Artifacts

/-- The model of a header together with its artifacts. -/
structure Bindings where
  model : Model
  artifacts : Artifacts
  deriving DecidableEq, Repr

namespace Bindings

def ofModel (o : Options) (m : Model) : Bindings :=
  ⟨m, .ofFunctions o .standard m.functions⟩

/-- The bindings of a header. A header without functions is no failure here. -/
def generate (o : Options) (header : String) : Except Failure Bindings :=
  (Model.build o header).map (ofModel o)

def generateStrict (o : Options) (header : String) : Except Failure Bindings :=
  match generate o header with
  | .error failure => .error failure
  | .ok b => if b.model.isEmpty then .error .noFunctions else .ok b

end Bindings

end HeaderBindings
