import HeaderBindings.Declaration.Parse
import HeaderBindings.Options
import HeaderBindings.Header.Candidate
import HeaderBindings.Model.Basic

/-!
Building the model of a header. Every candidate is read; the first function of each name goes into
the model, and every other candidate into the diagnostics. At last the functions are sorted by
name, so the order of declarations shows in the diagnostics only.
-/

set_option autoImplicit false

namespace HeaderBindings

/-- A candidate with what reading it gave. -/
structure Reading where
  candidate : List Char
  result : Except Malformed Function

namespace Diagnostic

def previewOf (length : UInt64) (candidate : List Char) : String :=
  String.ofList (candidate.take length.toNat)

def malformed (length : UInt64) (candidate : List Char) (reason : Malformed) : Diagnostic :=
  ⟨"malformed-signature", reason.message, previewOf length candidate⟩

def duplicate (length : UInt64) (candidate : List Char) (name : String) : Diagnostic :=
  ⟨"duplicate-function", "duplicate declaration of '" ++ name ++ "'", previewOf length candidate⟩

end Diagnostic

namespace Model

/-- The functions that readings give beyond those of the names already seen, and a diagnostic for
every other reading, both in order. -/
def sift (length : UInt64) (seen : List String) :
    List Reading → List Function × List Diagnostic
  | [] => ([], [])
  | r :: rs =>
    match r.result with
    | .error reason =>
      let (functions, diagnostics) := sift length seen rs
      (functions, .malformed length r.candidate reason :: diagnostics)
    | .ok f =>
      if seen.contains f.name then
        let (functions, diagnostics) := sift length seen rs
        (functions, .duplicate length r.candidate f.name :: diagnostics)
      else
        let (functions, diagnostics) := sift length (f.name :: seen) rs
        (f :: functions, diagnostics)

/-- The order of functions: by name, code point by code point. -/
def nameLe (f g : Function) : Bool := !decide (g.name < f.name)

def ofHeader (o : Options) (policy : Header.Policy) (header : String) : Model :=
  let wrapper := o.wrapperMacro.toList
  let candidates := Header.candidates policy wrapper header.toList
  let readings := candidates.map fun c => ⟨c, Function.ofCandidate wrapper c⟩
  let (functions, diagnostics) := sift o.previewLength [] readings
  { functions := functions.mergeSort nameLe
    diagnostics
    candidateCount := UInt64.ofNat candidates.length }

/-- Builds the model of a header with the rules of a policy. The patterns that hold the wrapper
macro are scanners here, and the limit on the size of a pattern, `Pattern.maxSteps`, is not applied
to them: a macro so long that they would pass it gives a model too, and never `Failure.pattern`. -/
def buildWith (o : Options) (policy : Header.Policy) (header : String) : Except Failure Model :=
  match o.validate with
  | .error fault => .error (.options fault)
  | .ok () => .ok (ofHeader o policy header)

def build (o : Options) (header : String) : Except Failure Model :=
  buildWith o (.forWrapper o.wrapperMacro) header

end Model

end HeaderBindings
