import HeaderBindings.Declaration.Basic
import HeaderBindings.Text.Scan
import HeaderBindings.Text.Word

/-!
Reading declarations. A candidate such as `ext_def(int32) swe_calc(double tjd, char *serr);` is
first split by its `Shape` into return type, name and parameter list; then each piece of the list
is read on its own, and the first bad piece rejects the whole candidate.
-/

set_option autoImplicit false

namespace HeaderBindings

open Text

def dropStars (cs : List Char) : List Char := cs.filter (· ≠ '*')

/-- The words of a type with every star taken as a space, one space between neighbours. -/
def baseType (cs : List Char) : List Char :=
  joinWords (words (cs.map fun c => if c = '*' then ' ' else c))

def throughBracket : List Char → Option Nat
  | [] => none
  | c :: cs => if c = ']' then some 1 else (throughBracket cs).map (· + 1)

/-- An array suffix: blanks, an opening bracket, and all up to the next closing bracket. -/
def arraySuffix : Finder := fun _ cs =>
  match dropBlanks cs with
  | '[' :: rest =>
    (throughBracket rest).map fun n => ⟨cs.length - rest.length + n, []⟩
  | _ => none

namespace Parameter

/-- Reads one piece of a parameter list. The last word is the name and the words before it are
the type; stars and array suffixes belong to neither, but make the parameter a pointer. -/
def ofPiece (piece : List Char) : Except Malformed Parameter :=
  let malformed : Except Malformed Parameter := .error (.parameter (String.ofList (trim piece)))
  let isArray := !(spans arraySuffix piece).isEmpty
  match (words (replaceAll arraySuffix piece)).reverse with
  | last :: before@(_ :: _) =>
    let name := dropStars last
    let cType := baseType (joinWords before.reverse)
    if !isIdentifier name || cType.isEmpty then malformed
    else
      let isPointer := piece.contains '*' || isArray
      .ok {
        name := String.ofList name
        cType := String.ofList cType
        isPointer
        mappedType := .ofType (String.ofList cType) isPointer }
  | _ => malformed

end Parameter

structure Shape where
  returnType : List Char
  name : List Char
  parameters : List Char
  deriving DecidableEq, Repr

namespace Shape

def isReturnChar (c : Char) : Bool := isWord c || isBlank c || c == '*'

def isListChar (c : Char) : Bool := c != '(' && c != ')'

/-- Splits `wrapper (return type) name (parameters);`, blanks around it and the semicolon being
optional. The classes of neighbouring parts are disjoint, so there is at most one way. -/
def ofCandidate? (wrapper candidate : List Char) : Option Shape := do
  let cs ← afterLiteral wrapper (trim candidate)
  let cs ← afterTokens [['(']] cs
  let returnType := cs.takeWhile isReturnChar
  if returnType.isEmpty then none
  let cs ← afterLiteral [')'] (cs.dropWhile isReturnChar)
  let cs := dropBlanks cs
  let name := cs.takeWhile isWord
  if name.isEmpty then none
  let cs ← afterTokens [['(']] (cs.dropWhile isWord)
  let parameters := cs.takeWhile isListChar
  let cs ← afterLiteral [')'] (cs.dropWhile isListChar)
  let cs := dropBlanks cs
  if cs = [] ∨ cs = [';'] then some ⟨returnType, name, parameters⟩ else none

end Shape

def splitCommas : List Char → List (List Char)
  | [] => [[]]
  | c :: cs =>
    if c = ',' then [] :: splitCommas cs
    else
      match splitCommas cs with
      | [] => [[c]]
      | piece :: pieces => (c :: piece) :: pieces

/-- The pieces of a parameter list, without the blanks around them and without empty ones. -/
def parameterPieces (list : List Char) : List (List Char) :=
  ((splitCommas list).map trim).filter (!·.isEmpty)

/-- Whether a parameter list says that there are none: the word `void`, in any case. -/
def isVoidList (list : List Char) : Bool :=
  (trim list).map Char.toLower = ['v', 'o', 'i', 'd']

namespace Function

def ofCandidate (wrapper candidate : List Char) : Except Malformed Function :=
  match Shape.ofCandidate? wrapper candidate with
  | none => .error .shape
  | some shape => do
    let parameters ←
      if isVoidList shape.parameters then .ok []
      else (parameterPieces shape.parameters).mapM Parameter.ofPiece
    let returnCType := String.ofList (baseType shape.returnType)
    let returnIsPointer := shape.returnType.contains '*'
    return {
      name := String.ofList shape.name
      returnCType
      returnIsPointer
      returnMappedType := .ofType returnCType returnIsPointer
      parameters }

end Function

end HeaderBindings
