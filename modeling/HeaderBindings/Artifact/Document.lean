import HeaderBindings.Declaration.Basic
import HeaderBindings.Options
import HeaderBindings.Text.Scan

set_option autoImplicit false

namespace HeaderBindings

namespace Template

/-- What stands in a template for the declarations. -/
def placeholder : List Char := "###OTHER_CODE###".toList

def literal (pattern text : List Char) : Text.Finder := fun _ cs =>
  (Text.afterLiteral pattern cs).map fun _ => ⟨pattern.length, text⟩

/-- How often the placeholder occurs, overlapping occurrences counting once. -/
def occurrences (text : String) : Nat :=
  (Text.spans (literal placeholder []) text.toList).length

end Template

/-- A text with one place for declarations. -/
structure Template where
  text : String
  once : Template.occurrences text = 1
  deriving DecidableEq, Repr

namespace Template

def ofText (text : String) : Except Failure Template :=
  if once : occurrences text = 1 then .ok ⟨text, once⟩ else .error (.template (occurrences text))

def render (t : Template) (declarations : String) : String :=
  String.ofList (Text.replaceAll (literal placeholder declarations.toList) t.text.toList)

end Template

namespace Document

def typeTag (t : MappedType) : String := String.singleton '{' ++ t.label ++ String.singleton '}'

def parameterLine (p : Parameter) : String :=
  "     * @param " ++ typeTag p.mappedType ++ " " ++ p.name ++
    " - C Type: `" ++ p.displayType ++ "`"

def returnLine (f : Function) : String :=
  "     * @returns " ++ typeTag f.returnMappedType ++ " - C Type: `" ++ f.displayReturnType ++ "`"

def arguments (f : Function) : String :=
  ", ".intercalate (f.parameters.map fun p => p.name ++ ": " ++ p.mappedType.label)

def signatureLine (o : Options) (f : Function) : String :=
  "    " ++ o.symbolFor f.name ++ "(" ++ arguments f ++ "): " ++ f.returnMappedType.label ++ ";"

def blockLines (o : Options) (f : Function) : List String :=
  "    /**" :: f.parameters.map parameterLine ++
    [returnLine f, "     */", signatureLine o f]

def block (o : Options) (f : Function) : String := "\n".intercalate (blockLines o f)

/-- The template with the blocks of the functions, an empty line between neighbours. -/
def render (o : Options) (t : Template) (functions : List Function) : String :=
  t.render ("\n\n".intercalate (functions.map (block o)))

end Document

end HeaderBindings
