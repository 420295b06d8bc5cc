import HeaderBindings.Text.Blank

set_option autoImplicit false

namespace HeaderBindings

/-- What a C type is for the caller of a compiled function. -/
inductive MappedType
  | numeric
  | void
  | unknown
  deriving DecidableEq, Repr

namespace MappedType

def label : MappedType → String
  | numeric => "number"
  | void => "void"
  | unknown => "unknown"

def keyword : MappedType → String
  | numeric => "numeric"
  | void => "void"
  | unknown => "unknown"

def ofKeyword? : String → Option MappedType
  | "numeric" => some numeric
  | "void" => some void
  | "unknown" => some unknown
  | _ => none

theorem ofKeyword?_keyword (t : MappedType) : ofKeyword? t.keyword = some t := by
  cases t <;> rfl

/-- The primitive types and type names of the ephemeris headers that hold a number. -/
def numericNames : List String :=
  ["int", "short", "long", "float", "double", "char", "unsigned",
    "int32", "int64", "int16", "uint32", "UINT4", "INT4", "REAL8", "UINT2",
    "AS_BOOL", "CSEC", "centisec"]

/-- The type of a bare type name, blanks around it aside. A name outside the table, also one of
two words, is unknown. -/
def ofName (name : String) : MappedType :=
  let bare := Text.trimmed name
  if bare ∈ numericNames then numeric
  else if bare = "void" then void
  else unknown

/-- The type of a name that may stand for a pointer. A pointer of any depth is an address, so it
is a number whatever it points to. -/
def ofType (name : String) (isPointer : Bool) : MappedType :=
  if isPointer then numeric else ofName name

@[simp] theorem ofType_pointer (name : String) : ofType name true = numeric := rfl

@[simp] theorem ofType_value (name : String) : ofType name false = ofName name := rfl

end MappedType

end HeaderBindings
