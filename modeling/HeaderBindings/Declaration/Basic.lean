import HeaderBindings.CType

set_option autoImplicit false

namespace HeaderBindings

/-- A C type as documentation writes it: the base type, with one star if it is a pointer. -/
def displayType (cType : String) (isPointer : Bool) : String :=
  if isPointer then cType ++ "*" else cType

/-- A named parameter. `cType` is the base type without stars. -/
structure Parameter where
  name : String
  cType : String
  isPointer : Bool
  mappedType : MappedType
  deriving DecidableEq, Repr

def Parameter.displayType (p : Parameter) : String :=
  HeaderBindings.displayType p.cType p.isPointer

structure Function where
  name : String
  returnCType : String
  returnIsPointer : Bool
  returnMappedType : MappedType
  parameters : List Parameter
  deriving DecidableEq, Repr

def Function.displayReturnType (f : Function) : String :=
  HeaderBindings.displayType f.returnCType f.returnIsPointer

inductive Malformed
  | shape
  | parameter (piece : String)
  deriving DecidableEq, Repr

def Malformed.message : Malformed → String
  | shape => "invalid function signature format"
  | parameter piece => "malformed argument: " ++ piece

end HeaderBindings
