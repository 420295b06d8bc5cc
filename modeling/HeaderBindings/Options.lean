import HeaderBindings.FileTree.Path
import HeaderBindings.Json.Basic
import HeaderBindings.Text.Word
import HeaderBindings.Text.Blank

set_option autoImplicit false

namespace HeaderBindings

structure Options where
  wrapperMacro : String := "ext_def"
  symbolPrefix : String := "_"
  /-- Symbols that are exported before all functions. -/
  runtimeSymbols : List String := ["_free", "_malloc"]
  runtimeMethods : List String :=
    ["setValue", "getValue", "stringToUTF8", "UTF8ToString", "lengthBytesUTF8", "FS"]
  headerFile : String := "swephexp.h"
  /-- How many characters of a rejected candidate a diagnostic shows. -/
  previewLength : UInt64 := 50
  /-- Whether candidates may be read at the same time; no result depends on it. -/
  parallel : Bool := false
  deriving DecidableEq, Repr

inductive OptionsFault
  | unreadable (fault : Json.Fault)
  | wrapperMacro (given : String)
  | headerFile
  deriving DecidableEq, Repr

def OptionsFault.message : OptionsFault → String
  | unreadable fault => fault.message
  | wrapperMacro given => "wrapperMacro must be a C identifier, got '" ++ given ++ "'"
  | headerFile => "headerFile must not be empty"

namespace Options

/-- Whether a text can stand as the wrapper macro: ASCII letters, digits and underscores, at least
one of them. -/
def isMacroName (cs : List Char) : Bool := !cs.isEmpty && cs.all Text.isAsciiWord

/-- Accepts options whose wrapper macro and header have proper names; the macro is looked at
first. -/
def validate (o : Options) : Except OptionsFault Unit :=
  if !isMacroName o.wrapperMacro.toList then .error (.wrapperMacro o.wrapperMacro)
  else if (Text.trim o.headerFile.toList).isEmpty then .error .headerFile
  else .ok ()

theorem wrapperMacro_of_valid {o : Options} (valid : o.validate = .ok ()) :
    ∃ c cs, o.wrapperMacro.toList = c :: cs ∧ ∀ d ∈ c :: cs, Text.isAsciiWord d = true := by
  cases named : isMacroName o.wrapperMacro.toList with
  | false => simp [validate, named] at valid
  | true =>
      cases letters : o.wrapperMacro.toList with
      | nil => simp [isMacroName, letters] at named
      | cons c cs =>
          refine ⟨c, cs, rfl, ?_⟩
          simpa [isMacroName, letters] using named

theorem not_mem_wrapperMacro {o : Options} (valid : o.validate = .ok ()) {c : Char}
    (other : Text.isAsciiWord c = false) : c ∉ o.wrapperMacro.toList := by
  obtain ⟨d, ds, letters, words⟩ := wrapperMacro_of_valid valid
  intro member
  rw [letters] at member
  rw [words c member] at other
  cases other

def symbolFor (o : Options) (name : String) : String := o.symbolPrefix ++ name

end Options

inductive Failure
  | file (error : FileError)
  | json (fault : Json.Fault)
  | pattern
  | options (fault : OptionsFault)
  | headerNotFound (root name : String)
  | template (occurrences : Nat)
  | noFunctions
  deriving DecidableEq, Repr

/-- The wording of a failure. What a malformed pattern's own error would say behind
`invalid pattern` is left out. -/
def Failure.message : Failure → String
  | file error => "i/o error: " ++ error.message
  | json fault => "json error: " ++ fault.message
  | pattern => "invalid pattern"
  | options fault => "invalid options: " ++ fault.message
  | headerNotFound root name => "header '" ++ name ++ "' not found under " ++ root
  | template occurrences =>
    "declaration template must contain the placeholder exactly once (found "
      ++ toString occurrences ++ ")"
  | noFunctions => "no function declarations were recognised in the header"

end HeaderBindings
