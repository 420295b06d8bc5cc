import HeaderBindings.Bindings
import HeaderBindings.Json.Parse
import HeaderBindings.Json.Print
import HeaderBindings.Json.Record

set_option autoImplicit false

namespace HeaderBindings.Stored

open Json (Codec Fields Fault)

def mappedType : Codec MappedType :=
  .choice ["numeric", "void", "unknown"] MappedType.keyword MappedType.ofKeyword?

def parameter : Codec Parameter :=
  .record "ParameterDescriptor"
    (.cons "name" none .text <| .cons "cType" none .text <| .cons "isPointer" none .boolean <|
      .cons "mappedType" none mappedType .nil)
    (fun p => (p.name, p.cType, p.isPointer, p.mappedType, ()))
    (fun (name, cType, isPointer, mappedType, ()) => ⟨name, cType, isPointer, mappedType⟩)

def function : Codec Function :=
  .record "FunctionDescriptor"
    (.cons "name" none .text <| .cons "returnCType" none .text <|
      .cons "returnIsPointer" none .boolean <| .cons "returnMappedType" none mappedType <|
      .cons "parameters" none (.list parameter) .nil)
    (fun f =>
      (f.name, f.returnCType, f.returnIsPointer, f.returnMappedType, f.parameters, ()))
    (fun (name, returnCType, returnIsPointer, returnMappedType, parameters, ()) =>
      ⟨name, returnCType, returnIsPointer, returnMappedType, parameters⟩)

def diagnostic : Codec Diagnostic :=
  .record "Diagnostic"
    (.cons "code" none .text <| .cons "message" none .text <| .cons "preview" none .text .nil)
    (fun d => (d.code, d.message, d.preview, ()))
    (fun (code, message, preview, ()) => ⟨code, message, preview⟩)

def model : Codec Model :=
  .record "BindingModel"
    (.cons "functions" none (.list function) <| .cons "diagnostics" none (.list diagnostic) <|
      .cons "candidateCount" none .size .nil)
    (fun m => (m.functions, m.diagnostics, m.candidateCount, ()))
    (fun (functions, diagnostics, candidateCount, ()) =>
      ⟨functions, diagnostics, candidateCount⟩)

/-- Artifacts, without their flags. -/
def artifacts : Codec Artifacts :=
  .record "BindingArtifacts"
    (.cons "exportSymbols" none (.list .text) <| .cons "runtimeMethods" none (.list .text) <|
      .cons "declarationDocument" none .text .nil)
    (fun a => (a.exportSymbols, a.runtimeMethods, a.declarationDocument, ()))
    (fun (exportSymbols, runtimeMethods, declarationDocument, ()) =>
      ⟨exportSymbols, runtimeMethods, declarationDocument⟩)

def bindings : Codec Bindings :=
  .record "GeneratedBindings"
    (.cons "model" none model <| .cons "artifacts" none artifacts .nil)
    (fun b => (b.model, b.artifacts, ()))
    (fun (model, artifacts, ()) => ⟨model, artifacts⟩)

/-- The fields of options. Each can be left out, and then has its default. -/
def optionsFields : Fields
    (String × String × List String × List String × String × UInt64 × Bool × Unit) :=
  let standard : Options := {}
  .cons "wrapperMacro" standard.wrapperMacro .text <|
    .cons "symbolPrefix" standard.symbolPrefix .text <|
    .cons "runtimeSymbols" standard.runtimeSymbols (.list .text) <|
    .cons "runtimeMethods" standard.runtimeMethods (.list .text) <|
    .cons "headerFile" standard.headerFile .text <|
    .cons "previewLength" standard.previewLength .size <|
    .cons "parallel" standard.parallel .boolean .nil

/-- Options. They are not validated by reading them. -/
def options : Codec Options :=
  .record "BindgenOptions" optionsFields
    (fun o =>
      (o.wrapperMacro, o.symbolPrefix, o.runtimeSymbols, o.runtimeMethods, o.headerFile,
        o.previewLength, o.parallel, ()))
    (fun (wrapperMacro, symbolPrefix, runtimeSymbols, runtimeMethods, headerFile, previewLength,
        parallel, ()) =>
      ⟨wrapperMacro, symbolPrefix, runtimeSymbols, runtimeMethods, headerFile, previewLength,
        parallel⟩)

def toText {α : Type} (c : Codec α) (a : α) : String := (c.encode a).toText

def ofText {α : Type} (c : Codec α) (text : String) : Except Fault α :=
  let document := Json.Document.ofText text
  c.decodeText document.value document.isComplete

end HeaderBindings.Stored

namespace HeaderBindings.Options

/-- Reads options and validates them. -/
def ofText (text : String) : Except Failure Options :=
  match Stored.ofText Stored.options text with
  | .error fault => .error (.options (.unreadable fault))
  | .ok o =>
    match o.validate with
    | .error fault => .error (.options fault)
    | .ok () => .ok o

end HeaderBindings.Options
