import SchemaDecl.Declare
import SchemaDecl.Name.Pascal
import SchemaDecl.Schema.Normal

/-! Interface definitions as the documentation service hands them out. An answer
holds an error code, which has to be zero, and the data of one interface: its
path, its title and the schemas of request and response as texts. The texts are
cleaned of what the editor of the service leaves in them. The two declarations
are named after the interface, with `Request` and `Response` at the end. -/

namespace SchemaDecl

structure Interface where
  path : Json
  title : Json
  request : String
  response : String
  deriving DecidableEq

namespace Interface

/-- Length of the editor artefact at the start of the text, if there is one. -/
def artefact? : List Char → Option Nat
  | '<' :: p :: '>' :: _ => if p = 'p' || p = 'P' then some 3 else none
  | '注' :: '释' :: '\\' :: n :: '\\' :: t :: _ =>
    if (n = 'n' || n = 'N') && (t = 't' || t = 'T') then some 6 else none
  | _ => none

/-- Drops artefacts from the left; `skip` characters belong to one already found. -/
def cleanFrom : Nat → List Char → List Char
  | _, [] => []
  | skip + 1, _ :: rest => cleanFrom skip rest
  | 0, c :: rest => match artefact? (c :: rest) with
    | some length => cleanFrom (length - 1) rest
    | none => c :: cleanFrom 0 rest

def clean (s : String) : String := String.ofList (cleanFrom 0 s.toList)

/-- Zero as a number of any kind, or false. -/
def isZero : Json → Bool
  | .int n => n = 0
  | .float x => x.isZero
  | .bool b => !b
  | _ => false

def orElse (value default : Json) : Json := if value.truthy then value else default

def fieldOr (fields : Fields) (key : Key) : Json := orElse (Fields.value fields key) (.str "")

def bodyText (fields : Fields) (key : Key) : Except Failure String :=
  match fieldOr fields key with
  | .str text => .ok (clean text)
  | value => .error (.notText value)

def ofData (fields : Fields) : Except Failure Interface := do
  return ⟨fieldOr fields "path", fieldOr fields "title",
    ← bodyText fields "req_body_other", ← bodyText fields "res_body"⟩

def ofPayload : Json → Except Failure Interface
  | .obj payload =>
    if isZero (Fields.value payload "errcode") then
      match orElse (Fields.value payload "data") (.obj []) with
      | .obj data => ofData data
      | value => .error (.notAnObject value)
    else
      .error (.reported
        (orElse (Fields.value payload "errmsg") (.str "Please log in first")).display)
  | value => .error (.notAnObject value)

/-- Interfaces without letters or digits in their path are called `Interface`. -/
def typeName (i : Interface) : Except Failure String :=
  match i.path with
  | .str path =>
    let name := Name.toPascal path
    .ok (if name.isEmpty then "Interface" else name)
  | path => .error (.notText path)

end Interface

/-- Schema text to normal form; the custom type names are looked at only after the text is read. -/
def readSchema (custom : Json) (text : String) : Except Failure Json := do
  let schema ← (Json.read text).mapError Failure.malformed
  match Schema.TypeNames.tableOf? custom with
  | some table => (Schema.Normal.normalize table schema).mapError Failure.fold
  | none => throw (.notAnObject custom)

/-- Blank text is the empty schema. -/
def loadSchema (custom : Json) (text : String) : Except Failure Json :=
  if Text.isAllBlank text then .ok (.obj []) else readSchema custom text

namespace Interface

def load (payload : Json) : Run Interface := do
  let i ← (ofPayload payload : Except _ _)
  report [.loadedInterface i.path i.title]
  return i

def baseName (i : Interface) (given : String) : Except Failure String :=
  if given.isEmpty then i.typeName else .ok given

/-- Both declarations; `backendFor` gives the compiler for a declared name. -/
def declare (backendFor : String → Backend) (i : Interface) (custom : Json) (given : String) :
    Run String := do
  let base ← (i.baseName given : Except _ _)
  let part := fun (text name : String) => do
    let schema ← (loadSchema custom text : Except _ _)
    SchemaDecl.declare (backendFor name) schema name
  let request ← part i.request (base ++ "Request")
  let response ← part i.response (base ++ "Response")
  return request ++ "\n\n" ++ response

end Interface

end SchemaDecl
