import SchemaDecl.Failure
import SchemaDecl.Schema.Prepared
import SchemaDecl.Text.Blank

/-! One declaration for one schema. An empty schema gives an empty interface and
a schema marked as untyped an alias of `any`; every other schema is prepared and
compiled under a placeholder, which the name asked for then replaces wherever it
stands. The placeholder is all capitals, so making an identifier of it changes
nothing. -/

namespace SchemaDecl

open TypeScript

/-- What a compiler was asked for. -/
structure Request where
  schema : Json
  name : String
  options : Options
  deriving DecidableEq

structure Trace where
  events : List Event
  requests : List Request

/-- Work that reports events and asks for compilations, also when it fails in the end. -/
abbrev Run := ExceptT Failure (StateM Trace)

def Run.outcome (run : Run α) : Except Failure α × Trace := ExceptT.run run |>.run ⟨[], []⟩

def report (events : List Event) : Run Unit :=
  modify fun trace => { trace with events := trace.events ++ events }

/-- A compiler for schemas: the source text, and what was reported. -/
abbrev Backend := Request → Except Failure String × List Event

/-- The compiler of the library, with the declared name kept free of enums. -/
def standardBackend (typeName : String) : Backend := fun request =>
  let (compiled, _) := (Compiler.new Formatter.absent [typeName]).compile
    request.schema request.name request.options
  (compiled.result.mapError Failure.ofCompileFault, compiled.events)

def compileWith (backend : Backend) (request : Request) : Run String := do
  modify fun trace => { trace with requests := trace.requests ++ [request] }
  let (code, events) := backend request
  report events
  (code : Except _ _)

def placeholder : String := "THISISAFAKETYPENAME"

def resolvedReferences (typeName : String) (visits : List Schema.Visit) : List Event :=
  visits.filterMap fun visit => (Schema.Reference.ofFields? visit.fields).map fun reference =>
    .resolvedReference ("&" ++ reference) visit.path
      (Schema.Prepared.target typeName visit.path reference)

def isMarkedAny (fields : Fields) : Bool := (Fields.value fields "__is_any__").truthy

def emptyInterface (typeName : String) : String :=
  "export interface " ++ typeName ++ " \x7b\x7d"

def anyAlias (typeName : String) : String := "export type " ++ typeName ++ " = any"

def named (typeName code : String) : String :=
  Text.strip (Text.replaceAll placeholder typeName code)

def declareNode (backend : Backend) (schema : Json) (typeName : String) : Run String := do
  let prepared : Except Failure _ :=
    (Schema.Prepared.prepareWithVisits typeName schema).mapError Failure.fold
  let (prepared, visits) ← prepared
  report (resolvedReferences typeName visits)
  let code ← compileWith backend ⟨prepared, placeholder, .plain⟩
  report [.substituted placeholder typeName]
  return named typeName code

def declare (backend : Backend) (schema : Json) (typeName : String) : Run String :=
  if !schema.truthy then return emptyInterface typeName
  else match schema with
    | .obj fields =>
      if isMarkedAny fields then return anyAlias typeName
      else declareNode backend schema typeName
    | _ => throw (.notAnObject schema)

/-- The schema as its owner finds it afterwards: the mark for `any` is taken off when it counts. -/
def leftAfterDeclare : Json → Json
  | .obj fields =>
    if isMarkedAny fields then .obj (Fields.erase fields "__is_any__") else .obj fields
  | schema => schema

theorem placeholder_isIdentifier : Name.toIdentifier placeholder = placeholder := by
  decide +kernel

end SchemaDecl
