import SchemaDecl.Json.Display

/-! What a run reports besides its result. Every event has a level, the part of
the program it comes from and a message; warnings are always shown, the rest
only on request. -/

namespace SchemaDecl

inductive Event
  | loadedInterface (path title : Json)
  | resolvedReference (reference : String) (path : List Json) (type : String)
  | unknownType (type : Json)
  | substituted (placeholder name : String)
  | formatterMissing
  | formatterFailed (reason : String)
  deriving DecidableEq

namespace Event

def isWarning : Event → Bool
  | .unknownType _ | .formatterFailed _ => true
  | _ => false

def origin : Event → String
  | .loadedInterface .. => "json_schema_to_ts.acquisition"
  | .resolvedReference .. => "json_schema_to_ts.pipeline.reference_encoder"
  | .unknownType _ => "json_schema_to_ts.pipeline.compiler.typescript_compiler"
  | .substituted .. => "json_schema_to_ts.pipeline.generator"
  | .formatterMissing | .formatterFailed _ =>
    "json_schema_to_ts.pipeline.formatters.prettier_formatter"

def message : Event → String
  | .loadedInterface path title =>
    "Loaded interface " ++ path.display ++ " (" ++ title.display ++ ")"
  | .resolvedReference reference path type =>
    "Resolved reference " ++ Json.showText reference ++ " at /" ++
      String.intercalate "/" (path.map Json.display) ++ " to " ++ type
  | .unknownType type => "Unknown schema type " ++ type.shown ++ ", emitting unknown"
  | .substituted placeholder name =>
    "Substituting " ++ placeholder ++ " with " ++ name ++ " in compiled output"
  | .formatterMissing => "prettier not available, leaving output unformatted"
  | .formatterFailed reason => "prettier failed: " ++ reason

/-- A line of the full report. -/
def line (e : Event) : String :=
  (if e.isWarning then "WARNING" else "DEBUG") ++ ":" ++ e.origin ++ ":" ++ e.message

def warnings (events : List Event) : List String := (events.filter isWarning).map message

end Event

end SchemaDecl
