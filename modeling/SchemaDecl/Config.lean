import SchemaDecl.Json.Display
import SchemaDecl.Json.Fields

/-! Settings from a configuration file. A file may set the custom type names,
whether a comment names the generating command, and how the output is written;
other keys are ignored, except for four names that belong to the record itself.
`to_dict` hides the export, the class and the weak references of a record cannot
be set, and `__dict__` replaces all that was set so far, after which a setting
without a default counts only if the new record has it. -/

namespace SchemaDecl

inductive WriteMode
  | keepExisting
  | overwrite
  deriving DecidableEq

namespace WriteMode

def name : WriteMode → String
  | .keepExisting => "error"
  | .overwrite => "force"

def ofJson? : Json → Option WriteMode
  | .str "error" => some .keepExisting
  | .str "force" => some .overwrite
  | _ => none

theorem ofJson?_name (mode : WriteMode) : ofJson? (.str mode.name) = some mode := by
  cases mode <;> rfl

end WriteMode

inductive ConfigFault
  | notAnObject (value : Json)
  | unknownMode (value : Json)
  | unsettable (name : String)
  | wrongKind (name : String)
  | missing (name : String)
  | exportHidden
  deriving DecidableEq

/-- A mode that came in with a replaced record is not looked at. -/
inductive ModeSetting
  | mode (mode : WriteMode)
  | unread (value : Json)
  deriving DecidableEq

structure OutputConfig where
  mode : ModeSetting := .mode .keepExisting
  validate : Json := .bool true
  deriving DecidableEq

structure Config where
  typeMapping : Option Json := some (.obj [])
  comment : Json := .bool false
  output : Option OutputConfig := some {}
  exportHidden : Bool := false
  deriving DecidableEq

namespace Config

/-- The record that a name of the record itself stands for, if the setting is allowed at all. -/
def replaced? (name : String) (value : Json) : Except ConfigFault (Option Fields) :=
  match name, value with
  | "__class__", _ => .error (.wrongKind name)
  | "__weakref__", _ => .error (.unsettable name)
  | "__dict__", .obj fields => .ok (some fields)
  | "__dict__", _ => .error (.wrongKind name)
  | _, _ => .ok none

def outputOfRecord (fields : Fields) : OutputConfig where
  mode := match Fields.get? fields "mode" with
    | some value => .unread value
    | none => .mode .keepExisting
  validate := (Fields.get? fields "validate_before_write").getD (.bool true)

def setOutput (output : OutputConfig) (field : Key × Json) : Except ConfigFault OutputConfig :=
  match field with
  | (.str "mode", value) => match WriteMode.ofJson? value with
    | some mode => .ok { output with mode := .mode mode }
    | none => .error (.unknownMode value)
  | (.str "validate_before_write", value) => .ok { output with validate := value }
  | (.str name, value) => do return ((← replaced? name value).map outputOfRecord).getD output
  | _ => .ok output

def ofRecord (fields : Fields) : Config where
  typeMapping := Fields.get? fields "custom_type_mapping"
  comment := (Fields.get? fields "add_generation_comment").getD (.bool false)
  output := none
  exportHidden := Fields.contains fields "to_dict"

def setField (config : Config) (field : Key × Json) : Except ConfigFault Config :=
  match field with
  | (.str "output", .obj fields) => do
    return { config with output := some (← fields.foldlM setOutput {}) }
  | (.str "output", value) => .error (.notAnObject value)
  | (.str "custom_type_mapping", value) =>
    .ok { config with typeMapping := config.typeMapping.map fun _ => value }
  | (.str "add_generation_comment", value) => .ok { config with comment := value }
  | (.str "to_dict", _) => .ok { config with exportHidden := true }
  | (.str name, value) => do return ((← replaced? name value).map ofRecord).getD config
  | _ => .ok config

def ofJson : Json → Except ConfigFault Config
  | .obj fields => fields.foldlM setField {}
  | value => .error (.notAnObject value)

def outputToJson (output : OutputConfig) : Except ConfigFault Json :=
  match output.mode with
  | .mode mode => .ok (.obj [("mode", .str mode.name), ("validate_before_write", output.validate)])
  | .unread _ => .error (.missing "value")

def toJson (config : Config) : Except ConfigFault Json := do
  if config.exportHidden then throw .exportHidden
  let some typeMapping := config.typeMapping | throw (.missing "custom_type_mapping")
  let some output := config.output | throw (.missing "output")
  return .obj [("custom_type_mapping", typeMapping), ("add_generation_comment", config.comment),
    ("output", ← outputToJson output)]

end Config

/-- An unread mode overwrites when it is spelled like the mode that does. -/
def ModeSetting.overwrites : ModeSetting → Bool
  | .mode known => known = .overwrite
  | .unread value => WriteMode.ofJson? value = some .overwrite

end SchemaDecl
