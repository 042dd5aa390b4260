import SchemaDecl.Config
import SchemaDecl.Proofs.Inversion

/-! How a configuration comes out of its settings. They are set one after the other, and
whether one can be set does not depend on what was set before it. So a configuration that
is read without a fault comes from a run of total steps, in which the last setting under
a name counts, and a record put in as a whole takes the place of all that came before it.
Of the configurations that are read, only the plain ones are written out, each in a text
of its own, which gives the same configuration when it is read. -/

namespace SchemaDecl.Config

/-- A configuration is read and written out again. -/
def exported (settings : Json) : Except ConfigFault Json := ofJson settings >>= toJson

/-! What counts at the end. -/

/-- The value that the last field under the name gives it. -/
def last? (name : String) : Fields → Option Json
  | [] => none
  | field :: rest => (last? name rest).or (if field.1 = .str name then some field.2 else none)

/-- The record that a field puts in the place of all that was set. -/
def recordOf? : Key × Json → Option Fields
  | (.str "__dict__", .obj record) => some record
  | _ => none

/-- The last record that is put in, and the fields behind it. -/
def lastRecord? : Fields → Option (Fields × Fields)
  | [] => none
  | field :: rest => (lastRecord? rest).or ((recordOf? field).map fun record => (record, rest))

/-! Steps that may fail, and the total steps they are when they do not. -/

/-- A record lets nobody set its class and its weak references, and only a record can replace it. -/
def Settable (field : Key × Json) : Prop :=
  field.1 ≠ .str "__class__" ∧ field.1 ≠ .str "__weakref__" ∧
    (field.1 = .str "__dict__" → ∃ record, field.2 = .obj record)

def SettableWithin (field : Key × Json) : Prop :=
  Settable field ∧ (field.1 = .str "mode" → ∃ mode, WriteMode.ofJson? field.2 = some mode)

def SettableField (field : Key × Json) : Prop :=
  Settable field ∧ (field.1 = .str "output" →
    ∃ inner, field.2 = .obj inner ∧ ∀ f ∈ inner, SettableWithin f)

def modeOf (value : Json) : ModeSetting :=
  match WriteMode.ofJson? value with
  | some mode => .mode mode
  | none => .unread value

def putOutput (output : OutputConfig) (field : Key × Json) : OutputConfig :=
  if field.1 = .str "mode" then { output with mode := modeOf field.2 }
  else if field.1 = .str "validate_before_write" then { output with validate := field.2 }
  else ((recordOf? field).map outputOfRecord).getD output

def outputOf : Json → Option OutputConfig
  | .obj inner => some (inner.foldl putOutput {})
  | _ => none

def put (config : Config) (field : Key × Json) : Config :=
  if field.1 = .str "output" then { config with output := outputOf field.2 }
  else if field.1 = .str "custom_type_mapping" then
    { config with typeMapping := config.typeMapping.map fun _ => field.2 }
  else if field.1 = .str "add_generation_comment" then { config with comment := field.2 }
  else if field.1 = .str "to_dict" then { config with exportHidden := true }
  else ((recordOf? field).map ofRecord).getD config

theorem recordOf?_eq_none {name : String} (h : name ≠ "__dict__") (value : Json) :
    recordOf? (.str name, value) = none := by
  unfold recordOf?
  split
  · rename_i hfield
    cases hfield
    exact absurd rfl h
  · rfl

theorem replaced?_eq_ok_iff {name : String} {value : Json} {record : Option Fields} :
    replaced? name value = .ok record ↔
      Settable (.str name, value) ∧ recordOf? (.str name, value) = record := by
  unfold replaced?
  split
  · simp [Settable]
  · simp [Settable]
  · simp [Settable, recordOf?]
  · rename_i hvalue
    simpa [Settable] using fun fields hfields => (hvalue fields hfields).elim
  · rename_i hclass hweak hdict _
    rw [recordOf?_eq_none hdict, Except.ok.injEq]
    exact ⟨fun h => ⟨⟨fun e => hclass (Key.str.inj e), fun e => hweak (Key.str.inj e),
      fun e => (hdict (Key.str.inj e)).elim⟩, h⟩, And.right⟩

/-- A name that is set on the record itself, with what the record becomes. -/
theorem replaced?_bind_eq_ok_iff {σ : Type} {name : String} {value : Json} {record : Fields → σ}
    {old next : σ} : (do return ((← replaced? name value).map record).getD old) = .ok next ↔
      Settable (.str name, value) ∧
        ((recordOf? (.str name, value)).map record).getD old = next := by
  rw [Inversion.bind_eq_ok]
  constructor
  · rintro ⟨found, hfound, hnext⟩
    obtain ⟨hsettable, rfl⟩ := replaced?_eq_ok_iff.1 hfound
    exact ⟨hsettable, Inversion.pure_eq_ok.1 hnext⟩
  · rintro ⟨hsettable, hnext⟩
    exact ⟨_, replaced?_eq_ok_iff.2 ⟨hsettable, rfl⟩, Inversion.pure_eq_ok.2 hnext⟩

theorem key_ne_of_not_text {field : Key × Json}
    (h : ∀ name value, field = (.str name, value) → False) (name : String) : field.1 ≠ .str name :=
  fun hkey => h name field.2 (Prod.ext hkey rfl)

/-- A key that is no text names nothing. -/
theorem settable_of_not_text {field : Key × Json} (h : ∀ name, field.1 ≠ .str name) :
    Settable field ∧ recordOf? field = none := by
  refine ⟨⟨h _, h _, fun e => (h _ e).elim⟩, ?_⟩
  unfold recordOf?
  split
  · exact (h _ rfl).elim
  · rfl

theorem setOutput_eq_ok_iff (output : OutputConfig) (field : Key × Json) (next : OutputConfig) :
    setOutput output field = .ok next ↔ SettableWithin field ∧ putOutput output field = next := by
  unfold setOutput
  split
  case h_1 value =>
    cases hmode : WriteMode.ofJson? value with
    | none => simp [SettableWithin, hmode]
    | some mode => simp [SettableWithin, Settable, putOutput, modeOf, hmode]
  case h_2 value => simp [SettableWithin, Settable, putOutput]
  case h_3 name value hmode hvalidate =>
    have hmode' : Key.str name ≠ .str "mode" := fun e => hmode (Key.str.inj e)
    have hvalidate' : Key.str name ≠ .str "validate_before_write" :=
      fun e => hvalidate (Key.str.inj e)
    rw [replaced?_bind_eq_ok_iff, putOutput, if_neg hmode', if_neg hvalidate', SettableWithin,
      and_iff_left fun e => (hmode' e).elim]
  case h_4 hname =>
    have htext := key_ne_of_not_text hname
    obtain ⟨hsettable, hrecord⟩ := settable_of_not_text htext
    rw [putOutput, if_neg (htext _), if_neg (htext _), hrecord, SettableWithin,
      and_iff_left fun e => (htext _ e).elim, and_iff_right hsettable, Except.ok.injEq]
    rfl

theorem setField_eq_ok_iff (config : Config) (field : Key × Json) (next : Config) :
    setField config field = .ok next ↔ SettableField field ∧ put config field = next := by
  unfold setField
  split
  case h_1 inner =>
    rw [Inversion.bind_eq_ok]
    simp [Inversion.pure_eq_ok, Inversion.foldlM_eq_ok_iff setOutput_eq_ok_iff, SettableField,
      Settable, put, outputOf, and_assoc]
  case h_2 value hvalue =>
    simpa [SettableField] using fun _ inner hinner => (hvalue inner hinner).elim
  case h_3 value => simp [SettableField, Settable, put]
  case h_4 value => simp [SettableField, Settable, put]
  case h_5 value => simp [SettableField, Settable, put]
  case h_6 name value _ houtput hmapping hcomment hexport =>
    have hother : ∀ {other : String}, (name = other → False) → ¬ Key.str name = .str other :=
      fun h e => h (Key.str.inj e)
    rw [replaced?_bind_eq_ok_iff, put, if_neg (hother houtput), if_neg (hother hmapping),
      if_neg (hother hcomment), if_neg (hother hexport), SettableField,
      and_iff_left fun e => (hother houtput e).elim]
  case h_7 hname =>
    have htext := key_ne_of_not_text hname
    obtain ⟨hsettable, hrecord⟩ := settable_of_not_text htext
    rw [put, if_neg (htext _), if_neg (htext _), if_neg (htext _), if_neg (htext _), hrecord,
      SettableField, and_iff_left fun e => (htext _ e).elim, and_iff_right hsettable,
      Except.ok.injEq]
    rfl

/-! What a run of total steps comes to. -/

/-- An output with the settings that the last fields under their names give. -/
def outputOver (output : OutputConfig) (inner : Fields) : OutputConfig where
  mode := ((last? "mode" inner).map modeOf).getD output.mode
  validate := (last? "validate_before_write" inner).getD output.validate

/-- The same for a configuration. -/
def configOver (config : Config) (fields : Fields) : Config where
  typeMapping := config.typeMapping.map fun old => (last? "custom_type_mapping" fields).getD old
  comment := (last? "add_generation_comment" fields).getD config.comment
  output := ((last? "output" fields).map outputOf).getD config.output
  exportHidden := config.exportHidden || (last? "to_dict" fields).isSome

theorem key_of_recordOf? {field : Key × Json} {record : Fields}
    (h : recordOf? field = some record) : field.1 = .str "__dict__" := by
  unfold recordOf? at h
  split at h
  · rfl
  · cases h

theorem last?_eq_none {name : String} {fields : Fields}
    (h : ∀ field ∈ fields, field.1 ≠ .str name) : last? name fields = none := by
  induction fields with
  | nil => rfl
  | cons field rest ih =>
    obtain ⟨hfield, hrest⟩ := List.forall_mem_cons.1 h
    rw [last?, ih hrest, if_neg hfield, Option.or_none]

theorem lastRecord?_eq_none {fields : Fields} (h : ∀ field ∈ fields, field.1 ≠ .str "__dict__") :
    lastRecord? fields = none := by
  induction fields with
  | nil => rfl
  | cons field rest ih =>
    obtain ⟨hfield, hrest⟩ := List.forall_mem_cons.1 h
    have hrecord : recordOf? field = none :=
      Option.eq_none_iff_forall_ne_some.2 fun _ e => hfield (key_of_recordOf? e)
    rw [lastRecord?, ih hrest, hrecord]
    rfl

theorem mem_of_last? {name : String} {fields : Fields} {value : Json}
    (h : last? name fields = some value) : (.str name, value) ∈ fields := by
  induction fields with
  | nil => cases h
  | cons field rest ih =>
    rw [last?, Option.or_eq_some_iff] at h
    rcases h with h | ⟨_, h⟩
    · exact List.mem_cons_of_mem _ (ih h)
    · split at h
      · rename_i hkey
        rw [← hkey, ← Option.some.inj h]
        exact List.mem_cons_self
      · cases h

/-- What is said behind the last record is said last. -/
theorem last?_of_lastRecord? {name : String} {fields record after : Fields} {value : Json}
    (h : lastRecord? fields = some (record, after)) (hvalue : last? name after = some value) :
    last? name fields = some value := by
  induction fields with
  | nil => cases h
  | cons field rest ih =>
    rw [lastRecord?, Option.or_eq_some_iff] at h
    rw [last?, Option.or_eq_some_iff]
    rcases h with h | ⟨_, h⟩
    · exact .inl (ih h)
    · obtain ⟨_, _, hpair⟩ := Option.map_eq_some_iff.1 h
      rw [(Prod.mk.inj hpair).2]
      exact .inl hvalue

/-- A run of steps comes to what is set behind the last record, on top of this record, or else to
all that is set on top of the start. -/
theorem foldl_eq_last {σ : Type} {step : σ → Key × Json → σ} {overlay : σ → Fields → σ}
    {ofRecord : Fields → σ}
    (hnil : ∀ s, overlay s [] = s)
    (hset : ∀ s field rest, recordOf? field = none →
      overlay (step s field) rest = overlay s (field :: rest))
    (hrecord : ∀ s field record, recordOf? field = some record → step s field = ofRecord record)
    (s : σ) (fields : Fields) : fields.foldl step s = match lastRecord? fields with
      | none => overlay s fields
      | some (record, after) => overlay (ofRecord record) after := by
  induction fields generalizing s with
  | nil => exact (hnil s).symm
  | cons field rest ih =>
    rw [List.foldl_cons, ih, lastRecord?]
    cases lastRecord? rest with
    | some found => rfl
    | none =>
      cases hfield : recordOf? field with
      | none => exact hset s field rest hfield
      | some record => rw [hrecord s field record hfield]; rfl

theorem outputOver_put {output : OutputConfig} {field : Key × Json} (h : recordOf? field = none)
    (rest : Fields) :
    outputOver (putOutput output field) rest = outputOver output (field :: rest) := by
  simp only [outputOver, last?, Option.map_or, Option.getD_or, putOutput, h]
  by_cases hmode : field.1 = .str "mode"
  · simp [hmode]
  · by_cases hval : field.1 = .str "validate_before_write"
    · simp [hval]
    · simp [hmode, hval]

theorem foldl_putOutput (output : OutputConfig) (inner : Fields) :
    inner.foldl putOutput output = match lastRecord? inner with
      | none => outputOver output inner
      | some (record, after) => outputOver (outputOfRecord record) after :=
  foldl_eq_last (fun _ => rfl) (fun _ _ rest h => outputOver_put h rest)
    (fun _ _ _ h => by simp [putOutput, key_of_recordOf? h, h]) output inner

theorem configOver_put {config : Config} {field : Key × Json} (h : recordOf? field = none)
    (rest : Fields) : configOver (put config field) rest = configOver config (field :: rest) := by
  simp only [configOver, last?, Option.map_or, Option.getD_or, put, h]
  by_cases houtput : field.1 = .str "output"
  · simp [houtput]
  · by_cases hmapping : field.1 = .str "custom_type_mapping"
    · simp [hmapping, Function.comp_def]
    · by_cases hcomment : field.1 = .str "add_generation_comment"
      · simp [hcomment]
      · by_cases hexport : field.1 = .str "to_dict"
        · simp [hexport]
        · simp [houtput, hmapping, hcomment, hexport]

theorem foldl_put (config : Config) (fields : Fields) :
    fields.foldl put config = match lastRecord? fields with
      | none => configOver config fields
      | some (record, after) => configOver (ofRecord record) after :=
  foldl_eq_last (fun _ => by simp [configOver, last?]) (fun _ _ rest h => configOver_put h rest)
    (fun _ _ _ h => by simp [put, key_of_recordOf? h, h]) config fields

theorem exported_obj_eq_ok_iff {fields : Fields} {value : Json} :
    exported (.obj fields) = .ok value ↔
      (∀ field ∈ fields, SettableField field) ∧ toJson (fields.foldl put {}) = .ok value := by
  rw [exported, Inversion.bind_eq_ok, ofJson]
  simp only [Inversion.foldlM_eq_ok_iff setField_eq_ok_iff]
  constructor
  · rintro ⟨config, ⟨hall, rfl⟩, hvalue⟩
    exact ⟨hall, hvalue⟩
  · rintro ⟨hall, hvalue⟩
    exact ⟨_, ⟨hall, rfl⟩, hvalue⟩

/-! What is written out. -/

def shown (typeMapping comment : Json) (mode : WriteMode) (validate : Json) : Json :=
  .obj [("custom_type_mapping", typeMapping), ("add_generation_comment", comment),
    ("output", .obj [("mode", .str mode.name), ("validate_before_write", validate)])]

/-- A configuration without anything that belongs to the record itself. -/
def plain (typeMapping comment : Json) (mode : WriteMode) (validate : Json) : Config where
  typeMapping := some typeMapping
  comment := comment
  output := some ⟨.mode mode, validate⟩

theorem name_inj {mode mode' : WriteMode} (h : mode.name = mode'.name) : mode = mode' := by
  have hread := WriteMode.ofJson?_name mode
  rw [h, WriteMode.ofJson?_name] at hread
  exact (Option.some.inj hread).symm

theorem plain_eq_of_shown {m m' c c' v v' : Json} {mode mode' : WriteMode}
    (h : shown m c mode v = shown m' c' mode' v') : plain m c mode v = plain m' c' mode' v' := by
  simp only [shown, Json.obj.injEq, List.cons.injEq, Prod.mk.injEq, Json.str.injEq, true_and,
    and_true] at h
  obtain ⟨rfl, rfl, hmode, rfl⟩ := h
  rw [name_inj hmode]

/-- Only plain configurations are written out. -/
theorem plain_of_toJson {config : Config} {value : Json} (h : toJson config = .ok value) :
    ∃ m c mode v, config = plain m c mode v ∧ value = shown m c mode v := by
  obtain ⟨mapping, comment, output, hidden⟩ := config
  cases hidden with
  | true => cases h
  | false =>
    cases mapping with
    | none => cases h
    | some m =>
      cases output with
      | none => cases h
      | some output =>
        obtain ⟨mode, validate⟩ := output
        cases mode with
        | unread mode => cases h
        | mode mode => exact ⟨m, comment, mode, validate, rfl, (Except.ok.inj h).symm⟩

/-- What was written out is read back and written out the same. -/
theorem exported_shown (m c : Json) (mode : WriteMode) (v : Json) :
    exported (shown m c mode v) = .ok (shown m c mode v) := by
  cases mode <;> rfl

/-- Two configurations are written out the same if and only if they are the same. -/
theorem toJson_eq_iff {config config' : Config} {value : Json} (h : toJson config = .ok value) :
    toJson config' = .ok value ↔ config' = config := by
  constructor
  · intro h'
    obtain ⟨m, c, mode, v, rfl, rfl⟩ := plain_of_toJson h
    obtain ⟨m', c', mode', v', rfl, hvalue⟩ := plain_of_toJson h'
    exact (plain_eq_of_shown hvalue).symm
  · rintro rfl
    exact h

end SchemaDecl.Config
