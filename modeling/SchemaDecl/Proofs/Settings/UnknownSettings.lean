import SchemaDecl.Proofs.Settings.LastSettings

/-! Which settings of a configuration are ignored. A name that is not a setting changes
nothing unless it belongs to the record itself: the class and the weak references of a
record cannot be set, the name of its export hides the export, and a record put in as a
whole takes the place of the settings before it. What is harmless among these is said
exactly. -/

namespace SchemaDecl.Config

/-! The settings that are known. -/

def keep (names : List String) (fields : Fields) : Fields :=
  fields.filter fun field => names.any fun name => field.1 = .str name

def knownOutput : Json → Json
  | .obj inner => .obj (keep ["mode", "validate_before_write"] inner)
  | value => value

def knownWithin (field : Key × Json) : Key × Json :=
  (field.1, if field.1 = .str "output" then knownOutput field.2 else field.2)

/-- Only the known settings, and in an output only those that are known there. -/
def known (fields : Fields) : Fields :=
  (keep ["custom_type_mapping", "add_generation_comment", "output"] fields).map knownWithin

/-! What the known settings come to. -/

theorem mem_keep {names : List String} {fields : Fields} {field : Key × Json} :
    field ∈ keep names fields ↔ field ∈ fields ∧ ∃ name ∈ names, field.1 = .str name := by
  simp [keep]

theorem key_of_mem_keep {names : List String} {name : String} {fields : Fields} {field : Key × Json}
    (h : field ∈ keep names fields) (hname : name ∉ names) : field.1 ≠ .str name := by
  intro hkey
  obtain ⟨_, other, hmem, hother⟩ := mem_keep.1 h
  exact hname (Key.str.inj (hother.symm.trans hkey) ▸ hmem)

theorem last?_keep {names : List String} {name : String} (h : name ∈ names) (fields : Fields) :
    last? name (keep names fields) = last? name fields := by
  induction fields with
  | nil => rfl
  | cons field rest ih =>
    rw [keep, List.filter_cons, ← keep, last?]
    split
    · rw [last?, ih]
    · rename_i hdropped
      have hkey : field.1 ≠ .str name := fun e =>
        hdropped (List.any_eq_true.2 ⟨name, h, decide_eq_true e⟩)
      rw [ih, if_neg hkey, Option.or_none]

theorem last?_knownWithin (name : String) (fields : Fields) :
    last? name (fields.map knownWithin) =
      (last? name fields).map (if name = "output" then knownOutput else id) := by
  induction fields with
  | nil => rfl
  | cons field rest ih =>
    rw [List.map_cons, last?, ih, last?, Option.map_or]
    congr 1
    by_cases hkey : field.1 = .str name
    · simp [knownWithin, hkey, apply_ite (fun f : Json → Json => f field.2)]
    · simp [knownWithin, hkey]

theorem foldl_known (fields : Fields) : (known fields).foldl put {} =
    { typeMapping := some ((last? "custom_type_mapping" fields).getD (.obj []))
      comment := (last? "add_generation_comment" fields).getD (.bool false)
      output := ((last? "output" fields).map fun value => outputOf (knownOutput value)).getD
        (some {}) } := by
  have hkeys : ∀ field ∈ known fields, ∀ name,
      name ∉ ["custom_type_mapping", "add_generation_comment", "output"] →
        field.1 ≠ .str name := by
    intro field hfield name hname
    obtain ⟨source, hsource, rfl⟩ := List.mem_map.1 hfield
    exact fun hkey => key_of_mem_keep hsource hname hkey
  have hrecord : lastRecord? (known fields) = none :=
    lastRecord?_eq_none fun field hfield => hkeys field hfield _ (by decide)
  have hexport : last? "to_dict" (known fields) = none :=
    last?_eq_none fun field hfield => hkeys field hfield _ (by decide)
  rw [foldl_put, hrecord, configOver, hexport]
  simp [known, last?_knownWithin, last?_keep, Function.comp_def]

theorem foldl_keep (inner : Fields) :
    (keep ["mode", "validate_before_write"] inner).foldl putOutput {} =
      { mode := ((last? "mode" inner).map modeOf).getD (.mode .keepExisting)
        validate := (last? "validate_before_write" inner).getD (.bool true) } := by
  have hrecord : lastRecord? (keep ["mode", "validate_before_write"] inner) = none :=
    lastRecord?_eq_none fun _ hfield => key_of_mem_keep hfield (by decide)
  rw [foldl_putOutput, hrecord, outputOver]
  simp [last?_keep]

/-! Which other settings are harmless. -/

/-- The settings of an output are the known ones still: a record that is put in has no mode of its
own, unless one is set behind it, and goes without one only where the mode is the usual one, and it
does not change whether the text is checked. -/
def KeptWithin (inner : Fields) : Prop :=
  match lastRecord? inner with
  | none => True
  | some (record, after) =>
    ((last? "mode" after).isSome ∨ Fields.get? record "mode" = none ∧
      (last? "mode" inner).getD (.str "error") = .str "error") ∧
    (last? "validate_before_write" after).getD
        ((Fields.get? record "validate_before_write").getD (.bool true)) =
      (last? "validate_before_write" inner).getD (.bool true)

/-- The settings are the known ones still. Without a record that is put in, this takes only that the
export is not hidden. With one, it has a type mapping, the mapping and the comment that it has are
those that are set at all, unless they are set behind it, an output is set behind it, and the export
is hidden neither in it nor behind it. -/
def Kept (fields : Fields) : Prop :=
  match lastRecord? fields with
  | none => last? "to_dict" fields = none
  | some (record, after) =>
    (∃ mapping, Fields.get? record "custom_type_mapping" = some mapping ∧
      (last? "custom_type_mapping" after).getD mapping =
        (last? "custom_type_mapping" fields).getD (.obj [])) ∧
    (last? "add_generation_comment" after).getD
        ((Fields.get? record "add_generation_comment").getD (.bool false)) =
      (last? "add_generation_comment" fields).getD (.bool false) ∧
    (last? "output" after).isSome ∧
    Fields.get? record "to_dict" = none ∧ last? "to_dict" after = none

/-- Nothing is set that cannot be, and the known settings stay what they are. -/
structure Harmless (fields : Fields) : Prop where
  settable : ∀ field ∈ fields, Settable field
  settableWithin : ∀ inner, (.str "output", .obj inner) ∈ fields → ∀ field ∈ inner, Settable field
  kept : Kept fields
  keptWithin : ∀ inner, last? "output" fields = some (.obj inner) → KeptWithin inner

theorem ofJson?_eq_some_iff {value : Json} {mode : WriteMode} :
    WriteMode.ofJson? value = some mode ↔ value = .str mode.name := by
  constructor
  · intro h
    unfold WriteMode.ofJson? at h
    split at h
    · rw [← Option.some.inj h]
      rfl
    · rw [← Option.some.inj h]
      rfl
    · cases h
  · rintro rfl
    exact WriteMode.ofJson?_name mode

theorem modeOf_eq_iff {value : Json} {mode : WriteMode} :
    modeOf value = .mode mode ↔ value = .str mode.name := by
  rw [← ofJson?_eq_some_iff, modeOf]
  cases WriteMode.ofJson? value <;> simp

/-- Where every mode that counts is one, all fields of an output come to what the known ones come to
exactly if its settings are kept. -/
theorem foldl_inner_eq_iff {inner : Fields} (hmodes : ∀ value, last? "mode" inner = some value →
      ∃ mode, WriteMode.ofJson? value = some mode) :
    inner.foldl putOutput {} = (keep ["mode", "validate_before_write"] inner).foldl putOutput {} ↔
      KeptWithin inner := by
  rw [foldl_keep, foldl_putOutput, KeptWithin]
  cases hrecord : lastRecord? inner with
  | none => simp [outputOver]
  | some found =>
    obtain ⟨record, after⟩ := found
    simp only [outputOver, OutputConfig.mk.injEq, outputOfRecord]
    refine and_congr ?_ Iff.rfl
    cases hafter : last? "mode" after with
    | some value => simp [last?_of_lastRecord? hrecord hafter]
    | none =>
      -- the record has its own mode or the usual one, and the known mode is not unread
      cases hown : Fields.get? record "mode" with
      | some value =>
        cases hmode : last? "mode" inner with
        | none => simp
        | some value =>
          obtain ⟨mode, hvalue⟩ := hmodes value hmode
          simp [modeOf, hvalue]
      | none =>
        cases hmode : last? "mode" inner with
        | none => simp
        | some value =>
          simp [eq_comm, modeOf_eq_iff, WriteMode.name]

section
variable {fields : Fields}

/-- Where the known settings can be set, every output is an object, and every mode in it is one. -/
theorem output_of_known (h : ∀ field ∈ known fields, SettableField field) {value : Json}
    (hmem : (.str "output", value) ∈ fields) : ∃ inner, value = .obj inner ∧
      ∀ field ∈ inner, field.1 = .str "mode" → ∃ mode, WriteMode.ofJson? field.2 = some mode := by
  have hkept : (.str "output", value) ∈
      keep ["custom_type_mapping", "add_generation_comment", "output"] fields :=
    mem_keep.2 ⟨hmem, "output", by decide, rfl⟩
  obtain ⟨kept, hvalue, hall⟩ := (h _ (List.mem_map_of_mem hkept)).2 rfl
  rw [knownWithin, if_pos rfl] at hvalue
  cases value with
  | obj inner =>
    cases hvalue
    exact ⟨inner, rfl, fun field hfield hkey =>
      (hall field (mem_keep.2 ⟨hfield, "mode", by decide, hkey⟩)).2 hkey⟩
  | null | bool | int | float | str | arr => cases hvalue

/-- Apart from the known settings, only names of the record itself cannot be set. -/
theorem settable_iff (h : ∀ field ∈ known fields, SettableField field) :
    (∀ field ∈ fields, SettableField field) ↔ (∀ field ∈ fields, Settable field) ∧
      ∀ inner, (.str "output", .obj inner) ∈ fields → ∀ field ∈ inner, Settable field := by
  constructor
  · intro hall
    refine ⟨fun field hfield => (hall field hfield).1, fun inner hinner field hfield => ?_⟩
    obtain ⟨inner', hobject, hwithin⟩ := (hall _ hinner).2 rfl
    cases hobject
    exact (hwithin field hfield).1
  · rintro ⟨hall, hwithin⟩ field hfield
    refine ⟨hall field hfield, fun hkey => ?_⟩
    obtain ⟨key, value⟩ := field
    cases hkey
    obtain ⟨inner, rfl, hmodes⟩ := output_of_known h hfield
    exact ⟨inner, rfl, fun g hg => ⟨hwithin inner hfield g hg, hmodes g hg⟩⟩

/-- The output that is set last is the known one still if and only if its settings are. -/
theorem outputOf_eq_iff (h : ∀ field ∈ known fields, SettableField field) {value : Json}
    (hlast : last? "output" fields = some value) :
    outputOf value = outputOf (knownOutput value) ↔
      ∀ inner, last? "output" fields = some (.obj inner) → KeptWithin inner := by
  obtain ⟨inner, rfl, hmodes⟩ := output_of_known h (mem_of_last? hlast)
  have hinner := foldl_inner_eq_iff fun value hvalue => hmodes _ (mem_of_last? hvalue) rfl
  rw [outputOf, knownOutput, outputOf, Option.some.injEq, hinner, hlast]
  constructor
  · intro hkept inner' hinner'
    cases hinner'
    exact hkept
  · exact fun hall => hall inner rfl

/-- There always is an output, if only the usual one. -/
theorem known_output_ne_none (h : ∀ field ∈ known fields, SettableField field) :
    ((last? "output" fields).map fun value => outputOf (knownOutput value)).getD (some {}) ≠
      none := by
  cases hlast : last? "output" fields with
  | none => simp
  | some value =>
    obtain ⟨inner, rfl, _⟩ := output_of_known h (mem_of_last? hlast)
    simp [knownOutput, outputOf]

theorem foldl_put_eq_iff (h : ∀ field ∈ known fields, SettableField field) :
    fields.foldl put {} = (known fields).foldl put {} ↔ Kept fields ∧
      ∀ inner, last? "output" fields = some (.obj inner) → KeptWithin inner := by
  rw [foldl_known, foldl_put, Kept]
  cases hrecord : lastRecord? fields with
  | none =>
    cases hlast : last? "output" fields with
    | none => simp [configOver, hlast]
    | some value =>
      rw [← hlast, ← outputOf_eq_iff h hlast]
      simp [configOver, hlast, and_comm]
  | some found =>
    obtain ⟨record, after⟩ := found
    simp only [configOver, ofRecord, Config.mk.injEq, Option.map_eq_some_iff, Fields.contains,
      Bool.or_eq_false_iff, Option.isSome_eq_false_iff, Option.isNone_iff_eq_none]
    cases hafter : last? "output" after with
    | none =>
      -- a record that is put in has no output, but there is one in the known settings
      constructor
      · rintro ⟨_, _, houtput, _⟩
        exact (known_output_ne_none h houtput.symm).elim
      · rintro ⟨⟨_, _, hsome, _⟩, _⟩
        cases hsome
    | some value =>
      have hlast := last?_of_lastRecord? hrecord hafter
      rw [← outputOf_eq_iff h hlast, hlast]
      constructor
      · rintro ⟨hmapping, hcomment, houtput, hexport⟩
        exact ⟨⟨hmapping, hcomment, rfl, hexport⟩, houtput⟩
      · rintro ⟨⟨hmapping, hcomment, _, hexport⟩, houtput⟩
        exact ⟨hmapping, hcomment, houtput, hexport⟩

theorem exported_eq_iff_harmless {value : Json} (h : exported (.obj (known fields)) = .ok value) :
    exported (.obj fields) = .ok value ↔ Harmless fields := by
  obtain ⟨hknown, hvalue⟩ := exported_obj_eq_ok_iff.1 h
  rw [exported_obj_eq_ok_iff, toJson_eq_iff hvalue, settable_iff hknown, foldl_put_eq_iff hknown]
  constructor
  · rintro ⟨⟨hsettable, hwithin⟩, hkept, hkeptWithin⟩
    exact ⟨hsettable, hwithin, hkept, hkeptWithin⟩
  · rintro ⟨hsettable, hwithin, hkept, hkeptWithin⟩
    exact ⟨⟨hsettable, hwithin⟩, hkept, hkeptWithin⟩

end

/-- Names that every record has of its own. The record of a configuration also has its export. -/
def ownNames : List String := ["__class__", "__weakref__", "__dict__"]

theorem settable_of_foreign {field : Key × Json} (h : ∀ name ∈ ownNames, field.1 ≠ .str name) :
    Settable field :=
  ⟨h _ (by decide), h _ (by decide), fun hkey => (h _ (by decide) hkey).elim⟩

/-- Whatever else is set is harmless if its name is not one of the record's own. -/
theorem harmless_of_foreign {fields : Fields}
    (h : ∀ field ∈ fields, ∀ name ∈ "to_dict" :: ownNames, field.1 ≠ .str name)
    (hwithin : ∀ inner, (.str "output", .obj inner) ∈ fields →
      ∀ field ∈ inner, ∀ name ∈ ownNames, field.1 ≠ .str name) : Harmless fields where
  settable field hfield :=
    settable_of_foreign fun name hname => h field hfield name (List.mem_cons_of_mem _ hname)
  settableWithin inner hinner field hfield :=
    settable_of_foreign (hwithin inner hinner field hfield)
  kept := by
    rw [Kept, lastRecord?_eq_none fun field hfield => h field hfield _ (by decide)]
    exact last?_eq_none fun field hfield => h field hfield _ (by decide)
  keptWithin inner hlast := by
    have hinner := hwithin inner (mem_of_last? hlast)
    rw [KeptWithin, lastRecord?_eq_none fun field hfield => hinner field hfield _ (by decide)]
    trivial

/-- Where the known settings are read and written out, the whole configuration gives the same
exactly if what it sets beside them is harmless; so it does if no name in it is one of the record's
own. And what is written out is read and written out again as it is. -/
theorem unknown_settings_ignored_iff {fields : Fields} {value : Json}
    (h : exported (.obj (known fields)) = .ok value) :
    (exported (.obj fields) = .ok value ↔ Harmless fields) ∧
    ((∀ field ∈ fields, ∀ name ∈ "to_dict" :: ownNames, field.1 ≠ .str name) →
      (∀ inner, (.str "output", .obj inner) ∈ fields →
        ∀ field ∈ inner, ∀ name ∈ ownNames, field.1 ≠ .str name) →
      exported (.obj fields) = .ok value) ∧
    exported value = .ok value := by
  have hiff := exported_eq_iff_harmless h
  refine ⟨hiff, fun hforeign hwithin => hiff.2 (harmless_of_foreign hforeign hwithin), ?_⟩
  obtain ⟨_, hvalue⟩ := exported_obj_eq_ok_iff.1 h
  obtain ⟨mapping, comment, mode, validate, _, rfl⟩ := plain_of_toJson hvalue
  exact exported_shown mapping comment mode validate

/-- Two unknown settings, one of them in the output. -/
def coloured : Fields :=
  [("colour", .str "red"), ("output", .obj [("mode", .str "force"), ("indent", .int 2)])]

/-- The same with a record that says once more what was set before it. -/
def restated : Fields :=
  ("add_generation_comment", .bool true) ::
    ("__dict__", .obj [("custom_type_mapping", .obj []), ("add_generation_comment", .bool true)]) ::
    coloured

theorem foreign_coloured : ∀ field ∈ coloured, ∀ name ∈ "to_dict" :: ownNames,
    field.1 ≠ .str name := by decide

theorem foreignWithin_coloured {inner : Fields} (h : (.str "output", .obj inner) ∈ coloured) :
    ∀ field ∈ inner, ∀ name ∈ ownNames, field.1 ≠ .str name := by
  have hinner : inner = [(.str "mode", .str "force"), (.str "indent", .int 2)] := by
    simpa [coloured] using h
  subst hinner
  decide

theorem harmless_restated : Harmless restated where
  settable := by simp [restated, coloured, Settable]
  settableWithin inner hinner field hfield := by
    have hmem : (.str "output", .obj inner) ∈ coloured := by simpa [restated] using hinner
    exact settable_of_foreign (foreignWithin_coloured hmem field hfield)
  kept := ⟨⟨.obj [], rfl, rfl⟩, rfl, rfl, rfl, rfl⟩
  keptWithin inner hinner := by
    cases hinner
    trivial

theorem unknown_settings_ignored_iff_restated :
    exported (.obj (known restated)) =
      .ok (shown (.obj []) (.bool true) .overwrite (.bool true)) ∧
    exported (.obj restated) = .ok (shown (.obj []) (.bool true) .overwrite (.bool true)) ∧
    exported (.obj coloured) = .ok (shown (.obj []) (.bool false) .overwrite (.bool true)) :=
  have hrestated : exported (.obj (known restated)) =
      .ok (shown (.obj []) (.bool true) .overwrite (.bool true)) := rfl
  have hcoloured : exported (.obj (known coloured)) =
      .ok (shown (.obj []) (.bool false) .overwrite (.bool true)) := rfl
  ⟨hrestated, (unknown_settings_ignored_iff hrestated).1.2 harmless_restated,
    (unknown_settings_ignored_iff hcoloured).2.1 foreign_coloured fun _ => foreignWithin_coloured⟩

/-- The name of the export is no setting, but it hides the export. -/
theorem export_name_not_ignored :
    exported (.obj (known [("to_dict", .int 1)])) =
      .ok (shown (.obj []) (.bool false) .keepExisting (.bool true)) ∧
    exported (.obj [("to_dict", .int 1)]) = .error .exportHidden := ⟨rfl, rfl⟩

end SchemaDecl.Config
