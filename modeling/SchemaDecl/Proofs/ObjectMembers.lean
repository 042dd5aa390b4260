import SchemaDecl.Proofs.Json.Updates
import SchemaDecl.Proofs.Schema.NormalizedTree
import SchemaDecl.Proofs.Schema.PreparedNodes
import SchemaDecl.Proofs.TypeScript.FittingTypes

/-! The members of object literals, from the schema that was given to the code. A name
of a property loses its blanks and may fall together with others; the list of
required names is stripped beside them; a node of type `object` is closed; and only
then the literal is written. What comes out in the end is said here in terms of the
node as it was given, and the type of a member in terms of the value that was given
last under its name. -/

namespace SchemaDecl

open Schema TypeScript

/-- The fields of a mapping from texts. -/
def keyed (entries : List (String × Json)) : Fields := entries.map fun p => (.str p.1, p.2)

/-- The names of a mapping without the blanks around them, each where it first comes up. -/
def strippedNames (entries : List (String × Json)) : List String :=
  (entries.map fun p => Text.strip p.1).eraseDups

/-- The value stands under the last of the names that become this one. -/
def LastUnder (entries : List (String × Json)) (name : String) (x : Json) : Prop :=
  ∃ before source after, entries = before ++ (source, x) :: after ∧ Text.strip source = name ∧
    ∀ later ∈ after, Text.strip later.1 ≠ name

/-- One of the texts in a list of required names becomes this name. -/
def Requires (fields : Fields) (name : String) : Prop :=
  ∃ names source, Fields.value fields "required" = .arr names ∧ .str source ∈ names ∧
    Text.strip source = name

/-- What a value that was given at an address is when it is written: a node is normalized and
prepared, and what is no node is left as it is. -/
inductive Became (table : Fields) (typeName : String) (address : Address) : Json → Json → Prop
  | node {given found normal prepared : Fields} :
      Walked (Normal.visitor table) address.path given found normal →
        Prepared.Encoded typeName address normal prepared →
          Became table typeName address (.obj given) (.obj prepared)
  | leaf {x : Json} : (∀ fields, x ≠ .obj fields) → Became table typeName address x x

/-- An object literal over the node it was given as, with a mapping of properties, and over the
normalized and the prepared node at its address. -/
structure Declared (table : Fields) (typeName : String) (raw : Json) (address : Address)
    (given normal prepared : Fields) (entries : List (String × Json)) (depth : Nat)
    (members : List (Member × Layout)) (signature : Option Layout) : Prop where
  names : members.map (fun member => member.1.key) = (strippedNames entries).map Key.str
  marks : ∀ member ∈ members, ∀ name, member.1.key = .str name →
    (member.1.optional = false ↔ Requires given name)
  types : ∀ member ∈ members, ∀ name, member.1.key = .str name → ∃ x y levels,
    LastUnder entries name x ∧
    Origin (Normal.visitor table) [] raw (address ++ [.property (.str name)]) x ∧
    Became table typeName (address ++ [.property (.str name)]) x y ∧
    (.property (.str name), y) ∈ steps prepared ∧ y.depth ≤ levels ∧
    member.2 = layout levels (some (address ++ [.property (.str name)])) y (depth + 1)
  signature : signature.isSome = true ↔ Fields.value normal "type" ≠ .str "object" ∧
    Fields.get? given "additionalProperties" ≠ some (.bool false)

/-! Properties. -/

theorem keys_stripProperties (entries : List (String × Json)) :
    (Normal.stripProperties (keyed entries)).map Prod.fst =
      (strippedNames entries).map Key.str := by
  rw [Normal.stripProperties, keyed, List.map_map]
  refine Fields.names_ofList ?_
  rw [List.map_map, List.map_map]
  rfl

theorem lastUnder_of_mem {entries : List (String × Json)} {name : String} {x : Json}
    (h : (.str name, x) ∈ Normal.stripProperties (keyed entries)) : LastUnder entries name x := by
  obtain ⟨before, e, after, heq, hkey, rfl, hafter⟩ := Fields.exists_last_of_mem_ofList h
  rw [keyed, List.map_map] at heq
  obtain ⟨front, rest, rfl, rfl, hrest⟩ := List.map_eq_append_iff.1 heq
  obtain ⟨entry, back, rfl, rfl, rfl⟩ := List.map_eq_cons_iff.1 hrest
  refine ⟨front, entry.1, back, rfl, Key.same_str.1 hkey, fun later hlater hname => ?_⟩
  have hother := hafter _ (List.mem_map_of_mem hlater)
  rw [← hname] at hother
  simp [Normal.stripKey, Key.same_refl] at hother

theorem mem_requiredNames {fields : Fields} {name : String} :
    name ∈ requiredNames fields ↔ ∃ names, Fields.value fields "required" = .arr names ∧
      .str name ∈ names := by
  unfold requiredNames
  cases Fields.value fields "required" with
  | arr names =>
    simp only [List.mem_filterMap, Json.arr.injEq, exists_eq_left']
    constructor
    · rintro ⟨v, hv, hsome⟩
      cases v with
      | str s => exact Option.some.inj hsome ▸ hv
      | _ => cases hsome
    · exact fun hname => ⟨.str name, hname, rfl⟩
  | _ => simp

theorem str_mem_map_stripName {names : List Json} {name : String} :
    .str name ∈ names.map Normal.stripName ↔
      ∃ source, .str source ∈ names ∧ Text.strip source = name := by
  rw [List.mem_map]
  constructor
  · rintro ⟨v, hv, heq⟩
    cases v with
    | str s => exact ⟨s, hv, Json.str.inj heq⟩
    | _ => cases heq
  · rintro ⟨source, hsource, rfl⟩
    exact ⟨.str source, hsource, rfl⟩

theorem folded_eq_given {given found : Fields} {entries : Fields} (h : foldNode given = .ok found)
    (hentries : Fields.value given "properties" = .obj entries) : found = given := by
  rw [foldNode_of_not_arr (by simp [hentries])] at h
  exact (Except.ok.inj h).symm

section
variable {table given node : Fields} {path : Path} {entries : List (String × Json)}
  (hw : Walked (Normal.visitor table) path given given node)
  (hentries : Fields.value given "properties" = .obj (keyed entries))
include hentries

theorem properties_visit : properties ((Normal.visitor table).visit path given) =
    Normal.stripProperties (keyed entries) := by
  rw [properties, Normal.visit_eq, Normal.value_node_properties, hentries]
  rfl

include hw

/-- The properties of a normalized node have the stripped names. -/
theorem keys_properties_of_walked :
    (propertiesOf node).map Prod.fst = (strippedNames entries).map Key.str := by
  obtain ⟨new, _, rfl⟩ := hw.written
  have hkeys := congrArg (List.map Prod.fst)
    (properties_withChildren ((Normal.visitor table).visit path given) new)
  rw [Fields.withValues_fst, properties_visit hentries, keys_stripProperties] at hkeys
  exact hkeys

theorem mem_requiredNames_of_walked {name : String} :
    name ∈ requiredNames node ↔ Requires given name := by
  obtain ⟨ps, hps⟩ := Normal.mapping_of_walked hw hentries
  rw [mem_requiredNames, Normal.required_of_walked hw hps, Requires]
  cases Fields.value given "required" with
  | arr names => simp [Normal.strippedRequired, str_mem_map_stripName]
  | _ => simp [Normal.strippedRequired]
end

theorem isSome_signatureLayout {below : Layouter} {fields : Fields} {depth : Nat} :
    (signatureLayout below fields depth).isSome = true ↔
      Fields.get? fields "additionalProperties" ≠ some (.bool false) := by
  unfold signatureLayout additionalOf
  cases Fields.get? fields "additionalProperties" with
  | none => simp
  | some v =>
    cases v with
    | bool b => cases b <;> simp
    | _ => simp

theorem forall₂_properties_of_encoded {typeName : String} {address : Address} {old new : Fields}
    (h : Prepared.Encoded typeName address old new) :
    List.Forall₂ (fun p q => p.1 = q.1 ∧ Kept p.2 q.2) (propertiesOf old) (propertiesOf new) := by
  have hrel := rel_value (.other nofun) h.properties
  unfold propertiesOf
  generalize Fields.value old "properties" = v at hrel ⊢
  generalize Fields.value new "properties" = w at hrel ⊢
  cases hrel with
  | obj hall => exact hall
  | @other v _ => cases v <;> exact List.forall₂_same.2 fun p _ => ⟨rfl, .inl rfl⟩

theorem keys_of_encoded {typeName : String} {address : Address} {old new : Fields}
    (h : Prepared.Encoded typeName address old new) :
    (propertiesOf new).map Prod.fst = (propertiesOf old).map Prod.fst :=
  (map_eq_of_forall₂ ((forall₂_properties_of_encoded h).imp fun _ _ hpq => hpq.1)).symm

/-- Each node of the tree goes back to a node that was given at its address, by way of a normalized
one. -/
def GoesBack (table : Fields) (typeName : String) (raw normal prepared : Json) : Prop :=
  ∀ address encoded, At prepared address encoded → ∃ given found node,
    Origin (Normal.visitor table) [] raw address (.obj given) ∧ At normal address node ∧
      Walked (Normal.visitor table) address.path given found node ∧
        Prepared.Encoded typeName address node encoded

section
variable {table given normal prepared : Fields} {raw normalTree preparedTree : Json}
  {address : Address} {typeName : String}
  (hback : GoesBack table typeName raw normalTree preparedTree)
  (hat : At preparedTree address prepared)
  (horigin : Origin (Normal.visitor table) [] raw address (.obj given))
  (hw : Walked (Normal.visitor table) address.path given given normal)
  (hencoded : Prepared.Encoded typeName address normal prepared)
include hback hat horigin hw hencoded

/-- A property of a prepared node is what the value given in its place has become. -/
theorem became_of_property {key : Key} {x y : Json} (hy : (key, y) ∈ propertiesOf prepared)
    (hx : Origin (Normal.visitor table) [] raw (address ++ [.property key]) x) :
    Became table typeName (address ++ [.property key]) x y := by
  have hunique := fun z => Origin.unique (y := z) (Normal.distinct_visitor table) hx
  by_cases hno : ∀ fields, y ≠ .obj fields
  · obtain ⟨⟨_, z⟩, hz, rfl, hkept⟩ := mem_right_of_forall₂
      (forall₂_properties_of_encoded hencoded) hy
    obtain rfl | ⟨_, inner, _, rfl⟩ := hkept
    · obtain rfl := hunique _ (hw.leaf horigin (mem_steps_property hz) hno)
      exact .leaf hno
    · exact absurd rfl (hno inner)
  · push Not at hno
    obtain ⟨fields, rfl⟩ := hno
    obtain ⟨given, found, node, horigin', -, hwalked, hencoded'⟩ :=
      hback _ _ (hat.step (mem_steps_property hy))
    obtain rfl := hunique _ horigin'
    exact .node hwalked hencoded'

/-- What a node was given as, and what it was made to, says what its object literal declares. -/
theorem declared_of_walked {entries : List (String × Json)} {levels : Nat}
    (hentries : Fields.value given "properties" = .obj (keyed entries))
    (hlevels : Json.depthFields prepared ≤ levels) (depth : Nat) :
    Declared table typeName raw address given normal prepared entries depth
      ((propertiesOf prepared).map (memberLayout (layout levels) (some address) prepared depth))
      (signatureLayout (layout levels) prepared depth) where
  names := by
    rw [List.map_map, ← keys_properties_of_walked hw hentries, ← keys_of_encoded hencoded]
    rfl
  marks member hmember name hname := by
    obtain ⟨property, _, rfl⟩ := List.mem_map.1 hmember
    have hkey : property.1 = .str name := hname
    have hrequired : Fields.get? prepared "required" = Fields.get? normal "required" :=
      hencoded.unchanged _ (by decide) fun _ => by decide
    rw [memberLayout, hkey, ← mem_requiredNames_of_walked hw hentries, mem_requiredNames,
      ← Fields.value_congr hrequired, ← mem_requiredNames]
    simp [isRequired]
  types member hmember name hname := by
    obtain ⟨⟨key, y⟩, hproperty, rfl⟩ := List.mem_map.1 hmember
    obtain rfl : key = .str name := hname
    have hbelow := mem_steps_property hproperty
    have hle := depth_of_mem_childValues (mem_childValues_of_mem_steps hbelow)
    have hkey := List.mem_map_of_mem (f := Prod.fst) hproperty
    rw [keys_of_encoded hencoded, keys_properties_of_walked hw hentries,
      ← keys_stripProperties] at hkey
    obtain ⟨⟨_, x⟩, hx, rfl⟩ := List.mem_map.1 hkey
    have hvisited : (.str name, x) ∈
        properties ((Normal.visitor table).visit ([] ++ address.path) given) := by
      rw [properties_visit hentries]
      exact hx
    have hgiven := horigin.step hw.folded (mem_steps_property hvisited)
    exact ⟨x, y, levels, lastUnder_of_mem hx, hgiven,
      became_of_property hback hat horigin hw hencoded hproperty hgiven, hbelow,
      Nat.le_trans hle hlevels, rfl⟩
  signature := by
    rw [isSome_signatureLayout]
    by_cases hobject : Fields.value normal "type" = .str "object"
    · simp [hencoded.closed hobject, hobject]
    · rw [hencoded.unclosed hobject, Normal.get?_of_walked_other hw (by decide)]
      simp [hobject]
end

theorem goesBack_of_normalize {table : Fields} {raw normal prepared : Json}
    (h : Normal.normalize table raw = .ok normal) {typeName : String}
    (hnodes : List.Forall₂ (fun old new => old.1 = new.1 ∧
      Prepared.Encoded typeName old.1 old.2 new.2) (nodes normal) (nodes prepared)) :
    GoesBack table typeName raw normal prepared := by
  intro address encoded hat
  obtain ⟨visits, hwalk⟩ := Normal.normalize_eq_ok.1 h
  obtain ⟨⟨_, node⟩, hnode, rfl, hencoded⟩ := mem_right_of_forall₂ hnodes (mem_nodes.2 hat)
  rw [mem_nodes] at hnode
  obtain ⟨given, found, horigin, hw⟩ :=
    exists_origin (Normal.shallow_visitor table) (Nat.le_refl _) hwalk hnode
  exact ⟨given, found, node, horigin, hnode, hw, hencoded⟩

/-- The code compiled from a normalized and prepared schema is put together as its layout says.
There each object literal of a node a walk comes to declares what the node was given with: its
properties under their stripped names, once each and in order, with the type of the last of those
that fall together, optional unless the name is required, and open unless the node is of type
`object` or says otherwise. -/
theorem object_literals_declare_given {table : Fields} {raw normal : Json}
    (h : Normal.normalize table raw = .ok normal) (typeName : String) :
    ∃ prepared, Prepared.prepare typeName normal = .ok prepared ∧
      (∀ address depth members signature,
        Layout.Within (.object (some address) depth members signature) (rootLayout prepared) →
        ∃ given node encoded, Origin (Normal.visitor table) [] raw address (.obj given) ∧
          At normal address node ∧ At prepared address encoded ∧
          ∀ entries, Fields.value given "properties" = .obj (keyed entries) →
            Declared table typeName raw address given node encoded entries depth members
              signature) ∧
      ∀ (c : Compiler) name options code, (c.compile prepared name options).1.result = .ok code →
        ∃ type root state events, Fits options state.enums (rootLayout prepared) type ∧
          root = rootDeclaration prepared (Name.toIdentifier name) type.display ∧
          c.rendered prepared name options = (.ok root, state) ∧
          c.formatted options ((Compiler.sourceFile options root state).text options) =
            .ok (code, events) := by
  obtain ⟨prepared, hprepare, _, hnodes⟩ :=
    Prepared.prepare_of_unlisted typeName (unlisted_of_normalize h)
  have hback := goesBack_of_normalize h hnodes
  refine ⟨prepared, hprepare, fun address depth members signature hwithin => ?_,
    fun c name options code hcompile => ?_⟩
  · obtain ⟨encoded, levels, hat, hlevels, hliteral⟩ := exists_node_of_rootLayout hwithin
    obtain ⟨-, -, rfl, rfl⟩ := Layout.object.inj hliteral
    obtain ⟨given, found, node, horigin, hnode, hw, hencoded⟩ := hback _ _ hat
    refine ⟨given, node, encoded, horigin, hnode, hat, fun entries hentries => ?_⟩
    obtain rfl := folded_eq_given hw.folded hentries
    exact declared_of_walked hback hat horigin hw hencoded hentries hlevels depth
  · obtain ⟨root, state, events, hrendered, hformatted⟩ := exists_rendered_of_compile hcompile
    obtain ⟨type, hfits, hroot⟩ := exists_fitting_of_rendered hrendered
    exact ⟨type, root, state, events, hfits, hroot, hrendered, hformatted⟩

/-- Two names that fall together around a third, and required names with blanks, among them one that
is no text. -/
def crowdedEntries : List (String × Json) :=
  [(" a", .obj [("type", .str "string")]),
    ("b", .obj [("properties", .obj (keyed [("c", .null)])), ("required", .str "c"),
      ("additionalProperties", .bool false)]),
    ("a ", .obj [("type", .str "Integer")])]

def crowded : Fields :=
  [("properties", .obj (keyed crowdedEntries)), ("required", .arr [.str "a  ", .int 1])]

def crowdedCode : String :=
  "export interface T \x7b\n  a: number;\n  b?: \x7b\n    c?: unknown;\n  \x7d;\n" ++
    "  [k: string]: unknown;\n\x7d\n"

theorem object_literals_declare_given_crowded :
    ∃ normal prepared, Normal.normalize TypeNames.builtin (.obj crowded) = .ok normal ∧
      Prepared.prepare "T" normal = .ok prepared ∧
      (∃ members signature,
        Layout.Within (.object (some []) 0 members signature) (rootLayout prepared) ∧
        ∃ node encoded, Declared TypeNames.builtin "T" (.obj crowded) [] crowded node encoded
          crowdedEntries 0 members signature) ∧
      ∃ type root state events, Fits .plain state.enums (rootLayout prepared) type ∧
        root = rootDeclaration prepared (Name.toIdentifier "T") type.display ∧
        (Compiler.new .absent []).rendered prepared "T" .plain = (.ok root, state) ∧
        (Compiler.new .absent []).formatted .plain
          ((Compiler.sourceFile .plain root state).text .plain) = .ok (crowdedCode, events) := by
  have hrun : ((Normal.normalize TypeNames.builtin (.obj crowded)).toOption.bind fun normal =>
      (Prepared.prepare "T" normal).toOption.map fun prepared => (isInterface prepared,
        ((Compiler.new .absent []).compile prepared "T" .plain).1.result.toOption)) =
      some (true, some crowdedCode) := by decide +kernel
  obtain ⟨normal, hnormal, hprepared⟩ := Option.bind_eq_some_iff.1 hrun
  obtain ⟨prepared, hprepared, hcompiled⟩ := Option.map_eq_some_iff.1 hprepared
  obtain ⟨hinterface, hcode⟩ := Prod.mk.inj hcompiled
  have hnormal := Inversion.eq_ok_of_toOption hnormal
  have hprepared := Inversion.eq_ok_of_toOption hprepared
  obtain ⟨prepared', hprepared', hliterals, hcompile⟩ := object_literals_declare_given hnormal "T"
  obtain rfl := Except.ok.inj (hprepared'.symm.trans hprepared)
  refine ⟨normal, prepared', hnormal, hprepared, ?_,
    hcompile _ _ _ _ (Inversion.eq_ok_of_toOption hcode)⟩
  have hroot : rootLayout prepared' = objectLayout (layout (prepared'.depth - 1)) (some [])
      (fieldsOf prepared') 0 := if_pos hinterface
  have hwithin : Layout.Within (objectLayout (layout (prepared'.depth - 1)) (some [])
      (fieldsOf prepared') 0) (rootLayout prepared') := hroot ▸ .refl
  obtain ⟨given, node, encoded, horigin, _, _, hdeclared⟩ := hliterals _ _ _ _ hwithin
  cases horigin
  exact ⟨_, _, hwithin, node, encoded, hdeclared crowdedEntries (by decide)⟩

end SchemaDecl
