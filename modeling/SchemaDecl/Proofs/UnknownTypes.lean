import SchemaDecl.Interface
import SchemaDecl.Proofs.DeclaredText
import SchemaDecl.Proofs.Schema.KnownNames

/-! Warnings about unknown types. The compiler reports a name for which there is
no type once for each time it comes to it, so a run that ends well is silent
exactly if all names it comes to are known. A schema that is read from a text
has known names wherever the walks have come to, when its author used nothing
but aliases and canonical names. The schema of additional properties is the
exception: it is rendered where an object stays open, and no walk goes there. -/

namespace SchemaDecl

open TypeScript Schema

namespace TypeScript

/-! What is rendered of a schema. -/

/-- Rendering a node goes on to these values; the flag is set for additional properties. -/
inductive Drawn (fields : Fields) : Bool → Json → Prop
  | property {p : Key × Json} : hasStructure fields = true → .str "object" ∈ typeNames fields →
      p ∈ propertiesOf fields → Drawn fields false p.2
  | additional {x : Json} : hasStructure fields = true → .str "object" ∈ typeNames fields →
      x ∈ objectUnder fields "additionalProperties" → Drawn fields true x
  | item {x : Json} : hasStructure fields = true → .str "array" ∈ typeNames fields →
      x ∈ entriesUnder fields "items" ++ objectUnder fields "items" → Drawn fields false x
  | member {c : Key × String} {x : Json} :
      c ∈ combinatorJoins → x ∈ entriesUnder fields c.1 → Drawn fields false x

/-- The nodes that are rendered with a schema; the flag tells whether the way to the node leads
through additional properties. -/
inductive Renders : Bool → Json → Fields → Prop
  | here {fields : Fields} : Renders false (.obj fields) fields
  | through {fields node : Fields} {beyond further : Bool} {x : Json} :
      decidesAlone fields = false → Drawn fields beyond x → Renders further x node →
        Renders (beyond || further) (.obj fields) node

/-- Rendering the node reports the name. -/
def Unknown (node : Fields) (name : Json) : Prop :=
  decidesAlone node = false ∧ hasStructure node = true ∧ name ∈ typeNames node ∧
    isKnown name = false

theorem mem_unknownIn {name other : Json} : name ∈ unknownIn other ↔
    name = other ∧ isKnown other = false := by
  unfold unknownIn
  cases isKnown other <;> simp

theorem Drawn.part {fields : Fields} {beyond : Bool} {x : Json} (h : Drawn fields beyond x) :
    Part fields x := by
  have hobject : ∀ {key : Key}, x ∈ objectUnder fields key →
      ∃ inner, x = .obj inner ∧ Fields.value fields key = .obj inner := by
    intro key hx
    unfold objectUnder at hx
    split at hx
    · rename_i inner hinner
      exact ⟨inner, List.mem_singleton.1 hx, hinner⟩
    · cases hx
  cases h with
  | property _ _ hp => exact .property hp
  | additional _ _ hx =>
    obtain ⟨inner, rfl, hinner⟩ := hobject hx
    exact .additional hinner
  | item _ _ hx =>
    rcases List.mem_append.1 hx with hx | hx
    · exact .entry hx
    · obtain ⟨inner, rfl, hinner⟩ := hobject hx
      exact .item hinner
  | member hc hx => exact .member hc hx

theorem exists_drawn {fields : Fields} {x : Json} :
    (∃ beyond, Drawn fields beyond x) ↔
      (hasStructure fields = true ∧ ∃ name ∈ typeNames fields, x ∈ partsUnder fields name) ∨
        ∃ c ∈ combinatorJoins, x ∈ entriesUnder fields c.1 := by
  constructor
  · rintro ⟨beyond, hdrawn⟩
    cases hdrawn with
    | property hs hn hp =>
      refine .inl ⟨hs, _, hn, ?_⟩
      rw [partsUnder, if_pos rfl]
      exact List.mem_append_left _ (List.mem_map_of_mem hp)
    | additional hs hn hx =>
      refine .inl ⟨hs, _, hn, ?_⟩
      rw [partsUnder, if_pos rfl]
      exact List.mem_append_right _ hx
    | item hs hn hx => exact .inl ⟨hs, _, hn, hx⟩
    | member hc hx => exact .inr ⟨_, hc, hx⟩
  · rintro (⟨hs, name, hn, hx⟩ | ⟨c, hc, hx⟩)
    · unfold partsUnder at hx
      split at hx
      · rename_i hobject
        rcases List.mem_append.1 hx with hx | hx
        · obtain ⟨p, hp, rfl⟩ := List.mem_map.1 hx
          exact ⟨_, .property hs (hobject ▸ hn) hp⟩
        · exact ⟨_, .additional hs (hobject ▸ hn) hx⟩
      · split at hx
        · rename_i harray
          exact ⟨_, .item hs (harray ▸ hn) hx⟩
        · cases hx
    · exact ⟨_, .member hc hx⟩

theorem mem_reportedNode {below : Json → List Json} {fields : Fields} {name : Json} :
    name ∈ reportedNode below (.obj fields) ↔ Unknown fields name ∨
      decidesAlone fields = false ∧ ∃ x, (∃ beyond, Drawn fields beyond x) ∧ name ∈ below x := by
  simp only [exists_drawn, Unknown, reportedNode]
  cases decidesAlone fields with
  | true => simp
  | false =>
    simp only [Bool.false_eq_true, if_false, true_and, List.mem_append, reportedStructure,
      reportedMembers, List.mem_flatMap]
    constructor
    · rintro (hstructure | ⟨c, hc, x, hx, hname⟩)
      · split at hstructure
        · rename_i hs
          obtain ⟨other, hother, hreported⟩ := List.mem_flatMap.1 hstructure
          rcases List.mem_append.1 hreported with hpart | hhere
          · obtain ⟨x, hx, hname⟩ := List.mem_flatMap.1 hpart
            exact .inr ⟨x, .inl ⟨hs, other, hother, hx⟩, hname⟩
          · obtain ⟨rfl, hunknown⟩ := mem_unknownIn.1 hhere
            exact .inl ⟨hs, hother, hunknown⟩
        · cases hstructure
      · exact .inr ⟨x, .inr ⟨c, hc, hx⟩, hname⟩
    · rintro (⟨hs, hmem, hunknown⟩ | ⟨x, ⟨hs, other, hother, hx⟩ | ⟨c, hc, hx⟩, hname⟩)
      · rw [if_pos hs]
        refine .inl (List.mem_flatMap.2 ⟨name, hmem, List.mem_append_right _ ?_⟩)
        exact mem_unknownIn.2 ⟨rfl, hunknown⟩
      · rw [if_pos hs]
        refine .inl (List.mem_flatMap.2 ⟨other, hother, List.mem_append_left _ ?_⟩)
        exact List.mem_flatMap.2 ⟨x, hx, hname⟩
      · exact .inr ⟨c, hc, x, hx, hname⟩

/-- A schema reports the unknown names of the nodes that are rendered with it. -/
theorem mem_reported {levels : Nat} {schema : Json} (hdepth : schema.depth ≤ levels)
    {name : Json} : name ∈ reported levels schema ↔
      ∃ beyond node, Renders beyond schema node ∧ Unknown node name := by
  induction levels generalizing schema with
  | zero =>
    constructor
    · intro h
      cases h
    · rintro ⟨_, _, hrenders, _⟩
      cases hrenders <;> simp [Json.depth] at hdepth
  | succ levels ih =>
    cases schema with
    | obj fields =>
      rw [Json.depth] at hdepth
      have hbelow : ∀ {beyond x}, Drawn fields beyond x → x.depth ≤ levels := by
        intro beyond x hx
        have hle := (under_of_part hx.part).depth_le
        omega
      rw [reported, mem_reportedNode]
      constructor
      · rintro (hhere | ⟨halone, x, ⟨beyond, hx⟩, hname⟩)
        · exact ⟨false, fields, .here, hhere⟩
        · obtain ⟨further, node, hnode, hunknown⟩ := (ih (hbelow hx)).1 hname
          exact ⟨_, node, .through halone hx hnode, hunknown⟩
      · rintro ⟨_, node, hrenders, hunknown⟩
        cases hrenders with
        | here => exact .inl hunknown
        | through halone hx hnode =>
          exact .inr ⟨halone, _, ⟨_, hx⟩, (ih (hbelow hx)).2 ⟨_, _, hnode, hunknown⟩⟩
    | _ =>
      constructor
      · intro h
        cases h
      · rintro ⟨_, _, hrenders, _⟩
        cases hrenders

/-! What a run reports. -/

/-- The first of the names are reported, and all of them if the computation ends well. -/
def reports : Judgement where
  Holds names Q x _ := ∀ s, ∃ told, told <+: names ∧
    (x.from s).2.events = s.events ++ told.map .unknownType ∧
    ∀ a, (x.from s).1 = .ok a → told = names ∧ Q a
  lift h := fun s => ⟨[], List.prefix_refl _, by simp, fun a ha => ⟨rfl, h a ha⟩⟩
  bind {α β names more Q R x y f g} hx hf := by
    intro s
    obtain ⟨told, hprefix, hevents, hok⟩ := hx s
    rw [RenderM.from_bind]
    cases hrun : x.from s with
    | mk outcome s' =>
      rw [hrun] at hevents hok
      cases outcome with
      | error fault =>
        refine ⟨told, hprefix.trans (List.prefix_append _ _), hevents, fun a ha => ?_⟩
        cases ha
      | ok a =>
        obtain ⟨rfl, ha⟩ := hok a rfl
        obtain ⟨rest, hrest, hevents', hok'⟩ := hf a ha s'
        refine ⟨told ++ rest, (List.prefix_append_right_inj told).2 hrest, ?_, fun b hb => ?_⟩
        · rw [hevents', hevents, List.map_append, List.append_assoc]
        · obtain ⟨rfl, hb⟩ := hok' b hb
          exact ⟨rfl, hb⟩
  unknown name := fun s => ⟨[name], List.prefix_refl _, rfl, fun _ _ => ⟨rfl, trivial⟩⟩

def anyText : String → Prop := fun _ => True

theorem rendersInto_anyText : RendersInto anyText anyText where
  empty := trivial
  across _ _ _ _ := trivial
  braces _ := trivial
  quote _ := trivial
  bare _ _ := trivial
  comment _ _ _ := trivial
  calm _ := trivial
  word _ := ⟨trivial, trivial⟩

theorem node_reports (fields : Fields) : Node reports anyText anyText fields where
  type _ _ := trivial
  const _ _ _ _ := trivial
  enum _ _ _ _ := trivial
  property _ _ := trivial
  described _ _ := trivial
  declared _ _ _ _ := fun _ => ⟨[], List.prefix_refl _, (List.append_nil _).symm,
    fun _ _ => ⟨rfl, trivial⟩⟩

/-- A rendered root reports the unknown names of its nodes, up to the first fault. -/
theorem events_renderedRoot (typeName : String) (prepared : Json) :
    ∃ told, told <+: reported prepared.depth prepared ∧
      (renderedRoot typeName prepared).2.events = told.map .unknownType ∧
      ∀ text, (renderedRoot typeName prepared).1 = .ok text →
        told = reported prepared.depth prepared := by
  have hindent : Options.plain.indent.toList.all isQuiet = true := by decide
  obtain ⟨told, hprefix, hevents, hok⟩ := holds_rootText reports rendersInto_anyText hindent rfl
    (fun fields _ => node_reports fields) placeholder placeholder (startOf typeName)
  exact ⟨told, hprefix, hevents, fun text htext => (hok text htext).1⟩

end TypeScript

/-! Nodes on and off the way of the walks. -/

theorem child_of_drawn {fields : Fields} {x : Json} (h : Drawn fields false x) :
    Child fields x := by
  cases h with
  | @property p _ _ hp =>
    obtain ⟨key, x⟩ := p
    obtain ⟨old, hold, hp⟩ := mem_of_mem_properties hp
    exact .property hold hp
  | item _ _ hx =>
    refine .item ?_
    cases hv : Fields.value fields "items" <;>
      simp_all [items, entriesUnder, objectUnder]
  | @member c _ hc hx =>
    refine .member ?_ hx
    simp only [combinatorJoins, List.mem_cons, List.not_mem_nil, or_false] at hc
    rcases hc with rfl | rfl | rfl <;> simp [combinators]

theorem reaches_of_renders {schema : Json} {node : Fields} {beyond : Bool}
    (h : Renders beyond schema node) (hbeyond : beyond = false) : Reaches schema (.obj node) := by
  induction h with
  | here => exact .root
  | through _ hx _ ih =>
    rw [Bool.or_eq_false_iff] at hbeyond
    obtain ⟨rfl, hfurther⟩ := hbeyond
    exact .through (child_of_drawn hx) (ih hfurther)

/-- Every name that is rendered behind additional properties is known. -/
def KnownBeyond (prepared : Json) : Prop :=
  ∀ node, Renders true prepared node → ∀ name, ¬ Unknown node name

/-- Where the walks have come to, nothing is unknown. -/
theorem reported_eq_nil_iff {prepared : Json} (h : Named prepared) :
    reported prepared.depth prepared = [] ↔ KnownBeyond prepared := by
  rw [List.eq_nil_iff_forall_not_mem]
  constructor
  · exact fun hnone node hnode name hunknown =>
      hnone name ((mem_reported (Nat.le_refl _)).2 ⟨true, node, hnode, hunknown⟩)
  · intro hknown name hname
    obtain ⟨beyond, node, hnode, hunknown⟩ := (mem_reported (Nat.le_refl _)).1 hname
    cases beyond with
    | true => exact hknown node hnode name hunknown
    | false =>
      have hcanonical := h node (reaches_of_renders hnode rfl) name hunknown.2.2.1
      rw [hunknown.2.2.2] at hcanonical
      cases hcanonical

theorem named_of_loadSchema {text : String} {loaded : Json}
    (hload : loadSchema .null text = .ok loaded)
    (hnames : ∀ schema, Json.read text = .ok schema → Everywhere Aliased schema) :
    Named loaded := by
  unfold loadSchema at hload
  split at hload
  · rw [← Except.ok.inj hload]
    intro fields hin
    cases hin with
    | root =>
      rw [canonical_iff]
      exact nofun
    | through hchild _ =>
      cases hchild with
      | property hp _ => cases hp
      | entry hp _ => cases hp
      | item hx => cases hx
      | member _ hx => cases hx
  · unfold readSchema at hload
    obtain ⟨schema, hread, hload⟩ := Inversion.bind_eq_ok.1 hload
    exact named_of_normalize (hnames schema (Inversion.mapError_eq_ok.1 hread))
      (Inversion.mapError_eq_ok.1 hload)

/-! Silent runs. -/

/-- No name of a type was reported as unknown. -/
def Silent (trace : Trace) : Prop := ∀ name, .unknownType name ∉ trace.events

theorem silent_nil (requests : List Request) : Silent ⟨[], requests⟩ := fun _ => List.not_mem_nil

theorem not_mem_resolvedReferences (typeName : String) (visits : List Visit) (name : Json) :
    .unknownType name ∉ resolvedReferences typeName visits := by
  intro hmem
  obtain ⟨visit, _, hvisit⟩ := List.mem_filterMap.1 hmem
  obtain ⟨_, _, hevent⟩ := Option.map_eq_some_iff.1 hvisit
  cases hevent

/-- Between the references and the end, a compiled schema reports what its root reports. -/
theorem events_declareNode {schema prepared : Json} {typeName : String} {visits : List Visit}
    (hprepare : Prepared.prepareWithVisits typeName schema = .ok (prepared, visits)) :
    ∃ more, (∀ name, .unknownType name ∉ more) ∧
      (declareNode (standardBackend typeName) schema typeName).outcome.2.events =
        resolvedReferences typeName visits ++ (renderedRoot typeName prepared).2.events ++ more ∧
      ∀ result, (declareNode (standardBackend typeName) schema typeName).outcome.1 = .ok result →
        ∃ text, (renderedRoot typeName prepared).1 = .ok text := by
  rcases outcome_declareNode schema typeName with ⟨fault, hfault, _⟩ |
    ⟨other, others, hother, hcompiled⟩
  · rw [hprepare] at hfault
    cases hfault
  · rw [hprepare] at hother
    obtain ⟨rfl, rfl⟩ := Prod.mk.inj (Except.ok.inj hother)
    rcases hcompiled with ⟨fault, state, hrun, houtcome⟩ | ⟨text, state, hrun, houtcome⟩
    · rw [houtcome, hrun]
      refine ⟨[], by simp, (List.append_nil _).symm, fun result hresult => ?_⟩
      cases hresult
    · rw [houtcome, hrun]
      exact ⟨_, by simp, rfl, fun _ _ => ⟨text, rfl⟩⟩

/-- A compiled schema is silent if it has nothing to report, and if it ends well, only then. -/
theorem silent_declareNode {schema prepared : Json} {typeName : String}
    (hprepare : Prepared.prepare typeName schema = .ok prepared) :
    (reported prepared.depth prepared = [] →
      Silent (declareNode (standardBackend typeName) schema typeName).outcome.2) ∧
    ∀ result, (declareNode (standardBackend typeName) schema typeName).outcome.1 = .ok result →
      Silent (declareNode (standardBackend typeName) schema typeName).outcome.2 →
        reported prepared.depth prepared = [] := by
  rw [Prepared.prepare, Inversion.map_eq_ok] at hprepare
  obtain ⟨⟨found, visits⟩, hprepare, hfound⟩ := hprepare
  obtain rfl : found = prepared := hfound
  obtain ⟨more, hmore, hall, hended⟩ := events_declareNode hprepare
  obtain ⟨told, hprefix, hevents, hok⟩ := events_renderedRoot typeName found
  have hsilent : Silent (declareNode (standardBackend typeName) schema typeName).outcome.2 ↔
      told = [] := by
    rw [List.eq_nil_iff_forall_not_mem]
    simp [Silent, hall, hevents, not_mem_resolvedReferences, hmore]
  rw [hsilent]
  constructor
  · intro hnone
    rw [hnone] at hprefix
    exact List.prefix_nil.1 hprefix
  · intro result hresult htold
    obtain ⟨text, htext⟩ := hended result hresult
    rw [← hok text htext, htold]

/-- A schema whose root is marked as untyped, or that is none, has nothing behind its root. -/
theorem knownBeyond_of_unread {schema prepared : Json} {typeName : String}
    (h : schema = .obj [] ∨ isMarkedAny (fieldsOf schema) = true ∨ ∀ fields, schema ≠ .obj fields)
    (hprepare : Prepared.prepare typeName schema = .ok prepared) : KnownBeyond prepared := by
  -- a way beyond the root leads over a node that is read
  have hroot : ∀ {beyond node}, Renders beyond prepared node → beyond = true →
      ∃ fields, prepared = .obj fields ∧ decidesAlone fields = false ∧
        ∃ beyond x, Drawn fields beyond x := by
    intro beyond node hnode hbeyond
    cases hnode with
    | here => cases hbeyond
    | through halone hx _ => exact ⟨_, rfl, halone, _, _, hx⟩
  intro node hnode
  obtain ⟨fields, rfl, halone, beyond, x, hx⟩ := hroot hnode rfl
  rcases h with rfl | hany | hno
  · have hempty : Prepared.prepare typeName (.obj []) = .ok (.obj []) := rfl
    rw [hempty] at hprepare
    obtain rfl := Json.obj.inj (Except.ok.inj hprepare)
    cases hx with
    | property hs _ _ => cases hs
    | additional hs _ _ => cases hs
    | item hs _ _ => cases hs
    | member _ hx => cases hx
  · cases schema with
    | obj given =>
      obtain ⟨result, hresult, hbecomes⟩ := Prepared.becomes_of_prepare hprepare
      obtain rfl := Json.obj.inj hresult
      have hmark : Fields.value fields "__is_any__" = Fields.value given "__is_any__" := by
        rw [Fields.value_congr (hbecomes.other _ (by decide) (by decide)),
          Prepared.value_erase_description given (by decide)]
      rw [isMarkedAny, fieldsOf, ← hmark] at hany
      rw [decidesAlone, hany, Bool.true_or] at halone
      cases halone
    | _ => cases hany
  · rw [Prepared.prepare_of_not_node typeName hno] at hprepare
    exact absurd (Except.ok.inj hprepare) (hno _)

/-- A schema with known names wherever the walks come to is declared without a warning about them
if the names behind its additional properties are known, and if it ends well, only then. -/
theorem silent_declare {schema : Json} (hnamed : Named schema) (typeName : String) :
    let run := (declare (standardBackend typeName) schema typeName).outcome
    ((∀ prepared, Prepared.prepare typeName schema = .ok prepared → KnownBeyond prepared) →
      Silent run.2) ∧
    ∀ result, run.1 = .ok result → Silent run.2 →
      ∀ prepared, Prepared.prepare typeName schema = .ok prepared → KnownBeyond prepared := by
  dsimp only
  rcases outcome_declare schema typeName with ⟨result, hrun, hunread, _⟩ | ⟨fault, hrun⟩ | hrun
  · rw [hrun]
    exact ⟨fun _ => silent_nil [], fun _ _ _ _ hprepare => knownBeyond_of_unread hunread hprepare⟩
  · rw [hrun]
    exact ⟨fun _ => silent_nil [], nofun⟩
  · rw [hrun]
    have hreported : ∀ {prepared}, Prepared.prepare typeName schema = .ok prepared →
        (reported prepared.depth prepared = [] ↔ KnownBeyond prepared) :=
      fun hprepare => reported_eq_nil_iff (named_of_prepare hnamed hprepare)
    constructor
    · intro hknown
      cases hprepare : Prepared.prepare typeName schema with
      | ok prepared =>
        exact (silent_declareNode hprepare).1 ((hreported hprepare).2 (hknown prepared hprepare))
      | error fault =>
        rcases outcome_declareNode schema typeName with ⟨_, _, hfault⟩ | ⟨_, _, hwalk, _⟩
        · rw [hfault]
          exact silent_nil []
        · rw [Prepared.prepare, hwalk] at hprepare
          cases hprepare
    · intro result hresult hsilent prepared hprepare
      exact (hreported hprepare).1 ((silent_declareNode hprepare).2 result hresult hsilent)

/-- A text whose names are aliases or canonical is declared without a warning about them exactly
if the names behind its additional properties are known as they stand. -/
theorem silent_iff_knownBeyond {text typeName : String} {loaded : Json}
    (hload : loadSchema .null text = .ok loaded)
    (hnames : ∀ schema, Json.read text = .ok schema → Everywhere Aliased schema) :
    let run := (declare (standardBackend typeName) loaded typeName).outcome
    ((∀ prepared, Prepared.prepare typeName loaded = .ok prepared → KnownBeyond prepared) →
      Silent run.2) ∧
    ∀ result, run.1 = .ok result →
      (Silent run.2 ↔ ∀ prepared, Prepared.prepare typeName loaded = .ok prepared →
        KnownBeyond prepared) := by
  obtain ⟨hsilent, honly⟩ := silent_declare (named_of_loadSchema hload hnames) typeName
  exact ⟨hsilent, fun result hresult => ⟨honly result hresult, hsilent⟩⟩

/-! Two texts: in one the walks come to every node, in the other they do not. -/

def byteText : String := "\x7b\"items\": \x7b\"type\": \"Byte\"\x7d\x7d"

def openText : String :=
  "\x7b\"properties\": \x7b\x7d, \"additionalProperties\": \x7b\"type\": \"long\"\x7d\x7d"

def openSchema : Json :=
  .obj [("properties", .obj []), ("additionalProperties", .obj [("type", .str "long")])]

theorem aliased_of_read {text : String} {schema : Json} {levels : Nat}
    (hread : Json.read text = .ok schema)
    (hcheck : checkNodes (fun fields => decide (Aliased fields)) levels schema = true) :
    ∀ schema, Json.read text = .ok schema → Everywhere Aliased schema := by
  intro other hother
  rw [← Except.ok.inj (hread.symm.trans hother)]
  exact everywhere_of_checkNodes hcheck

theorem silent_iff_knownBeyond_byte :
    let loaded : Json := .obj [("items", .obj [("type", .str "integer")])]
    let run := (declare (standardBackend "T") loaded "T").outcome
    loadSchema .null byteText = .ok loaded ∧
      (∀ schema, Json.read byteText = .ok schema → Everywhere Aliased schema) ∧
      ((∀ prepared, Prepared.prepare "T" loaded = .ok prepared → KnownBeyond prepared) →
        Silent run.2) ∧
      ∀ result, run.1 = .ok result →
        (Silent run.2 ↔ ∀ prepared, Prepared.prepare "T" loaded = .ok prepared →
          KnownBeyond prepared) := by
  have hload : loadSchema .null byteText =
      .ok (.obj [("items", .obj [("type", .str "integer")])]) :=
    Inversion.eq_ok_of_toOption (by decide +kernel)
  have hread : Json.read byteText = .ok (.obj [("items", .obj [("type", .str "Byte")])]) :=
    Inversion.eq_ok_of_toOption (by decide +kernel)
  have hcheck : checkNodes (fun fields => decide (Aliased fields)) 3
      (.obj [("items", .obj [("type", .str "Byte")])]) = true := by decide +kernel
  have hnames := aliased_of_read hread hcheck
  exact ⟨hload, hnames, silent_iff_knownBeyond hload hnames⟩

/-- Behind additional properties an alias is not replaced, and is reported. -/
theorem alias_beyond_reported :
    loadSchema .null openText = .ok openSchema ∧
      (∀ schema, Json.read openText = .ok schema → Everywhere Aliased schema) ∧
      (∃ result, (declare (standardBackend "T") openSchema "T").outcome.1 = .ok result) ∧
      ¬ Silent (declare (standardBackend "T") openSchema "T").outcome.2 := by
  have hload : loadSchema .null openText = .ok openSchema :=
    Inversion.eq_ok_of_toOption (by decide +kernel)
  have hread : Json.read openText = .ok openSchema :=
    Inversion.eq_ok_of_toOption (by decide +kernel)
  have hcheck : checkNodes (fun fields => decide (Aliased fields)) 3 openSchema = true := by
    decide +kernel
  have hreported : .unknownType (.str "long") ∈
      (declare (standardBackend "T") openSchema "T").outcome.2.events := by decide +kernel
  exact ⟨hload, aliased_of_read hread hcheck, Inversion.exists_ok_of_isSome (by decide +kernel),
    fun hsilent => hsilent _ hreported⟩

end SchemaDecl
