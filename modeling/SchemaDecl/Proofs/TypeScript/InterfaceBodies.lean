import SchemaDecl.Proofs.TypeScript.Runs

/-! Interfaces and type expressions. A root is declared as an interface if it shows
at once that it is an object; the renderer of types finds this out on its way
through the keywords. A node that shows it is a plain object, with one name in its
`type` and no combinator beside it, so nothing is left to join: what is rendered
as its type is the body of its interface, with the same effects. -/

namespace SchemaDecl.TypeScript

variable {fields : Fields} {key : Key}

theorem get?_of_not_contains (h : Fields.contains fields key = false) :
    Fields.get? fields key = none :=
  Option.isNone_iff_eq_none.1 (Option.isSome_eq_false_iff.1 h)

theorem entriesUnder_of_not_contains (h : Fields.contains fields key = false) :
    entriesUnder fields key = [] := by
  rw [entriesUnder, Fields.value, get?_of_not_contains h]
  rfl

theorem renderFields_eq {options : Options} {renderer : Renderer} {depth : Nat} {hint : String}
    (h : decidesAlone fields = false) :
    renderFields options renderer fields depth hint =
      renderParts options renderer fields depth hint := by
  simp only [decidesAlone, List.any_cons, List.any_nil, Bool.or_false, Bool.or_eq_false_iff] at h
  obtain ⟨hany, htsType, hconst, henum⟩ := h
  rw [renderFields, get?_of_not_contains htsType, hany, get?_of_not_contains hconst, henum]
  rfl

/-- A node that is an object and nothing else. -/
structure PlainObject (fields : Fields) : Prop where
  undecided : decidesAlone fields = false
  structured : hasStructure fields = true
  names : typeNames fields = [.str "object"]
  memberless : ∀ c ∈ combinatorJoins, entriesUnder fields c.1 = []

theorem plainObject_of_isInterface (h : isInterface (.obj fields) = true) : PlainObject fields := by
  simp only [isInterface, Bool.and_eq_true, Bool.not_eq_true', List.any_cons, List.any_nil,
    Bool.or_false, Bool.or_eq_false_iff] at h
  obtain ⟨⟨hany, htsType, henum, hconst, honeOf, hanyOf, hallOf⟩, htype⟩ := h
  have hnames : hasStructure fields = true ∧ typeNames fields = [.str "object"] := by
    unfold hasStructure typeNames Fields.value
    cases hget : Fields.get? fields "type" with
    | some type =>
      rw [hget] at htype
      have hobject : type = .str "object" := by simpa using htype
      simp [Fields.contains, hget, hobject]
    | none =>
      rw [hget] at htype
      simp only at htype
      simp [htype]
  refine ⟨by simp [decidesAlone, hany, htsType, henum, hconst], hnames.1, hnames.2, fun c hc => ?_⟩
  simp only [combinatorJoins, List.mem_cons, List.not_mem_nil, or_false] at hc
  rcases hc with rfl | rfl | rfl
  · exact entriesUnder_of_not_contains honeOf
  · exact entriesUnder_of_not_contains hanyOf
  · exact entriesUnder_of_not_contains hallOf

/-! A single type is left as it is. -/

theorem join_one (separator text : String) :
    TypeText.join separator [.text text] = .ok (.text text) := rfl

section
variable (options : Options) (renderer : Renderer) (depth : Nat) (hint : String)

theorem ownType_plainObject (h : PlainObject fields) :
    ownType options renderer fields depth hint =
      renderObject options renderer fields depth >>= fun text => pure [.text text] := by
  have hone : ∀ text : String, (liftM (TypeText.join " | " [.text text]) : RenderM TypeText) =
      pure (.text text) := fun text => by rw [join_one]; rfl
  simp only [ownType, h.structured, if_true, renderStructural, h.names, renderNames,
    renderTypeName_object, bind_assoc, pure_bind, hone]

theorem renderFields_plainObject (h : PlainObject fields) :
    renderFields options renderer fields depth hint =
      renderObject options renderer fields depth >>= fun text => pure (.text text) := by
  have hnone : combinatorJoins.mapM (renderCombinator renderer fields depth hint) =
      pure [[], [], []] := by
    have hcombinator : ∀ c ∈ combinatorJoins, renderCombinator renderer fields depth hint c =
        pure [] := by
      intro c hc
      rw [renderCombinator_eq, if_pos (h.memberless c hc)]
    simp only [combinatorJoins, List.forall_mem_cons] at hcombinator
    obtain ⟨honeOf, hanyOf, hallOf, _⟩ := hcombinator
    simp only [combinatorJoins, List.mapM_cons, List.mapM_nil, honeOf, hanyOf, hallOf, pure_bind]
  rw [renderFields_eq h.undecided, renderParts_eq,
    ownType_plainObject options renderer depth hint h, hnone]
  simp only [bind_assoc, pure_bind]
  rfl
end

/-! Whole schemas. -/

/-- The outcome of a computation with its result put into a larger one. -/
def RenderM.into {α β : Type} (f : α → β) (run : Except TypeFault α × RenderState) :
    Except TypeFault β × RenderState := (run.1.map f, run.2)

theorem RenderM.from_map {α β : Type} (x : RenderM α) (f : α → β) (s : RenderState) :
    (x >>= fun a => pure (f a)).from s = RenderM.into f (x.from s) := by
  rw [RenderM.from_bind]
  cases x.from s with
  | mk outcome s' => cases outcome <;> rfl

/-- From every state the type expression of an interface, at any depth, is rendered as its body is,
and at the root this is the body that is declared. -/
theorem interface_body_is_type {schema : Json} (h : isInterface schema = true) (options : Options)
    (s : RenderState) :
    (∀ depth hint, (render options schema.depth schema depth hint).from s =
      RenderM.into .text ((renderObject options (render options (schema.depth - 1))
        (fieldsOf schema) depth).from s)) ∧
    ∀ name, (renderRoot options schema name).from s =
      RenderM.into (.interface name (commentOf? "" (Fields.value (fieldsOf schema) "description")))
        ((renderObject options (render options (schema.depth - 1))
          (fieldsOf schema) 0).from s) := by
  cases schema with
  | obj fields =>
    refine ⟨fun depth hint => ?_, fun name => ?_⟩
    · have hbody := renderFields_plainObject options
        (render options ((Json.obj fields).depth - 1)) depth hint (plainObject_of_isInterface h)
      rw [← RenderM.from_map]
      exact congrArg (RenderM.from · s) hbody
    · rw [← RenderM.from_map, renderRoot, if_pos h]
  | _ => cases h

/-- An object with an enum whose name is taken and a type that is unknown. -/
def kindAndSize : Json :=
  .obj [("properties", .obj [
      ("kind", .obj [("enum", .arr [.int 1]), ("tsEnumNames", .arr [.str "A"])]),
      ("size", .obj [("type", .str "long")])]),
    ("items", .obj []), ("additionalProperties", .bool false)]

theorem interface_body_is_type_taken :
    isInterface kindAndSize = true ∧
    (render .plain kindAndSize.depth kindAndSize 0 "T").from ⟨[], ["Kind"], []⟩ =
      RenderM.into .text ((renderObject .plain (render .plain (kindAndSize.depth - 1))
        (fieldsOf kindAndSize) 0).from ⟨[], ["Kind"], []⟩) ∧
    (renderRoot .plain kindAndSize "T").from ⟨[], ["Kind"], []⟩ =
      RenderM.into (.interface "T" none) ((renderObject .plain
        (render .plain (kindAndSize.depth - 1)) (fieldsOf kindAndSize) 0).from
          ⟨[], ["Kind"], []⟩) ∧
    ((render .plain kindAndSize.depth kindAndSize 0 "T").from ⟨[], ["Kind"], []⟩).1.toOption =
      some (.text "\x7b\n  kind?: Kind2;\n  size?: unknown;\n\x7d") ∧
    ((render .plain kindAndSize.depth kindAndSize 0 "T").from ⟨[], ["Kind"], []⟩).2 =
      ⟨[⟨"Kind2", [("A", "1")]⟩], ["Kind2", "Kind"], [.unknownType (.str "long")]⟩ := by
  have hinterface : isInterface kindAndSize = true := by decide
  have hagree := interface_body_is_type hinterface .plain ⟨[], ["Kind"], []⟩
  exact ⟨hinterface, hagree.1 0 "T", hagree.2 "T", by decide +kernel, by decide +kernel⟩

end SchemaDecl.TypeScript
