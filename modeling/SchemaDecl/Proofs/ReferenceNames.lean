import SchemaDecl.Proofs.DeclaredNames
import SchemaDecl.Proofs.TypeScript.AskedNames
import SchemaDecl.Proofs.TypeScript.ReadReferences

/-! The two names that references use. Every look-up is written with the name of the
declaration and with that of a helper of the language. The first is kept free of enums;
the second is not, and an enum takes it exactly if one is asked for under a hint that
gives it. Numbers do not matter here: a name that was numbered ends in a digit, and so
it does after the renaming. -/

namespace SchemaDecl

open TypeScript

/-- What a look-up is wrapped in. -/
def helperName : String := "NonNullable"

/-- The hints of the enums that a declaration has to name, in the order of the rendering. -/
def askedNames (schema : Json) (typeName : String) : List String :=
  if !schema.truthy || isMarkedAny (fieldsOf schema) then []
  else match Schema.Prepared.prepare typeName schema with
    | .ok prepared => asked prepared.depth prepared placeholder
    | .error _ => []

/-! The names that were chosen. -/

theorem outcome_declareNode_of_declare {schema : Json} {typeName text : String}
    (h : (declare (standardBackend typeName) schema typeName).outcome.1 = .ok text)
    (hopen : ¬ (!schema.truthy || isMarkedAny (fieldsOf schema)) = true) :
    (declareNode (standardBackend typeName) schema typeName).outcome.1 = .ok text := by
  rw [Bool.or_eq_true, not_or, Bool.not_eq_true', Bool.not_eq_false, Bool.not_eq_true] at hopen
  unfold declare at h
  rw [hopen.1] at h
  cases schema with
  | obj fields =>
    have hany : isMarkedAny fields = false := hopen.2
    simpa only [hany, Bool.not_true, Bool.false_eq_true, if_false] using h
  | _ => cases h

/-- A prepared schema whose rendering ends well has its names from the supply. -/
theorem enumNames_of_renderedRoot {typeName text : String} {prepared : Json}
    (h : (renderedRoot typeName prepared).1 = .ok text) :
    ((Compiler.new Formatter.absent [typeName]).enumNames prepared placeholder .plain).reverse ++
      [placeholder, typeName] =
        supplied [placeholder, typeName] (asked prepared.depth prepared placeholder) := by
  obtain ⟨new, henums, hadds⟩ :=
    (Compiler.new Formatter.absent [typeName]).adds_rendered prepared placeholder .plain
  have htaken := hadds.taken
  cases hrun : renderedRoot typeName prepared with
  | mk outcome state =>
    rw [hrun] at h
    obtain rfl : outcome = .ok text := h
    have hstate : ((Compiler.new Formatter.absent [typeName]).rendered prepared placeholder
        .plain).2 = state := by rw [rendered_eq, hrun]
    have hasks : RenderM.Asks (asked prepared.depth prepared placeholder)
        (rootText .plain prepared placeholder) := asks_rootText rfl prepared placeholder
    have hstart : ((Compiler.new Formatter.absent [typeName]).startState placeholder).taken =
        [placeholder, typeName] := by
      rw [Compiler.startState, placeholder_isIdentifier]
      rfl
    rw [hstate, hstart] at htaken
    rw [Compiler.enumNames, henums, ← htaken, hasks _ _ _ hrun]
    rfl

/-- Behind the two names that were taken before stand those supplied for the hints. -/
theorem reverse_chosenNames {schema : Json} {typeName text : String}
    (h : (declare (standardBackend typeName) schema typeName).outcome.1 = .ok text) :
    (chosenNames schema typeName).reverse ++ [placeholder, typeName] =
      supplied [placeholder, typeName] (askedNames schema typeName) := by
  unfold chosenNames askedNames
  by_cases hopen : (!schema.truthy || isMarkedAny (fieldsOf schema)) = true
  · rw [if_pos hopen, if_pos hopen]
    rfl
  · rw [if_neg hopen, if_neg hopen]
    have hnode := outcome_declareNode_of_declare h hopen
    cases hprepared : Schema.Prepared.prepare typeName schema with
    | error fault =>
      rw [outcome_of_fault hprepared] at hnode
      cases hnode
    | ok prepared =>
      rw [outcome_of_prepare hprepared, Inversion.mapError_eq_ok, Inversion.map_eq_ok] at hnode
      obtain ⟨body, hbody, _⟩ := hnode
      exact enumNames_of_renderedRoot hbody

/-! Names without a number. -/

theorem plain_number (k : Nat) : Plain (toString k) := by
  have hno : placeholder.toList.any Char.isDigit = false := by decide
  intro c hc hplaceholder
  exact List.any_eq_false.1 hno c hplaceholder (isDigit_of_mem_toString hc)

theorem number_ne_empty (k : Nat) : toString k ≠ "" := by
  intro h
  have hpos : 0 < (toString k).length := Nat.length_repr_pos
  rw [h] at hpos
  cases hpos

theorem getLast?_append_number (front : String) (k : Nat) :
    ∃ c, (front ++ toString k).toList.getLast? = some c ∧ c.isDigit = true := by
  have hne : (toString k).toList ≠ [] := by simp
  refine ⟨(toString k).toList.getLast hne, ?_, isDigit_of_mem_toString (List.getLast_mem hne)⟩
  rw [String.toList_append, List.getLast?_append, List.getLast?_eq_getLast_of_ne_nil hne,
    Option.some_or]

/-- A name that was numbered still ends in the number when it is renamed. -/
theorem eq_base_of_rename_numbered {typeName base name : String} {k : Nat}
    (hname : ∀ c, name.toList.getLast? = some c → c.isDigit = false)
    (h : rename typeName (numbered base k) = name) : numbered base k = base := by
  rw [numbered] at h ⊢
  split
  · rfl
  · rename_i hk
    rw [if_neg hk, rename_append_plain typeName (plain_number k) (number_ne_empty k)] at h
    obtain ⟨c, hlast, hdigit⟩ := getLast?_append_number (rename typeName base) k
    rw [h] at hlast
    rw [hname c hlast] at hdigit
    cases hdigit

/-- A name without a number is that of an enum exactly if one is asked for under a hint whose
identifier is not taken from the start and becomes the name. -/
theorem mem_renamed_iff {schema : Json} {typeName text name : String}
    (h : (declare (standardBackend typeName) schema typeName).outcome.1 = .ok text)
    (hname : ∀ c, name.toList.getLast? = some c → c.isDigit = false) :
    name ∈ (chosenNames schema typeName).map (rename typeName) ↔
      ∃ hint ∈ askedNames schema typeName,
        Name.toIdentifier hint ∉ [placeholder, typeName] ∧
        rename typeName (Name.toIdentifier hint) = name := by
  have hsupplied := reverse_chosenNames h
  have hfree : ∀ chosen ∈ chosenNames schema typeName, chosen ∉ [placeholder, typeName] := by
    intro chosen hchosen
    obtain ⟨hplaceholder, htypeName⟩ := (chosenNames_spec schema typeName).2 chosen hchosen
    simp [hplaceholder, htypeName]
  rw [List.mem_map]
  constructor
  · rintro ⟨chosen, hchosen, hrenamed⟩
    have hmem : chosen ∈ supplied [placeholder, typeName] (askedNames schema typeName) := by
      rw [← hsupplied]
      exact List.mem_append_left _ (List.mem_reverse.2 hchosen)
    rcases hint_of_mem_supplied hmem with htaken | ⟨hint, hhint, k, _, rfl⟩
    · exact absurd htaken (hfree chosen hchosen)
    · rw [eq_base_of_rename_numbered hname hrenamed] at hchosen hrenamed
      exact ⟨hint, hhint, hfree _ hchosen, hrenamed⟩
  · rintro ⟨hint, hhint, huntaken, hrenamed⟩
    have hmem := mem_supplied_of_hint hhint [placeholder, typeName]
    rw [← hsupplied, List.mem_append, List.mem_reverse] at hmem
    exact ⟨_, hmem.resolve_right huntaken, hrenamed⟩

/-! The names of references. -/

/-- Every look-up is wrapped in the helper. A declaration that has a name gives it to no enum, and
an enum has the name of the helper exactly if one is asked for under a hint whose identifier is not
taken from the start and becomes this name; without a name for the declaration the same holds of the
empty one. -/
theorem reference_names_captured_iff {schema : Json} {typeName text : String}
    (h : (declare (standardBackend typeName) schema typeName).outcome.1 = .ok text) :
    (∀ (e : IndexedAccess) (key : String),
      (e.index key).render = helperName ++ "<" ++ e.render ++ "[" ++ Json.quote key ++ "]>") ∧
    Declares schema typeName text (declaredNames schema typeName) ∧
    (typeName ≠ "" → typeName ∉ (chosenNames schema typeName).map (rename typeName)) ∧
    ∀ name ∈ ["", helperName],
      (name ∈ (chosenNames schema typeName).map (rename typeName) ↔
        ∃ hint ∈ askedNames schema typeName,
          Name.toIdentifier hint ∉ [placeholder, typeName] ∧
          rename typeName (Name.toIdentifier hint) = name) := by
  have hnumberless : ∀ name ∈ ["", helperName],
      name.toList.getLast?.any Char.isDigit = false := by decide
  exact ⟨fun e key => IndexedAccess.render_index e key, declares_of_outcome h,
    fun hne => typeName_not_mem_renamed hne schema,
    fun name hname => mem_renamed_iff h fun c hc => by simpa [hc] using hnumberless name hname⟩

/-- Two enums below a property; the name of the first becomes that of the helper, and the name of
the second gets a number. -/
def madeHelper : Json :=
  .obj [("properties", .obj [("THISISAFAKETYPENAMENullable", .obj [("oneOf", .arr [
    .obj [("enum", .arr [.int 1]), ("tsEnumNames", .arr [.str "A"])],
    .obj [("enum", .arr [.int 2]), ("tsEnumNames", .arr [.str "B"])]])])])]

theorem reference_names_captured_iff_madeHelper : ∃ text,
    (declare (standardBackend "Non") madeHelper "Non").outcome.1 = .ok text ∧
    Declares madeHelper "Non" text ["Non", "NonNullable", "NonNullable2"] ∧
    ("Non" ≠ "" → "Non" ∉ (chosenNames madeHelper "Non").map (rename "Non")) ∧
    (helperName ∈ (chosenNames madeHelper "Non").map (rename "Non") ↔
      ∃ hint ∈ askedNames madeHelper "Non", Name.toIdentifier hint ∉ [placeholder, "Non"] ∧
        rename "Non" (Name.toIdentifier hint) = helperName) ∧
    askedNames madeHelper "Non" =
      ["THISISAFAKETYPENAMENullable", "THISISAFAKETYPENAMENullable"] := by
  obtain ⟨text, htext⟩ : ∃ text,
      (declare (standardBackend "Non") madeHelper "Non").outcome.1 = .ok text :=
    Inversion.exists_ok_of_isSome (by decide +kernel)
  have hnames : declaredNames madeHelper "Non" = ["Non", "NonNullable", "NonNullable2"] := by
    decide +kernel
  obtain ⟨_, hdeclares, hroot, hcaptured⟩ := reference_names_captured_iff htext
  exact ⟨text, htext, hnames ▸ hdeclares, hroot, hcaptured helperName (by simp), by decide +kernel⟩

/-- An enum of a property that is called like the helper, and a reference to the property. -/
def captured : Json :=
  .obj [("properties", .obj [
    ("NonNullable", .obj [("enum", .arr [.int 1]), ("tsEnumNames", .arr [.str "A"])]),
    ("b", .obj [("title", .str "&../NonNullable")])])]

/-- The reference finds the property and is written with the helper, but what is declared under this
name is the enum. -/
theorem helper_name_declared :
    Schema.Reference.resolve [.str "b"] "../NonNullable" = ["NonNullable"] ∧
    "T" ≠ helperName ∧
    ∃ text, (declare (standardBackend "T") captured "T").outcome.1 = .ok text ∧
      Declares captured "T" text ["T", helperName] := by
  have hnames : declaredNames captured "T" = ["T", helperName] := by decide +kernel
  obtain ⟨text, htext⟩ : ∃ text,
      (declare (standardBackend "T") captured "T").outcome.1 = .ok text :=
    Inversion.exists_ok_of_isSome (by decide +kernel)
  exact ⟨by decide +kernel, by decide, text, htext, hnames ▸ declares_of_outcome htext⟩

end SchemaDecl
