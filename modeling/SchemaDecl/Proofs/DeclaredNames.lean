import SchemaDecl.Proofs.DeclaredText
import SchemaDecl.Proofs.TypeScript.EnumNames
import SchemaDecl.Proofs.TypeScript.Renaming

/-! The names that the text of a declaration declares. The compiler chooses the
names of enums while the root still has the placeholder for a name, so it keeps
them apart from each other, from the placeholder and from the name asked for.
Putting the name in the place of the placeholder never makes an enum a namesake
of the root, but it can make two enums namesakes of each other: one whose name
was made from the placeholder, and one that had its name from a property. -/

namespace SchemaDecl

open TypeScript

/-- The text of a schema under a name, and the names that are declared there, in their order. The
file is the one with the root as it was rendered for this schema, renamed part by part. -/
inductive Declares (schema : Json) (typeName : String) : String → List String → Prop
  | emptyInterface : schema.truthy = false →
      Declares schema typeName (emptyInterface typeName) [typeName]
  | anyAlias : schema.truthy = true → isMarkedAny (fieldsOf schema) = true →
      Declares schema typeName (anyAlias typeName) [typeName]
  | file {prepared : Json} {body : String} {state : RenderState} : schema.truthy = true →
      isMarkedAny (fieldsOf schema) = false →
      Schema.Prepared.prepare typeName schema = .ok prepared →
      renderedRoot typeName prepared = (.ok body, state) →
      Declares schema typeName
        (Text.strip (((fileOf prepared body state).map (rename typeName)).text .plain))
        ((fileOf prepared body state).map (rename typeName)).names

/-- The names the compiler gave to the enums of a declaration, before the renaming. -/
def chosenNames (schema : Json) (typeName : String) : List String :=
  if !schema.truthy || isMarkedAny (fieldsOf schema) then []
  else match Schema.Prepared.prepare typeName schema with
    | .ok prepared =>
      (Compiler.new Formatter.absent [typeName]).enumNames prepared placeholder .plain
    | .error _ => []

/-- The names of a declaration: its own, and those of its enums. -/
def declaredNames (schema : Json) (typeName : String) : List String :=
  typeName :: (chosenNames schema typeName).map (rename typeName)

/-! What a declaration returns. -/

theorem names_renamed_fileOf {typeName body : String} {prepared : Json} {state : RenderState}
    (h : renderedRoot typeName prepared = (.ok body, state)) :
    ((fileOf prepared body state).map (rename typeName)).names = typeName ::
      ((Compiler.new Formatter.absent [typeName]).enumNames prepared placeholder .plain).map
        (rename typeName) := by
  have hroot : (rootDeclaration prepared placeholder body).name = placeholder := by
    unfold rootDeclaration
    split <;> rfl
  rw [map_names, SourceFile.names, List.map_cons, fileOf, hroot, rename_placeholder,
    Compiler.enumNames, rendered_eq, h]

/-- What is declared for a schema that is compiled is its file, renamed and trimmed. -/
theorem exists_file_of_declareNode {schema : Json} {typeName text : String} {t t' : Trace}
    (h : (declareNode (standardBackend typeName) schema typeName).run.run t = (.ok text, t')) :
    ∃ prepared body state, Schema.Prepared.prepare typeName schema = .ok prepared ∧
      renderedRoot typeName prepared = (.ok body, state) ∧
      text = named typeName ((fileOf prepared body state).text .plain) := by
  unfold declareNode at h
  dsimp only at h
  obtain ⟨⟨prepared, visits⟩, _, hprepared, h⟩ := Inversion.run_bind_eq_ok.1 h
  obtain ⟨_, _, _, h⟩ := Inversion.run_bind_eq_ok.1 h
  obtain ⟨code, _, hcode, h⟩ := Inversion.run_bind_eq_ok.1 h
  obtain ⟨_, _, _, h⟩ := Inversion.run_bind_eq_ok.1 h
  obtain ⟨htext, _⟩ := Inversion.run_pure_eq_ok.1 h
  have hprepare : Schema.Prepared.prepare typeName schema = .ok prepared := by
    rw [Schema.Prepared.prepare, Inversion.map_eq_ok]
    exact ⟨_, Inversion.mapError_eq_ok.1 (Inversion.run_lift_eq_ok.1 hprepared).1, rfl⟩
  rw [run_compileWith, standardBackend_eq] at hcode
  cases hroot : renderedRoot typeName prepared with
  | mk outcome state =>
    rw [hroot] at hcode
    cases outcome with
    | error fault => cases hcode
    | ok body =>
      obtain rfl := Except.ok.inj (Prod.mk.inj hcode).1
      exact ⟨prepared, body, state, hprepare, hroot, htext.symm⟩

/-- A declaration declares its own name and, renamed, the names its enums were given. -/
theorem declares_of_declare {schema : Json} {typeName text : String} {t t' : Trace}
    (h : (declare (standardBackend typeName) schema typeName).run.run t = (.ok text, t')) :
    Declares schema typeName text (declaredNames schema typeName) := by
  unfold declare at h
  rw [declaredNames, chosenNames]
  by_cases hfalsy : schema.truthy = false
  · rw [hfalsy] at h ⊢
    rw [← (Inversion.run_pure_eq_ok.1 h).1]
    exact .emptyInterface hfalsy
  · rw [Bool.not_eq_false] at hfalsy
    cases schema with
    | obj fields =>
      by_cases hany : isMarkedAny fields = true
      · simp only [hfalsy, hany, Bool.not_true, if_true] at h
        rw [← (Inversion.run_pure_eq_ok.1 h).1, fieldsOf, hany, Bool.or_true, if_pos rfl]
        exact .anyAlias hfalsy hany
      · simp only [hfalsy, hany, Bool.not_true] at h
        rw [Bool.not_eq_true] at hany
        obtain ⟨prepared, body, state, hprepare, hroot, rfl⟩ := exists_file_of_declareNode h
        have hdeclares := Declares.file hfalsy hany hprepare hroot
        rw [names_renamed_fileOf hroot, ← rename_file typeName (by decide) rfl] at hdeclares
        rw [hfalsy, fieldsOf, hany, hprepare]
        exact hdeclares
    | _ =>
      simp only [hfalsy, Bool.not_true] at h
      cases h

/-! Which names fall together. -/

/-- The renaming makes no two of the chosen names one. -/
def KeptApart (schema : Json) (typeName : String) : Prop :=
  ∀ a ∈ chosenNames schema typeName, ∀ b ∈ chosenNames schema typeName,
    rename typeName a = rename typeName b → a = b

theorem chosenNames_spec (schema : Json) (typeName : String) :
    (chosenNames schema typeName).Nodup ∧
      ∀ name ∈ chosenNames schema typeName, name ≠ placeholder ∧ name ≠ typeName := by
  unfold chosenNames
  split
  · exact ⟨List.nodup_nil, by simp⟩
  · split
    · rename_i prepared _
      refine ⟨Compiler.nodup_enumNames _ prepared placeholder .plain, fun name hname => ?_⟩
      obtain ⟨hroot, hreserved⟩ := Compiler.enumNames_free _ _ _ _ hname
      rw [placeholder_isIdentifier] at hroot
      exact ⟨hroot, by simpa [Compiler.new] using hreserved⟩
    · exact ⟨List.nodup_nil, by simp⟩

/-- No enum gets the name of the declaration, also not by the renaming. -/
theorem typeName_not_mem_renamed {typeName : String} (hne : typeName ≠ "") (schema : Json) :
    typeName ∉ (chosenNames schema typeName).map (rename typeName) := by
  intro hmem
  obtain ⟨name, hname, heq⟩ := List.mem_map.1 hmem
  obtain ⟨hplaceholder, htypeName⟩ := (chosenNames_spec schema typeName).2 name hname
  exact (eq_of_rename_eq typeName hne heq).elim htypeName hplaceholder

/-- The names declared are distinct exactly if the renaming keeps the chosen ones apart. -/
theorem nodup_declaredNames_iff {typeName : String} (hne : typeName ≠ "") (schema : Json) :
    (declaredNames schema typeName).Nodup ↔ KeptApart schema typeName := by
  rw [declaredNames, List.nodup_cons,
    List.nodup_map_iff_inj_on (chosenNames_spec schema typeName).1]
  exact and_iff_right (typeName_not_mem_renamed hne schema)

theorem declares_of_outcome {schema : Json} {typeName text : String}
    (h : (declare (standardBackend typeName) schema typeName).outcome.1 = .ok text) :
    Declares schema typeName text (declaredNames schema typeName) := by
  cases hrun : (declare (standardBackend typeName) schema typeName).outcome with
  | mk outcome trace =>
    rw [hrun] at h
    obtain rfl : outcome = .ok text := h
    exact declares_of_declare hrun

/-- The text of a declaration declares its own name and the renamed names of its enums. None of
these is the name of the declaration, and they differ from each other exactly if the renaming
keeps the chosen names apart. -/
theorem declared_distinct_iff {schema : Json} {typeName text : String} (hne : typeName ≠ "")
    (h : (declare (standardBackend typeName) schema typeName).outcome.1 = .ok text) :
    Declares schema typeName text (declaredNames schema typeName) ∧
      typeName ∉ (chosenNames schema typeName).map (rename typeName) ∧
      ((declaredNames schema typeName).Nodup ↔ KeptApart schema typeName) :=
  ⟨declares_of_outcome h, typeName_not_mem_renamed hne schema, nodup_declaredNames_iff hne schema⟩

/-- An enum of the root beside an enum of a property that is called as the root will be called. -/
def twins : Json :=
  .obj [("oneOf", .arr [.obj [("enum", .arr [.int 1]), ("tsEnumNames", .arr [.str "A"])],
    .obj [("type", .str "object"), ("properties", .obj [("T2",
      .obj [("enum", .arr [.int 2]), ("tsEnumNames", .arr [.str "B"])])])]])]

/-- What is declared for it. -/
def twinsText : String :=
  "export type T = T2 | \x7b\n  T2?: T2;\n\x7d;\n\nexport const enum T2 \x7b\n  A = 1\n\x7d\n\n" ++
    "export const enum T2 \x7b\n  B = 2\n\x7d"

theorem declaredNames_twins : declaredNames twins "T" = ["T", "T2", "T2"] := by decide +kernel

theorem outcome_twins : (declare (standardBackend "T") twins "T").outcome.1 = .ok twinsText :=
  Inversion.eq_ok_of_toOption (by decide +kernel)

theorem declared_distinct_iff_twins : "T" ≠ "" ∧
    (declare (standardBackend "T") twins "T").outcome.1 = .ok twinsText ∧
    Declares twins "T" twinsText (declaredNames twins "T") ∧
    "T" ∉ (chosenNames twins "T").map (rename "T") ∧
    ((declaredNames twins "T").Nodup ↔ KeptApart twins "T") :=
  ⟨by decide, outcome_twins, declared_distinct_iff (by decide) outcome_twins⟩

/-- One name is declared twice although the placeholder does not occur in the schema. -/
theorem twins_declared_twice : Text.contains placeholder twins.print = false ∧
    Name.toIdentifier "T" = "T" ∧
    (declare (standardBackend "T") twins "T").outcome.1 = .ok twinsText ∧
    Declares twins "T" twinsText ["T", "T2", "T2"] ∧ ¬ ["T", "T2", "T2"].Nodup := by
  refine ⟨by decide +kernel, by decide +kernel, outcome_twins, ?_, by decide⟩
  rw [← declaredNames_twins]
  exact declares_of_outcome outcome_twins

end SchemaDecl
