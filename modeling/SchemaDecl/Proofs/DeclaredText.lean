import SchemaDecl.Declare
import SchemaDecl.Proofs.TypeScript.Judgements

/-! The run of a declaration in one equation. A schema that is neither empty nor
marked as untyped is prepared; its root is rendered under the placeholder, with
the placeholder and the name asked for as the names no enum may take; and the
text of the file is renamed. -/

namespace SchemaDecl

open TypeScript

def startOf (typeName : String) : RenderState := ⟨[], [placeholder, typeName], []⟩

/-- The text of the prepared root, or a fault, and the state after it. -/
def renderedRoot (typeName : String) (prepared : Json) : Except TypeFault String × RenderState :=
  (rootText .plain prepared placeholder).from (startOf typeName)

/-- The file that is declared for a prepared schema with the text of its root. -/
def fileOf (prepared : Json) (text : String) (state : RenderState) : SourceFile :=
  ⟨rootDeclaration prepared placeholder text, state.enums⟩

theorem rendered_eq (typeName : String) (prepared : Json) :
    (Compiler.new Formatter.absent [typeName]).rendered prepared placeholder .plain =
      match renderedRoot typeName prepared with
      | (.error fault, state) => (.error fault, state)
      | (.ok text, state) => (.ok (rootDeclaration prepared placeholder text), state) := by
  have hstart : (Compiler.new Formatter.absent [typeName]).startState placeholder =
      startOf typeName := by
    rw [Compiler.startState, placeholder_isIdentifier]
    rfl
  have hbind := RenderM.from_bind (rootText .plain prepared placeholder)
    (fun text => pure (rootDeclaration prepared placeholder text)) (startOf typeName)
  rw [Compiler.rendered, hstart, placeholder_isIdentifier, renderRoot_eq]
  refine hbind.trans ?_
  unfold renderedRoot
  cases (rootText .plain prepared placeholder).from (startOf typeName) with
  | mk outcome state => cases outcome <;> rfl

theorem standardBackend_eq (typeName : String) (prepared : Json) :
    standardBackend typeName ⟨prepared, placeholder, .plain⟩ =
      match renderedRoot typeName prepared with
      | (.error fault, state) => (.error (.type fault), state.events)
      | (.ok text, state) => (.ok ((fileOf prepared text state).text .plain), state.events) := by
  have hrendered := rendered_eq typeName prepared
  simp only [standardBackend, Compiler.compile]
  rw [hrendered]
  cases renderedRoot typeName prepared with
  | mk outcome state =>
    cases outcome with
    | error fault => rfl
    | ok text =>
      have hkept : state.events ++ [] = state.events := List.append_nil _
      exact congrArg (Prod.mk _) hkept

theorem run_compileWith (backend : Backend) (request : Request) (trace : Trace) :
    (compileWith backend request).run.run trace = ((backend request).1,
      ⟨trace.events ++ (backend request).2, trace.requests ++ [request]⟩) := by
  unfold compileWith
  cases backend request with
  | mk code events => cases code <;> rfl

/-- A schema is prepared, its root is rendered and its file is renamed, or one of the first two
comes to a fault. -/
theorem outcome_declareNode (schema : Json) (typeName : String) :
    (∃ fault, Schema.Prepared.prepareWithVisits typeName schema = .error fault ∧
      (declareNode (standardBackend typeName) schema typeName).outcome =
        (.error (.fold fault), ⟨[], []⟩)) ∨
    ∃ prepared visits,
      Schema.Prepared.prepareWithVisits typeName schema = .ok (prepared, visits) ∧
      ((∃ fault state, renderedRoot typeName prepared = (.error fault, state) ∧
        (declareNode (standardBackend typeName) schema typeName).outcome =
          (.error (.type fault), ⟨resolvedReferences typeName visits ++ state.events,
            [⟨prepared, placeholder, .plain⟩]⟩)) ∨
      ∃ text state, renderedRoot typeName prepared = (.ok text, state) ∧
        (declareNode (standardBackend typeName) schema typeName).outcome =
          (.ok (named typeName ((fileOf prepared text state).text .plain)),
            ⟨resolvedReferences typeName visits ++ state.events ++
              [.substituted placeholder typeName], [⟨prepared, placeholder, .plain⟩]⟩)) := by
  unfold declareNode Run.outcome
  dsimp only
  cases Schema.Prepared.prepareWithVisits typeName schema with
  | error fault => exact .inl ⟨fault, rfl, rfl⟩
  | ok found =>
    obtain ⟨prepared, visits⟩ := found
    have hprepared : ((liftM (Except.mapError Failure.fold (.ok (prepared, visits)) :
        Except Failure (Json × List Schema.Visit)) : Run _).run.run ⟨[], []⟩) =
          (.ok (prepared, visits), ⟨[], []⟩) := rfl
    have hresolved : ((report (resolvedReferences typeName visits)).run.run ⟨[], []⟩) =
        (.ok (), ⟨resolvedReferences typeName visits, []⟩) := rfl
    refine .inr ⟨prepared, visits, rfl, ?_⟩
    rw [Inversion.run_bind, hprepared]
    dsimp only
    rw [Inversion.run_bind, hresolved]
    dsimp only
    rw [Inversion.run_bind, run_compileWith, standardBackend_eq]
    cases hrun : renderedRoot typeName prepared with
    | mk outcome state =>
      cases outcome with
      | error fault => exact .inl ⟨fault, state, rfl, rfl⟩
      | ok text => exact .inr ⟨text, state, rfl, rfl⟩

/-- A fault of the preparation is the outcome. -/
theorem outcome_of_fault {schema : Json} {typeName : String} {fault : Schema.FoldFault}
    (h : Schema.Prepared.prepare typeName schema = .error fault) :
    (declareNode (standardBackend typeName) schema typeName).outcome =
      (.error (.fold fault), ⟨[], []⟩) := by
  rw [Schema.Prepared.prepare] at h
  rcases outcome_declareNode schema typeName with ⟨other, hother, houtcome⟩ | ⟨_, _, hother, _⟩
  · rw [hother] at h
    rw [houtcome, Except.error.inj h]
  · rw [hother] at h
    cases h

/-- What is declared for a schema that was prepared is the text of its root, renamed and trimmed. -/
theorem outcome_of_prepare {schema prepared : Json} {typeName : String}
    (h : Schema.Prepared.prepare typeName schema = .ok prepared) :
    (declareNode (standardBackend typeName) schema typeName).outcome.1 =
      ((renderedRoot typeName prepared).1.map fun text => named typeName
        ((fileOf prepared text (renderedRoot typeName prepared).2).text .plain)).mapError
          Failure.type := by
  rw [Schema.Prepared.prepare] at h
  rcases outcome_declareNode schema typeName with ⟨_, hother, _⟩ | ⟨found, visits, hfound, hrun⟩
  · rw [hother] at h
    cases h
  · rw [hfound] at h
    obtain rfl : found = prepared := Except.ok.inj h
    rcases hrun with ⟨fault, state, hroot, houtcome⟩ | ⟨text, state, hroot, houtcome⟩
    · rw [houtcome, hroot]
      rfl
    · rw [houtcome, hroot]
      rfl

theorem declare_eq_declareNode {fields : Fields} (hne : fields ≠ [])
    (hany : isMarkedAny fields = false) (backend : Backend) (typeName : String) :
    declare backend (.obj fields) typeName = declareNode backend (.obj fields) typeName := by
  have htruthy : (Json.obj fields).truthy = true := by simp [Json.truthy, hne]
  simp [declare, htruthy, hany]

theorem declare_eq_anyAlias {fields : Fields} (hne : fields ≠ []) (hany : isMarkedAny fields = true)
    (backend : Backend) (typeName : String) :
    declare backend (.obj fields) typeName = pure (anyAlias typeName) := by
  have htruthy : (Json.obj fields).truthy = true := by simp [Json.truthy, hne]
  simp only [declare, htruthy, hany, Bool.not_true, Bool.false_eq_true, if_false, if_true]

/-- A schema is declared without looking at it, refused, or compiled. -/
theorem outcome_declare (schema : Json) (typeName : String) :
    (∃ result, (declare (standardBackend typeName) schema typeName).outcome =
      (.ok result, ⟨[], []⟩) ∧ (schema = .obj [] ∨ isMarkedAny (fieldsOf schema) = true ∨
        ∀ fields, schema ≠ .obj fields) ∧
      (result = emptyInterface typeName ∨ result = anyAlias typeName)) ∨
    (∃ fault, (declare (standardBackend typeName) schema typeName).outcome =
      (.error fault, ⟨[], []⟩)) ∨
    (declare (standardBackend typeName) schema typeName).outcome =
      (declareNode (standardBackend typeName) schema typeName).outcome := by
  cases schema with
  | obj fields =>
    by_cases hne : fields = []
    · rw [hne]
      exact .inl ⟨_, rfl, .inl rfl, .inl rfl⟩
    · by_cases hany : isMarkedAny fields = true
      · refine .inl ⟨anyAlias typeName, ?_, .inr (.inl hany), .inr rfl⟩
        rw [declare_eq_anyAlias hne hany]
        rfl
      · rw [declare_eq_declareNode hne (by simpa using hany)]
        exact .inr (.inr rfl)
  | null => exact .inl ⟨_, rfl, .inr (.inr (by simp)), .inl rfl⟩
  | _ =>
    unfold declare
    split
    · exact .inl ⟨_, rfl, .inr (.inr (by simp)), .inl rfl⟩
    · exact .inr (.inl ⟨_, rfl⟩)

end SchemaDecl
