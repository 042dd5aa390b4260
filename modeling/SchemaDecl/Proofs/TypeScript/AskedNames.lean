import SchemaDecl.Proofs.TypeScript.EnumNames
import SchemaDecl.Proofs.TypeScript.Judgements

/-! The names a schema asks for. An enum with names for its members asks for the name of
the property it stands under, or for the one the root was given; what stands in an index
signature asks for a name of its own. The hints are read off the schema in the order of
the rendering, and a rendering that ends well hands out a name for each of them and no
other: the first hint of a kind gets the identifier made of it, unless this was taken,
and whatever else is handed out ends in a number. -/

namespace SchemaDecl.TypeScript

open RenderM

variable {α β : Type}

/-! Names for a list of hints. -/

/-- The names that are taken when each of the hints, in this order, was given a name. -/
def supplied (taken : List String) (hints : List String) : List String :=
  hints.foldl (fun taken hint => freshName taken (Name.toIdentifier hint) :: taken) taken

theorem supplied_append (taken hints more : List String) :
    supplied taken (hints ++ more) = supplied (supplied taken hints) more := List.foldl_append

theorem subset_supplied (taken hints : List String) : taken ⊆ supplied taken hints := by
  induction hints generalizing taken with
  | nil => exact List.Subset.refl taken
  | cons hint hints ih => exact List.Subset.trans (List.subset_cons_self _ _) (ih _)

/-- After a search the base itself is taken: it was before, or it is what the search found. -/
theorem mem_freshName_cons (taken : List String) (base : String) :
    base ∈ freshName taken base :: taken := by
  obtain ⟨_, k, hk, _, hname, hbefore⟩ := freshName_first taken base
  rcases Nat.eq_or_lt_of_le hk with rfl | hlarge
  · rw [hname]
    exact List.mem_cons_self
  · exact List.mem_cons_of_mem _ (hbefore 1 (Nat.le_refl 1) hlarge)

theorem mem_supplied_of_hint {hint : String} {hints : List String} (h : hint ∈ hints)
    (taken : List String) : Name.toIdentifier hint ∈ supplied taken hints := by
  induction hints generalizing taken with
  | nil => cases h
  | cons first hints ih =>
    rcases List.mem_cons.1 h with rfl | h
    · exact subset_supplied _ hints (mem_freshName_cons taken _)
    · exact ih h _

theorem hint_of_mem_supplied {name : String} {taken hints : List String}
    (h : name ∈ supplied taken hints) :
    name ∈ taken ∨ ∃ hint ∈ hints, ∃ k, 1 ≤ k ∧ name = numbered (Name.toIdentifier hint) k := by
  induction hints generalizing taken with
  | nil => exact .inl h
  | cons first hints ih =>
    rcases ih h with hmem | ⟨hint, hhint, hname⟩
    · rcases List.mem_cons.1 hmem with rfl | hmem
      · exact .inr ⟨first, List.mem_cons_self, (freshName_spec taken _).2⟩
      · exact .inl hmem
    · exact .inr ⟨hint, List.mem_cons_of_mem _ hhint, hname⟩

/-! Hints in a schema. -/

/-- Whether the node is an enum that is declared: no keyword before it decides what the type is,
and its values have names. -/
def declaresEnum (fields : Fields) : Bool :=
  !(Fields.contains fields "tsType" || (Fields.value fields "__is_any__").truthy ||
    Fields.contains fields "const") &&
  !(entriesUnder fields "enum").isEmpty &&
  (entriesUnder fields "tsEnumNames").length = (entriesUnder fields "enum").length

section
variable (below : Json → String → List String)

def askedUnder (fields : Fields) (hint : String) (name : Json) : List String :=
  if name = .str "object" then
    (propertiesOf fields).flatMap (fun p => below p.2 (hintOf p.1)) ++
      (objectUnder fields "additionalProperties").flatMap (below · "Enum")
  else if name = .str "array" then
    (entriesUnder fields "items" ++ objectUnder fields "items").flatMap (below · hint)
  else []

def askedMembers (fields : Fields) (hint : String) : List String :=
  combinatorJoins.flatMap fun c => (entriesUnder fields c.1).flatMap (below · hint)

def askedStructure (fields : Fields) (hint : String) : List String :=
  if hasStructure fields then (typeNames fields).flatMap (askedUnder below fields hint) else []

def askedNode : Json → String → List String
  | .obj fields, hint =>
    if declaresEnum fields then [hint]
    else if decidesAlone fields then []
    else askedStructure below fields hint ++ askedMembers below fields hint
  | _, _ => []
end

/-- The hints in a node that is given one itself, in the order of the rendering. -/
def asked : Nat → Json → String → List String
  | 0 => fun _ _ => []
  | levels + 1 => askedNode (asked levels)

/-! Computations that hand out names. -/

namespace RenderM

/-- If the computation ends well, it has handed out a name for each of the hints. -/
def Asks (hints : List String) (x : RenderM α) : Prop :=
  ∀ s a s', x.from s = (.ok a, s') → s'.taken = supplied s.taken hints

theorem asks_lift (x : Except TypeFault α) : Asks [] (liftM x : RenderM α) := by
  intro s a s' hrun
  rw [from_lift] at hrun
  rw [← (Prod.mk.inj hrun).2]
  rfl

theorem asks_pure (a : α) : Asks [] (pure a : RenderM α) := asks_lift (.ok a)

theorem asks_bind {hints more : List String} {x : RenderM α} {f : α → RenderM β}
    (hx : Asks hints x) (hf : ∀ a, Asks more (f a)) : Asks (hints ++ more) (x >>= f) := by
  intro s b s'' hrun
  obtain ⟨a, s', hfirst, hrest⟩ := Inversion.run_bind_eq_ok.1 hrun
  rw [hf a s' b s'' hrest, hx s a s' hfirst, supplied_append]

theorem asks_then {hints : List String} {x : RenderM α} {f : α → RenderM β}
    (hx : Asks hints x) (hf : ∀ a, Asks [] (f a)) : Asks hints (x >>= f) := by
  have hbind := asks_bind hx hf
  rwa [List.append_nil] at hbind

theorem asks_mapM {xs : List α} {hints : α → List String} {f : α → RenderM β}
    (h : ∀ x ∈ xs, Asks (hints x) (f x)) : Asks (xs.flatMap hints) (xs.mapM f) := by
  induction xs with
  | nil =>
    rw [List.mapM_nil]
    exact asks_pure []
  | cons x xs ih =>
    have hrest := ih fun y hy => h y (List.mem_cons_of_mem _ hy)
    rw [List.mapM_cons, List.flatMap_cons]
    exact asks_bind (h x List.mem_cons_self) fun _ => asks_then hrest fun _ => asks_pure _

theorem asks_declareEnum (hint : String) (names values : List Json) :
    Asks [hint] (declareEnum hint names values) := by
  intro s name s' hrun
  obtain ⟨_, hstate⟩ := Prod.mk.inj hrun
  rw [← hstate]
  rfl

end RenderM

/-! Pieces of a node. -/

section
variable {options : Options} {renderer : Renderer} {fields : Fields}
  {below : Json → String → List String}
  (hparts : ∀ x depth hint, Asks (below x hint) (renderer x depth hint))
  (depth : Nat) (hint : String)

theorem asks_primitiveType (name : Json) : Asks [] (primitiveType name) := by
  have hreport : Asks [] (reportUnknown name) := by
    intro s a s' hrun
    obtain ⟨_, hstate⟩ := Prod.mk.inj hrun
    rw [← hstate]
    rfl
  unfold primitiveType
  split
  · exact asks_pure _
  · exact asks_then hreport fun _ => asks_pure _

section
include hparts

theorem asks_renderArray : Asks (askedUnder below fields hint (.str "array"))
    (renderArray renderer fields depth hint) := by
  have hunder : askedUnder below fields hint (.str "array") =
      (entriesUnder fields "items" ++ objectUnder fields "items").flatMap (below · hint) := rfl
  rw [hunder, entriesUnder, objectUnder]
  unfold renderArray
  cases Fields.value fields "items" with
  | arr items =>
    rw [List.append_nil]
    cases items with
    | nil => exact asks_pure _
    | cons item items =>
      exact asks_then (asks_mapM fun x _ => hparts x depth hint) fun _ => asks_lift _
  | obj item =>
    rw [List.nil_append, List.flatMap_singleton]
    exact asks_then (hparts _ depth hint) fun _ => asks_lift _
  | _ => exact asks_pure _

theorem asks_additionalType :
    Asks ((objectUnder fields "additionalProperties").flatMap (below · "Enum"))
      (additionalType renderer depth (additionalOf fields)) := by
  rw [objectUnder_additional]
  cases additionalOf fields with
  | obj inner =>
    dsimp only
    rw [List.flatMap_singleton]
    exact hparts _ _ _
  | _ => exact asks_pure _

theorem asks_renderIndexSignature :
    Asks ((objectUnder fields "additionalProperties").flatMap (below · "Enum"))
      (renderIndexSignature options renderer fields depth) := by
  have hsignature : ∀ type, Asks [] (signatureType options type) := by
    intro type
    rw [signatureType]
    split
    · exact asks_lift _
    · exact asks_pure _
  rw [renderIndexSignature_eq]
  split
  · rename_i hclosed
    rw [objectUnder_additional, hclosed]
    exact asks_pure _
  · exact asks_then (asks_additionalType hparts depth) fun type =>
      asks_then (hsignature type) fun _ => asks_pure _

theorem asks_renderObject : Asks (askedUnder below fields hint (.str "object"))
    (renderObject options renderer fields depth) := by
  have hproperty : ∀ p ∈ propertiesOf fields, Asks (below p.2 (hintOf p.1))
      (renderProperty options renderer fields depth p) :=
    fun p _ => asks_then (hparts _ _ _) fun _ => asks_pure _
  rw [askedUnder, if_pos rfl]
  exact asks_bind (asks_mapM hproperty) fun _ =>
    asks_then (asks_renderIndexSignature hparts depth) fun _ => asks_pure _

theorem asks_renderTypeName (name : Json) : Asks (askedUnder below fields hint name)
    (renderTypeName options renderer fields depth hint name) := by
  by_cases hobject : name = .str "object"
  · rw [hobject, renderTypeName_object]
    exact asks_then (asks_renderObject hparts depth hint) fun _ => asks_pure _
  · by_cases harray : name = .str "array"
    · rw [harray, renderTypeName_array]
      exact asks_then (asks_renderArray hparts depth hint) fun _ => asks_pure _
    · rw [renderTypeName_other _ _ _ _ _ hobject harray, askedUnder, if_neg hobject,
        if_neg harray]
      exact asks_primitiveType name

theorem asks_renderCombinator (c : Key × String) :
    Asks ((entriesUnder fields c.1).flatMap (below · hint))
      (renderCombinator renderer fields depth hint c) := by
  rw [renderCombinator_eq]
  split
  · rename_i hnone
    rw [hnone]
    exact asks_pure _
  · exact asks_then (asks_mapM fun x _ => hparts x depth hint) fun _ =>
      asks_then (asks_lift _) fun _ => asks_pure _

variable (hstrict : options.strictIndexSignatures = false)
include hstrict

/-- Without strict index signatures a node stays the same for all the names in its `type`. -/
theorem asks_renderNames (names : List Json) :
    Asks (names.flatMap (askedUnder below fields hint))
      (renderNames options renderer depth hint fields names) := by
  have hname : ∀ name, Asks (askedUnder below fields hint name)
      (renderTypeName options renderer fields depth hint name) :=
    asks_renderTypeName hparts depth hint
  have hstill : ∀ name, afterName options fields name = fields := fun name => by
    rw [afterName, hstrict, if_neg (by decide)]
  induction names with
  | nil => exact asks_pure _
  | cons name names ih =>
    cases names with
    | nil =>
      rw [List.flatMap_singleton]
      exact asks_then (hname name) fun _ => asks_pure _
    | cons next names =>
      rw [renderNames, hstill, List.flatMap_cons]
      · exact asks_bind (hname name) fun _ => asks_then ih fun _ => asks_pure _
      · rintro ⟨⟩

theorem asks_renderParts :
    Asks (askedStructure below fields hint ++ askedMembers below fields hint)
      (renderParts options renderer fields depth hint) := by
  have hown : Asks (askedStructure below fields hint)
      (ownType options renderer fields depth hint) := by
    unfold ownType askedStructure
    split
    · exact asks_then (asks_then (asks_renderNames hparts depth hint hstrict _)
        fun _ => asks_lift _) fun _ => asks_pure _
    · exact asks_pure _
  rw [renderParts_eq]
  exact asks_bind hown fun _ =>
    asks_then (asks_mapM fun c _ => asks_renderCombinator hparts depth hint c) fun _ => asks_lift _
end

theorem asks_renderFields
    (hparts : ∀ x depth hint, Asks (below x hint) (renderer x depth hint))
    (hstrict : options.strictIndexSignatures = false) :
    Asks (askedNode below (.obj fields) hint)
      (renderFields options renderer fields depth hint) := by
  have hnone : decidesAlone fields = true → declaresEnum fields = false →
      askedNode below (.obj fields) hint = [] := by
    intro hdecided henum
    rw [askedNode, henum, hdecided]
    rfl
  unfold renderFields
  cases htsType : Fields.get? fields "tsType" with
  | some value =>
    rw [hnone (by simp [decidesAlone, Fields.contains, htsType])
      (by simp [declaresEnum, Fields.contains, htsType])]
    exact asks_pure _
  | none =>
    dsimp only
    split
    · rename_i hany
      rw [hnone (by simp [decidesAlone, hany]) (by simp [declaresEnum, hany])]
      exact asks_pure _
    · rename_i hany
      cases hconst : Fields.get? fields "const" with
      | some value =>
        rw [hnone (by simp [decidesAlone, Fields.contains, hconst])
          (by simp [declaresEnum, Fields.contains, hconst])]
        exact asks_pure _
      | none =>
        dsimp only
        split
        · rename_i henum
          have hdecided : decidesAlone fields = true := by simp [decidesAlone, henum]
          rw [renderEnum_eq]
          split
          · rename_i hempty
            rw [hnone hdecided (by simp [declaresEnum, hempty])]
            exact asks_pure _
          · rename_i hvalues
            split
            · rename_i hlength
              have hdeclares : declaresEnum fields = true := by
                simp [declaresEnum, Fields.contains, htsType, hany, hconst, hvalues, hlength]
              rw [askedNode, if_pos hdeclares]
              exact asks_then (asks_declareEnum hint _ _) fun _ => asks_pure _
            · rename_i hlength
              rw [hnone hdecided (by simp [declaresEnum, hlength])]
              exact asks_lift _
        · rename_i henum
          rw [Bool.not_eq_true] at henum
          have hopen : decidesAlone fields = false := by
            simp [decidesAlone, Fields.contains, htsType, hany, hconst] at henum ⊢
            exact henum
          have hdeclares : declaresEnum fields = false := by
            simp [declaresEnum, entriesUnder_of_not_contains henum]
          rw [askedNode, hdeclares, hopen]
          exact asks_renderParts hparts depth hint hstrict
end

/-! Whole schemas. -/

/-- By induction on the levels: the parts of a node are rendered with one level less. -/
theorem asks_render {options : Options} (hstrict : options.strictIndexSignatures = false)
    (levels : Nat) (node : Json) (depth : Nat) (hint : String) :
    Asks (asked levels node hint) (render options levels node depth hint) := by
  induction levels generalizing node depth hint with
  | zero => exact asks_pure _
  | succ levels ih =>
    cases node with
    | obj fields => exact asks_renderFields depth hint ih hstrict
    | _ => exact asks_pure _

/-- The root gives its name for a hint. An interface hands out the names its type would. -/
theorem asks_rootText {options : Options} (hstrict : options.strictIndexSignatures = false)
    (schema : Json) (name : String) :
    Asks (asked schema.depth schema name) (rootText options schema name) := by
  have hrender := asks_render hstrict schema.depth schema 0 name
  unfold rootText
  by_cases hinterface : isInterface schema = true
  · intro s text s' hrun
    rw [if_pos hinterface] at hrun
    refine hrender s (.text text) s' ?_
    rw [(interface_body_is_type hinterface options s).1 0 name, hrun]
    rfl
  · rw [if_neg hinterface]
    exact asks_then hrender fun _ => asks_pure _

end SchemaDecl.TypeScript
