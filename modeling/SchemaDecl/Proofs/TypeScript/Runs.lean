import Mathlib.Data.List.Forall2
import SchemaDecl.Proofs.Inversion
import SchemaDecl.TypeScript.Render

/-! Runs of the renderer from one state to the next. A relation between states
that is reflexive and transitive, and that holds over the two steps which change
a state at all, the declaration of an enum and the report of an unknown type,
holds over every rendering, whether it ends in a type or in a fault. -/

namespace SchemaDecl.TypeScript

variable {α β : Type}

/-- The outcome of a computation and the state it ends in. -/
def RenderM.from (x : RenderM α) (s : RenderState) : Except TypeFault α × RenderState :=
  x.run.run s

namespace RenderM

theorem from_bind (x : RenderM α) (f : α → RenderM β) (s : RenderState) :
    (x >>= f).from s = match x.from s with
      | (.ok a, s') => (f a).from s'
      | (.error fault, s') => (.error fault, s') := by
  have h := Inversion.run_bind x f s
  unfold RenderM.from
  rw [h]
  cases x.run.run s with
  | mk outcome s' => cases outcome <;> rfl

@[simp] theorem from_lift (x : Except TypeFault α) (s : RenderState) :
    (liftM x : RenderM α).from s = (x, s) := rfl

/-- A relation from a state to the states that may come after it. -/
structure Onward (R : RenderState → RenderState → Prop) : Prop where
  refl : ∀ s, R s s
  trans : ∀ {s s' s''}, R s s' → R s' s'' → R s s''

/-- The computation stays in the relation, from every state and in every outcome. -/
def Keeps (R : RenderState → RenderState → Prop) (x : RenderM α) : Prop :=
  ∀ s, R s (x.from s).2

section
variable {R : RenderState → RenderState → Prop} (hR : Onward R)
include hR

theorem keeps_pure (a : α) : Keeps R (pure a : RenderM α) := fun s => hR.refl s

theorem keeps_lift (x : Except TypeFault α) : Keeps R (liftM x : RenderM α) :=
  fun s => hR.refl s

theorem keeps_bind {x : RenderM α} {f : α → RenderM β} (hx : Keeps R x)
    (hf : ∀ a, Keeps R (f a)) : Keeps R (x >>= f) := by
  intro s
  have hfirst := hx s
  rw [from_bind]
  cases hrun : x.from s with
  | mk outcome s' =>
    rw [hrun] at hfirst
    cases outcome with
    | ok a => exact hR.trans hfirst (hf a s')
    | error fault => exact hfirst

theorem keeps_mapM {f : α → RenderM β} (xs : List α) (hf : ∀ x, Keeps R (f x)) :
    Keeps R (xs.mapM f) := by
  induction xs with
  | nil =>
    rw [List.mapM_nil]
    exact keeps_pure hR []
  | cons x xs ih =>
    rw [List.mapM_cons]
    refine keeps_bind hR (hf x) fun y => ?_
    exact keeps_bind hR ih fun ys => keeps_pure hR (y :: ys)
end

/-! Two computations side by side. -/

/-- Both computations end well and in the same state, with results that match. -/
def Matches (Q : α → β → Prop) (x : RenderM α) (y : RenderM β) : Prop :=
  ∀ s, ∃ a b s', x.from s = (.ok a, s') ∧ y.from s = (.ok b, s') ∧ Q a b

section
variable {γ δ : Type} {Q : α → β → Prop} {R : γ → δ → Prop}

theorem matches_pure {a : α} {b : β} (h : Q a b) : Matches Q (pure a) (pure b) :=
  fun s => ⟨a, b, s, rfl, rfl, h⟩

theorem matches_lift {x : Except TypeFault α} {a : α} {b : β} (hx : x = .ok a) (h : Q a b) :
    Matches Q (liftM x) (pure b) := fun s => ⟨a, b, s, by rw [from_lift, hx], rfl, h⟩

theorem matches_bind {x : RenderM α} {y : RenderM β} {f : α → RenderM γ} {g : β → RenderM δ}
    (h : Matches Q x y) (hf : ∀ a b, Q a b → Matches R (f a) (g b)) :
    Matches R (x >>= f) (y >>= g) := by
  intro s
  obtain ⟨a, b, s', hx, hy, hab⟩ := h s
  obtain ⟨c, d, s'', hfa, hgb, hcd⟩ := hf a b hab s'
  refine ⟨c, d, s'', ?_, ?_, hcd⟩
  · rw [from_bind, hx]
    exact hfa
  · rw [from_bind, hy]
    exact hgb

theorem matches_mapM {xs : List γ} {f : γ → RenderM α} {g : γ → RenderM β}
    (h : ∀ x ∈ xs, Matches Q (f x) (g x)) :
    Matches (List.Forall₂ Q) (xs.mapM f) (xs.mapM g) := by
  induction xs with
  | nil =>
    rw [List.mapM_nil, List.mapM_nil]
    exact matches_pure .nil
  | cons x xs ih =>
    rw [List.mapM_cons, List.mapM_cons]
    refine matches_bind (h x List.mem_cons_self) fun a b hab => ?_
    refine matches_bind (ih fun y hy => h y (List.mem_cons_of_mem _ hy)) fun as bs habs => ?_
    exact matches_pure (.cons hab habs)
end

end RenderM

open RenderM

/-! The pieces of a node that are written with a choice in the middle, as plain sequences. -/

/-- The entries of a list under a key. -/
def entriesUnder (fields : Fields) (key : Key) : List Json :=
  match Fields.value fields key with
  | .arr entries => entries
  | _ => []

theorem renderEnum_eq (fields : Fields) (hint : String) :
    renderEnum fields hint =
      if (entriesUnder fields "enum").isEmpty then pure (.text "never")
      else if (entriesUnder fields "tsEnumNames").length = (entriesUnder fields "enum").length then
        declareEnum hint (entriesUnder fields "tsEnumNames") (entriesUnder fields "enum") >>=
          fun name => pure (.text name)
      else liftM (TypeText.join " | "
        ((entriesUnder fields "enum").map fun value => .text (literal value))) := rfl

def additionalType (renderer : Renderer) (depth : Nat) : Json → RenderM TypeText
  | .obj node => renderer (.obj node) (depth + 1) "Enum"
  | _ => pure (.text "unknown")

def signatureType (options : Options) (type : TypeText) : RenderM TypeText :=
  if options.strictIndexSignatures then liftM type.orUndefined else pure type

def additionalOf (fields : Fields) : Json :=
  (Fields.get? fields "additionalProperties").getD (.bool true)

/-- A schema for additional properties was given, and is no default. -/
theorem value_of_additionalOf {fields inner : Fields} (h : additionalOf fields = .obj inner) :
    Fields.value fields "additionalProperties" = .obj inner := by
  unfold additionalOf at h
  unfold Fields.value
  cases hget : Fields.get? fields "additionalProperties" with
  | none =>
    rw [hget] at h
    cases h
  | some v => rwa [hget] at h

theorem renderIndexSignature_eq (options : Options) (renderer : Renderer) (fields : Fields)
    (depth : Nat) :
    renderIndexSignature options renderer fields depth =
      if additionalOf fields = .bool false then pure []
      else additionalType renderer depth (additionalOf fields) >>= fun type =>
        signatureType options type >>= fun type =>
          pure [indentation options (depth + 1) ++ "[k: string]: " ++ type.display ++ ";"] := by
  unfold renderIndexSignature signatureType
  rw [← additionalOf]
  cases additionalOf fields with
  | bool b => cases b <;> cases options.strictIndexSignatures <;> rfl
  | _ => cases options.strictIndexSignatures <;> rfl

/-- The primitive type with a name; a name that is unknown is reported. -/
def primitiveType (name : Json) : RenderM TypeText :=
  match (match name with
    | .str s => primitive? s
    | _ => none) with
  | some type => pure (.text type)
  | none =>
    (modify fun state => { state with events := state.events ++ [.unknownType name] }) >>=
      fun _ => pure (.text "unknown")

section
variable (options : Options) (renderer : Renderer) (fields : Fields) (depth : Nat) (hint : String)

theorem renderTypeName_object : renderTypeName options renderer fields depth hint (.str "object") =
    renderObject options renderer fields depth >>= fun text => pure (.text text) := rfl

theorem renderTypeName_array : renderTypeName options renderer fields depth hint (.str "array") =
    renderArray renderer fields depth hint >>= fun text => pure (.text text) := rfl

theorem renderTypeName_other {name : Json} (hobject : name ≠ .str "object")
    (harray : name ≠ .str "array") :
    renderTypeName options renderer fields depth hint name = primitiveType name := by
  unfold renderTypeName primitiveType
  split
  · exact absurd rfl hobject
  · exact absurd rfl harray
  · rfl
end

theorem renderCombinator_eq (renderer : Renderer) (fields : Fields) (depth : Nat) (hint : String)
    (combinator : Key × String) :
    renderCombinator renderer fields depth hint combinator =
      if entriesUnder fields combinator.1 = [] then pure []
      else (entriesUnder fields combinator.1).mapM (fun member => renderer member depth hint) >>=
        fun types => liftM (TypeText.join combinator.2 types) >>= fun type => pure [type] := by
  unfold renderCombinator entriesUnder
  cases Fields.value fields combinator.1 with
  | arr members => cases members <;> rfl
  | _ => rfl

def ownType (options : Options) (renderer : Renderer) (fields : Fields) (depth : Nat)
    (hint : String) : RenderM (List TypeText) :=
  if hasStructure fields then
    renderStructural options renderer fields depth hint >>= fun type => pure [type]
  else pure []

theorem renderParts_eq (options : Options) (renderer : Renderer) (fields : Fields) (depth : Nat)
    (hint : String) :
    renderParts options renderer fields depth hint =
      ownType options renderer fields depth hint >>= fun own =>
        combinatorJoins.mapM (renderCombinator renderer fields depth hint) >>= fun joined =>
          liftM (TypeText.join " & " (own ++ joined.flatten)) := by
  unfold renderParts ownType
  dsimp only
  split
  · rw [bind_assoc]
  · rfl

/-! The rendering of a node, piece by piece. -/

section
variable {R : RenderState → RenderState → Prop} (hR : Onward R)
  (henum : ∀ hint names values, Keeps R (declareEnum hint names values))
  (hevent : ∀ name, Keeps R (modify fun s => { s with events := s.events ++ [.unknownType name] }))
  (options : Options)
include hR

section
include henum

theorem keeps_renderEnum (fields : Fields) (hint : String) : Keeps R (renderEnum fields hint) := by
  rw [renderEnum_eq]
  split
  · exact keeps_pure hR _
  · split
    · exact keeps_bind hR (henum _ _ _) fun _ => keeps_pure hR _
    · exact keeps_lift hR _
end

section
variable {renderer : Renderer} (hrender : ∀ node depth hint, Keeps R (renderer node depth hint))
include hrender

theorem keeps_renderArray (fields : Fields) (depth : Nat) (hint : String) :
    Keeps R (renderArray renderer fields depth hint) := by
  unfold renderArray
  split
  · exact keeps_pure hR _
  · exact keeps_bind hR (keeps_mapM hR _ fun _ => hrender _ _ _) fun _ => keeps_lift hR _
  · exact keeps_bind hR (hrender _ _ _) fun _ => keeps_lift hR _
  · exact keeps_pure hR _

theorem keeps_renderProperty (fields : Fields) (depth : Nat) (property : Key × Json) :
    Keeps R (renderProperty options renderer fields depth property) :=
  keeps_bind hR (hrender _ _ _) fun _ => keeps_pure hR _

theorem keeps_renderIndexSignature (fields : Fields) (depth : Nat) :
    Keeps R (renderIndexSignature options renderer fields depth) := by
  have hadditional : Keeps R (additionalType renderer depth (additionalOf fields)) := by
    unfold additionalType
    split
    · exact hrender _ _ _
    · exact keeps_pure hR _
  have hsignature : ∀ type, Keeps R (signatureType options type) := by
    intro type
    unfold signatureType
    split
    · exact keeps_lift hR _
    · exact keeps_pure hR _
  rw [renderIndexSignature_eq]
  split
  · exact keeps_pure hR _
  · refine keeps_bind hR hadditional fun type => ?_
    exact keeps_bind hR (hsignature type) fun _ => keeps_pure hR _

theorem keeps_renderObject (fields : Fields) (depth : Nat) :
    Keeps R (renderObject options renderer fields depth) :=
  keeps_bind hR
    (keeps_mapM hR _ fun _ => keeps_renderProperty hR options hrender fields depth _) fun _ =>
      keeps_bind hR (keeps_renderIndexSignature hR options hrender fields depth) fun _ =>
        keeps_pure hR _

theorem keeps_renderCombinator (fields : Fields) (depth : Nat) (hint : String)
    (combinator : Key × String) :
    Keeps R (renderCombinator renderer fields depth hint combinator) := by
  rw [renderCombinator_eq]
  split
  · exact keeps_pure hR _
  · exact keeps_bind hR (keeps_mapM hR _ fun _ => hrender _ _ _) fun _ =>
      keeps_bind hR (keeps_lift hR _) fun _ => keeps_pure hR _

include hevent

theorem keeps_renderTypeName (fields : Fields) (depth : Nat) (hint : String) (name : Json) :
    Keeps R (renderTypeName options renderer fields depth hint name) := by
  unfold renderTypeName
  split
  · exact keeps_bind hR (keeps_renderObject hR options hrender fields depth) fun _ =>
      keeps_pure hR _
  · exact keeps_bind hR (keeps_renderArray hR hrender fields depth hint) fun _ => keeps_pure hR _
  · dsimp only
    split
    · exact keeps_pure hR _
    · exact keeps_bind hR (hevent _) fun _ => keeps_pure hR _

theorem keeps_renderNames (depth : Nat) (hint : String) (fields : Fields) (names : List Json) :
    Keeps R (renderNames options renderer depth hint fields names) := by
  have hname := keeps_renderTypeName hR hevent options hrender
  fun_induction renderNames options renderer depth hint fields names with
  | case1 => exact keeps_pure hR _
  | case2 => exact keeps_bind hR (hname _ _ _ _) fun _ => keeps_pure hR _
  | case3 fields name names _ ih =>
    exact keeps_bind hR (hname _ _ _ _) fun _ => keeps_bind hR ih fun _ => keeps_pure hR _

theorem keeps_renderParts (fields : Fields) (depth : Nat) (hint : String) :
    Keeps R (renderParts options renderer fields depth hint) := by
  have hown : Keeps R (ownType options renderer fields depth hint) := by
    unfold ownType
    split
    · refine keeps_bind hR (keeps_bind hR ?_ fun _ => keeps_lift hR _) fun _ => keeps_pure hR _
      exact keeps_renderNames hR hevent options hrender depth hint fields _
    · exact keeps_pure hR _
  rw [renderParts_eq]
  refine keeps_bind hR hown fun own => keeps_bind hR ?_ fun _ => keeps_lift hR _
  exact keeps_mapM hR _ fun _ => keeps_renderCombinator hR hrender fields depth hint _

include henum

theorem keeps_renderFields (fields : Fields) (depth : Nat) (hint : String) :
    Keeps R (renderFields options renderer fields depth hint) := by
  unfold renderFields
  split
  · exact keeps_pure hR _
  · split
    · exact keeps_pure hR _
    · split
      · exact keeps_pure hR _
      · split
        · exact keeps_renderEnum hR henum fields hint
        · exact keeps_renderParts hR hevent options hrender fields depth hint
end

include henum hevent

/-- The whole rendering of a node stays in the relation, by induction on the levels. -/
theorem keeps_render (levels : Nat) (node : Json) (depth : Nat) (hint : String) :
    Keeps R (render options levels node depth hint) := by
  induction levels generalizing node depth hint with
  | zero => exact keeps_pure hR _
  | succ levels ih =>
    cases node with
    | obj fields => exact keeps_renderFields hR henum hevent options ih fields depth hint
    | _ => exact keeps_pure hR _

theorem keeps_renderRoot (schema : Json) (name : String) :
    Keeps R (renderRoot options schema name) := by
  unfold renderRoot
  dsimp only
  split
  · exact keeps_bind hR (keeps_renderObject hR options
      (keeps_render hR henum hevent options _) _ _) fun _ => keeps_pure hR _
  · exact keeps_bind hR (keeps_render hR henum hevent options _ _ _ _) fun _ => keeps_pure hR _
end

end SchemaDecl.TypeScript
