import SchemaDecl.Proofs.Schema.Likeness
import SchemaDecl.Proofs.TypeScript.Judgements

/-! Schemas that are read in the same way are rendered in the same way: not only the
text is the same, but also the enums that are declared and the types that are reported
on the way, from whatever state the rendering starts. Only the root needs a look of its
own, as a null that counts for nothing in a type still tells an alias from an
interface. -/

namespace SchemaDecl.TypeScript

open Schema (SameView Seen partsBelow outlinedKeys outline)

theorem mapM_congr_of_forall₂ {α β γ : Type} {f : α → RenderM γ} {g : β → RenderM γ} {xs : List α}
    {ys : List β} (h : List.Forall₂ (fun x y => f x = g y) xs ys) : xs.mapM f = ys.mapM g := by
  induction h with
  | nil => rw [List.mapM_nil, List.mapM_nil]
  | cons hfirst _ ih => rw [List.mapM_cons, List.mapM_cons, hfirst, ih]

/-- The renderers do the same with what stands below the nodes. -/
structure SameBelow (renderer renderer' : Renderer) (fs gs : Fields) : Prop where
  properties : List.Forall₂
    (fun p q => p.1 = q.1 ∧ Seen p.2 q.2 ∧ renderer p.2 = renderer' q.2)
    (propertiesOf fs) (propertiesOf gs)
  items : List.Forall₂ (fun x y => renderer x = renderer' y) (Schema.items fs) (Schema.items gs)
  members : ∀ key ∈ Schema.combinators, List.Forall₂ (fun x y => renderer x = renderer' y)
    (Schema.members fs key) (Schema.members gs key)
  additional : List.Forall₂ (fun x y => renderer x = renderer' y)
    (objectUnder fs "additionalProperties") (objectUnder gs "additionalProperties")

section
variable {renderer renderer' : Renderer} {fs gs : Fields} (hview : SameView decidesAlone fs gs)
  (hbelow : SameBelow renderer renderer' fs gs) (options : Options) (depth : Nat) (hint : String)

section
include hview

theorem entriesUnder_alike (key : Key) (hkey : key ∈ Schema.readKeys) :
    entriesUnder fs key = entriesUnder gs key := by
  rw [entriesUnder, entriesUnder, hview.value_eq key hkey]

theorem renderEnum_alike : renderEnum fs hint = renderEnum gs hint := by
  rw [renderEnum_eq, renderEnum_eq, entriesUnder_alike hview "enum" (by decide),
    entriesUnder_alike hview "tsEnumNames" (by decide)]

theorem isRequired_alike (key : Key) : isRequired fs key = isRequired gs key := by
  cases key <;> simp only [isRequired, requiredNames, hview.value_eq "required" (by decide)]

theorem outline_additionalOf : outline (additionalOf fs) = outline (additionalOf gs) := by
  have houtline := hview.outlines "additionalProperties" (by decide)
  unfold additionalOf
  generalize Fields.get? fs "additionalProperties" = v at houtline ⊢
  generalize Fields.get? gs "additionalProperties" = w at houtline ⊢
  cases v <;> cases w <;> first | rfl | cases houtline | exact Option.some.inj houtline

theorem renderProperty_alike (p q : Key × Json) (hkey : p.1 = q.1) (hvalue : Seen p.2 q.2)
    (hsame : renderer p.2 = renderer' q.2) :
    renderProperty options renderer fs depth p = renderProperty options renderer' gs depth q := by
  obtain ⟨key, value⟩ := p
  obtain ⟨key', value'⟩ := q
  obtain rfl : key = key' := hkey
  have hmark := isRequired_alike hview key
  cases value with
  | obj node =>
    obtain ⟨node', rfl⟩ := hvalue.exists_obj
    have hdescription := hvalue.view.value_eq "description" (by decide)
    simp only [renderProperty, hmark, hsame, hdescription]
  | _ =>
    have hno := hvalue.not_node nofun
    cases value' with
    | obj node => exact absurd rfl (hno node)
    | _ => simp only [renderProperty, hmark, hsame]
end

/-! Pieces of a type. -/

theorem renderCombinator_alike (hbelow : SameBelow renderer renderer' fs gs) (depth : Nat)
    (hint : String) (combinator : Key × String)
    (hcombinator : combinator.1 ∈ Schema.combinators) :
    renderCombinator renderer fs depth hint combinator =
      renderCombinator renderer' gs depth hint combinator := by
  have hmembers := hbelow.members _ hcombinator
  have hentries : ∀ fields : Fields,
      entriesUnder fields combinator.1 = Schema.members fields combinator.1 := fun _ => rfl
  have hall := mapM_congr_of_forall₂ (hmembers.imp fun x y hxy =>
    congrFun (congrFun hxy depth) hint)
  rw [renderCombinator_eq, renderCombinator_eq, hentries, hentries, hall]
  generalize Schema.members fs combinator.1 = xs at hmembers
  generalize Schema.members gs combinator.1 = ys at hmembers
  cases hmembers with
  | nil => rfl
  | cons _ _ => rw [if_neg (List.cons_ne_nil _ _), if_neg (List.cons_ne_nil _ _)]

section
include hview hbelow

theorem renderArray_alike :
    renderArray renderer fs depth hint = renderArray renderer' gs depth hint := by
  have houtline := hview.outline_eq "items" (by decide)
  have hitems := hbelow.items
  unfold Schema.items at hitems
  unfold renderArray
  generalize Fields.value fs "items" = v at houtline hitems ⊢
  generalize Fields.value gs "items" = w at houtline hitems ⊢
  cases v <;> cases w <;> first | rfl | cases houtline | skip
  · have hall := mapM_congr_of_forall₂
      (hitems.imp fun x y hxy => congrFun (congrFun hxy depth) hint)
    cases hitems with
    | nil => rfl
    | cons _ _ => simp only [hall]
  · have hitem := (List.forall₂_cons.1 hitems).1
    simp only [congrFun (congrFun hitem depth) hint]

theorem renderIndexSignature_alike :
    renderIndexSignature options renderer fs depth =
      renderIndexSignature options renderer' gs depth := by
  have houtline := outline_additionalOf hview
  have hadditional := hbelow.additional
  rw [objectUnder_additional, objectUnder_additional] at hadditional
  have htype : (additionalOf fs = .bool false ↔ additionalOf gs = .bool false) ∧
      additionalType renderer depth (additionalOf fs) =
        additionalType renderer' depth (additionalOf gs) := by
    generalize additionalOf fs = v at houtline hadditional ⊢
    generalize additionalOf gs = w at houtline hadditional ⊢
    cases v with
    | obj inner =>
      cases w with
      | obj inner' =>
        have hsame := (List.forall₂_cons.1 hadditional).1
        exact ⟨by simp, congrFun (congrFun hsame _) _⟩
      | _ => cases houtline
    | arr xs =>
      cases w with
      | arr ys => exact ⟨by simp, rfl⟩
      | _ => cases houtline
    | _ =>
      cases w <;> cases houtline
      exact ⟨Iff.rfl, rfl⟩
  rw [renderIndexSignature_eq, renderIndexSignature_eq, htype.2]
  simp only [htype.1]

theorem renderObject_alike :
    renderObject options renderer fs depth = renderObject options renderer' gs depth := by
  have hmembers := mapM_congr_of_forall₂ (hbelow.properties.imp fun p q hpq =>
    renderProperty_alike hview options depth p q hpq.1 hpq.2.1 hpq.2.2)
  rw [renderObject, renderObject, hmembers, renderIndexSignature_alike hview hbelow]

theorem renderTypeName_alike (name : Json) :
    renderTypeName options renderer fs depth hint name =
      renderTypeName options renderer' gs depth hint name := by
  by_cases hobject : name = .str "object"
  · rw [hobject, renderTypeName_object, renderTypeName_object,
      renderObject_alike hview hbelow]
  · by_cases harray : name = .str "array"
    · rw [harray, renderTypeName_array, renderTypeName_array, renderArray_alike hview hbelow]
    · rw [renderTypeName_other _ _ _ _ _ hobject harray,
        renderTypeName_other _ _ _ _ _ hobject harray]

variable (hoptions : options.strictIndexSignatures = false)
include hoptions

theorem renderNames_alike (names : List Json) :
    renderNames options renderer depth hint fs names =
      renderNames options renderer' depth hint gs names := by
  have hafter : ∀ (fields : Fields) (name : Json), afterName options fields name = fields := by
    intro fields name
    rw [afterName, hoptions, if_neg Bool.false_ne_true]
  have hname := renderTypeName_alike hview hbelow options depth hint
  have hnext : ∀ (r : Renderer) (fields : Fields) (name next : Json) (names : List Json),
      renderNames options r depth hint fields (name :: next :: names) = (do
        let type ← renderTypeName options r fields depth hint name
        let types ← renderNames options r depth hint fields (next :: names)
        return type :: types) := by
    intro r fields name next names
    rw [renderNames, hafter]
    exact List.cons_ne_nil _ _
  induction names with
  | nil => rfl
  | cons name names ih =>
    cases names with
    | nil => rw [renderNames, renderNames, hname]
    | cons next names => rw [hnext, hnext, hname, ih]

theorem renderParts_alike (hopen : decidesAlone fs = false) :
    renderParts options renderer fs depth hint = renderParts options renderer' gs depth hint := by
  obtain ⟨hstructure, hnames⟩ := hview.structured hopen
  have hown : ownType options renderer fs depth hint = ownType options renderer' gs depth hint := by
    rw [ownType, ownType, hstructure, renderStructural, renderStructural, hnames,
      renderNames_alike hview hbelow options depth hint hoptions]
  have hjoins : ∀ c ∈ combinatorJoins, c.1 ∈ Schema.combinators := by decide
  have hcombinators : combinatorJoins.mapM (renderCombinator renderer fs depth hint) =
      combinatorJoins.mapM (renderCombinator renderer' gs depth hint) :=
    mapM_congr_of_forall₂ (List.forall₂_same.2 fun c hc =>
      renderCombinator_alike hbelow depth hint c (hjoins c hc))
  rw [renderParts_eq, renderParts_eq, hown, hcombinators]

/-- Where a keyword decides alone, the structure is never looked at. -/
theorem renderFields_alike :
    renderFields options renderer fs depth hint = renderFields options renderer' gs depth hint := by
  have hany := hview.value_eq "__is_any__" (by decide)
  by_cases hopen : decidesAlone fs = false
  · rw [renderFields_eq hopen, renderFields_eq (hview.decidesAlone_eq ▸ hopen),
      renderParts_alike hview hbelow options depth hint hoptions hopen]
  · rw [renderFields, renderFields, ← hview.deciding "tsType" (by decide), ← hany,
      ← hview.deciding "const" (by decide), ← hview.contains_eq "enum" (by decide),
      renderEnum_alike hview]
    split
    · rfl
    · rename_i htsType
      split
      · rfl
      · rename_i hunmarked
        split
        · rfl
        · rename_i hconst
          have henum : Fields.contains fs "enum" = true := by
            simpa [decidesAlone, htsType, hunmarked, hconst, Fields.contains,
              Option.isSome_iff_ne_none] using hopen
          rw [if_pos henum, if_pos henum]
end
end

/-! Whole schemas. -/

theorem sameBelow_of_seen {renderer renderer' : Renderer} {fs gs : Fields}
    (h : Seen (.obj fs) (.obj gs))
    (hrender : ∀ x ∈ partsBelow fs, ∀ y ∈ partsBelow gs, Seen x y → renderer x = renderer' y) :
    SameBelow renderer renderer' fs gs := by
  have hparts : List.Forall₂ (fun x y => Seen x y ∧ renderer x = renderer' y)
      (partsBelow fs) (partsBelow gs) :=
    Schema.forall₂_imp_of_mem h.partsBelow fun x hx y hy hxy => ⟨hxy, hrender x hx y hy hxy⟩
  obtain ⟨hadditional, hvalues, hitems, hmembers⟩ := h.view.forall₂_parts hparts
  exact ⟨Schema.forall₂_of_fst_snd h.view.map_fst_properties hvalues,
    hitems.imp fun _ _ hxy => hxy.2, fun key hkey => (hmembers key hkey).imp fun _ _ hxy => hxy.2,
    hadditional.imp fun _ _ hxy => hxy.2⟩

theorem render_of_not_node (options : Options) {x : Json} (hno : ∀ fields, x ≠ .obj fields)
    (levels : Nat) : render options levels x = fun _ _ => pure (.text "unknown") := by
  cases levels with
  | zero => rfl
  | succ levels =>
    cases x with
    | obj fields => exact absurd rfl (hno fields)
    | _ => rfl

theorem isInterface_of_not_node {x : Json} (hno : ∀ fields, x ≠ .obj fields) :
    isInterface x = false := by
  cases x with
  | obj fields => exact absurd rfl (hno fields)
  | _ => rfl

/-- With levels for the whole of them, schemas that are read in the same way are rendered so. -/
theorem render_alike {options : Options} (hoptions : options.strictIndexSignatures = false)
    {x y : Json} (h : Seen x y) {levels levels' : Nat} (hx : x.depth ≤ levels)
    (hy : y.depth ≤ levels') : render options levels x = render options levels' y := by
  have hleaf : ∀ {x y : Json} {levels levels' : Nat}, Seen x y → (∀ fields, x ≠ .obj fields) →
      render options levels x = render options levels' y := by
    intro x y levels levels' h hno
    rw [render_of_not_node options hno, render_of_not_node options (h.not_node hno)]
  induction levels generalizing x y levels' with
  | zero =>
    refine hleaf h fun fields hobj => ?_
    rw [hobj, Json.depth] at hx
    omega
  | succ levels ih =>
    by_cases hno : ∀ fields, x ≠ .obj fields
    · exact hleaf h hno
    · push Not at hno
      obtain ⟨fs, rfl⟩ := hno
      obtain ⟨gs, rfl⟩ := h.exists_obj
      rw [Json.depth] at hx hy
      obtain ⟨levels', rfl⟩ : ∃ n, levels' = n + 1 := ⟨levels' - 1, by omega⟩
      have hrender : ∀ x ∈ partsBelow fs, ∀ y ∈ partsBelow gs, Seen x y →
          render options levels x = render options levels' y := by
        intro x hxs y hys hxy
        have hxle := Schema.depth_of_mem_partsBelow hxs
        have hyle := Schema.depth_of_mem_partsBelow hys
        exact ih hxy (by omega) (by omega)
      funext depth hint
      exact renderFields_alike h.view (sameBelow_of_seen h hrender) options depth hint hoptions

section
variable {x y : Json} (h : Seen x y) (hroot : isInterface x = isInterface y)
include h hroot

theorem rootText_alike {options : Options} (hoptions : options.strictIndexSignatures = false)
    (hint : String) : rootText options x hint = rootText options y hint := by
  have hwhole := render_alike hoptions h (Nat.le_refl _) (Nat.le_refl _)
  cases h with
  | leaf hno _ =>
    rw [rootText, rootText, ← hroot, isInterface_of_not_node hno, hwhole,
      if_neg Bool.false_ne_true, if_neg Bool.false_ne_true]
  | @node fs gs hview hparts =>
    have hbelow := sameBelow_of_seen (.node hview hparts) fun x hx y hy hxy =>
      render_alike hoptions hxy (Schema.depth_of_mem_partsBelow hx)
        (Schema.depth_of_mem_partsBelow hy)
    have hobject : renderObject options (render options ((Json.obj fs).depth - 1)) fs 0 =
        renderObject options (render options ((Json.obj gs).depth - 1)) gs 0 :=
      renderObject_alike hview hbelow options 0
    rw [rootText, rootText, hroot, hwhole]
    simp only [fieldsOf, hobject]

theorem rootDeclaration_alike (name text : String) :
    rootDeclaration x name text = rootDeclaration y name text := by
  have hdescription : Fields.value (fieldsOf x) "description" =
      Fields.value (fieldsOf y) "description" := by
    cases h with
    | leaf hno hno' =>
      have hfields : ∀ {z : Json}, (∀ fields, z ≠ .obj fields) → fieldsOf z = [] := by
        intro z hz
        cases z with
        | obj fields => exact absurd rfl (hz fields)
        | _ => rfl
      rw [hfields hno, hfields hno']
    | node hview _ => exact hview.value_eq "description" (by decide)
  rw [rootDeclaration, rootDeclaration, hroot, hdescription]
end

end SchemaDecl.TypeScript
