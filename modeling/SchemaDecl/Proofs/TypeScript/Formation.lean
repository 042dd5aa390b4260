import SchemaDecl.Proofs.TypeScript.Atoms
import SchemaDecl.Proofs.TypeScript.Runs

/-! How types are put together. Here a type knows whether it was joined from two
or more members, and it is put in parentheses for that reason alone; no text is
ever read again. The compiler has only the text and scans it for operators. The
two agree as long as the scan tells a joined type from any other, which it does
where a type passed over in brackets is `WellFormed`. -/

namespace SchemaDecl.TypeScript

/-- A type, and whether an operator joined it from two or more members. -/
structure Formed where
  text : String
  joined : Bool
  deriving DecidableEq

namespace Formed

def single (text : String) : Formed := ⟨text, false⟩

/-- The type as a part of a larger one. -/
def operand (f : Formed) : String := if f.joined then "(" ++ f.text ++ ")" else f.text

def keepNew (seen : List Formed) (f : Formed) : List Formed :=
  if seen.any (·.text == f.text) then seen else seen ++ [f]

/-- The first of each group of equal texts, in order. -/
def distinct (fs : List Formed) : List Formed := fs.foldl keepNew []

def join (separator : String) (fs : List Formed) : Formed :=
  match distinct fs with
  | [] => single "unknown"
  | [f] => f
  | fs => ⟨String.intercalate separator (fs.map operand), true⟩

def arrayOf (f : Formed) : Formed := single (f.operand ++ "[]")

def tuple (fs : List Formed) : Formed :=
  single ("[" ++ String.intercalate ", " (fs.map text) ++ "]")

end Formed

/-! Types of nodes, as the compiler renders them but for the parentheses. -/

abbrev Former := Json → Nat → String → RenderM Formed

/-- The renderer that gives away the texts alone. -/
def Former.texts (former : Former) : Renderer := fun node depth hint =>
  former node depth hint >>= fun f => pure (.text f.text)

def formEnum (fields : Fields) (hint : String) : RenderM Formed :=
  if (entriesUnder fields "enum").isEmpty then pure (.single "never")
  else if (entriesUnder fields "tsEnumNames").length = (entriesUnder fields "enum").length then
    declareEnum hint (entriesUnder fields "tsEnumNames") (entriesUnder fields "enum") >>=
      fun name => pure (.single name)
  else pure (.join " | " ((entriesUnder fields "enum").map fun value => .single (literal value)))

def formArray (former : Former) (fields : Fields) (depth : Nat) (hint : String) :
    RenderM Formed :=
  match Fields.value fields "items" with
  | .arr [] => pure (.single "unknown[]")
  | .arr items => items.mapM (fun item => former item depth hint) >>= fun fs => pure (.tuple fs)
  | .obj item => former (.obj item) depth hint >>= fun f => pure f.arrayOf
  | _ => pure (.single "unknown[]")

def formTypeName (options : Options) (former : Former) (fields : Fields) (depth : Nat)
    (hint : String) (name : Json) : RenderM Formed :=
  if name = .str "array" then formArray former fields depth hint
  else renderTypeName options former.texts fields depth hint name >>= fun type =>
    pure (.single type.display)

def formStructural (options : Options) (former : Former) (fields : Fields) (depth : Nat)
    (hint : String) : RenderM Formed :=
  (typeNames fields).mapM (formTypeName options former fields depth hint) >>= fun fs =>
    pure (.join " | " fs)

def formCombinator (former : Former) (fields : Fields) (depth : Nat) (hint : String)
    (combinator : Key × String) : RenderM (List Formed) :=
  if entriesUnder fields combinator.1 = [] then pure []
  else (entriesUnder fields combinator.1).mapM (fun member => former member depth hint) >>=
    fun fs => pure [.join combinator.2 fs]

def formParts (options : Options) (former : Former) (fields : Fields) (depth : Nat)
    (hint : String) : RenderM Formed :=
  (if hasStructure fields then
      formStructural options former fields depth hint >>= fun f => pure [f]
    else pure []) >>= fun own =>
  combinatorJoins.mapM (formCombinator former fields depth hint) >>= fun joined =>
    pure (.join " & " (own ++ joined.flatten))

def formFields (options : Options) (former : Former) (fields : Fields) (depth : Nat)
    (hint : String) : RenderM Formed :=
  match Fields.get? fields "tsType" with
  | some type => pure (.single (TypeText.ofJson type).display)
  | none =>
    if (Fields.value fields "__is_any__").truthy then pure (.single "any")
    else match Fields.get? fields "const" with
      | some value => pure (.single (literal value))
      | none =>
        if Fields.contains fields "enum" then formEnum fields hint
        else formParts options former fields depth hint

def form (options : Options) : Nat → Former
  | 0 => fun _ _ _ => pure (.single "unknown")
  | levels + 1 => fun node depth hint => match node with
    | .obj fields => formFields options (form options levels) fields depth hint
    | _ => pure (.single "unknown")

/-! Texts the scan reads rightly. -/

namespace Formed

open Scan

/-- The scan passes over the type inside of brackets, and outside it finds an operator
if and only if the type was joined. -/
structure WellFormed (f : Formed) : Prop where
  inside : Passed 1 f.text.toList
  single : f.joined = false → Passed 0 f.text.toList
  joined : f.joined = true → isComposite f.text = true

theorem WellFormed.isComposite_eq {f : Formed} (h : f.WellFormed) :
    isComposite f.text = f.joined := by
  cases hj : f.joined with
  | true => exact h.joined hj
  | false => exact (h.single hj).not_composite

theorem WellFormed.parenthesize_eq {f : Formed} (h : f.WellFormed) :
    parenthesize f.text = f.operand := by
  rw [parenthesize, operand, h.isComposite_eq]

theorem WellFormed.passed_operand {f : Formed} (h : f.WellFormed) : Passed 0 f.operand.toList := by
  cases hj : f.joined with
  | true =>
    rw [operand, hj]
    exact h.inside.parentheses
  | false =>
    rw [operand, hj]
    exact h.single hj

theorem wellFormed_single {text : String} (h : Passed 0 text.toList) :
    (single text).WellFormed where
  inside := h.mono (by decide)
  single _ := h
  joined hj := by cases hj

theorem mem_keepNew {seen : List Formed} {f g : Formed} (h : f ∈ keepNew seen g) :
    f ∈ seen ∨ f = g := by
  unfold keepNew at h
  split at h
  · exact .inl h
  · exact (List.mem_append.1 h).imp_right List.mem_singleton.1

theorem mem_of_mem_distinct {fs : List Formed} {f : Formed} (h : f ∈ distinct fs) : f ∈ fs := by
  have hfold : ∀ (rest seen : List Formed), f ∈ rest.foldl keepNew seen → f ∈ seen ∨ f ∈ rest := by
    intro rest
    induction rest with
    | nil => exact fun seen hmem => .inl hmem
    | cons g rest ih =>
      intro seen hmem
      rcases ih _ hmem with hseen | hrest
      · exact (mem_keepNew hseen).imp_right fun (hg : f = g) => hg ▸ List.mem_cons_self
      · exact .inr (List.mem_cons_of_mem _ hrest)
  exact (hfold fs [] h).resolve_left List.not_mem_nil

/-- A separator with an operator between two blanks. -/
def Separates (separator : String) : Prop :=
  ∃ c, isOperator c = true ∧ separator.toList = [' ', c, ' ']

theorem Separates.inside {separator : String} (h : Separates separator) :
    Passed 1 separator.toList := by
  obtain ⟨c, hc, hlist⟩ := h
  rw [hlist]
  have hblank : isPlain ' ' = true := by decide
  exact passed_inside (by simp [hblank, hc])

theorem Separates.found {separator : String} (h : Separates separator) {first : String}
    (hfirst : Passed 0 first.toList) (rest : String) :
    isComposite (first ++ separator ++ rest) = true := by
  obtain ⟨c, hc, hlist⟩ := h
  have hblank : (outside 0).step ' ' = outside 0 := step_plain (by decide) rfl
  have hfound := step_operator_zero hc
  rw [isComposite, start_eq, String.toList_append, String.toList_append, run_append, run_append,
    hfirst 0 (Int.le_refl 0), hlist, run_cons, run_cons, hblank, run_of_found hfound,
    run_of_found hfound]
  exact hfound

theorem wellFormed_join {separator : String} (hs : Separates separator) {fs : List Formed}
    (h : ∀ f ∈ fs, f.WellFormed) : (join separator fs).WellFormed := by
  have hdistinct : ∀ f ∈ distinct fs, f.WellFormed := fun f hf => h f (mem_of_mem_distinct hf)
  unfold join
  split
  · exact wellFormed_single (passed_name 0 (by decide))
  · rename_i f hf
    exact hdistinct f (by rw [hf]; exact List.mem_cons_self)
  · rename_i hnil hone
    have hoperands : ∀ piece ∈ (distinct fs).map operand, Passed 0 piece.toList := by
      intro piece hpiece
      obtain ⟨f, hf, rfl⟩ := List.mem_map.1 hpiece
      exact (hdistinct f hf).passed_operand
    refine ⟨?_, fun hj => ?_, fun _ => ?_⟩
    · refine passed_intercalate hs.inside fun piece hpiece => ?_
      exact (hoperands piece hpiece).mono (by decide)
    · cases hj
    · cases hfs : distinct fs with
      | nil => exact absurd hfs hnil
      | cons f rest =>
        cases rest with
        | nil => exact absurd hfs (hone f)
        | cons g rest =>
          simp only [List.map_cons, String.intercalate_cons_cons]
          refine hs.found (hoperands f.operand ?_) _
          rw [hfs]
          exact List.mem_cons_self

theorem passed_suffix : Passed 0 "[]".toList := by
  intro k _
  have hopen : (outside k).step '[' = outside (k + 1) := step_opening rfl k
  have hclose : (outside (k + 1)).step ']' = outside k := step_closing rfl k
  rw [show "[]".toList = ['[', ']'] from rfl, run_cons, run_cons, hopen, hclose]
  rfl

theorem wellFormed_arrayOf {f : Formed} (h : f.WellFormed) : f.arrayOf.WellFormed := by
  refine wellFormed_single ?_
  rw [String.toList_append]
  exact h.passed_operand.append passed_suffix

theorem wellFormed_tuple {fs : List Formed} (h : ∀ f ∈ fs, f.WellFormed) :
    (tuple fs).WellFormed := by
  have htexts : ∀ piece ∈ fs.map text, Passed 1 piece.toList := by
    intro piece hpiece
    obtain ⟨f, hf, rfl⟩ := List.mem_map.1 hpiece
    exact (h f hf).inside
  exact wellFormed_single (passed_intercalate (passed_calm 1 (by decide)) htexts).brackets

/-! Joining and enclosing the texts gives the texts of the types joined and enclosed. -/

def key (f : Formed) : Key := .str f.text

theorem distinct_keys (fs : List Formed) :
    TypeText.distinct (fs.map key) = (distinct fs).map key := by
  have hany : ∀ (seen : List Formed) (f : Formed),
      (seen.map key).any (·.same f.key) = seen.any (·.text == f.text) := by
    intro seen f
    rw [List.any_map]
    refine congrArg seen.any (funext fun g => ?_)
    simp [Key.same, Key.canon, key]
  have hfold : ∀ rest seen : List Formed,
      (rest.map key).foldl (fun seen key => if seen.any (·.same key) then seen else seen ++ [key])
        (seen.map key) = (rest.foldl keepNew seen).map key := by
    intro rest
    induction rest with
    | nil => exact fun _ => rfl
    | cons f rest ih =>
      intro seen
      rw [List.map_cons, List.foldl_cons, List.foldl_cons, hany, ← ih, keepNew]
      split
      · rfl
      · rw [List.map_append, List.map_singleton]
  exact hfold fs []

theorem mapM_texts {α β ε : Type} {f : α → Except ε β} {g : α → β} {xs : List α}
    (h : ∀ x ∈ xs, f x = .ok (g x)) : xs.mapM f = .ok (xs.map g) := by
  induction xs with
  | nil => rfl
  | cons x xs ih =>
    rw [List.mapM_cons, h x List.mem_cons_self, ih fun y hy => h y (List.mem_cons_of_mem _ hy)]
    rfl

end Formed

/-- What becomes of distinct texts: one alone is left as it is. -/
def TypeText.joined (separator : String) : List String → String
  | [] => "unknown"
  | [type] => type
  | types => String.intercalate separator (types.map parenthesize)

theorem TypeText.join_of_distinct (separator : String) {types unique : List String}
    (h : distinct (types.map Key.str) = unique.map Key.str) :
    join separator (types.map text) = .ok (.text (joined separator unique)) := by
  have hkeys : (types.map text).mapM key? = .ok (types.map Key.str) := by
    rw [List.mapM_map]
    exact Formed.mapM_texts fun type _ => rfl
  have htexts : (unique.map Key.str).mapM (fun key => text? (ofJson key.toJson)) = .ok unique := by
    rw [List.mapM_map]
    refine (Formed.mapM_texts fun type _ => ?_).trans (congrArg Except.ok (List.map_id unique))
    rfl
  unfold join
  rw [hkeys]
  dsimp only [bind, Except.bind]
  rw [h]
  rcases unique with _ | ⟨first, _ | ⟨second, rest⟩⟩
  · rfl
  · rfl
  · simp only [List.map_cons] at htexts ⊢
    rw [htexts]
    rfl

namespace Formed

/-- Joining texts, with parentheses where the scan finds an operator, gives the text of the
joined type. -/
theorem join_texts (separator : String) {fs : List Formed} (h : ∀ f ∈ fs, f.WellFormed) :
    TypeText.join separator (fs.map fun f => .text f.text) =
      .ok (.text (join separator fs).text) := by
  have hdistinct : TypeText.distinct ((fs.map text).map Key.str) =
      ((distinct fs).map text).map Key.str := by
    rw [List.map_map, List.map_map]
    exact distinct_keys fs
  have hparenthesize : ((distinct fs).map text).map parenthesize = (distinct fs).map operand := by
    rw [List.map_map]
    exact List.map_congr_left fun f hf => (h f (mem_of_mem_distinct hf)).parenthesize_eq
  have htypes : fs.map (fun f => TypeText.text f.text) = (fs.map text).map TypeText.text := by
    rw [List.map_map]
    rfl
  rw [htypes, TypeText.join_of_distinct separator hdistinct, join]
  rcases hd : distinct fs with _ | ⟨f, _ | ⟨g, rest⟩⟩
  · rfl
  · rfl
  · rw [hd] at hparenthesize
    exact congrArg (fun texts => Except.ok (TypeText.text (String.intercalate separator texts)))
      hparenthesize

theorem arrayOf_text {f : Formed} (h : f.WellFormed) :
    TypeText.arrayOf (.text f.text) = .ok f.arrayOf.text := by
  rw [TypeText.arrayOf, h.parenthesize_eq]
  rfl

theorem tuple_texts (fs : List Formed) :
    TypeText.tuple (fs.map fun f => .text f.text) = .ok (tuple fs).text := by
  have htexts : (fs.map fun f => TypeText.text f.text).mapM TypeText.text? = .ok (fs.map text) := by
    rw [List.mapM_map]
    exact mapM_texts fun f _ => rfl
  rw [TypeText.tuple, htexts]
  rfl

end Formed

end SchemaDecl.TypeScript
