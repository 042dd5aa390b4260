import SchemaDecl.Proofs.TypeScript.Composition

/-! What the scan has to pass over for the types to be right. One object with one
described property shows it: inside of lists it puts its comment as deep as we
like, and in a union with the strings the scan must find the operator behind it
but none in it. Behind the comment stand only closing brackets, so both come out
right only if the scan leaves the comment as it entered it. -/

namespace SchemaDecl.TypeScript

open RenderM Scan

/-- An object with one property that has nothing but a description. -/
def describedFields (text : String) : Fields :=
  [("properties", .obj [("a", .obj [("description", .str text)])]),
    ("additionalProperties", .bool false)]

def described (text : String) : Json := .obj (describedFields text)

/-- A list of one shape, which is rendered in brackets. -/
def listFields (x : Json) : Fields := [("items", .arr [x])]

def choiceFields (x : Json) : Fields := [("oneOf", .arr [x, .obj [("type", .str "string")]])]

def memberLine : String := indentation .plain 1 ++ memberName "a" ++ "?" ++ ": " ++ "unknown" ++ ";"

theorem form_described {text comment : String}
    (h : comment? (indentation .plain 1) text = some comment) (levels : Nat) (hint : String) :
    form .plain (levels + 2) (described text) 0 hint =
      pure (.single (objectText .plain 0 [comment, memberLine])) := by
  have hform : form .plain (levels + 2) (described text) 0 hint = pure (.single
      (objectText .plain 0
        ([(comment? (indentation .plain 1) text).toList ++ [memberLine]].flatten ++ []))) := rfl
  rw [hform, h]
  rfl

section
variable {levels : Nat} {x : Json} {hint : String} {f : Formed}

theorem form_list (h : form .plain levels x 0 hint = pure f) :
    form .plain (levels + 1) (.obj (listFields x)) 0 hint = pure (.tuple [f]) := by
  have harray : formTypeName .plain (form .plain levels) (listFields x) 0 hint (.str "array") =
      pure (.tuple [f]) := by
    show ([x].mapM fun item => form .plain levels item 0 hint) >>= _ = _
    rw [List.mapM_cons, h]
    rfl
  have hstructural : formStructural .plain (form .plain levels) (listFields x) 0 hint =
      pure (.tuple [f]) := by
    show [Json.str "array"].mapM _ >>= _ = _
    rw [List.mapM_cons, harray]
    rfl
  show (formStructural .plain (form .plain levels) (listFields x) 0 hint >>= _) >>= _ = _
  rw [hstructural]
  rfl

theorem form_choice (h : form .plain (levels + 1) x 0 hint = pure f) :
    form .plain (levels + 2) (.obj (choiceFields x)) 0 hint =
      pure (.join " & " [.join " | " [f, .single "string"]]) := by
  have hmember : formCombinator (form .plain (levels + 1)) (choiceFields x) 0 hint
      ("oneOf", " | ") = pure [.join " | " [f, .single "string"]] := by
    show ([x, .obj [("type", .str "string")]].mapM fun member =>
      form .plain (levels + 1) member 0 hint) >>= _ = _
    rw [List.mapM_cons, h]
    rfl
  show (combinatorJoins.mapM
    (formCombinator (form .plain (levels + 1)) (choiceFields x) 0 hint) >>= _) = _
  rw [combinatorJoins, List.mapM_cons, hmember]
  rfl
end

/-- The object inside of so many lists. -/
def nested (text : String) : Nat → Json
  | 0 => described text
  | j + 1 => .obj (listFields (nested text j))

/-- A type inside of so many pairs of brackets. -/
def enclosed (type : String) : Nat → String
  | 0 => type
  | j + 1 => "[" ++ enclosed type j ++ "]"

theorem form_nested {text comment : String}
    (h : comment? (indentation .plain 1) text = some comment) (levels j : Nat) (hint : String) :
    form .plain (levels + 2 + j) (nested text j) 0 hint =
      pure (.single (enclosed (objectText .plain 0 [comment, memberLine]) j)) := by
  induction j with
  | zero => exact form_described h levels hint
  | succ j ih =>
    rw [← Nat.add_assoc, nested, form_list ih, Formed.tuple, List.map_singleton,
      String.intercalate_singleton]
    rfl

theorem form_choice_nested {text comment : String}
    (h : comment? (indentation .plain 1) text = some comment) (levels j : Nat) (hint : String) :
    form .plain (levels + 3 + j) (.obj (choiceFields (nested text j))) 0 hint =
      pure (.join " & " [.join " | "
        [.single (enclosed (objectText .plain 0 [comment, memberLine]) j), .single "string"]]) := by
  have hinner : levels + 2 + j = levels + 1 + j + 1 := by omega
  have houter : levels + 3 + j = levels + 1 + j + 2 := by omega
  have hnested := form_nested h levels j hint
  rw [hinner] at hnested
  rw [houter]
  exact form_choice hnested

/-! What the scan makes of the text behind a comment. -/

namespace Scan

theorem run_of_quoted {s : Scan} (hs : Sound s) {q : Char} (hq : s.quote = some q) {cs : List Char}
    (h : cs.any isQuote = false) :
    (s.run cs).quote = some q ∧ (s.run cs).found = s.found := by
  induction cs generalizing s with
  | nil => exact ⟨hq, rfl⟩
  | cons c cs ih =>
    rw [List.any_cons, Bool.or_eq_false_iff] at h
    have hne : c ≠ q := by
      rintro rfl
      have hquote := hs.quote c hq
      rw [h.1] at hquote
      cases hquote
    have hstep : (s.step c).quote = some q ∧ (s.step c).found = s.found := by
      unfold Scan.step
      grind
    obtain ⟨hquote, hfound⟩ := ih (hs.step c) hstep.1 h.2
    exact ⟨hquote, hfound.trans hstep.2⟩

theorem isQuote_of_closing {c : Char} (h : (isPlain c || isClosing c) = true) :
    isQuote c = false := by
  rcases Bool.or_eq_true_iff.1 h with hc | hc
  · simp only [isPlain, Bool.not_eq_true', Bool.or_eq_false_iff] at hc
    exact hc.1.1.1
  · have hclosing : ((c = ')' ∨ c = ']') ∨ c = '\x7d') ∨ c = '>' := by simpa [isClosing] using hc
    rcases hclosing with ((rfl | rfl) | rfl) | rfl <;> rfl

theorem run_of_closings {depth : Int} {cs : List Char}
    (h : (cs.all fun c => isPlain c || isClosing c) = true) :
    (outside depth).run cs = outside (depth - cs.countP isClosing) := by
  induction cs generalizing depth with
  | nil => simp [run_nil]
  | cons c cs ih =>
    rw [List.all_cons, Bool.and_eq_true] at h
    have hrest : ∀ d : Int, (outside d).run cs = outside (d - cs.countP isClosing) :=
      fun d => ih h.2
    by_cases hc : isClosing c = true
    · have hstep : (outside depth).step c = outside (depth - 1) := by
        have hclosing := step_closing hc (depth - 1)
        rwa [Int.sub_add_cancel] at hclosing
      rw [run_cons, hstep, hrest, List.countP_cons, if_pos hc]
      congr 1
      omega
    · have hplain := (Bool.or_eq_true_iff.1 h.1).resolve_right hc
      rw [run_cons, step_plain hplain rfl, hrest, List.countP_cons, if_neg hc, Nat.add_zero]

/-- If the scan finds a union only behind a text, then it came out of the text at depth zero. -/
theorem eq_outside_of_union {s : Scan} (hs : Sound s) (hbefore : s.found = false)
    (hafter : (s.run " | string".toList).found = true) : s = outside 0 := by
  have hnone : s.quote = none := by
    by_contra hsome
    obtain ⟨q, hq⟩ := Option.ne_none_iff_exists'.1 hsome
    rw [(run_of_quoted hs hq (by decide)).2, hbefore] at hafter
    cases hafter
  have hout := eq_outside hs hnone hbefore
  by_cases hdepth : s.depth = 0
  · rw [hout, hdepth]
  · rw [hout, run_inside hdepth (by decide)] at hafter
    cases hafter

/-- If only closing brackets follow a text and the scan ends outside at depth zero, then it came
out of the text as many levels deep as there are brackets. -/
theorem eq_outside_of_closings {s : Scan} (hs : Sound s) {cs : List Char}
    (h : (cs.all fun c => isPlain c || isClosing c) = true) (hrun : s.run cs = outside 0) :
    s = outside (cs.countP isClosing) := by
  have hfound : s.found = false := by
    by_contra hfound
    rw [run_of_found (by simpa using hfound)] at hrun
    exact hfound (by rw [hrun]; rfl)
  have hnone : s.quote = none := by
    by_contra hsome
    obtain ⟨q, hq⟩ := Option.ne_none_iff_exists'.1 hsome
    have hno : cs.any isQuote = false := by
      refine List.any_eq_false.2 fun c hc => ?_
      rw [isQuote_of_closing (List.all_eq_true.1 h c hc)]
      exact Bool.false_ne_true
    have hquote := (run_of_quoted hs hq hno).1
    rw [hrun] at hquote
    cases hquote
  have hout := eq_outside hs hnone hfound
  rw [hout, run_of_closings h] at hrun
  have hdepth : s.depth - cs.countP isClosing = 0 := congrArg Scan.depth hrun
  rw [hout]
  congr 1
  omega

theorem run_enclosed (type : String) (j : Nat) (k : Int) :
    (outside k).run (enclosed type j).toList =
      ((outside (k + j)).run type.toList).run (List.replicate j ']') := by
  induction j generalizing k with
  | zero => simp [enclosed, run_nil]
  | succ j ih =>
    have hopen : (outside k).run "[".toList = outside (k + 1) := by
      show (outside k).step '[' = outside (k + 1)
      exact step_opening rfl k
    have hdepth : k + 1 + (j : Int) = k + ((j + 1 : Nat) : Int) := by omega
    rw [enclosed, String.toList_append, String.toList_append, run_append, run_append, hopen, ih,
      hdepth, List.replicate_succ', run_append]
    rfl

/-- What an object with one described property prints behind the description. -/
def behind : List Char := ("\n" ++ memberLine ++ "\n" ++ "" ++ "\x7d").toList

theorem run_objectText (comment : String) (k : Int) :
    (outside k).run (objectText .plain 0 [comment, memberLine]).toList =
      ((outside (k + 1)).run comment.toList).run behind := by
  have htext : objectText .plain 0 [comment, memberLine] =
      "\x7b\n" ++ comment ++ ("\n" ++ memberLine ++ "\n" ++ "" ++ "\x7d") := by
    have hsame : objectText .plain 0 [comment, memberLine] =
        "\x7b\n" ++ (comment ++ "\n" ++ memberLine) ++ "\n" ++ "" ++ "\x7d" := by
      rfl
    simp only [hsame, String.append_assoc]
  have hopen : (outside k).run "\x7b\n".toList = outside (k + 1) := by
    show ((outside k).step '\x7b').step '\n' = outside (k + 1)
    rw [step_opening rfl k, step_plain (by decide) rfl]
  rw [htext, String.toList_append, String.toList_append, run_append, run_append, hopen, behind]

theorem closings_behind (j : Nat) :
    ((behind ++ List.replicate j ']').all fun c => isPlain c || isClosing c) = true := by
  have hbehind : (behind.all fun c => isPlain c || isClosing c) = true := by decide
  have hreplicate : ((List.replicate j ']').all fun c => isPlain c || isClosing c) = true := by
    refine List.all_eq_true.2 fun c hc => ?_
    rw [List.eq_of_mem_replicate hc]
    rfl
  rw [List.all_append, hbehind, hreplicate, Bool.and_self]

theorem count_behind (j : Nat) : (behind ++ List.replicate j ']').countP isClosing = j + 1 := by
  have hbehind : behind.countP isClosing = 1 := by decide
  have hreplicate : (List.replicate j ']').countP isClosing = j := by
    simp [List.countP_replicate, isClosing]
  rw [List.countP_append, hbehind, hreplicate, Nat.add_comm]

/-- If the scan finds an operator in a union with the object but none in the object itself, then
it passes over the comment. -/
theorem run_comment_of_union {comment : String} {j : Nat}
    (hobject : isComposite (enclosed (objectText .plain 0 [comment, memberLine]) j) = false)
    (hunion : isComposite
      (enclosed (objectText .plain 0 [comment, memberLine]) j ++ " | " ++ "string") = true) :
    (outside (j + 1 : Nat)).run comment.toList = outside (j + 1 : Nat) := by
  have hrun : (outside 0).run (enclosed (objectText .plain 0 [comment, memberLine]) j).toList =
      ((outside (j + 1 : Nat)).run comment.toList).run (behind ++ List.replicate j ']') := by
    have hdepth : (0 : Int) + j + 1 = (j + 1 : Nat) := by omega
    rw [run_enclosed, run_objectText, hdepth, run_append]
  have hs : Sound ((outside (j + 1 : Nat)).run comment.toList) := (sound_outside _).run _
  have hafter : ((((outside (j + 1 : Nat)).run comment.toList).run
      (behind ++ List.replicate j ']')).run " | string".toList).found = true := by
    rw [← hrun, ← run_append, ← hunion, isComposite, start_eq, String.append_assoc,
      String.toList_append]
    rfl
  rw [isComposite, start_eq, hrun] at hobject
  have hout := eq_outside_of_union (hs.run _) hobject hafter
  rw [eq_outside_of_closings hs (closings_behind j) hout, count_behind]

end Scan

/-! Schemas with one description. -/

section
variable {D : String → Prop}

theorem unwritten_of_no_properties {fields : Fields} (htype : Fields.get? fields "tsType" = none)
    (hproperties : propertiesOf fields = []) : Unwritten D fields := by
  refine ⟨.inl htype, fun p hp => ?_⟩
  rw [hproperties] at hp
  cases hp

theorem throughout_leaf {fields : Fields} (htype : Fields.get? fields "tsType" = none)
    (hproperties : propertiesOf fields = []) (hparts : partsOf fields = []) :
    Throughout (Unwritten D) (.obj fields) := by
  refine throughout_of_parts (unwritten_of_no_properties htype hproperties) fun x hx => ?_
  rw [hparts] at hx
  cases hx

theorem throughout_described {text : String} (h : D text) :
    Throughout (Unwritten D) (described text) := by
  have hroot : Unwritten D (describedFields text) := by
    refine ⟨.inl rfl, fun p hp => ?_⟩
    obtain rfl := List.mem_singleton.1 hp
    rintro _ _ ⟨⟩ ⟨⟩
    exact h
  refine throughout_of_parts hroot fun x hx => ?_
  obtain rfl := List.mem_singleton.1 hx
  exact throughout_leaf rfl rfl rfl

theorem throughout_list {x : Json} (h : Throughout (Unwritten D) x) :
    Throughout (Unwritten D) (.obj (listFields x)) := by
  refine throughout_of_parts (unwritten_of_no_properties rfl rfl) fun y hy => ?_
  obtain rfl := List.mem_singleton.1 hy
  exact h

theorem throughout_nested {text : String} (h : D text) (j : Nat) :
    Throughout (Unwritten D) (nested text j) := by
  induction j with
  | zero => exact throughout_described h
  | succ j ih => exact throughout_list ih

theorem throughout_choice {x : Json} (h : Throughout (Unwritten D) x) :
    Throughout (Unwritten D) (.obj (choiceFields x)) := by
  refine throughout_of_parts (unwritten_of_no_properties rfl rfl) fun y hy => ?_
  have hparts : y ∈ [x, .obj [("type", .str "string")]] := hy
  simp only [List.mem_cons, List.not_mem_nil, or_false] at hparts
  rcases hparts with rfl | rfl
  · exact h
  · exact throughout_leaf rfl rfl rfl
end

theorem enclosed_ne_string {members : List String} (j : Nat) :
    enclosed (objectText .plain 0 members) j ≠ "string" := by
  have hfirst : ∃ c cs, isOpening c = true ∧
      (enclosed (objectText .plain 0 members) j).toList = c :: cs := by
    cases j with
    | zero =>
      rw [enclosed, objectText]
      split
      · exact ⟨'\x7b', _, rfl, rfl⟩
      · simp only [String.toList_append]
        exact ⟨'\x7b', _, rfl, rfl⟩
    | succ j =>
      simp only [enclosed, String.toList_append]
      exact ⟨'[', _, rfl, rfl⟩
  obtain ⟨c, cs, hc, hlist⟩ := hfirst
  intro hstring
  rw [hstring] at hlist
  have hs : 's' = c := (List.cons.inj hlist).1
  rw [← hs] at hc
  cases hc

theorem join_choice {type : String} (h : type ≠ "string") :
    Formed.join " & " [.join " | " [.single type, .single "string"]] =
      ⟨type ++ " | " ++ "string", true⟩ := by
  have hdistinct : Formed.distinct [.single type, .single "string"] =
      [.single type, .single "string"] := by
    simp [Formed.distinct, Formed.keepNew, Formed.single, h]
  have hunion : Formed.join " | " [.single type, .single "string"] =
      ⟨type ++ " | " ++ "string", true⟩ := by
    rw [Formed.join, hdistinct]
    simp [Formed.operand, Formed.single]
  rw [hunion]
  rfl

/-! The scan and the types. -/

/-- The rendered type is the text of the formed one, and the scan finds an operator in it if and
only if it was joined from two or more members. -/
def Told (type : TypeText) (f : Formed) : Prop :=
  type = .text f.text ∧ isComposite f.text = f.joined

theorem Agrees.told {type : TypeText} {f : Formed} (h : Agrees type f) : Told type f :=
  ⟨h.1, h.2.isComposite_eq⟩

theorem isComposite_of_told {type : RenderM TypeText} {text : String} {joined : Bool}
    (h : Matches Told type (pure ⟨text, joined⟩)) : isComposite text = joined := by
  obtain ⟨a, b, s', _, hb, htold⟩ := h ⟨[], [], []⟩
  have hsame : Formed.mk text joined = b := by
    cases hb
    rfl
  subst hsame
  exact htold.2

/-- If the scan is right about every type of a schema with the description, then it passes over
the description inside of brackets. -/
theorem passed_of_told {D : String → Prop}
    (h : ∀ schema, Throughout (Unwritten D) schema → ∀ levels, schema.depth ≤ levels →
      Matches Told (render .plain levels schema 0 "") (form .plain levels schema 0 ""))
    {text : String} (htext : D text) : Passed 1 text.toList := by
  intro k hk
  obtain ⟨j, rfl⟩ : ∃ j : Nat, k = (j + 1 : Nat) := ⟨(k - 1).toNat, by omega⟩
  have hblank : Text.isAllBlank (indentation .plain 1) = true := by decide
  cases hcomment : comment? (indentation .plain 1) text with
  | none =>
    have hall : Text.isAllBlank text = true := by
      by_contra hsome
      rw [comment?, if_neg hsome] at hcomment
      cases hcomment
    exact passed_blank 1 hall _ hk
  | some comment =>
    have hsingle := h (nested text j) (throughout_nested htext j)
      ((nested text j).depth + 2 + j) (by omega)
    have hjoined := h (.obj (choiceFields (nested text j)))
      (throughout_choice (throughout_nested htext j))
      ((Json.obj (choiceFields (nested text j))).depth + 3 + j) (by omega)
    rw [form_nested hcomment] at hsingle
    rw [form_choice_nested hcomment, join_choice (enclosed_ne_string j)] at hjoined
    have hrun := run_comment_of_union (isComposite_of_told hsingle) (isComposite_of_told hjoined)
    exact (run_comment_iff hblank hcomment _).1 hrun

/-- With descriptions of one kind every schema is rendered rightly if and only if the scan passes
over each of the descriptions inside of brackets. -/
theorem told_iff_passed (D : String → Prop) :
    (∀ text, D text → Passed 1 text.toList) ↔
      ∀ options : Options, Text.isAllBlank options.indent = true →
        ∀ schema, Throughout (Unwritten D) schema →
          ∀ levels, schema.depth ≤ levels → ∀ depth hint,
            Matches Told (render options levels schema depth hint)
              (form options levels schema depth hint) := by
  constructor
  · intro hD options hindent schema hschema levels _ depth hint s
    obtain ⟨type, f, s', htype, hf, hagrees⟩ :=
      matches_render hD hindent levels hschema depth hint s
    exact ⟨type, f, s', htype, hf, hagrees.told⟩
  · intro h text htext
    have hblank : Text.isAllBlank Options.plain.indent = true := by decide
    exact passed_of_told (fun schema hschema levels hdepth =>
      h .plain hblank schema hschema levels hdepth 0 "") htext

/-- An array of objects or strings, with an apostrophe in a description. -/
def apostrophe : Json :=
  .obj [("type", .str "array"), ("items", .obj (choiceFields (described "it's")))]

/-- The scan takes the rest of the union for quoted, and only the strings become an array. -/
theorem apostrophe_misread :
    Throughout (Unwritten fun _ => True) apostrophe ∧
      ((render .plain apostrophe.depth apostrophe 0 "").from ⟨[], [], []⟩).1.toOption =
        some (.text "\x7b\n  /**\n   * it's\n   */\n  a?: unknown;\n\x7d | string[]") ∧
      ((form .plain apostrophe.depth apostrophe 0 "").from ⟨[], [], []⟩).1.toOption =
        some (.single "(\x7b\n  /**\n   * it's\n   */\n  a?: unknown;\n\x7d | string)[]") := by
  refine ⟨?_, by decide +kernel, by decide +kernel⟩
  refine throughout_of_parts (unwritten_of_no_properties rfl rfl) fun x hx => ?_
  obtain rfl := List.mem_singleton.1 hx
  exact throughout_choice (throughout_described trivial)

end SchemaDecl.TypeScript
