import Mathlib.Data.List.Nodup
import SchemaDecl.Proofs.Json.Updates
import SchemaDecl.Proofs.TypeScript.CommentScan
import SchemaDecl.Proofs.TypeScript.Formation

/-! References inside of larger types. The scan for operators comes out of a
reference as it went in, at any depth, since keys are quoted and every bracket is
closed. So a reference can be put into a text, or taken out of it, anywhere but
inside of quotes, and the scan finds an operator or none as before. Alone it is
no union and no intersection, and wherever types are put together it stands
without parentheses. -/

namespace SchemaDecl.TypeScript

/-! The scan across a text it passes over. -/

theorem Scan.run_passed {s : Scan} (hs : Sound s) (hquote : s.quote = none) {cs : List Char}
    (h : Passed s.depth cs) : s.run cs = s := by
  cases hfound : s.found with
  | true => exact run_of_found hfound cs
  | false =>
    rw [eq_outside hs hquote hfound]
    exact h s.depth (Int.le_refl _)

/-- Outside of quotes a text that is passed over at every depth can be left out. -/
theorem isComposite_around {text : String} (h : ∀ low, Scan.Passed low text.toList) {a : String}
    (ha : (Scan.start.run a.toList).quote = none) (b : String) :
    isComposite (a ++ text ++ b) = isComposite (a ++ b) := by
  have hsound : Scan.Sound (Scan.start.run a.toList) := (Scan.sound_outside 0).run _
  have hsame := Scan.run_passed hsound ha (h (Scan.start.run a.toList).depth)
  simp only [isComposite, String.toList_append, Scan.run_append, hsame]

/-! Texts that are joined. -/

namespace TypeText

theorem distinct_strings (types : List String) :
    distinct (types.map Key.str) = types.eraseDups.map Key.str := by
  have hany : ∀ (seen : List String) (type : String),
      (seen.map Key.str).any (·.same (.str type)) = seen.contains type := by
    intro seen type
    rw [List.any_map, List.contains_eq_any_beq]
    refine congrArg seen.any (funext fun other => ?_)
    rw [Bool.eq_iff_iff, Function.comp_apply, Key.same_str, beq_iff_eq, eq_comm]
  have hfold : ∀ rest seen : List String, seen.Nodup →
      (rest.map Key.str).foldl
          (fun seen key => if seen.any (·.same key) then seen else seen ++ [key])
          (seen.map Key.str) = (seen ++ rest).eraseDups.map Key.str := by
    intro rest
    induction rest with
    | nil =>
      intro seen hseen
      rw [List.append_nil, Fields.eraseDups_of_nodup hseen]
      rfl
    | cons type rest ih =>
      intro seen hseen
      rw [List.map_cons, List.foldl_cons, hany]
      by_cases htype : type ∈ seen
      · rw [if_pos (List.contains_iff_mem.2 htype), Fields.eraseDups_append_cons htype]
        exact ih seen hseen
      · have hnew : (seen ++ [type]).Nodup :=
          List.concat_eq_append ▸ hseen.concat htype
        rw [if_neg fun h => htype (List.contains_iff_mem.1 h), List.append_cons seen,
          ← ih _ hnew, List.map_append]
        rfl
  exact hfold types [] List.nodup_nil

/-- A text without an operator of its own stands among the joined types as it is. -/
theorem join_bare {type : String} (htype : parenthesize type = type) {types : List String}
    (hmem : type ∈ types) (separator : String) :
    ∃ before after, types.eraseDups = before ++ type :: after ∧
      join separator (types.map text) = .ok (.text (String.intercalate separator
        (before.map parenthesize ++ type :: after.map parenthesize))) := by
  have hjoin := join_of_distinct separator (distinct_strings types)
  have hin : type ∈ types.eraseDups := List.mem_eraseDups.2 hmem
  obtain ⟨before, after, hsplit⟩ := List.append_of_mem hin
  have hpieces : types.eraseDups.map parenthesize =
      before.map parenthesize ++ type :: after.map parenthesize := by
    rw [hsplit, List.map_append, List.map_cons, htype]
  refine ⟨before, after, hsplit, ?_⟩
  rw [hjoin, ← hpieces]
  rcases hdistinct : types.eraseDups with _ | ⟨first, _ | ⟨second, rest⟩⟩
  · rw [hdistinct] at hin
    exact absurd hin List.not_mem_nil
  · -- one type alone, which can only be this one
    rw [hdistinct] at hin
    obtain rfl := List.mem_singleton.1 hin
    rw [joined, List.map_singleton, String.intercalate_singleton, htype]
  · rfl

theorem arrayOf_bare {type : String} (htype : parenthesize type = type) :
    arrayOf (.text type) = .ok (type ++ "[]") := by
  rw [arrayOf, htype]

end TypeText

/-- A reference counts for the scan as if it were not there, and is never put in parentheses. -/
theorem references_atomic (root : String) (keys : List String)
    (hroot : Name.isIdentifier root.toList = true) :
    (∀ a b : String, (Scan.start.run a.toList).quote = none →
      isComposite (a ++ (IndexedAccess.fromPath root keys).render ++ b) = isComposite (a ++ b)) ∧
    isComposite (IndexedAccess.fromPath root keys).render = false ∧
    (∀ (separator : String) (types : List String),
      (IndexedAccess.fromPath root keys).render ∈ types →
        ∃ before after,
          types.eraseDups = before ++ (IndexedAccess.fromPath root keys).render :: after ∧
          TypeText.join separator (types.map .text) =
            .ok (.text (String.intercalate separator (before.map parenthesize ++
              (IndexedAccess.fromPath root keys).render :: after.map parenthesize)))) ∧
    TypeText.arrayOf (.text (IndexedAccess.fromPath root keys).render) =
      .ok ((IndexedAccess.fromPath root keys).render ++ "[]") := by
  have hplain : root.toList.all Scan.isPlain = true := List.all_eq_true.2 fun c hc =>
    Scan.isPlain_of_isNameChar
      (List.all_eq_true.1 (Scan.all_isNameChar_of_isIdentifier hroot) c hc)
  have hpassed : ∀ low, Scan.Passed low (IndexedAccess.fromPath root keys).render.toList := by
    intro low
    rw [IndexedAccess.fromPath_eq]
    exact Scan.passed_access low hplain keys
  have hbare := (hpassed 0).parenthesize_eq
  refine ⟨fun a b ha => isComposite_around hpassed ha b, (hpassed 0).not_composite,
    fun separator types hmem => TypeText.join_bare hbare hmem separator,
    TypeText.arrayOf_bare hbare⟩

/-- A key full of operators, quotes and brackets, inside of open brackets and in a union. -/
theorem references_atomic_crowded :
    Name.isIdentifier "T".toList = true ∧
      (Scan.start.run "A<'>' | (".toList).quote = none ∧
      isComposite ("A<'>' | (" ++ (IndexedAccess.fromPath "T" ["\"]> | &"]).render ++ ")> & B") =
        isComposite ("A<'>' | (" ++ ")> & B") ∧
      (IndexedAccess.fromPath "T" ["\"]> | &"]).render ∈
        ["A & B", (IndexedAccess.fromPath "T" ["\"]> | &"]).render, "A & B"] ∧
      ∃ before after,
        ["A & B", (IndexedAccess.fromPath "T" ["\"]> | &"]).render, "A & B"].eraseDups =
          before ++ (IndexedAccess.fromPath "T" ["\"]> | &"]).render :: after ∧
        TypeText.join " | "
            (["A & B", (IndexedAccess.fromPath "T" ["\"]> | &"]).render, "A & B"].map .text) =
          .ok (.text (String.intercalate " | " (before.map parenthesize ++
            (IndexedAccess.fromPath "T" ["\"]> | &"]).render :: after.map parenthesize))) := by
  have hatomic := references_atomic "T" ["\"]> | &"] (by decide)
  have houtside : (Scan.start.run "A<'>' | (".toList).quote = none := by decide
  have hmem : (IndexedAccess.fromPath "T" ["\"]> | &"]).render ∈
      ["A & B", (IndexedAccess.fromPath "T" ["\"]> | &"]).render, "A & B"] :=
    List.mem_cons_of_mem _ List.mem_cons_self
  exact ⟨by decide, houtside, hatomic.1 _ _ houtside, hmem, hatomic.2.2.1 _ _ hmem⟩

end SchemaDecl.TypeScript
