import SchemaDecl.Proofs.Text.LineByLine
import SchemaDecl.Proofs.TypeScript.Texts

/-! Doc comments as blocks. The end of a comment is looked for once, before the text is
cut into lines; neither the replacement nor the cutting, the stars in front of the
lines or the trimming behind them makes a new one. So a block ends where its last
line ends, and before that it has one line for each line of the description. -/

namespace SchemaDecl.TypeScript

/-! No end of a comment. -/

def commentEnd : List Char := "*/".toList

/-- Behind the replacement no end of a comment is left, and the replacement makes none. -/
theorem not_commentEnd_replaced (cs : List Char) :
    ¬ commentEnd <:+: Text.replaceFrom "*/".toList "*\\/".toList 0 cs := by
  induction hn : cs.length using Nat.strong_induction_on generalizing cs with
  | _ n ih =>
    intro hin
    cases cs with
    | nil => exact absurd hin (by decide)
    | cons c cs =>
      by_cases hmatch : "*/".toList <+: c :: cs
      · obtain ⟨rest, hrest⟩ := hmatch
        have hlength := congrArg List.length hrest
        rw [List.length_append, hn] at hlength
        have hshorter : rest.length < n := by
          have htwo : "*/".toList.length = 2 := rfl
          omega
        rw [← hrest, Text.replaceFrom_match _ (by decide)] at hin
        -- the backslash parts the star from the slash, and the slash begins nothing
        have hacross : commentEnd <:+: ['*'] ++ '\\' :: ('/' ::
            Text.replaceFrom "*/".toList "*\\/".toList 0 rest) := hin
        rcases Text.infix_across (by decide) hacross with hstar | hslash
        · exact absurd hstar (by decide)
        · rcases List.infix_cons_iff.1 hslash with hprefix | hlater
          · exact absurd (List.cons_prefix_cons.1 hprefix).1 (by decide)
          · exact ih rest.length hshorter rest rfl hlater
      · rw [Text.replaceFrom_no_match _ hmatch] at hin
        rcases List.infix_cons_iff.1 hin with hprefix | hlater
        · -- the slash behind the star stood there before
          obtain ⟨rfl, hslash⟩ := List.cons_prefix_cons.1 hprefix
          refine hmatch (List.cons_prefix_cons.2 ⟨rfl, ?_⟩)
          have hpattern : "*/".toList ≠ [] := by decide
          have hstar : "*\\/".toList.head? = "*/".toList.head? := rfl
          have hhead := Text.head?_replaceFrom hpattern hstar cs
          obtain ⟨more, hmore⟩ := hslash
          rw [← hmore] at hhead
          obtain ⟨rest, rfl⟩ := List.head?_eq_some_iff.1 hhead.symm
          exact List.prefix_append ['/'] rest
        · exact ih cs.length (by rw [← hn]; exact Nat.lt_succ_self _) cs rfl hlater

theorem foreign_of_isAllBlank {indent : String} (h : Text.isAllBlank indent = true) :
    Text.Foreign commentEnd indent.toList := by
  have hends : commentEnd.any Text.isBlank = false := by decide
  exact fun c hc hmem => List.any_eq_false.1 hends c hmem (List.all_eq_true.1 h c hc)

section
variable {indent text line : String}

theorem not_commentEnd_line (hindent : Text.isAllBlank indent = true)
    (h : line ∈ commentLines indent text) : ¬ commentEnd <:+: line.toList := by
  obtain ⟨cs, hcs, hprefix⟩ := mem_commentLines h
  intro hin
  have hstars : commentEnd <:+: indent.toList ++ ([' ', '*'] ++ ' ' :: cs) := by
    have hwhole := hin.trans hprefix.isInfix
    rwa [List.append_assoc] at hwhole
  have hbehind := Text.infix_of_foreign (by decide) (foreign_of_isAllBlank hindent) hstars
  rcases Text.infix_across (by decide) hbehind with hstar | hline
  · exact absurd hstar (by decide)
  · exact not_commentEnd_replaced text.toList (hline.trans hcs)

theorem not_commentEnd_lines (hindent : Text.isAllBlank indent = true) :
    ¬ commentEnd <:+: (Text.joinLines (commentLines indent text)).toList := by
  refine Text.intercalate_closed (P := fun s => ¬ commentEnd <:+: s.toList) (by decide) ?_
    fun line hline => not_commentEnd_line hindent hline
  intro a b ha hb hin
  have hacross : commentEnd <:+: a.toList ++ '\n' :: b.toList := by
    simpa [String.toList_append] using hin
  exact (Text.infix_across (by decide) hacross).elim ha hb

/-- Nothing ends a comment before its last character. -/
theorem commentEnd_last {comment : String} (hindent : Text.isAllBlank indent = true)
    (h : comment? indent text = some comment) {before after : String}
    (hat : comment = before ++ "*/" ++ after) : after = "" := by
  have hfirst : ¬ commentEnd <:+: (indent ++ "/**").toList := by
    rw [String.toList_append]
    exact fun hin => absurd
      (Text.infix_of_foreign (by decide) (foreign_of_isAllBlank hindent) hin) (by decide)
  have hlast : ¬ commentEnd <:+: indent.toList ++ [' ', '*'] := fun hin => absurd
    (Text.infix_of_foreign (by decide) (foreign_of_isAllBlank hindent) hin) (by decide)
  have hfront : ¬ commentEnd <:+: (indent ++ "/**").toList ++ '\n' ::
      ((Text.joinLines (commentLines indent text)).toList ++ '\n' ::
        (indent.toList ++ [' ', '*'])) := by
    intro hin
    rcases Text.infix_across (by decide) hin with hin | hin
    · exact hfirst hin
    · exact (Text.infix_across (by decide) hin).elim (not_commentEnd_lines hindent) hlast
  have hwhole : ((indent ++ "/**").toList ++ '\n' ::
      ((Text.joinLines (commentLines indent text)).toList ++ '\n' ::
        (indent.toList ++ [' ', '*']))) ++ ['/'] =
      before.toList ++ commentEnd ++ after.toList := by
    have htext := congrArg String.toList ((comment_eq h).symm.trans hat)
    simp only [String.toList_append] at htext
    simpa [commentEnd] using htext
  rcases List.eq_nil_or_concat after.toList with hnil | ⟨more, c, hmore⟩
  · simpa using hnil
  · -- without its last character the comment would still hold an end
    rw [hmore, List.concat_eq_append, ← List.append_assoc] at hwhole
    have hinit := (List.append_inj' hwhole rfl).1
    refine absurd ⟨before.toList, more, ?_⟩ hfront
    rw [hinit]

/-! The lines of a block. -/

/-- The lines of a description as a comment has them. -/
def bodyLines (indent text : String) : List String :=
  (Text.linesOf text).map fun line =>
    Text.stripEnd (indent ++ " * " ++ Text.replaceAll "*/" "*\\/" line)

/-- It does not matter that the ends are replaced before the lines are cut. -/
theorem commentLines_eq (indent text : String) :
    commentLines indent text = bodyLines indent text := by
  have hpattern : "*/".toList ≠ [] := by decide
  have hold : Text.OneLine "*/".toList := by decide
  have hnew : Text.OneLine "*\\/".toList := by decide
  have hlines : Text.splitLines (Text.replaceFrom "*/".toList "*\\/".toList 0 text.toList) =
      (Text.splitLines text.toList).map (Text.replaceFrom "*/".toList "*\\/".toList 0) :=
    Text.splitLines_replaceFrom hpattern hold hnew rfl text.toList
  simp only [commentLines, bodyLines, Text.linesOf, Text.replaceAll, String.toList_ofList, hlines,
    List.map_map]
  refine List.map_congr_left fun line _ => ?_
  simp [commentLine]

theorem comment?_eq_none_iff : comment? indent text = none ↔ Text.isAllBlank text = true := by
  unfold comment?
  split <;> simp_all

theorem comment_lines {comment : String} (h : comment? indent text = some comment) :
    comment = Text.joinLines
      ((indent ++ "/**") :: (bodyLines indent text ++ [indent ++ " */"])) := by
  unfold comment? at h
  split at h
  · cases h
  · rw [← commentLines_eq, Option.some.inj h]

theorem oneLine_of_mem_commentLines (hindent : Text.OneLine indent.toList)
    (h : line ∈ commentLines indent text) : Text.OneLine line.toList := by
  simp only [commentLines, Text.linesOf, List.map_map, List.mem_map, Function.comp_apply] at h
  obtain ⟨cs, hcs, rfl⟩ := h
  have hstar : Text.OneLine " * ".toList := by decide
  have hwhole : Text.OneLine (indent ++ " * " ++ String.ofList cs).toList := by
    rw [String.toList_append, String.toList_append, String.toList_ofList (l := cs)]
    exact (hindent.append hstar).append (Text.oneLine_of_mem_splitLines hcs)
  intro c hc
  rw [commentLine, Text.toList_stripEnd] at hc
  exact hwhole c ((Text.trimEnd_prefix _).subset hc)
end

/-- A description does not get out of its comment, which has one line for each of its lines. -/
theorem comment_holds_description (indent text : String)
    (hindent : Text.isAllBlank indent = true) :
    (comment? indent text = none ↔ Text.isAllBlank text = true) ∧
    ∀ comment, comment? indent text = some comment →
      (∃ rest, comment = indent ++ "/**" ++ rest) ∧
      (∃ front, comment = front ++ " */") ∧
      (∀ before after, comment = before ++ "*/" ++ after → after = "") ∧
      comment = Text.joinLines
        ((indent ++ "/**") :: (bodyLines indent text ++ [indent ++ " */"])) ∧
      (Text.OneLine indent.toList → Text.linesOf comment =
        (indent ++ "/**") :: (bodyLines indent text ++ [indent ++ " */"])) := by
  refine ⟨comment?_eq_none_iff, fun comment h => ⟨?_, ?_, ?_, comment_lines h, fun hone => ?_⟩⟩
  · exact ⟨_, by rw [comment_eq h, String.append_assoc, String.append_assoc, String.append_assoc]⟩
  · exact ⟨_, by rw [comment_eq h, ← String.append_assoc]⟩
  · exact fun before after hat => commentEnd_last hindent h hat
  · have hframe : ∀ {frame : String}, Text.OneLine frame.toList →
        Text.OneLine (indent ++ frame).toList := by
      intro frame hframe
      rw [String.toList_append]
      exact hone.append hframe
    rw [comment_lines h]
    refine Text.linesOf_joinLines (fun line hline => ?_) fun line hline => ?_
    · rw [List.mem_cons, List.mem_append, List.mem_singleton] at hline
      rcases hline with rfl | hline | rfl
      · exact hframe (by decide)
      · rw [← commentLines_eq] at hline
        exact oneLine_of_mem_commentLines hone hline
      · exact hframe (by decide)
    · rw [← List.cons_append, List.getLast?_concat] at hline
      obtain rfl := Option.mem_some.1 hline
      simp

/-- Stars and slashes on both sides of line ends, of the prefix and of trimmed blanks. -/
theorem comment_holds_description_seams :
    Text.isAllBlank "\t" = true ∧ Text.OneLine "\t".toList ∧
      comment? "\t" "**/\r\n/*/ * \x1c/" =
        some "\t/**\n\t * **\\/\n\t * /*\\/ *\n\t * /\n\t */" ∧
      (∀ before after, "\t/**\n\t * **\\/\n\t * /*\\/ *\n\t * /\n\t */" =
        before ++ "*/" ++ after → after = "") ∧
      Text.linesOf "\t/**\n\t * **\\/\n\t * /*\\/ *\n\t * /\n\t */" =
        "\t/**" :: (bodyLines "\t" "**/\r\n/*/ * \x1c/" ++ ["\t */"]) := by
  have hone : Text.OneLine "\t".toList := by decide
  have hcomment : comment? "\t" "**/\r\n/*/ * \x1c/" =
      some "\t/**\n\t * **\\/\n\t * /*\\/ *\n\t * /\n\t */" := by decide +kernel
  have hholds := (comment_holds_description "\t" _ (by decide)).2 _ hcomment
  exact ⟨by decide, hone, hcomment, hholds.2.2.1, hholds.2.2.2.2 hone⟩

end SchemaDecl.TypeScript
