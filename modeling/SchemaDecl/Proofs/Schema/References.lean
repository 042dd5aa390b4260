import SchemaDecl.Proofs.Text.Pieces
import SchemaDecl.Schema.Reference

/-! The segments a reference leads to. Each of them is a segment of the path of
the node or a part of the reference as it was written, where slashes of both
kinds only separate. So a pattern without slashes that occurs neither in the path
nor in the reference does not occur in a segment. -/

namespace SchemaDecl.Schema.Reference

/-- Where separators are unified, the texts on their sides stay apart. -/
theorem not_infix_collapse {old : List Char} (hslash : '/' ∉ old) (hback : '\\' ∉ old)
    {cs : List Char} (h : ¬ old <:+: cs) : ¬ old <:+: collapseSeparators false cs := by
  have hseparator : ∀ {c : Char}, isSeparator c = true → c ∉ old := by
    intro c hc
    simp only [isSeparator, Bool.or_eq_true, decide_eq_true_eq] at hc
    rcases hc with rfl | rfl
    · exact hslash
    · exact hback
  -- behind a separator nothing before counts; elsewhere an occurrence may have begun before
  have hall : ∀ cs : List Char,
      (¬ old <:+: cs → ¬ old <:+: collapseSeparators true cs) ∧
        ∀ before, ¬ old <:+: before ++ cs → ¬ old <:+: before ++ collapseSeparators false cs := by
    intro cs
    induction cs with
    | nil => exact ⟨fun h => h, fun before h => h⟩
    | cons c cs ih =>
      obtain ⟨hbehind, helsewhere⟩ := ih
      have hrest : ∀ before, ¬ old <:+: before ++ c :: cs → ¬ old <:+: cs := fun before hno hin =>
        hno (hin.trans ((List.suffix_cons c cs).trans (List.suffix_append before _)).isInfix)
      by_cases hc : isSeparator c = true
      · simp only [collapseSeparators, hc, if_true, Bool.false_eq_true, if_false]
        refine ⟨fun hno => hbehind (hrest [] hno), fun before hno hin => ?_⟩
        rcases Text.infix_across hslash hin with hbefore | hlater
        · exact hno (hbefore.trans (List.infix_append_left ..))
        · exact hbehind (hrest before hno) hlater
      · simp only [collapseSeparators, hc, Bool.false_eq_true, if_false]
        have hstep : ∀ before, ¬ old <:+: before ++ c :: cs →
            ¬ old <:+: before ++ c :: collapseSeparators false cs := by
          intro before hno
          have hnext := helsewhere (before ++ [c]) (by simpa using hno)
          simpa using hnext
        exact ⟨fun hno => hstep [] hno, hstep⟩
  exact (hall cs).2 [] h

theorem suffix_dropScheme (cs : List Char) : dropScheme cs <:+ cs := by
  unfold dropScheme
  split
  · rename_i rest hrest
    split
    · exact List.suffix_refl cs
    · have hdropped : ':' :: rest <:+ cs := hrest ▸ List.dropWhile_suffix _
      exact (List.suffix_cons _ _).trans hdropped
  · exact List.suffix_refl cs

theorem infix_of_mem_parts {relative : String} {part : List Char} (h : part ∈ parts relative) :
    part <:+: collapseSeparators false relative.toList :=
  (Text.infix_of_mem_splitOn h).trans (suffix_dropScheme _).isInfix

theorem mem_step {segments : List String} {part : List Char} {segment : String}
    (h : segment ∈ step segments part) : segment ∈ segments ∨ segment = String.ofList part := by
  unfold step at h
  split at h
  · exact .inl h
  · split at h
    · exact .inl (List.mem_of_mem_dropLast h)
    · exact (List.mem_append.1 h).imp_right List.mem_singleton.1

theorem mem_resolve {path : Path} {relative segment : String}
    (h : segment ∈ resolve path relative) :
    segment ∈ path.map Json.display ∨ ∃ part ∈ parts relative, segment = String.ofList part := by
  have hall : ∀ (parts : List (List Char)) (segments : List String),
      segment ∈ parts.foldl step segments →
        segment ∈ segments ∨ ∃ part ∈ parts, segment = String.ofList part := by
    intro parts
    induction parts with
    | nil => exact fun segments h => .inl h
    | cons part parts ih =>
      intro segments h
      rcases ih _ h with hstep | ⟨other, hother, heq⟩
      · rcases mem_step hstep with hold | heq
        · exact .inl hold
        · exact .inr ⟨part, List.mem_cons_self, heq⟩
      · exact .inr ⟨other, List.mem_cons_of_mem _ hother, heq⟩
  exact hall _ _ h

theorem suffix_of_ofText {value : Json} {reference : String}
    (h : ofText? value = some reference) : ∃ s, value = .str s ∧ reference.toList <:+ s.toList := by
  unfold ofText? at h
  split at h
  · rename_i s
    split at h
    · rename_i rest hs
      refine ⟨s, rfl, ?_⟩
      rw [← Option.some.inj h, String.toList_ofList, hs]
      exact List.suffix_cons _ _
    · cases h
  · cases h

/-- A reference was written in the title or in the description. -/
theorem suffix_of_ofFields {fields : Fields} {reference : String}
    (h : ofFields? fields = some reference) : ∃ s, (Fields.value fields "title" = .str s ∨
      Fields.value fields "description" = .str s) ∧ reference.toList <:+ s.toList := by
  unfold ofFields? at h
  split at h
  · obtain ⟨s, hs, hsuffix⟩ := suffix_of_ofText h
    exact ⟨s, .inr hs, hsuffix⟩
  · obtain ⟨s, hs, hsuffix⟩ := suffix_of_ofText h
    exact ⟨s, .inl hs, hsuffix⟩

end SchemaDecl.Schema.Reference
