import SchemaDecl.Proofs.Text.Settled
import SchemaDecl.Proofs.Text.Substitution
import SchemaDecl.Text.Lines

/-! Where a pattern can occur. A text that is cut into parts, trimmed or replaced
in part has no occurrence of a pattern that was not there before, as long as what
is put in shares no character with the pattern. A pattern that neither starts nor
ends with a blank in turn outlives the trimming. -/

namespace SchemaDecl.Text

section
variable {old : List Char}

/-- An occurrence stands on one side of a character that is not in the pattern. -/
theorem infix_across {c : Char} (hc : c ∉ old) {a b : List Char} (h : old <:+: a ++ c :: b) :
    old <:+: a ∨ old <:+: b := by
  induction a with
  | nil =>
    rcases List.infix_cons_iff.1 h with hprefix | hin
    · exact .inl (prefix_of_foreign hc (a := []) hprefix).isInfix
    · exact .inr hin
  | cons x a ih =>
    rcases List.infix_cons_iff.1 h with hprefix | hin
    · exact .inl (prefix_of_foreign hc (a := x :: a) hprefix).isInfix
    · exact (ih hin).imp_left List.infix_cons

theorem infix_of_foreign (hne : old ≠ []) {w : List Char} (hw : Foreign old w) {b : List Char}
    (h : old <:+: w ++ b) : old <:+: b := by
  induction w with
  | nil => exact h
  | cons c w ih =>
    have hrest : Foreign old w := fun x hx => hw x (List.mem_cons_of_mem _ hx)
    rcases infix_across (a := []) (hw c List.mem_cons_self) h with hnil | hin
    · exact absurd (List.eq_nil_of_infix_nil hnil) hne
    · exact ih hrest hin

/-- An occurrence stands on one side of a stretch of such characters. -/
theorem infix_across_foreign (hne : old ≠ []) {w : List Char} (hw : Foreign old w) (hw0 : w ≠ [])
    {a b : List Char} (h : old <:+: a ++ (w ++ b)) : old <:+: a ∨ old <:+: b := by
  obtain ⟨c, w, rfl⟩ := List.exists_cons_of_ne_nil hw0
  have hrest : Foreign old w := fun x hx => hw x (List.mem_cons_of_mem _ hx)
  exact (infix_across (hw c List.mem_cons_self) h).imp_right (infix_of_foreign hne hrest)

theorem not_infix_foreign (hne : old ≠ []) {w : List Char} (hw : Foreign old w) :
    ¬ old <:+: w := by
  intro h
  rw [← List.append_nil w] at h
  exact hne (List.eq_nil_of_infix_nil (infix_of_foreign hne hw h))

/-- Replacing something by foreign characters makes no new occurrence. -/
theorem not_infix_replaceFrom {found new : List Char} (hne : old ≠ []) (hfound : found ≠ [])
    (hnew : Foreign old new) (hnew0 : new ≠ []) {cs : List Char} (h : ¬ old <:+: cs) :
    ¬ old <:+: replaceFrom found new 0 cs := by
  induction hn : cs.length using Nat.strong_induction_on generalizing cs with
  | _ n ih =>
    rcases replaceFrom_cases new hfound cs with ⟨_, hsame⟩ | ⟨a, b, hcs, hreplaced⟩
    · rwa [hsame]
    · have hshorter : b.length < n := by
        have hlength := congrArg List.length hcs
        have hpos := List.length_pos_of_ne_nil hfound
        simp only [List.length_append] at hlength
        omega
      have ha : ¬ old <:+: a := fun hin => h (hcs ▸ hin.trans (List.infix_append_left ..))
      have hb : ¬ old <:+: b := fun hin =>
        h (hcs ▸ hin.trans ((List.suffix_append _ _).trans (List.suffix_append _ _)).isInfix)
      rw [hreplaced]
      intro hin
      exact (infix_across_foreign hne hnew hnew0 hin).elim ha (ih b.length hshorter hb rfl)

/-- Writing foreign characters for some of the characters makes no new occurrence. -/
theorem not_infix_flatMap (hne : old ≠ []) {f : Char → List Char}
    (hf : ∀ c, f c = [c] ∨ Foreign old (f c) ∧ f c ≠ []) {cs : List Char} (h : ¬ old <:+: cs) :
    ¬ old <:+: cs.flatMap f := by
  -- the text before is carried along, as an occurrence may begin there
  have hall : ∀ (cs before : List Char), ¬ old <:+: before ++ cs →
      ¬ old <:+: before ++ cs.flatMap f := by
    intro cs
    induction cs with
    | nil => exact fun before hno => hno
    | cons c cs ih =>
      intro before hno
      rw [List.flatMap_cons]
      rcases hf c with hself | ⟨hforeign, hne0⟩
      · have hnext := ih (before ++ [c]) (by simpa using hno)
        rw [hself]
        simpa using hnext
      · intro hin
        rcases infix_across_foreign hne hforeign hne0 hin with hbefore | hrest
        · exact hno (hbefore.trans (List.infix_append_left ..))
        · refine ih [] (fun hcs => hno ?_) hrest
          exact hcs.trans ((List.suffix_cons c cs).trans (List.suffix_append before _)).isInfix
  exact hall cs [] h
end

/-! The longest stretch at the start. -/

/-- A text behind the characters of a class does not change where their stretch ends, as long as it
does not begin with one of them. -/
theorem span_append {p : Char → Bool} (cs : List Char) {rest : List Char}
    (hrest : ∀ c ∈ rest.head?, p c = false) :
    (cs ++ rest).span p = ((cs.span p).1, (cs.span p).2 ++ rest) := by
  induction cs with
  | nil =>
    cases rest with
    | nil => rfl
    | cons c rest =>
      have hc : ¬ p c = true := by simp [hrest c rfl]
      simp [List.span_eq_takeWhile_dropWhile, hc]
  | cons c cs ih =>
    simp only [List.span_eq_takeWhile_dropWhile] at ih ⊢
    by_cases hc : p c = true
    · simp [hc, (Prod.mk.inj ih).1, (Prod.mk.inj ih).2]
    · simp [hc]

/-! Parts between separators. -/

theorem splitOn_eq (sep : Char) (cs : List Char) : splitOn sep cs = cs.splitOn sep := by
  induction cs with
  | nil => rfl
  | cons c cs ih =>
    rw [splitOn, List.splitOn, List.splitOnP_cons_eq_if_modifyHead, ih]
    by_cases hc : c = sep
    · simp [hc, List.splitOn]
    · have hne := splitOn_ne_nil sep cs
      rw [ih] at hne
      obtain ⟨part, parts, hparts⟩ := List.exists_cons_of_ne_nil hne
      rw [List.splitOn] at hparts
      rw [List.splitOn, hparts, if_neg hc, if_neg (by simpa using hc)]
      rfl

theorem prefix_of_splitOn {sep : Char} {cs part : List Char} {parts : List (List Char)}
    (h : splitOn sep cs = part :: parts) : part <+: cs := by
  fun_induction splitOn sep cs generalizing part parts with
  | case1 => exact (List.cons.inj h).1 ▸ List.nil_prefix
  | case2 rest ih => exact (List.cons.inj h).1 ▸ List.nil_prefix
  | case3 c rest _ hnil ih => exact absurd hnil (splitOn_ne_nil sep rest)
  | case4 c rest _ first others hrest ih =>
    exact (List.cons.inj h).1 ▸ List.cons_prefix_cons.2 ⟨rfl, ih hrest⟩

theorem infix_of_mem_splitOn {sep : Char} {cs part : List Char} (h : part ∈ splitOn sep cs) :
    part <:+: cs := by
  fun_induction splitOn sep cs with
  | case1 => exact List.mem_singleton.1 h ▸ List.nil_infix
  | case2 rest ih =>
    rcases List.mem_cons.1 h with rfl | h
    · exact List.nil_infix
    · exact List.infix_cons (ih h)
  | case3 c rest _ hnil ih => exact absurd hnil (splitOn_ne_nil sep rest)
  | case4 c rest _ first others hrest ih =>
    rcases List.mem_cons.1 h with rfl | h
    · exact (List.cons_prefix_cons.2 ⟨rfl, prefix_of_splitOn hrest⟩).isInfix
    · rw [hrest] at ih
      exact List.infix_cons (ih (List.mem_cons_of_mem _ h))

/-! Lines. -/

theorem prefix_of_splitLines {cs line : List Char} {lines : List (List Char)}
    (h : splitLines cs = line :: lines) : line <+: cs := by
  fun_induction splitLines cs generalizing line lines with
  | case1 => cases h
  | case2 rest ih => exact (List.cons.inj h).1 ▸ List.nil_prefix
  | case3 c rest _ hend ih => exact (List.cons.inj h).1 ▸ List.nil_prefix
  | case4 c rest _ _ hnil ih =>
    exact (List.cons.inj h).1 ▸ List.cons_prefix_cons.2 ⟨rfl, List.nil_prefix⟩
  | case5 c rest _ _ first others hrest ih =>
    exact (List.cons.inj h).1 ▸ List.cons_prefix_cons.2 ⟨rfl, ih hrest⟩

theorem infix_of_mem_splitLines {cs line : List Char} (h : line ∈ splitLines cs) :
    line <:+: cs := by
  fun_induction splitLines cs with
  | case1 => cases h
  | case2 rest ih =>
    rcases List.mem_cons.1 h with rfl | h
    · exact List.nil_infix
    · exact List.infix_cons (List.infix_cons (ih h))
  | case3 c rest _ hend ih =>
    rcases List.mem_cons.1 h with rfl | h
    · exact List.nil_infix
    · exact List.infix_cons (ih h)
  | case4 c rest _ _ hnil ih =>
    rw [List.mem_singleton.1 h]
    exact (List.cons_prefix_cons.2 ⟨rfl, List.nil_prefix⟩).isInfix
  | case5 c rest _ _ first others hrest ih =>
    rcases List.mem_cons.1 h with rfl | h
    · exact (List.cons_prefix_cons.2 ⟨rfl, prefix_of_splitLines hrest⟩).isInfix
    · rw [hrest] at ih
      exact List.infix_cons (ih (List.mem_cons_of_mem _ h))

/-! Trimming. -/

theorem trimEnd_prefix (cs : List Char) : trimEnd cs <+: cs := by
  rw [trimEnd_eq_rdropWhile]
  exact List.rdropWhile_prefix isBlank cs

/-- What is trimmed off are the blanks at the two ends. -/
theorem trim_spec (cs : List Char) : ∃ before after, cs = before ++ trim cs ++ after ∧
    before.all isBlank = true ∧ after.all isBlank = true := by
  have hstart : cs = cs.takeWhile isBlank ++ trimStart cs :=
    (List.takeWhile_append_dropWhile ..).symm
  obtain ⟨after, hafter⟩ := trimEnd_prefix (trimStart cs)
  have hblank : after = ((trimStart cs).reverse.takeWhile isBlank).reverse := by
    have hsplit : trimEnd (trimStart cs) ++ ((trimStart cs).reverse.takeWhile isBlank).reverse =
        trimStart cs := by
      rw [trimEnd, ← List.reverse_append, List.takeWhile_append_dropWhile, List.reverse_reverse]
    exact List.append_cancel_left (hafter.trans hsplit.symm)
  refine ⟨cs.takeWhile isBlank, after, ?_, List.all_takeWhile, ?_⟩
  · rw [List.append_assoc, trim, hafter, ← hstart]
  · rw [hblank, List.all_reverse]
    exact List.all_takeWhile

theorem infix_dropWhile {p : Char → Bool} {c : Char} {w cs : List Char} (hc : p c = false)
    (h : c :: w <:+: cs) : c :: w <:+: cs.dropWhile p := by
  induction cs with
  | nil => exact h
  | cons x cs ih =>
    by_cases hx : p x = true
    · rw [List.dropWhile_cons_of_pos hx]
      rcases List.infix_cons_iff.1 h with hprefix | hin
      · rw [(List.cons_prefix_cons.1 hprefix).1, hx] at hc
        cases hc
      · exact ih hin
    · rwa [List.dropWhile_cons_of_neg hx]

/-- Trimming keeps what neither starts nor ends with a blank. -/
theorem infix_trim {c d : Char} {v w cs : List Char} (hc : isBlank c = false)
    (hd : isBlank d = false) (hw : c :: w = v ++ [d]) (h : c :: w <:+: cs) :
    c :: w <:+: trim cs := by
  have hstart : c :: w <:+: trimStart cs := infix_dropWhile hc h
  rw [hw] at hstart ⊢
  have hreverse : d :: v.reverse <:+: (trimStart cs).reverse := by
    have hin := List.reverse_infix.2 hstart
    rwa [List.reverse_concat] at hin
  have hend := infix_dropWhile hd hreverse
  rw [← List.reverse_infix, List.reverse_cons, List.reverse_reverse] at hend
  exact hend

end SchemaDecl.Text
