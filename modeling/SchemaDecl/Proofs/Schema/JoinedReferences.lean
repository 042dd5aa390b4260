import SchemaDecl.Proofs.Schema.RelativeReferences

/-! References one behind the other. A reference is walked along part by part, and
an empty part leads nowhere. So it does not matter for the way that runs of
separators are collapsed, but only that slashes of both kinds are one; and a
scheme ends before the first separator. A reference that continues another one
behind a slash leads to where it leads from the end of the first, as long as it
has no scheme of its own: behind the slash that would be a part like any other. -/

namespace SchemaDecl.Schema.Reference

/-! The walk along a text. -/

/-- Where the parts of a text lead from the given segments. -/
def walk (segments : List String) (cs : List Char) : List String :=
  (Text.splitOn '/' cs).foldl step segments

theorem walk_append (segments : List String) (a b : List Char) :
    walk segments (a ++ '/' :: b) = walk (walk segments a) b := by
  have hsplit : Text.splitOn '/' (a ++ '/' :: b) = Text.splitOn '/' a ++ Text.splitOn '/' b := by
    rw [Text.splitOn_eq, Text.splitOn_eq, Text.splitOn_eq]
    exact List.splitOnP_append_cons a b (beq_self_eq_true '/')
  rw [walk, hsplit, List.foldl_append]
  rfl

theorem walk_slash (segments : List String) (b : List Char) :
    walk segments ('/' :: b) = walk segments b := walk_append segments [] b

/-- Separators of both kinds as one. -/
def unified (c : Char) : Char := if isSeparator c then '/' else c

/-- Collapsing runs of separators takes away nothing but empty parts. -/
theorem walk_collapse (segments : List String) (cs : List Char) :
    walk segments (collapseSeparators false cs) = walk segments (cs.map unified) := by
  -- the part in front is carried along, as it may go on in the text
  have hall : ∀ cs : List Char,
      (∀ segments, walk segments (collapseSeparators true cs) = walk segments (cs.map unified)) ∧
        ∀ segments part, walk segments (part ++ collapseSeparators false cs) =
          walk segments (part ++ cs.map unified) := by
    intro cs
    induction cs with
    | nil => exact ⟨fun _ => rfl, fun _ _ => rfl⟩
    | cons c cs ih =>
      obtain ⟨hbehind, hwithin⟩ := ih
      by_cases hc : isSeparator c = true
      · have hslash : unified c = '/' := if_pos hc
        simp only [collapseSeparators, hc, if_true, Bool.false_eq_true, if_false, List.map_cons,
          hslash]
        refine ⟨fun segments => ?_, fun segments part => ?_⟩
        · rw [walk_slash, hbehind]
        · rw [walk_append, walk_append, hbehind]
      · have hsame : unified c = c := if_neg hc
        simp only [collapseSeparators, hc, Bool.false_eq_true, if_false, List.map_cons, hsame]
        have hstep : ∀ segments part, walk segments (part ++ c :: collapseSeparators false cs) =
            walk segments (part ++ c :: cs.map unified) := by
          intro segments part
          simpa using hwithin segments (part ++ [c])
        exact ⟨fun segments => hstep segments [], hstep⟩
  exact (hall cs).2 segments []

/-! The scheme. -/

theorem isSeparator_of_isSchemeChar {c : Char} (h : isSchemeChar c = true) :
    isSeparator c = false := by
  rw [Bool.eq_false_iff]
  intro hc
  simp only [isSeparator, Bool.or_eq_true, decide_eq_true_eq] at hc
  rcases hc with rfl | rfl <;> revert h <;> decide

theorem dropScheme_letters {letters : List Char} (hne : letters ≠ [])
    (hletters : ∀ c ∈ letters, isSchemeChar c = true) (rest : List Char) :
    dropScheme (letters ++ ':' :: rest) = rest := by
  have hcolon : isSchemeChar ':' = false := by decide
  have htake : (letters ++ ':' :: rest).takeWhile isSchemeChar = letters := by
    rw [List.takeWhile_append_of_pos hletters, List.takeWhile_cons_of_neg (by simp [hcolon]),
      List.append_nil]
  have hdrop : (letters ++ ':' :: rest).dropWhile isSchemeChar = ':' :: rest := by
    rw [List.dropWhile_append_of_pos hletters, List.dropWhile_cons_of_neg (by simp [hcolon])]
  simp [dropScheme, htake, hdrop, hne]

/-- A text has a scheme exactly if there is something to drop. -/
theorem schemed_iff {cs : List Char} : Schemed cs ↔ dropScheme cs ≠ cs := by
  constructor
  · rintro ⟨letters, rest, rfl, hne, hletters⟩ hsame
    rw [dropScheme_letters hne hletters] at hsame
    have hlength := congrArg List.length hsame
    simp only [List.length_append, List.length_cons] at hlength
    omega
  · exact fun hne => by_contra fun hno => hne (dropScheme_of_not_schemed hno)

instance : DecidablePred Schemed := fun _ => decidable_of_iff _ schemed_iff.symm

/-- Up to its first separator a text is collapsed to itself. -/
theorem exists_of_collapse {part rest cs : List Char} (hpart : '/' ∉ part)
    (h : collapseSeparators false cs = part ++ rest) :
    ∃ more, cs = part ++ more ∧ rest = collapseSeparators false more := by
  induction part generalizing cs with
  | nil => exact ⟨cs, rfl, h.symm⟩
  | cons c part ih =>
    rw [List.mem_cons, not_or] at hpart
    cases cs with
    | nil => cases h
    | cons d cs =>
      rw [collapseSeparators] at h
      split at h
      · exact absurd (List.cons.inj h).1 hpart.1
      · obtain ⟨rfl, hrest⟩ := List.cons.inj h
        obtain ⟨more, rfl, hmore⟩ := ih hpart.2 hrest
        exact ⟨more, rfl, hmore⟩

/-- A scheme is dropped from the text as from the collapsed text. -/
theorem dropScheme_collapse (cs : List Char) :
    dropScheme (collapseSeparators false cs) = collapseSeparators false (dropScheme cs) := by
  by_cases h : Schemed (collapseSeparators false cs)
  · obtain ⟨letters, rest, hcs, hne, hletters⟩ := h
    have hslash : '/' ∉ letters ++ [':'] := by
      intro hmem
      rcases List.mem_append.1 hmem with hmem | hmem
      · exact absurd (hletters '/' hmem) (by decide)
      · exact absurd hmem (by decide)
    rw [List.append_cons] at hcs
    obtain ⟨more, rfl, rfl⟩ := exists_of_collapse hslash hcs
    rw [hcs, ← List.append_cons, ← List.append_cons, dropScheme_letters hne hletters,
      dropScheme_letters hne hletters]
  · have hno : ¬ Schemed cs := by
      rintro ⟨letters, rest, rfl, hne, hletters⟩
      refine h ⟨letters, collapseSeparators false rest, ?_, hne, hletters⟩
      rw [collapse_append hne fun c hc => isSeparator_of_isSchemeChar (hletters c hc)]
      rfl
    rw [dropScheme_of_not_schemed h, dropScheme_of_not_schemed hno]

theorem dropScheme_append (a b : List Char) :
    dropScheme (a ++ '/' :: b) = dropScheme a ++ '/' :: b := by
  by_cases h : Schemed a
  · obtain ⟨letters, rest, rfl, hne, hletters⟩ := h
    rw [List.append_assoc, List.cons_append, dropScheme_letters hne hletters,
      dropScheme_letters hne hletters]
  · have hboth : ¬ Schemed (a ++ '/' :: b) := not_schemed_of_append (by simp) h
    rw [dropScheme_of_not_schemed h, dropScheme_of_not_schemed hboth]

/-! Whole references. -/

theorem resolve_eq (path : Path) (relative : String) : resolve path relative =
    walk (path.map Json.display) ((dropScheme relative.toList).map unified) := by
  rw [← walk_collapse, ← dropScheme_collapse]
  rfl

theorem resolve_of_not_schemed {relative : String} (h : ¬ Schemed (unixPath relative).toList)
    (path : Path) :
    resolve path relative = walk (path.map Json.display) (relative.toList.map unified) := by
  rw [unixPath, String.toList_ofList] at h
  rw [← walk_collapse, ← dropScheme_of_not_schemed h]
  rfl

/-- A reference behind another one leads to where it leads from the end of that one. -/
theorem resolve_joined (path : Path) (first second : String)
    (h : ¬ Schemed (unixPath second).toList) :
    resolve path (first ++ "/" ++ second) =
      resolve ((resolve path first).map Json.str) second := by
  have htext : (first ++ "/" ++ second).toList = first.toList ++ '/' :: second.toList := by
    simp [String.toList_append]
  have hslash : unified '/' = '/' := by decide
  have hreached : ((resolve path first).map Json.str).map Json.display = resolve path first := by
    rw [List.map_map]
    exact List.map_id _
  calc resolve path (first ++ "/" ++ second)
      = walk (path.map Json.display)
          ((dropScheme first.toList).map unified ++ '/' :: second.toList.map unified) := by
        rw [resolve_eq, htext, dropScheme_append, List.map_append, List.map_cons, hslash]
    _ = walk (resolve path first) (second.toList.map unified) := by
        rw [walk_append, ← resolve_eq]
    _ = resolve ((resolve path first).map Json.str) second := by
        rw [resolve_of_not_schemed h, hreached]

/-- With a scheme in front, separators and dots on both sides of the seam, and a way up beyond the
root. -/
theorem resolve_joined_clamped :
    ¬ Schemed (unixPath "\\/..//./..\\..\\c:/d\\").toList ∧
      resolve [.str "a", .int 0] "http:..\\b/\\" = ["a", "b"] ∧
      resolve [.str "a", .int 0] ("http:..\\b/\\" ++ "/" ++ "\\/..//./..\\..\\c:/d\\") =
        ["c:", "d"] := by
  have hno : ¬ Schemed (unixPath "\\/..//./..\\..\\c:/d\\").toList := by decide +kernel
  have hfirst : resolve [.str "a", .int 0] "http:..\\b/\\" = ["a", "b"] := by decide +kernel
  refine ⟨hno, hfirst, ?_⟩
  rw [resolve_joined _ _ _ hno, hfirst]
  decide +kernel

end SchemaDecl.Schema.Reference
