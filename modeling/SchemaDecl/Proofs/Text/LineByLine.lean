import SchemaDecl.Proofs.Text.Pieces

/-! Text line by line. A text either has one line or starts with a line and its end,
and then the rest is cut on its own. So lines that are put together come apart
again, and a replacement that knows nothing of line ends may be done before the
text is cut or after it, in each of the lines. -/

namespace SchemaDecl.Text

/-- No line ends inside of the text. -/
def OneLine (cs : List Char) : Prop := ∀ c ∈ cs, isLineEnd c = false

instance : DecidablePred OneLine := fun cs =>
  decidable_of_iff (cs.any isLineEnd = false) (by simp [OneLine])

/-- One line end, in front of the text that follows it. -/
inductive LineEnd : List Char → List Char → Prop
  | pair (rest : List Char) : LineEnd ['\r', '\n'] rest
  | single {c : Char} {rest : List Char} : isLineEnd c = true →
      (c = '\r' → rest.head? ≠ some '\n') → LineEnd [c] rest

theorem OneLine.append {a b : List Char} (ha : OneLine a) (hb : OneLine b) : OneLine (a ++ b) :=
  fun c hc => (List.mem_append.1 hc).elim (ha c) (hb c)

theorem LineEnd.ne_nil {terminator rest : List Char} (h : LineEnd terminator rest) :
    terminator ≠ [] := by
  cases h <;> simp

theorem LineEnd.isLineEnd {terminator rest : List Char} (h : LineEnd terminator rest) :
    ∀ c ∈ terminator, isLineEnd c = true := by
  cases h with
  | pair => exact List.all_eq_true.1 (by decide)
  | single hc => simpa using hc

/-! Cutting. -/

theorem splitLines_other {c : Char} (hc : isLineEnd c = false) (rest : List Char) :
    splitLines (c :: rest) = match splitLines rest with
      | [] => [[c]]
      | line :: lines => (c :: line) :: lines := by
  have hpair : ∀ more, c = '\r' → rest ≠ '\n' :: more := by
    rintro more rfl
    cases hc
  rw [splitLines.eq_3 c rest hpair, hc]
  rfl

theorem splitLines_end {terminator rest : List Char} (h : LineEnd terminator rest) :
    splitLines (terminator ++ rest) = [] :: splitLines rest := by
  cases h with
  | pair => rfl
  | @single c _ hc hfeed =>
    have hpair : ∀ more, c = '\r' → rest ≠ '\n' :: more := by
      rintro more hreturn rfl
      exact hfeed hreturn rfl
    rw [List.singleton_append, splitLines.eq_3 c rest hpair, if_pos hc]

theorem splitLines_oneLine {line : List Char} (h : OneLine line) (hne : line ≠ []) :
    splitLines line = [line] := by
  induction line with
  | nil => exact absurd rfl hne
  | cons c line ih =>
    have hrest : OneLine line := fun d hd => h d (List.mem_cons_of_mem _ hd)
    rw [splitLines_other (h c List.mem_cons_self)]
    cases line with
    | nil => rfl
    | cons d line => rw [ih hrest (List.cons_ne_nil d line)]

theorem splitLines_append {line terminator rest : List Char} (h : OneLine line)
    (hend : LineEnd terminator rest) :
    splitLines (line ++ (terminator ++ rest)) = line :: splitLines rest := by
  induction line with
  | nil => exact splitLines_end hend
  | cons c line ih =>
    rw [List.cons_append, splitLines_other (h c List.mem_cons_self),
      ih fun d hd => h d (List.mem_cons_of_mem _ hd)]

/-- A text has one line, or a first line with its end. -/
theorem exists_firstLine (cs : List Char) : OneLine cs ∨ ∃ line terminator rest,
    OneLine line ∧ LineEnd terminator rest ∧ cs = line ++ (terminator ++ rest) := by
  induction cs with
  | nil => exact .inl (by simp [OneLine])
  | cons c cs ih =>
    cases hc : isLineEnd c with
    | true =>
      refine .inr ?_
      by_cases hpair : c = '\r' ∧ cs.head? = some '\n'
      · obtain ⟨rfl, hfeed⟩ := hpair
        obtain ⟨rest, rfl⟩ := List.head?_eq_some_iff.1 hfeed
        exact ⟨[], _, rest, by simp [OneLine], .pair rest, rfl⟩
      · exact ⟨[], _, cs, by simp [OneLine], .single hc fun h hfeed => hpair ⟨h, hfeed⟩, rfl⟩
    | false =>
      rcases ih with hone | ⟨line, terminator, rest, hline, hend, rfl⟩
      · exact .inl (List.forall_mem_cons.2 ⟨hc, hone⟩)
      · exact .inr ⟨c :: line, terminator, rest, List.forall_mem_cons.2 ⟨hc, hline⟩, hend, rfl⟩

/-- The lines of a text are lines. -/
theorem oneLine_of_mem_splitLines {cs line : List Char} (h : line ∈ splitLines cs) :
    OneLine line := by
  induction hn : cs.length using Nat.strong_induction_on generalizing cs with
  | _ n ih =>
    rcases exists_firstLine cs with hone | ⟨first, terminator, rest, hfirst, hend, rfl⟩
    · cases cs with
      | nil => cases h
      | cons c cs =>
        rw [splitLines_oneLine hone (List.cons_ne_nil c cs), List.mem_singleton] at h
        exact h ▸ hone
    · have hpos := List.length_pos_of_ne_nil hend.ne_nil
      rw [splitLines_append hfirst hend, List.mem_cons] at h
      rcases h with rfl | h
      · exact hfirst
      · simp only [List.length_append] at hn
        exact ih rest.length (by omega) h rfl

/-- Lines with line feeds between them come apart again. -/
theorem splitLines_intercalate {lines : List (List Char)} (h : ∀ line ∈ lines, OneLine line)
    (hlast : ∀ line ∈ lines.getLast?, line ≠ []) :
    splitLines (['\n'].intercalate lines) = lines := by
  induction lines with
  | nil => rfl
  | cons line lines ih =>
    have hline := h line List.mem_cons_self
    cases lines with
    | nil =>
      rw [List.intercalate_singleton]
      exact splitLines_oneLine hline (hlast line rfl)
    | cons next lines =>
      have hend : LineEnd ['\n'] (['\n'].intercalate (next :: lines)) :=
        .single (by decide) fun h => absurd h (by decide)
      rw [List.intercalate_cons_cons, List.append_assoc, splitLines_append hline hend,
        ih (fun other hother => h other (List.mem_cons_of_mem _ hother)) hlast]

theorem linesOf_joinLines {lines : List String} (h : ∀ line ∈ lines, OneLine line.toList)
    (hlast : ∀ line ∈ lines.getLast?, line ≠ "") : linesOf (joinLines lines) = lines := by
  have htext : (joinLines lines).toList = ['\n'].intercalate (lines.map String.toList) := by
    simp [joinLines]
  have hlines : splitLines (joinLines lines).toList = lines.map String.toList := by
    rw [htext]
    refine splitLines_intercalate (fun cs hcs => ?_) fun cs hcs => ?_
    · obtain ⟨line, hline, rfl⟩ := List.mem_map.1 hcs
      exact h line hline
    · rw [List.getLast?_map] at hcs
      obtain ⟨line, hline, rfl⟩ := Option.map_eq_some_iff.1 hcs
      simpa using hlast line hline
  rw [linesOf, hlines, List.map_map]
  simp [Function.comp_def]

/-! Replacing in each line. -/

section
variable {old new : List Char}

/-- A replacement that starts like the pattern does not change how a text starts. -/
theorem head?_replaceFrom (hold : old ≠ []) (hhead : new.head? = old.head?) (cs : List Char) :
    (replaceFrom old new 0 cs).head? = cs.head? := by
  cases cs with
  | nil => rfl
  | cons c cs =>
    by_cases hmatch : old <+: c :: cs
    · obtain ⟨rest, hrest⟩ := hmatch
      obtain ⟨d, old, rfl⟩ := List.exists_cons_of_ne_nil hold
      obtain ⟨new, rfl⟩ := List.head?_eq_some_iff.1 hhead
      rw [← hrest, replaceFrom_match _ hold]
      rfl
    · rw [replaceFrom_no_match new hmatch]
      rfl

theorem mem_replaceFrom {n : Nat} {cs : List Char} {c : Char} (h : c ∈ replaceFrom old new n cs) :
    c ∈ cs ∨ c ∈ new := by
  fun_induction replaceFrom old new n cs with
  | case1 => cases h
  | case2 n d rest ih => exact (ih h).imp_left (List.mem_cons_of_mem _)
  | case3 d rest hmatch ih =>
    rcases List.mem_append.1 h with h | h
    · exact .inr h
    · exact (ih h).imp_left (List.mem_cons_of_mem _)
  | case4 d rest hmatch ih =>
    rcases List.mem_cons.1 h with rfl | h
    · exact .inl List.mem_cons_self
    · exact (ih h).imp_left (List.mem_cons_of_mem _)

/-- A replacement without line ends, that starts like its pattern, is made line by line. -/
theorem splitLines_replaceFrom (hne : old ≠ []) (hold : OneLine old) (hnew : OneLine new)
    (hhead : new.head? = old.head?) (cs : List Char) :
    splitLines (replaceFrom old new 0 cs) = (splitLines cs).map (replaceFrom old new 0) := by
  have hnew0 : new ≠ [] := by
    rintro rfl
    exact hne (List.head?_eq_none_iff.1 hhead.symm)
  have hlines : ∀ {line}, OneLine line → OneLine (replaceFrom old new 0 line) :=
    fun hline c hc => (mem_replaceFrom hc).elim (hline c) (hnew c)
  induction hn : cs.length using Nat.strong_induction_on generalizing cs with
  | _ n ih =>
    rcases exists_firstLine cs with hone | ⟨line, terminator, rest, hline, hend, rfl⟩
    · cases cs with
      | nil => rfl
      | cons c cs =>
        have hreplaced : replaceFrom old new 0 (c :: cs) ≠ [] := fun hnil =>
          List.cons_ne_nil c cs (eq_nil_of_replaceFrom hne hnew0 hnil)
        rw [splitLines_oneLine hone (List.cons_ne_nil c cs),
          splitLines_oneLine (hlines hone) hreplaced]
        rfl
    · have hforeign : Foreign old terminator := by
        intro c hc hmem
        have hterminator := hend.isLineEnd c hc
        rw [hold c hmem] at hterminator
        cases hterminator
      have hend' : LineEnd terminator (replaceFrom old new 0 rest) := by
        cases hend with
        | pair => exact .pair _
        | single hc hfeed =>
          refine .single hc fun hreturn => ?_
          rw [head?_replaceFrom hne hhead]
          exact hfeed hreturn
      have hpos := List.length_pos_of_ne_nil hend.ne_nil
      simp only [List.length_append] at hn
      rw [replaceFrom_across new hne hforeign hend.ne_nil, splitLines_append (hlines hline) hend',
        splitLines_append hline hend, ih rest.length (by omega) rest rfl]
      rfl
end

end SchemaDecl.Text
