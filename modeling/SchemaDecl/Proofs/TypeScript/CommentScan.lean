import Mathlib.Data.List.TakeWhile
import SchemaDecl.Proofs.Text.Substitution
import SchemaDecl.Proofs.TypeScript.Atoms
import SchemaDecl.TypeScript.Comment

/-! Doc comments under the scan for operators, which does not know of comments
and reads the description like any other text. What a comment adds to the
description, and what it drops, does not count: line ends, indentation, stars
and slashes do nothing to the scan except that each of them ends an escape, and
at least a line feed stands wherever something was dropped. So a comment is
passed over exactly if the bare description is. -/

namespace SchemaDecl.TypeScript.Scan

/-- Only quotes are open quotes, and only inside of them something is escaped. -/
structure Sound (s : Scan) : Prop where
  quote : ∀ q, s.quote = some q → isQuote q = true
  escaped : s.quote = none → s.escaped = false

theorem sound_outside (k : Int) : Sound (outside k) where
  quote _ hq := by cases hq
  escaped _ := rfl

theorem quote_step (s : Scan) (c : Char) : (s.step c).quote = s.quote ∨
    (s.step c).quote = none ∨ ((s.step c).quote = some c ∧ isQuote c = true) := by
  unfold Scan.step
  grind

theorem escaped_step {s : Scan} (h : s.quote = none → s.escaped = false) (c : Char)
    (hnone : (s.step c).quote = none) : (s.step c).escaped = false := by
  unfold Scan.step at hnone ⊢
  grind

theorem Sound.step {s : Scan} (h : Sound s) (c : Char) : Sound (s.step c) where
  quote q hq := by
    rcases quote_step s c with hsame | hnone | ⟨hnew, hquote⟩
    · exact h.quote q (hsame ▸ hq)
    · rw [hnone] at hq
      cases hq
    · rw [hnew] at hq
      exact Option.some.inj hq ▸ hquote
  escaped := escaped_step h.escaped c

theorem Sound.run {s : Scan} (h : Sound s) (cs : List Char) : Sound (s.run cs) := by
  induction cs generalizing s with
  | nil => exact h
  | cons c cs ih => exact ih (h.step c)

theorem eq_outside {s : Scan} (hs : Sound s) (hquote : s.quote = none) (hfound : s.found = false) :
    s = outside s.depth := by
  have hescaped := hs.escaped hquote
  rcases s with ⟨depth, quote, escaped, found⟩
  subst hquote hfound hescaped
  rfl

/-- No plain character closes a quote. -/
theorem Sound.ne_of_isPlain {depth : Int} {q : Char} {escaped found : Bool}
    (h : Sound ⟨depth, some q, escaped, found⟩) {c : Char} (hc : isPlain c = true) : c ≠ q := by
  rintro rfl
  have hquote := h.quote c rfl
  simp [isPlain, hquote] at hc

/-! Characters that only end an escape. -/

/-- The scan after a line feed. -/
def settle (s : Scan) : Scan := s.step '\n'

/-- A character that means nothing to the scan, not even inside of quotes. -/
def isIdle (c : Char) : Bool := isPlain c && c != '\\'

theorem step_idle {s : Scan} (hs : Sound s) {c : Char} (hc : isIdle c = true) :
    s.step c = settle s := by
  rw [isIdle, Bool.and_eq_true, bne_iff_ne] at hc
  obtain ⟨hplain, hslash⟩ := hc
  rcases s with ⟨depth, quote, escaped, found⟩
  cases found with
  | true => rfl
  | false =>
    cases quote with
    | none => exact (step_plain hplain rfl).trans (step_plain (by decide) rfl).symm
    | some q =>
      have hq := hs.ne_of_isPlain hplain
      have hfeed := hs.ne_of_isPlain (c := '\n') (by decide)
      cases escaped <;> simp [settle, step, hslash, hq, hfeed]

theorem settle_settle {s : Scan} (hs : Sound s) : settle (settle s) = settle s := by
  rcases s with ⟨depth, quote, escaped, found⟩
  cases found with
  | true => rfl
  | false =>
    cases quote with
    | none => rfl
    | some q =>
      have hfeed := hs.ne_of_isPlain (c := '\n') (by decide)
      cases escaped <;> simp [settle, step, hfeed]

theorem quote_settle {s : Scan} (hs : Sound s) : (settle s).quote = s.quote := by
  rcases s with ⟨depth, quote, escaped, found⟩
  cases found with
  | true => rfl
  | false =>
    cases quote with
    | none => rfl
    | some q =>
      have hfeed := hs.ne_of_isPlain (c := '\n') (by decide)
      cases escaped <;> simp [settle, step, hfeed]

theorem settle_outside (k : Int) : settle (outside k) = outside k := step_plain (by decide) rfl

theorem Sound.settle {s : Scan} (h : Sound s) : Sound (settle s) := h.step '\n'

theorem run_idle {s : Scan} (hs : Sound s) {cs : List Char} (h : ∀ c ∈ cs, isIdle c = true) :
    s.run cs = s ∨ s.run cs = settle s := by
  induction cs generalizing s with
  | nil => exact .inl rfl
  | cons c cs ih =>
    have hstep := step_idle hs (h c List.mem_cons_self)
    have hrest := ih hs.settle fun d hd => h d (List.mem_cons_of_mem _ hd)
    rw [settle_settle hs] at hrest
    rw [run_cons, hstep]
    exact .inr (hrest.elim id id)

/-- After a line feed it does not matter what idle characters stood before it. -/
theorem settle_run_idle {s : Scan} (hs : Sound s) {cs : List Char}
    (h : ∀ c ∈ cs, isIdle c = true) : settle (s.run cs) = settle s := by
  rcases run_idle hs h with hrun | hrun
  · rw [hrun]
  · rw [hrun, settle_settle hs]

theorem run_settled_idle {s : Scan} (hs : Sound s) {cs : List Char}
    (h : ∀ c ∈ cs, isIdle c = true) : (settle s).run cs = settle s := by
  rcases run_idle hs.settle h with hrun | hrun
  · exact hrun
  · rw [hrun, settle_settle hs]

theorem isIdle_of_isBlank {c : Char} (h : Text.isBlank c = true) : isIdle c = true := by
  have hslash : c ≠ '\\' := by
    rintro rfl
    revert h
    decide
  rw [isIdle, isPlain_of_isBlank h, bne_iff_ne.2 hslash, Bool.and_self]

/-! The lines of a comment. -/

theorem settle_run_trimEnd {s : Scan} (hs : Sound s) (cs : List Char) :
    settle (s.run (Text.trimEnd cs)) = settle (s.run cs) := by
  have hsplit : cs = Text.trimEnd cs ++ (cs.reverse.takeWhile Text.isBlank).reverse := by
    rw [Text.trimEnd, ← List.reverse_append, List.takeWhile_append_dropWhile,
      List.reverse_reverse]
  have hidle : ∀ c ∈ (cs.reverse.takeWhile Text.isBlank).reverse, isIdle c = true := by
    intro c hc
    exact isIdle_of_isBlank (List.mem_takeWhile_imp (List.mem_reverse.1 hc))
  conv => rhs; rw [hsplit, run_append]
  exact (settle_run_idle (hs.run _) hidle).symm

/-- Each line in turn, and a line feed after it. -/
def runLines (s : Scan) (lines : List (List Char)) : Scan :=
  lines.foldl (fun t line => settle (t.run line)) s

theorem runLines_cons (s : Scan) (line : List Char) (lines : List (List Char)) :
    s.runLines (line :: lines) = (settle (s.run line)).runLines lines := rfl

theorem isIdle_of_isLineEnd {c : Char} (h : Text.isLineEnd c = true) : isIdle c = true := by
  refine isIdle_of_isBlank ?_
  have hall : ∀ n ∈ [0xa, 0xb, 0xc, 0xd, 0x1c, 0x1d, 0x1e, 0x85, 0x2028, 0x2029],
      n ∈ Text.blanks := by decide
  rw [Text.isLineEnd, List.contains_iff_mem] at h
  exact List.contains_iff_mem.2 (hall c.toNat h)

/-- After an empty first line the rest is read from a settled scan. -/
theorem runLines_rest {s : Scan} (hs : Sound s) {rest : List Char}
    (ih : ∀ {t : Scan}, Sound t → rest ≠ [] →
      t.runLines (Text.splitLines rest) = settle (t.run rest)) :
    (settle s).runLines (Text.splitLines rest) = settle ((settle s).run rest) := by
  cases rest with
  | nil => exact (settle_settle hs).symm
  | cons c rest => exact ih hs.settle (by simp)

/-- Cutting a text into lines does not change what the scan makes of it. -/
theorem runLines_splitLines {s : Scan} (hs : Sound s) {cs : List Char} (hne : cs ≠ []) :
    s.runLines (Text.splitLines cs) = settle (s.run cs) := by
  fun_induction Text.splitLines cs generalizing s with
  | case1 => exact absurd rfl hne
  | case2 rest ih =>
    have hreturn : s.step '\r' = settle s := step_idle hs (by decide)
    have hfeed : (settle s).step '\n' = settle s := settle_settle hs
    rw [runLines_cons, run_nil, runLines_rest hs ih, run_cons, run_cons, hreturn, hfeed]
  | case3 c rest _ hend ih =>
    have hc : s.step c = settle s := step_idle hs (isIdle_of_isLineEnd hend)
    rw [runLines_cons, run_nil, runLines_rest hs ih, run_cons, hc]
  | case4 c rest _ _ hnil ih =>
    have hrest : rest = [] := by
      by_contra hrest
      exact Text.splitLines_ne_nil hrest hnil
    rw [hrest]
    rfl
  | case5 c rest _ _ line lines hlines ih =>
    have hrest : rest ≠ [] := by
      rintro rfl
      cases hlines
    have hinner := ih (hs.step c) hrest
    rw [hlines] at hinner
    rw [run_cons, ← hinner]
    rfl

theorem runLines_map {s : Scan} (hs : Sound s) {f : List Char → List Char}
    (hf : ∀ {t : Scan} (line : List Char), Sound t →
      settle ((settle t).run (f line)) = settle ((settle t).run line))
    (lines : List (List Char)) :
    (settle s).runLines (lines.map f) = (settle s).runLines lines := by
  induction lines generalizing s with
  | nil => rfl
  | cons line lines ih =>
    rw [List.map_cons, runLines_cons, runLines_cons, hf line hs]
    exact ih (hs.settle.run line)

/-! Escaping the end of a comment. -/

/-- The backslash that keeps a comment from ending early escapes nothing but the slash. -/
theorem run_commentEnd {s : Scan} (hs : Sound s) :
    s.run "*\\/".toList = s.run "*/".toList := by
  show ((s.step '*').step '\\').step '/' = (s.step '*').step '/'
  rcases s with ⟨depth, quote, escaped, found⟩
  cases found with
  | true => rfl
  | false =>
    cases quote with
    | none => rfl
    | some q =>
      have hstar := hs.ne_of_isPlain (c := '*') (by decide)
      have hslash := hs.ne_of_isPlain (c := '/') (by decide)
      cases escaped <;> simp [step, hstar, hslash]

theorem run_escapeEnd {s : Scan} (hs : Sound s) (cs : List Char) :
    s.run (Text.replaceFrom "*/".toList "*\\/".toList 0 cs) = s.run cs := by
  induction hn : cs.length using Nat.strong_induction_on generalizing s cs with
  | _ n ih =>
    have hend : "*/".toList ≠ [] := by decide
    rcases Text.replaceFrom_cases "*\\/".toList hend cs with
      ⟨_, hsame⟩ | ⟨a, b, hcs, hreplaced⟩
    · rw [hsame]
    · have hshorter : b.length < n := by
        have hlength := congrArg List.length hcs
        have hold : "*/".toList.length = 2 := by decide
        simp only [List.length_append, hold] at hlength
        omega
      have hrest := ih b.length hshorter ((hs.run a).run "*/".toList) b rfl
      rw [hreplaced, hcs, run_append, run_append, run_append, run_append,
        run_commentEnd (hs.run a), hrest]

/-! The comment as a whole. -/

theorem run_joinLines (s : Scan) (lines : List String) (last : String) :
    s.run (Text.joinLines (lines ++ [last])).toList =
      (s.runLines (lines.map String.toList)).run last.toList := by
  induction lines generalizing s with
  | nil => rw [List.nil_append, Text.joinLines, String.intercalate_singleton]; rfl
  | cons line lines ih =>
    have hjoin : Text.joinLines (line :: lines ++ [last]) =
        line ++ "\n" ++ Text.joinLines (lines ++ [last]) :=
      String.intercalate_cons_of_ne_nil (by simp)
    rw [hjoin, String.toList_append, String.toList_append, run_append, run_append, ih]
    rfl

theorem settle_run_commentLine {indent : String} (hindent : Text.isAllBlank indent = true)
    {t : Scan} (line : List Char) (ht : Sound t) :
    settle ((settle t).run (commentLine indent (String.ofList line)).toList) =
      settle ((settle t).run line) := by
  have hstar : ∀ c ∈ " * ".toList, isIdle c = true := List.all_eq_true.1 (by decide)
  have hprefix : ∀ c ∈ indent.toList ++ " * ".toList, isIdle c = true := by
    intro c hc
    rcases List.mem_append.1 hc with hc | hc
    · exact isIdle_of_isBlank (List.all_eq_true.1 hindent c hc)
    · exact hstar c hc
  have hline : (indent ++ " * " ++ String.ofList line).toList =
      indent.toList ++ " * ".toList ++ line := by
    simp [String.toList_append]
  rw [commentLine, Text.toList_stripEnd, settle_run_trimEnd ht.settle, hline, run_append,
    run_settled_idle ht hprefix]

/-- What a comment does to the scan is what its description does, up to an open escape. -/
theorem run_comment {indent text comment : String} (hindent : Text.isAllBlank indent = true)
    (h : comment? indent text = some comment) (k : Int) :
    (outside k).run comment.toList = settle ((outside k).run text.toList) := by
  have hs := sound_outside k
  have hblank : ∀ c ∈ indent.toList, isIdle c = true := fun c hc =>
    isIdle_of_isBlank (List.all_eq_true.1 hindent c hc)
  have hframe : ∀ {frame : String}, (∀ c ∈ frame.toList, isIdle c = true) →
      ∀ c ∈ (indent ++ frame).toList, isIdle c = true := by
    intro frame hidle c hc
    rw [String.toList_append, List.mem_append] at hc
    exact hc.elim (hblank c) (hidle c)
  have hfirst : settle ((outside k).run (indent ++ "/**").toList) = settle (outside k) :=
    settle_run_idle hs (hframe (List.all_eq_true.1 (by decide)))
  have hlast : ∀ c ∈ (indent ++ " */").toList, isIdle c = true :=
    hframe (List.all_eq_true.1 (by decide))
  unfold comment? at h
  split at h
  · cases h
  · rename_i hno
    have hne : Text.replaceFrom "*/".toList "*\\/".toList 0 text.toList ≠ [] := by
      intro hnil
      have hempty := Text.eq_nil_of_replaceFrom (by decide) (by decide) hnil
      rw [Text.isAllBlank, hempty] at hno
      exact hno rfl
    have hlines : (commentLines indent text).map String.toList =
        (Text.splitLines (Text.replaceFrom "*/".toList "*\\/".toList 0 text.toList)).map
          fun line => (commentLine indent (String.ofList line)).toList := by
      simp only [commentLines, Text.linesOf, Text.replaceAll, List.map_map, String.toList_ofList]
      rfl
    rw [← Option.some.inj h, ← List.cons_append, run_joinLines, List.map_cons, runLines_cons,
      hfirst, hlines, runLines_map hs fun line ht => settle_run_commentLine hindent line ht,
      settle_outside, runLines_splitLines hs hne, run_escapeEnd hs,
      run_settled_idle (hs.run _) hlast]

/-- A comment is passed over at a depth exactly if its description is. -/
theorem run_comment_iff {indent text comment : String}
    (hindent : Text.isAllBlank indent = true) (h : comment? indent text = some comment) (k : Int) :
    (outside k).run comment.toList = outside k ↔ (outside k).run text.toList = outside k := by
  rw [run_comment hindent h]
  constructor
  · intro hsettled
    have hnone : ((outside k).run text.toList).quote = none := by
      rw [← quote_settle ((sound_outside k).run _), hsettled]
      rfl
    rwa [settle, step_plain (by decide) hnone] at hsettled
  · intro hpassed
    rw [hpassed, settle_outside]

end SchemaDecl.TypeScript.Scan
