import SchemaDecl.Proofs.TypeScript.Atoms
import SchemaDecl.Proofs.TypeScript.CodeScan
import SchemaDecl.Proofs.TypeScript.Renaming
import SchemaDecl.Proofs.TypeScript.Texts

/-! Texts that the check of written code goes over without being left inside of
a comment, a string or a pair of braces. All that the renderer puts together is
of this kind, whatever strings it is given: in a string literal nothing ends the
string early, and in a comment no line ends the comment. To the scan a name is
one character that means nothing, so a name may be put in the place of another,
and blanks at the end of a text are as good as none. -/

namespace SchemaDecl.TypeScript.OutputCheck

/-! Characters without a meaning of their own. -/

/-- The characters that some mode takes notice of. -/
def signs : List Char := "/*\"'\\\n\x7b\x7d".toList

def isDull (c : Char) : Bool := !signs.contains c

/-- A class of characters is dull if no sign belongs to it. -/
theorem isDull_of {p : Char → Bool} (hno : signs.any p = false) {c : Char} (h : p c = true) :
    isDull c = true := by
  rw [isDull, Bool.not_eq_true', ← Bool.not_eq_true, List.contains_iff_mem]
  exact fun hmem => List.any_eq_false.1 hno c hmem h

/-- A class of characters is dull but for the line feed if no other sign belongs to it. -/
theorem isDull_or_feed {p : Char → Bool} (hno : (signs.erase '\n').any p = false) {c : Char}
    (h : p c = true) : isDull c = true ∨ c = '\n' := by
  by_cases hfeed : c = '\n'
  · exact .inr hfeed
  · refine .inl ?_
    rw [isDull, Bool.not_eq_true', ← Bool.not_eq_true, List.contains_iff_mem]
    exact fun hmem => List.any_eq_false.1 hno c ((List.mem_erase_of_ne hfeed).2 hmem) h

namespace Reading

theorem step_dull {c : Char} (hc : isDull c = true) (s : Reading) :
    s.step c = ⟨s.mode.reset, s.depth⟩ := by
  have hne : ∀ d ∈ signs, c ≠ d := by
    rintro d hd rfl
    rw [isDull, Bool.not_eq_true', ← Bool.not_eq_true, List.contains_iff_mem] at hc
    exact hc hd
  have hsigns : c ≠ '/' ∧ c ≠ '*' ∧ c ≠ '"' ∧ c ≠ '\'' ∧ c ≠ '\\' ∧ c ≠ '\n' ∧ c ≠ '\x7b' ∧
      c ≠ '\x7d' := by
    refine ⟨?_, ?_, ?_, ?_, ?_, ?_, ?_, ?_⟩ <;> exact hne _ (by decide)
  obtain ⟨hslash, hstar, hdouble, hsingle, hback, hfeed, hopen, hclose⟩ := hsigns
  have hbrace : brace c = 0 := by simp [brace, hopen, hclose]
  have hmark : ∀ q : Quote, c ≠ q.mark := fun q => by cases q <;> assumption
  rcases s with ⟨mode, depth⟩
  cases mode <;> simp [step, Mode.next, Mode.ofCode, Mode.isCode, Mode.reset, *]

theorem run_dull {cs : List Char} (hne : cs ≠ []) (h : cs.all isDull = true) (s : Reading) :
    s.run cs = ⟨s.mode.reset, s.depth⟩ := by
  induction cs generalizing s with
  | nil => exact absurd rfl hne
  | cons c cs ih =>
    rw [List.all_cons, Bool.and_eq_true] at h
    rw [run_cons, step_dull h.1]
    by_cases hcs : cs = []
    · rw [hcs]
      rfl
    · rw [ih hcs h.2]
      cases s.mode <;> rfl

end Reading

open Reading

/-! The class of texts. -/

/-- The text takes the scan from code to code, at the depth at which it began. -/
def Closes (s : String) : Prop := ∀ d, run ⟨.code, d⟩ s.toList = ⟨.code, d⟩

theorem Closes.append {a b : String} (ha : Closes a) (hb : Closes b) : Closes (a ++ b) := by
  intro d
  rw [String.toList_append, run_append, ha, hb]

/-- A class of characters whose only sign is the line feed means nothing to a scan that has
nothing to end. -/
theorem run_of_class {p : Char → Bool} (hp : (signs.erase '\n').any p = false) {s : Reading}
    (hreset : s.mode.reset = s.mode) (hfeed : s.step '\n' = s) {cs : List Char}
    (h : cs.all p = true) : s.run cs = s := by
  induction cs with
  | nil => rfl
  | cons c cs ih =>
    rw [List.all_cons, Bool.and_eq_true] at h
    have hstep : s.step c = s := by
      rcases isDull_or_feed hp h.1 with hdull | rfl
      · rw [step_dull hdull, hreset]
      · exact hfeed
    rw [run_cons, hstep]
    exact ih h.2

theorem feed_code (d : Int) : step ⟨.code, d⟩ '\n' = ⟨.code, d⟩ := by
  rw [step_code (by decide) (by decide) (by decide)]
  exact congrArg _ (Int.add_zero d)

theorem run_code {p : Char → Bool} (hp : (signs.erase '\n').any p = false) {cs : List Char}
    (h : cs.all p = true) (d : Int) : run ⟨.code, d⟩ cs = ⟨.code, d⟩ :=
  run_of_class hp rfl (feed_code d) h

theorem closes_of_quiet {s : String} (h : s.toList.all isQuiet = true) : Closes s :=
  fun d => run_code (p := isQuiet) (by decide) h d

theorem closes_of_name {s : String} (h : s.toList.all Name.isNameChar = true) : Closes s :=
  fun d => run_code (p := Name.isNameChar) (by decide) h d

/-! String literals. -/

theorem run_escape (c : Char) (d : Int) :
    run ⟨.quoted .double, d⟩ (Json.escape c) = ⟨.quoted .double, d⟩ := by
  have hother : ∀ {x : Char}, x ≠ '"' → x ≠ '\\' →
      step ⟨.quoted .double, d⟩ x = ⟨.quoted .double, d⟩ := by
    intro x hquote hslash
    simp [step, Mode.next, Mode.isCode, Quote.mark, hquote, hslash]
  rcases Json.escape_cases c with ⟨hself, hquote, hslash⟩ | ⟨sign, code, hescape, _, hcode⟩
  · rw [hself, run_cons, hother hquote hslash]
    rfl
  · have hback : step ⟨.quoted .double, d⟩ '\\' = ⟨.escaped .double, d⟩ := by
      simp [step, Mode.next, Mode.isCode]
    have hsign : step ⟨.escaped .double, d⟩ sign = ⟨.quoted .double, d⟩ := by
      simp [step, Mode.next, Mode.isCode]
    have hhex : "0123456789abcdef".toList.all isDull = true := by decide
    rw [hescape, run_cons, hback, run_cons, hsign]
    by_cases hnil : code = []
    · rw [hnil]
      rfl
    · exact run_dull hnil (List.all_eq_true.2 fun x hx => List.all_eq_true.1 hhex x (hcode x hx)) _

theorem closes_quote (s : String) : Closes (Json.quote s) := by
  intro d
  have hbody : ∀ cs : List Char,
      run ⟨.quoted .double, d⟩ (cs.flatMap Json.escape) = ⟨.quoted .double, d⟩ := by
    intro cs
    induction cs with
    | nil => rfl
    | cons c cs ih => rw [List.flatMap_cons, run_append, run_escape, ih]
  have hclose : step ⟨.quoted .double, d⟩ '"' = ⟨.code, d⟩ := by
    simp [step, Mode.next, Mode.isCode, Quote.mark]
  have hopen : step ⟨.code, d⟩ '"' = ⟨.quoted .double, d⟩ := step_mark .double d
  rw [Json.toList_quote, Json.quoteChars, run_cons, hopen, run_append, hbody, run_cons, hclose]
  rfl

/-! Comments. -/

/-- From inside of a comment the scan stays there, at the depth at which it began. -/
def Inside (cs : List Char) : Prop :=
  ∀ d, run ⟨.block, d⟩ cs = ⟨.block, d⟩ ∨ run ⟨.block, d⟩ cs = ⟨.star, d⟩

theorem afterComment_of_absent {cs : List Char} (h : ¬ "*/".toList <:+: cs) :
    afterComment? cs = none := by
  fun_induction afterComment? cs with
  | case1 => rfl
  | case2 rest => exact absurd (List.prefix_append "*/".toList rest).isInfix h
  | case3 c rest hno ih => exact ih fun hin => h (List.infix_cons hin)

theorem inside_of_absent {cs : List Char} (h : ¬ "*/".toList <:+: cs) : Inside cs := by
  intro d
  have hrun := run_block cs d
  rwa [afterComment_of_absent h] at hrun

/-- A line feed in a comment leads to a new line of the comment. -/
theorem run_feed {cs : List Char} (h : Inside cs) (rest : List Char) (d : Int) :
    run ⟨.block, d⟩ (cs ++ '\n' :: rest) = run ⟨.block, d⟩ rest := by
  have hfeed : step ⟨.block, d⟩ '\n' = ⟨.block, d⟩ ∧ step ⟨.star, d⟩ '\n' = ⟨.block, d⟩ := by
    simp [step, Mode.next, Mode.isCode]
  rw [run_append, run_cons]
  rcases h d with hrun | hrun
  · rw [hrun, hfeed.1]
  · rw [hrun, hfeed.2]

/-- No end of a comment is left once each was written differently. -/
theorem not_infix_escapeEnd (n : Nat) (cs : List Char) :
    ¬ "*/".toList <:+: Text.replaceFrom "*/".toList "*\\/".toList n cs := by
  have hend : "*/".toList = ['*', '/'] := by decide
  fun_induction Text.replaceFrom "*/".toList "*\\/".toList n cs with
  | case1 => exact fun hin => absurd (List.eq_nil_of_infix_nil hin) (by decide)
  | case2 n c rest ih => exact ih
  | case3 c rest hmatch ih =>
    have hescape : "*\\/".toList = ['*', '\\', '/'] := by decide
    rw [hend] at ih ⊢
    rw [hescape]
    simpa [List.infix_cons_iff] using ih
  | case4 c rest hno ih =>
    intro hin
    rcases List.infix_cons_iff.1 hin with hprefix | hin
    · -- a slash that is left stood there before
      rw [hend, List.cons_prefix_cons] at hprefix
      obtain ⟨rfl, hslash⟩ := hprefix
      cases rest with
      | nil => simp [Text.replaceFrom] at hslash
      | cons x rest =>
        rw [Text.replaceFrom] at hslash
        split at hslash
        · cases (List.cons_prefix_cons.1 hslash).1
        · rw [← (List.cons_prefix_cons.1 hslash).1] at hno
          exact hno rfl
    · exact ih hin

theorem not_mem_of_isQuiet {cs : List Char} (h : cs.all isQuiet = true) : '/' ∉ cs :=
  fun hmem => absurd (List.all_eq_true.1 h _ hmem) (by decide)

theorem inside_commentLines {indent : String} (hindent : indent.toList.all isQuiet = true)
    (text : String) : Inside (Text.joinLines (commentLines indent text)).toList := by
  refine Text.intercalate_closed (P := fun s => Inside s.toList) (fun d => .inl rfl) ?_ ?_
  · intro a b ha hb d
    have hfeed : (a ++ "\n" ++ b).toList = a.toList ++ '\n' :: b.toList := by
      simp [String.toList_append]
    rw [hfeed, run_feed ha]
    exact hb d
  · intro line hline
    obtain ⟨cs, hcs, hprefix⟩ := mem_commentLines hline
    refine inside_of_absent fun hin => ?_
    -- an end of a comment in the line would have to lie behind its star
    have hspace : indent.toList ++ " * ".toList ++ cs =
        (indent.toList ++ " *".toList) ++ ' ' :: cs := by simp
    rcases Text.infix_across (by decide) (hspace ▸ hin.trans hprefix.isInfix) with hstart | hrest
    · have hslash := hstart.subset (List.mem_cons_of_mem '*' (List.mem_singleton_self '/'))
      rcases List.mem_append.1 hslash with hmem | hmem
      · exact not_mem_of_isQuiet hindent hmem
      · revert hmem
        decide
    · exact not_infix_escapeEnd 0 _ (hrest.trans hcs)

theorem closes_comment {indent text comment : String} (hindent : indent.toList.all isQuiet = true)
    (h : comment? indent text = some comment) : Closes comment := by
  intro d
  have hquiet : (signs.erase '\n').any isQuiet = false := by decide
  have hopen : run ⟨.code, d⟩ "/**\n".toList = ⟨.block, d⟩ := by
    simp [run, step, Mode.next, Mode.ofCode, Mode.isCode, brace]
  have hfeed : step ⟨.block, d⟩ '\n' = ⟨.block, d⟩ := by
    simp [step, Mode.next, Mode.isCode]
  have hclose : run ⟨.block, d⟩ " */".toList = ⟨.code, d⟩ := by
    simp [run, step, Mode.next, Mode.isCode]
  have htext : comment.toList = indent.toList ++ ("/**\n".toList ++
      ((Text.joinLines (commentLines indent text)).toList ++
        '\n' :: (indent.toList ++ " */".toList))) := by
    simp [comment_eq h, String.toList_append]
  rw [htext, run_append, run_code hquiet hindent, run_append, hopen,
    run_feed (inside_commentLines hindent text), run_append, run_of_class hquiet rfl hfeed hindent,
    hclose]

/-- Whatever strings the renderer is given, its texts are closed. -/
theorem rendersInto_closes : RendersInto (fun _ => True) Closes where
  empty _ := rfl
  across ha hw _ hb := (ha.append (closes_of_quiet hw)).append hb
  braces {a} ha := by
    intro d
    have hopen : step ⟨.code, d⟩ '\x7b' = ⟨.code, d + 1⟩ :=
      step_code (by decide) (by decide) (by decide) d
    have hclose : step ⟨.code, d + 1⟩ '\x7d' = ⟨.code, d⟩ := by
      rw [step_code (by decide) (by decide) (by decide)]
      exact congrArg _ (Int.add_neg_cancel_right d 1)
    rw [String.toList_append, String.toList_append, run_append, run_append]
    show run (run (step ⟨.code, d⟩ '\x7b') a.toList) ['\x7d'] = ⟨.code, d⟩
    rw [hopen, ha, run_cons, hclose]
    rfl
  quote {s} _ := closes_quote s
  bare {s} _ hbare := fun d => run_code (by decide) (Scan.all_of_isBareName hbare) d
  comment hindent _ h := closes_comment hindent h
  calm _ := trivial
  word {s} hs := by
    have hnames : ∀ word ∈ ["NaN", "Infinity"], word.toList.all Name.isNameChar = true := by decide
    have hsign : Closes "-" := closes_of_quiet (by decide)
    refine ⟨trivial, ?_⟩
    simp only [List.mem_cons, List.not_mem_nil, or_false] at hs
    rcases hs with rfl | rfl | rfl
    · exact closes_of_name (hnames _ (by decide))
    · exact closes_of_name (hnames _ (by decide))
    · exact hsign.append (b := "Infinity") (closes_of_name (hnames _ (by decide)))

theorem closes_join {pieces : List String} (h : ∀ piece ∈ pieces, Closes piece) :
    Closes (String.join pieces) := by
  induction pieces with
  | nil => exact fun _ => rfl
  | cons piece rest ih =>
    rw [String.join_cons]
    exact (h piece List.mem_cons_self).append (ih fun p hp => h p (List.mem_cons_of_mem _ hp))

/-- A look-up into a named type is closed, whatever the keys. -/
theorem closes_access {root : String} (hroot : root.toList.all Name.isNameChar = true)
    (keys : List String) : Closes (IndexedAccess.render ⟨root, keys⟩) := by
  have hopening : Closes (IndexedAccess.opening keys) := by
    refine closes_join fun piece hpiece => ?_
    obtain ⟨_, _, rfl⟩ := List.mem_map.1 hpiece
    exact fun d => run_code (p := fun c => Name.isNameChar c || c = '<') (by decide) (by decide) d
  have hclosing : Closes (IndexedAccess.closing keys) := by
    refine closes_join fun piece hpiece => ?_
    obtain ⟨key, _, rfl⟩ := List.mem_map.1 hpiece
    have hend : Closes "]>" := fun d =>
      run_code (p := fun c => c = ']' || c = '>') (by decide) (by decide) d
    exact ((closes_of_quiet (s := "[") (by decide)).append (closes_quote key)).append hend
  exact (hopening.append (closes_of_name hroot)).append hclosing

/-! Names in the place of names. -/

theorem run_name {cs : List Char} (hne : cs ≠ []) (h : cs.all Name.isNameChar = true)
    (s : Reading) : s.run cs = ⟨s.mode.reset, s.depth⟩ :=
  run_dull hne (List.all_eq_true.2 fun c hc =>
    isDull_of (p := Name.isNameChar) (by decide) (List.all_eq_true.1 h c hc)) s

/-- One name is read as the other. -/
theorem run_replaceFrom {old new : List Char} (hold : old ≠ []) (hnew : new ≠ [])
    (hold' : old.all Name.isNameChar = true) (hnew' : new.all Name.isNameChar = true)
    (s : Reading) (cs : List Char) : s.run (Text.replaceFrom old new 0 cs) = s.run cs := by
  induction hn : cs.length using Nat.strong_induction_on generalizing s cs with
  | _ n ih =>
    rcases Text.replaceFrom_cases new hold cs with ⟨_, hsame⟩ | ⟨a, b, hcs, hreplaced⟩
    · rw [hsame]
    · have hshorter : b.length < n := by
        have hlength := congrArg List.length hcs
        have hpos := List.length_pos_of_ne_nil hold
        simp only [List.length_append] at hlength
        omega
      rw [hreplaced, hcs, run_append, run_append, run_append, run_append, run_name hnew hnew',
        run_name hold hold', ih b.length hshorter _ b rfl]

theorem Closes.rename {typeName : String} (hname : Name.isIdentifier typeName.toList = true)
    {text : String} (h : Closes text) : Closes (rename typeName text) := by
  have hne : typeName.toList ≠ [] := by
    intro hnil
    rw [hnil] at hname
    cases hname
  intro d
  rw [toList_rename, run_replaceFrom placeholder_ne_nil hne (by decide)
    (Scan.all_isNameChar_of_isIdentifier hname)]
  exact h d

/-! Blanks at the ends. -/

/-- No blank ends a comment with an end of its own, or a string. -/
theorem outside_of_blank {c : Char} (hc : Text.isBlank c = true) {s : Reading}
    (h : (s.step c).mode.isOutside = true) :
    s.mode.isOutside = true ∧ (s.step c).depth = s.depth := by
  rcases s with ⟨mode, depth⟩
  rcases isDull_or_feed (p := Text.isBlank) (by decide) hc with hdull | rfl
  · rw [step_dull hdull] at h ⊢
    cases mode <;> simp_all [Mode.reset, Mode.isOutside]
  · rcases mode with _ | _ | _ | _ | _ | (_ | _) | (_ | _) <;>
      simp_all [step, Mode.next, Mode.ofCode, Mode.isOutside, Mode.isCode, Quote.mark, brace]

theorem outside_of_blanks {cs : List Char} (hcs : cs.all Text.isBlank = true) {s : Reading}
    (h : (s.run cs).mode.isOutside = true) :
    s.mode.isOutside = true ∧ (s.run cs).depth = s.depth := by
  induction cs generalizing s with
  | nil => exact ⟨h, rfl⟩
  | cons c cs ih =>
    rw [List.all_cons, Bool.and_eq_true] at hcs
    obtain ⟨hmode, hdepth⟩ := ih hcs.2 h
    obtain ⟨hfirst, hsame⟩ := outside_of_blank hcs.1 hmode
    exact ⟨hfirst, hdepth.trans hsame⟩

theorem step_feed {s : Reading} (h : s.mode.isOutside = true) :
    s.step '\n' = ⟨.code, s.depth⟩ := by
  rcases s with ⟨mode, depth⟩
  cases mode <;> simp_all [step, Mode.next, Mode.ofCode, Mode.isOutside, Mode.isCode, brace]

theorem check_of_run {text : String} (hrun : run ⟨.code, 0⟩ text.toList = ⟨.code, 0⟩)
    (hexport : Text.contains "export " text = true) : check text = .ok () := by
  have hcount := depth_run (Nat.le_refl _) (by rw [hrun]; rfl)
  rw [hrun] at hcount
  dsimp only at hcount
  have hequal : (code text.toList).count '\x7b' = (code text.toList).count '\x7d' := by
    unfold code
    omega
  simp only [check, hexport, Bool.not_true, Bool.false_eq_true, if_false, hequal, if_true]

/-- A closed text passes the check also when it is trimmed and its last line is ended. -/
theorem check_strip {text : String} (hclosed : Closes text)
    (hexport : Text.contains "export " (Text.strip text ++ "\n") = true) :
    check (Text.strip text ++ "\n") = .ok () := by
  obtain ⟨before, after, htext, hbefore, hafter⟩ := Text.trim_spec text.toList
  have hblank : (signs.erase '\n').any Text.isBlank = false := by decide
  have hwhole : (run ⟨.code, 0⟩ (Text.trim text.toList)).run after = ⟨.code, 0⟩ := by
    have hrun := hclosed 0
    rwa [htext, run_append, run_append, run_code hblank hbefore] at hrun
  obtain ⟨houtside, hdepth⟩ := outside_of_blanks hafter (by rw [hwhole]; rfl)
  rw [hwhole] at hdepth
  refine check_of_run ?_ hexport
  have hlist : (Text.strip text ++ "\n").toList = Text.trim text.toList ++ ['\n'] := by
    rw [String.toList_append, Text.toList_strip]
    rfl
  rw [hlist, run_append, run_cons, step_feed houtside, ← hdepth]
  rfl

end SchemaDecl.TypeScript.OutputCheck
