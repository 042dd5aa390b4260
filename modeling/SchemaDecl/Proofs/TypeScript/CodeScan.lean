import SchemaDecl.Proofs.Text.Pieces
import SchemaDecl.TypeScript.OutputCheck

/-! The check of written code as a scan. The check cuts out one token after the
other; a scan that reads one character at a time and counts the braces it meets
in code comes to the same count, as long as it does not end inside of a comment
or a string. Unlike the cutting, the scan goes over a text piece by piece. -/

namespace SchemaDecl.TypeScript.OutputCheck

inductive Quote
  | single
  | double
  deriving DecidableEq

def Quote.mark : Quote → Char
  | .single => '\''
  | .double => '"'

/-- Where a character is read: in code, perhaps behind a slash, in a comment that ends with the
line or in one with an end of its own, perhaps behind a star, or in a string. -/
inductive Mode
  | code
  | slash
  | line
  | block
  | star
  | quoted (quote : Quote)
  | escaped (quote : Quote)
  deriving DecidableEq

namespace Mode

def ofCode (c : Char) : Mode :=
  if c = '/' then .slash
  else if c = '"' then .quoted .double
  else if c = '\'' then .quoted .single
  else .code

def next : Mode → Char → Mode
  | .code, c => ofCode c
  | .slash, c => if c = '/' then .line else if c = '*' then .block else ofCode c
  | .line, c => if c = '\n' then .code else .line
  | .block, c => if c = '*' then .star else .block
  | .star, c => if c = '/' then .code else if c = '*' then .star else .block
  | .quoted q, c => if c = '\\' then .escaped q else if c = q.mark then .code else .quoted q
  | .escaped q, _ => .quoted q

/-- Whether braces count. -/
def isCode : Mode → Bool
  | .code | .slash => true
  | .line | .block | .star | .quoted _ | .escaped _ => false

/-- Whether the text may end here. -/
def isOutside : Mode → Bool
  | .code | .slash | .line => true
  | .block | .star | .quoted _ | .escaped _ => false

/-- The mode behind a character that no token starts or ends with. -/
def reset : Mode → Mode
  | .code | .slash => .code
  | .line => .line
  | .block | .star => .block
  | .quoted q | .escaped q => .quoted q

end Mode

def brace (c : Char) : Int := if c = '\x7b' then 1 else if c = '\x7d' then -1 else 0

/-- The mode and how many more braces were opened than closed. -/
structure Reading where
  mode : Mode
  depth : Int
  deriving DecidableEq

namespace Reading

def step (s : Reading) (c : Char) : Reading :=
  ⟨s.mode.next c, s.depth + if s.mode.isCode then brace c else 0⟩

def run (s : Reading) (cs : List Char) : Reading := cs.foldl step s

theorem run_cons (s : Reading) (c : Char) (cs : List Char) : s.run (c :: cs) = (s.step c).run cs :=
  rfl

theorem run_append (s : Reading) (a b : List Char) : s.run (a ++ b) = (s.run a).run b :=
  List.foldl_append ..

/-! The scan over one token. -/

theorem step_code {c : Char} (hslash : c ≠ '/') (hdouble : c ≠ '"') (hsingle : c ≠ '\'') (d : Int) :
    step ⟨.code, d⟩ c = ⟨.code, d + brace c⟩ := by
  simp [step, Mode.next, Mode.ofCode, Mode.isCode, hslash, hdouble, hsingle]

/-- Behind a slash that starts no comment, code goes on as if there were none. -/
theorem step_slash {c : Char} (hslash : c ≠ '/') (hstar : c ≠ '*') (d : Int) :
    step ⟨.slash, d⟩ c = step ⟨.code, d⟩ c := by
  simp [step, Mode.next, Mode.isCode, hslash, hstar]

/-- A comment is left behind its end, or not at all. -/
theorem run_block (cs : List Char) (d : Int) : match afterComment? cs with
    | some rest => run ⟨.block, d⟩ cs = run ⟨.code, d⟩ rest
    | none => run ⟨.block, d⟩ cs = ⟨.block, d⟩ ∨ run ⟨.block, d⟩ cs = ⟨.star, d⟩ := by
  have hblock : ∀ {c : Char}, c ≠ '*' → step ⟨.block, d⟩ c = ⟨.block, d⟩ := by
    intro c hc
    simp [step, Mode.next, Mode.isCode, hc]
  have hstar : step ⟨.block, d⟩ '*' = ⟨.star, d⟩ := by
    simp [step, Mode.next, Mode.isCode]
  -- behind a star, anything but the end is read as if the star were not there
  have hbehind : ∀ {c : Char}, c ≠ '/' → step ⟨.star, d⟩ c = step ⟨.block, d⟩ c := by
    intro c hc
    simp [step, Mode.next, Mode.isCode, hc]
  fun_induction afterComment? cs with
  | case1 => exact .inl rfl
  | case2 rest =>
    rw [run_cons, hstar, run_cons]
    simp [step, Mode.next, Mode.isCode]
  | case3 c rest hno ih =>
    by_cases hc : c = '*'
    · subst hc
      rw [run_cons, hstar]
      cases rest with
      | nil => exact .inr rfl
      | cons x rest =>
        have hx : x ≠ '/' := fun h => hno rest rfl (by rw [h])
        rw [run_cons, hbehind hx, ← run_cons]
        exact ih
    · rw [run_cons, hblock hc]
      exact ih

theorem run_quoted (q : Quote) (cs : List Char) (d : Int) : match afterQuote? q.mark cs with
    | some rest => run ⟨.quoted q, d⟩ cs = run ⟨.code, d⟩ rest
    | none => (run ⟨.quoted q, d⟩ cs).mode.isOutside = false := by
  have hquoted : ∀ {c : Char}, step ⟨.quoted q, d⟩ c = ⟨if c = '\\' then .escaped q
      else if c = q.mark then .code else .quoted q, d⟩ := by
    intro c
    simp [step, Mode.next, Mode.isCode]
  have hescaped : ∀ {c : Char}, step ⟨.escaped q, d⟩ c = ⟨.quoted q, d⟩ := by
    intro c
    simp [step, Mode.next, Mode.isCode]
  fun_induction afterQuote? q.mark cs with
  | case1 => rfl
  | case2 c rest ih =>
    rw [run_cons, hquoted, if_pos rfl, run_cons, hescaped]
    exact ih
  | case3 rest hno =>
    -- nothing is left to be escaped
    cases rest with
    | nil =>
      rw [run_cons, hquoted, if_pos rfl]
      rfl
    | cons x rest => exact absurd rfl (hno x rest rfl)
  | case4 rest hno hslash => rw [run_cons, hquoted, if_neg hslash, if_pos rfl]
  | case5 c rest hno hslash hmark ih =>
    rw [run_cons, hquoted, if_neg hslash, if_neg hmark]
    exact ih

theorem run_line (cs : List Char) (d : Int) :
    run ⟨.line, d⟩ cs = run ⟨.code, d⟩ (cs.dropWhile (· != '\n')) ∨
      cs.dropWhile (· != '\n') = [] ∧ run ⟨.line, d⟩ cs = ⟨.line, d⟩ := by
  induction cs with
  | nil => exact .inr ⟨rfl, rfl⟩
  | cons c cs ih =>
    by_cases hc : c = '\n'
    · subst hc
      exact .inl rfl
    · have hstep : step ⟨.line, d⟩ c = ⟨.line, d⟩ := by
        simp [step, Mode.next, Mode.isCode, hc]
      rw [run_cons, hstep, List.dropWhile_cons_of_pos (by simpa using hc)]
      exact ih

theorem step_mark (q : Quote) (d : Int) : step ⟨.code, d⟩ q.mark = ⟨.quoted q, d⟩ := by
  cases q <;> simp [step, Mode.next, Mode.ofCode, Mode.isCode, brace, Quote.mark]

/-- Two readings with the same count, both where the text may end or both where it may not. -/
structure Agree (s t : Reading) : Prop where
  depth : s.depth = t.depth
  outside : s.mode.isOutside = t.mode.isOutside

theorem Agree.of_eq {s t : Reading} (h : s = t) : Agree s t := ⟨by rw [h], by rw [h]⟩

/-- Code behind a slash that starts no comment. -/
theorem run_behind_slash {cs : List Char} (hblock : ∀ rest, cs ≠ '*' :: rest)
    (hline : ∀ rest, cs ≠ '/' :: rest) (d : Int) :
    Agree (run ⟨.slash, d⟩ cs) (run ⟨.code, d⟩ cs) := by
  cases cs with
  | nil => exact ⟨rfl, rfl⟩
  | cons c cs =>
    have hslash : c ≠ '/' := fun h => hline cs (by rw [h])
    have hstar : c ≠ '*' := fun h => hblock cs (by rw [h])
    rw [run_cons, step_slash hslash hstar, ← run_cons]
    exact .of_eq rfl

/-- The scan goes over a token that is cut out, and over a single character where there is none;
or it ends inside of a token. -/
theorem run_token (cs : List Char) (d : Int) : match afterToken? cs with
    | some rest => Agree (run ⟨.code, d⟩ cs) (run ⟨.code, d⟩ rest)
    | none => (run ⟨.code, d⟩ cs).mode.isOutside = false ∨
        ∀ c rest, cs = c :: rest → Agree (run ⟨.code, d⟩ cs) (run ⟨.code, d + brace c⟩ rest) := by
  have hstart : step ⟨.code, d⟩ '/' = ⟨.slash, d⟩ := by
    simp [step, Mode.next, Mode.ofCode, Mode.isCode, brace]
  have hquote : ∀ (q : Quote) (rest : List Char), match afterQuote? q.mark rest with
      | some after => Agree (run ⟨.code, d⟩ (q.mark :: rest)) (run ⟨.code, d⟩ after)
      | none => (run ⟨.code, d⟩ (q.mark :: rest)).mode.isOutside = false ∨
          ∀ c other, q.mark :: rest = c :: other →
            Agree (run ⟨.code, d⟩ (q.mark :: rest)) (run ⟨.code, d + brace c⟩ other) := by
    intro q rest
    have hrun := run_quoted q rest d
    rw [run_cons, step_mark]
    cases hafter : afterQuote? q.mark rest with
    | some after =>
      rw [hafter] at hrun
      exact .of_eq hrun
    | none =>
      rw [hafter] at hrun
      exact .inl hrun
  fun_cases afterToken? cs with
  | case1 rest =>
    have hopen : step ⟨.slash, d⟩ '*' = ⟨.block, d⟩ := by
      simp [step, Mode.next, Mode.isCode, brace]
    have hrun := run_block rest d
    rw [run_cons, hstart, run_cons, hopen]
    cases hafter : afterComment? rest with
    | some after =>
      rw [hafter] at hrun
      exact .of_eq hrun
    | none =>
      rw [hafter] at hrun
      refine .inl ?_
      rcases hrun with hrun | hrun <;> rw [hrun] <;> rfl
  | case2 rest =>
    have hopen : step ⟨.slash, d⟩ '/' = ⟨.line, d⟩ := by
      simp [step, Mode.next, Mode.isCode, brace]
    rw [run_cons, hstart, run_cons, hopen]
    rcases run_line rest d with hrun | ⟨hnil, hrun⟩
    · exact .of_eq hrun
    · rw [hrun, hnil]
      exact ⟨rfl, rfl⟩
  | case3 rest => exact hquote .single rest
  | case4 rest => exact hquote .double rest
  | case5 _ hblock hline hsingle hdouble =>
    refine .inr ?_
    rintro c rest rfl
    by_cases hslash : c = '/'
    · subst hslash
      have hnone : d + brace '/' = d := Int.add_zero d
      rw [run_cons, hstart, hnone]
      exact run_behind_slash (fun other h => hblock other (by rw [h]))
        (fun other h => hline other (by rw [h])) d
    · have hdouble : c ≠ '"' := fun h => hdouble rest (by rw [h])
      have hsingle : c ≠ '\'' := fun h => hsingle rest (by rw [h])
      rw [run_cons, step_code hslash hdouble hsingle]
      exact .of_eq rfl

/-! The count of the check. -/

theorem suffix_of_afterComment {cs rest : List Char} (h : afterComment? cs = some rest) :
    rest <:+ cs := by
  fun_induction afterComment? cs with
  | case1 => cases h
  | case2 other =>
    rw [Option.some.inj h]
    exact (List.suffix_cons _ _).trans (List.suffix_cons _ _)
  | case3 c other hno ih => exact (ih h).trans (List.suffix_cons _ _)

theorem suffix_of_afterQuote {q : Char} {cs rest : List Char} (h : afterQuote? q cs = some rest) :
    rest <:+ cs := by
  fun_induction afterQuote? q cs with
  | case1 => cases h
  | case2 c other ih => exact (ih h).trans ((List.suffix_cons _ _).trans (List.suffix_cons _ _))
  | case3 other hno => cases h
  | case4 other hno hslash =>
    rw [Option.some.inj h]
    exact List.suffix_cons _ _
  | case5 c other hno hslash hmark ih => exact (ih h).trans (List.suffix_cons _ _)

theorem length_of_afterToken {cs rest : List Char} (h : afterToken? cs = some rest) :
    rest.length < cs.length := by
  unfold afterToken? at h
  split at h
  · have hle := (suffix_of_afterComment h).length_le
    simp only [List.length_cons]
    omega
  · rename_i other
    have hle := (List.dropWhile_suffix (l := other) (· != '\n')).length_le
    rw [← Option.some.inj h]
    simp only [List.length_cons]
    omega
  · exact Nat.lt_succ_of_le (suffix_of_afterQuote h).length_le
  · exact Nat.lt_succ_of_le (suffix_of_afterQuote h).length_le
  · cases h

theorem count_cons (c : Char) (cs : List Char) :
    ((c :: cs).count '\x7b' : Int) - (c :: cs).count '\x7d' =
      brace c + (cs.count '\x7b' - cs.count '\x7d') := by
  have hne : ('\x7d' : Char) ≠ '\x7b' := by decide
  simp only [List.count_cons, brace, beq_iff_eq]
  by_cases hopen : c = '\x7b'
  · rw [hopen, if_pos rfl, if_neg hne.symm, if_pos rfl]
    omega
  · rw [if_neg hopen, if_neg hopen]
    split <;> omega

/-- A scan that does not end inside of a token has counted the braces outside of all tokens. -/
theorem depth_run {cs : List Char} {fuel : Nat} (hfuel : cs.length ≤ fuel) {d : Int}
    (hend : (run ⟨.code, d⟩ cs).mode.isOutside = true) : (run ⟨.code, d⟩ cs).depth =
      d + ((codeOf fuel cs).count '\x7b' - (codeOf fuel cs).count '\x7d') := by
  induction fuel generalizing cs d with
  | zero =>
    rw [List.length_eq_zero_iff.1 (Nat.le_zero.1 hfuel)]
    simp [run, codeOf]
  | succ fuel ih =>
    cases cs with
    | nil => simp [run, codeOf]
    | cons c cs =>
      rw [List.length_cons, Nat.add_le_add_iff_right] at hfuel
      have htoken := run_token (c :: cs) d
      rw [codeOf]
      cases hafter : afterToken? (c :: cs) with
      | some rest =>
        rw [hafter] at htoken
        have hlength := length_of_afterToken hafter
        rw [List.length_cons] at hlength
        rw [htoken.depth]
        exact ih (by omega) (htoken.outside ▸ hend)
      | none =>
        rw [hafter] at htoken
        rcases htoken with hinside | hcode
        · rw [hend] at hinside
          cases hinside
        · have hagree := hcode c cs rfl
          rw [hagree.depth, ih hfuel (hagree.outside ▸ hend), count_cons, Int.add_assoc]

end Reading

end SchemaDecl.TypeScript.OutputCheck
