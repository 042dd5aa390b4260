import Mathlib.Tactic.SplitIfs
import SchemaDecl.Json.Quoted
import SchemaDecl.TypeScript.Composite

/-! What the scan for operators passes over. A text is passed over from a depth
on if the scan comes out of it as it went in, outside of quotes and at the same
depth, wherever it starts at that depth or deeper. From depth zero on these are
the texts without an operator of their own; from depth one on, the texts that
may stand inside brackets. -/

namespace SchemaDecl.TypeScript.Scan

/-- The scan outside of quotes at a depth, with nothing found. -/
def outside (depth : Int) : Scan := ⟨depth, none, false, false⟩

theorem start_eq : start = outside 0 := rfl

/-- The scan comes out of the text as it went in, at this depth and deeper. -/
def Passed (low : Int) (cs : List Char) : Prop :=
  ∀ k, low ≤ k → (outside k).run cs = outside k

theorem run_nil (s : Scan) : s.run [] = s := rfl

theorem run_cons (s : Scan) (c : Char) (cs : List Char) : s.run (c :: cs) = (s.step c).run cs := rfl

theorem Passed.mono {low high : Int} (hle : low ≤ high) {cs : List Char} (h : Passed low cs) :
    Passed high cs := fun k hk => h k (by omega)

theorem passed_nil (low : Int) : Passed low [] := fun _ _ => rfl

theorem Passed.append {low : Int} {a b : List Char} (ha : Passed low a) (hb : Passed low b) :
    Passed low (a ++ b) := by
  intro k hk
  rw [run_append, ha k hk, hb k hk]

/-! Single characters. -/

/-- A character the scan takes no notice of outside of quotes. -/
def isPlain (c : Char) : Bool := !(isQuote c || isOpening c || isClosing c || isOperator c)

theorem step_plain {c : Char} (h : isPlain c = true) {s : Scan} (hs : s.quote = none) :
    s.step c = s := by
  simp only [isPlain, Bool.not_eq_true', Bool.or_eq_false_iff] at h
  obtain ⟨⟨⟨hquote, hopening⟩, hclosing⟩, hoperator⟩ := h
  simp [step, hs, hquote, hopening, hclosing, hoperator]

theorem step_operator {c : Char} (h : isOperator c = true) {k : Int} (hk : k ≠ 0) :
    (outside k).step c = outside k := by
  have hc : c = '|' ∨ c = '&' := by simpa [isOperator] using h
  rcases hc with rfl | rfl <;> simp [step, outside, isQuote, isOpening, isClosing, isOperator, hk]

theorem step_operator_zero {c : Char} (h : isOperator c = true) :
    ((outside 0).step c).found = true := by
  have hc : c = '|' ∨ c = '&' := by simpa [isOperator] using h
  rcases hc with rfl | rfl <;> rfl

theorem step_opening {c : Char} (h : isOpening c = true) (k : Int) :
    (outside k).step c = outside (k + 1) := by
  have hc : ((c = '(' ∨ c = '[') ∨ c = '\x7b') ∨ c = '<' := by simpa [isOpening] using h
  rcases hc with ((rfl | rfl) | rfl) | rfl <;> rfl

theorem step_closing {c : Char} (h : isClosing c = true) (k : Int) :
    (outside (k + 1)).step c = outside k := by
  have hc : ((c = ')' ∨ c = ']') ∨ c = '\x7d') ∨ c = '>' := by simpa [isClosing] using h
  rcases hc with ((rfl | rfl) | rfl) | rfl <;>
    simp [step, outside, isQuote, isOpening, isClosing]

theorem passed_plain (low : Int) {cs : List Char} (h : cs.all isPlain = true) :
    Passed low cs := by
  intro k _
  induction cs with
  | nil => rfl
  | cons c cs ih =>
    rw [List.all_cons, Bool.and_eq_true] at h
    rw [run_cons, step_plain h.1 rfl]
    exact ih h.2

/-- Inside of brackets operators do not count. -/
theorem run_inside {k : Int} (hk : k ≠ 0) {cs : List Char}
    (h : (cs.all fun c => isPlain c || isOperator c) = true) :
    (outside k).run cs = outside k := by
  induction cs with
  | nil => rfl
  | cons c cs ih =>
    rw [List.all_cons, Bool.and_eq_true, Bool.or_eq_true] at h
    have hstep : (outside k).step c = outside k := by
      rcases h.1 with hc | hc
      · exact step_plain hc rfl
      · exact step_operator hc hk
    rw [run_cons, hstep]
    exact ih h.2

theorem passed_inside {cs : List Char} (h : (cs.all fun c => isPlain c || isOperator c) = true) :
    Passed 1 cs := fun k hk => run_inside (by omega) h

/-- What may stand inside brackets is passed over together with them. -/
theorem Passed.bracketed {low : Int} {opening closing : Char} (ho : isOpening opening = true)
    (hc : isClosing closing = true) {cs : List Char} (h : Passed (low + 1) cs) :
    Passed low (opening :: (cs ++ [closing])) := by
  intro k hk
  rw [run_cons, step_opening ho, run_append, h (k + 1) (by omega), run_cons, step_closing hc]
  rfl

theorem Passed.parentheses {low : Int} {text : String} (h : Passed (low + 1) text.toList) :
    Passed low ("(" ++ text ++ ")").toList := by
  have hbracketed : Passed low ('(' :: (text.toList ++ [')'])) := h.bracketed rfl rfl
  simpa [String.toList_append] using hbracketed

theorem Passed.brackets {low : Int} {text : String} (h : Passed (low + 1) text.toList) :
    Passed low ("[" ++ text ++ "]").toList := by
  have hbracketed : Passed low ('[' :: (text.toList ++ [']'])) := h.bracketed rfl rfl
  simpa [String.toList_append] using hbracketed

theorem Passed.braces {low : Int} {text : String} (h : Passed (low + 1) text.toList) :
    Passed low ("\x7b" ++ text ++ "\x7d").toList := by
  have hbracketed : Passed low ('\x7b' :: (text.toList ++ ['\x7d'])) := h.bracketed rfl rfl
  simpa [String.toList_append] using hbracketed

/-! Quoted text. -/

/-- The scan inside double quotes. -/
def quoted (depth : Int) : Scan := ⟨depth, some '"', false, false⟩

theorem run_quoted_escaped (k : Int) (c : Char) (cs : List Char) :
    (quoted k).run ('\\' :: c :: cs) = (quoted k).run cs := by
  rw [run_cons, run_cons]
  rfl

theorem step_quoted {c : Char} (hquote : c ≠ '"') (hslash : c ≠ '\\') (k : Int) :
    (quoted k).step c = quoted k := by
  simp [step, quoted, hquote, hslash]

theorem run_quoted_other {cs : List Char} (h : ∀ c ∈ cs, c ≠ '"' ∧ c ≠ '\\') (k : Int) :
    (quoted k).run cs = quoted k := by
  induction cs with
  | nil => rfl
  | cons c cs ih =>
    obtain ⟨hquote, hslash⟩ := h c List.mem_cons_self
    rw [run_cons, step_quoted hquote hslash]
    exact ih fun d hd => h d (List.mem_cons_of_mem _ hd)

theorem hexDigit_ne (n : Nat) : Json.hexDigit n ≠ '"' ∧ Json.hexDigit n ≠ '\\' := by
  have hall : ∀ m < 16, Nat.digitChar m ≠ '"' ∧ Nat.digitChar m ≠ '\\' := by decide
  exact hall (n % 16) (Nat.mod_lt n (by omega))

theorem hexDigits_ne (width n : Nat) : ∀ c ∈ Json.hexDigits width n, c ≠ '"' ∧ c ≠ '\\' := by
  induction width generalizing n with
  | zero => simp [Json.hexDigits]
  | succ width ih =>
    intro c hc
    rw [Json.hexDigits, List.mem_append, List.mem_singleton] at hc
    rcases hc with hc | rfl
    · exact ih (n / 16) c hc
    · exact hexDigit_ne n

theorem run_quoted_escape (k : Int) (c : Char) : (quoted k).run (Json.escape c) = quoted k := by
  unfold Json.escape
  split_ifs with hquote hslash
  · exact run_quoted_escaped k _ []
  · exact run_quoted_escaped k _ []
  · exact run_quoted_escaped k _ []
  · exact run_quoted_escaped k _ []
  · exact run_quoted_escaped k _ []
  · exact run_quoted_escaped k _ []
  · exact run_quoted_escaped k _ []
  · rw [run_quoted_escaped]
    exact run_quoted_other (hexDigits_ne 4 _) k
  · exact run_quoted_other (by simp [hquote, hslash]) k

/-- A string literal is passed over, whatever the string. -/
theorem passed_quote (low : Int) (cs : List Char) : Passed low (Json.quoteChars cs) := by
  intro k _
  have hbody : (quoted k).run (cs.flatMap Json.escape) = quoted k := by
    induction cs with
    | nil => rfl
    | cons c cs ih => rw [List.flatMap_cons, run_append, run_quoted_escape, ih]
  have hopen : (outside k).step '"' = quoted k := rfl
  have hclose : (quoted k).step '"' = outside k := by simp [step, quoted, outside]
  rw [Json.quoteChars, run_cons, hopen, run_append, hbody, run_cons, hclose]
  rfl

/-! Pieces put together. -/

theorem passed_intercalate {low : Int} {separator : String} (hs : Passed low separator.toList)
    {pieces : List String} (h : ∀ piece ∈ pieces, Passed low piece.toList) :
    Passed low (String.intercalate separator pieces).toList := by
  induction pieces with
  | nil => exact passed_nil low
  | cons piece rest ih =>
    have hrest := ih fun p hp => h p (List.mem_cons_of_mem _ hp)
    cases rest with
    | nil =>
      rw [String.intercalate_singleton]
      exact h piece List.mem_cons_self
    | cons next rest =>
      rw [String.intercalate_cons_cons, String.toList_append, String.toList_append]
      exact ((h piece List.mem_cons_self).append hs).append hrest

/-! What the verdict is. -/

/-- Passed over from depth zero on, a text is no union and no intersection. -/
theorem Passed.not_composite {text : String} (h : Passed 0 text.toList) :
    isComposite text = false := by
  rw [isComposite, start_eq, h 0 (Int.le_refl 0), outside]

theorem Passed.parenthesize_eq {text : String} (h : Passed 0 text.toList) :
    parenthesize text = text := by
  rw [parenthesize, h.not_composite, if_neg Bool.false_ne_true]

end SchemaDecl.TypeScript.Scan
