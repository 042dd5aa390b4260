import Mathlib.Data.Bool.AllAny
import Mathlib.Data.List.Basic
import SchemaDecl.Json.Printer

/-! Printed values in a class of texts. A value is printed from its strings, in
quotes, and from signs, figures and lower-case words. A class of texts that is
closed under quoting and enclosing, and that takes no notice of calm characters
between two texts, has every printed value in it whose strings are right. Which
strings are, the class says itself. -/

namespace SchemaDecl

/-! Numbers. -/

namespace Number

/-- The characters of finite numbers. -/
def isFigure (c : Char) : Bool := c.isDigit || c = '.' || c = 'e' || c = '+' || c = '-'

theorem isFigure_of_isDigit {c : Char} (h : c.isDigit = true) : isFigure c = true := by
  simp [isFigure, h]

theorem isFigure_of_mem_toDigits {n : Nat} {c : Char} (h : c ∈ Nat.toDigits 10 n) :
    isFigure c = true :=
  isFigure_of_isDigit (Nat.isDigit_of_mem_toDigits (by decide) (by decide) h)

theorem isFigure_of_mem_nat {n : Nat} {c : Char} (h : c ∈ (toString n).toList) :
    isFigure c = true := by
  rw [Nat.toString_eq_repr, Nat.toList_repr] at h
  exact isFigure_of_mem_toDigits h

theorem isFigure_of_mem_int {n : Int} {c : Char} (h : c ∈ (toString n).toList) :
    isFigure c = true := by
  rw [Int.toString_eq_repr, Int.repr_eq_if] at h
  split at h
  · exact isFigure_of_mem_nat h
  · rw [String.toList_append, List.mem_append] at h
    rcases h with h | h
    · rw [List.mem_singleton.1 h]
      decide
    · exact isFigure_of_mem_nat h

theorem isFigure_of_mem_zeros {n : Nat} {c : Char} (h : c ∈ List.replicate n '0') :
    isFigure c = true := by
  rw [List.eq_of_mem_replicate h]
  decide

theorem isFigure_of_mem_positional {digits : List Char} (hd : ∀ c ∈ digits, isFigure c = true)
    {point : Int} {c : Char} (h : c ∈ positional digits point) : isFigure c = true := by
  unfold positional at h
  split at h
  · simp only [List.mem_cons, List.mem_append] at h
    rcases h with rfl | rfl | h | h
    · decide
    · decide
    · exact isFigure_of_mem_zeros h
    · exact hd c h
  · simp only [List.mem_append, List.mem_cons] at h
    rcases h with (h | h) | rfl | h
    · exact hd c (List.mem_of_mem_take h)
    · exact isFigure_of_mem_zeros h
    · decide
    · split at h
      · rw [List.mem_singleton.1 h]
        decide
      · exact hd c (List.mem_of_mem_drop h)

theorem isFigure_of_mem_exponential {style : Style} {digits : List Char}
    (hd : ∀ c ∈ digits, isFigure c = true) {exponent : Int} {c : Char}
    (h : c ∈ exponential style digits exponent) : isFigure c = true := by
  unfold exponential at h
  simp only [List.mem_append, List.mem_cons, padLeft] at h
  rcases h with h | rfl | h | h | h
  · split at h
    · simp only [List.mem_cons] at h
      rcases h with rfl | rfl | rfl | h
      · exact hd _ List.mem_cons_self
      · decide
      · exact hd _ (List.mem_cons_of_mem _ List.mem_cons_self)
      · exact hd _ (List.mem_cons_of_mem _ (List.mem_cons_of_mem _ h))
    · exact hd c h
  · decide
  · rw [h]
    split <;> decide
  · exact isFigure_of_mem_zeros h
  · exact isFigure_of_mem_toDigits h

/-- A number is written in figures unless it has one of the special words. -/
theorem write_cases (style : Style) (x : Double) :
    style.write x ∈ [style.nan, style.infinity, "-" ++ style.infinity] ∨
      (style.write x).toList.all isFigure = true := by
  have hsign : (if x.isNegative then "-" else "").toList.all isFigure = true := by
    split <;> decide
  have hdigits : ∀ n : Nat, ∀ c ∈ digitText n, isFigure c = true :=
    fun _ _ => isFigure_of_mem_toDigits
  have hzero : "0.0".toList.all isFigure = true := by decide
  unfold Style.write
  split
  · exact .inl (by simp)
  · dsimp only
    split
    · left
      split
      · simp
      · simp
    · right
      split
      · rw [String.toList_append, List.all_append, hsign, hzero, Bool.and_self]
      · rw [String.toList_append, List.all_append, hsign, Bool.true_and, String.toList_ofList,
          List.all_eq_true]
        intro c hc
        split at hc
        · exact isFigure_of_mem_positional (hdigits _) hc
        · exact isFigure_of_mem_exponential (hdigits _) hc

end Number

/-! The strings of a value. -/

def Key.texts : Key → List String
  | .str s => [s]
  | .null | .bool _ | .int _ | .float _ => []

namespace Json

mutual
/-- All strings in a value, the keys among them. -/
def texts : Json → List String
  | .str s => [s]
  | .arr items => textsItems items
  | .obj fields => textsFields fields
  | .null | .bool _ | .int _ | .float _ => []

def textsItems : List Json → List String
  | [] => []
  | x :: items => texts x ++ textsItems items

def textsFields : List (Key × Json) → List String
  | [] => []
  | (k, x) :: fields => k.texts ++ texts x ++ textsFields fields
end

theorem mem_textsItems {items : List Json} {s : String} :
    s ∈ textsItems items ↔ ∃ x ∈ items, s ∈ x.texts := by
  induction items with
  | nil => simp [textsItems]
  | cons y items ih => simp [textsItems, ih]

theorem mem_textsFields {fields : List (Key × Json)} {s : String} :
    s ∈ textsFields fields ↔ ∃ f ∈ fields, s ∈ f.1.texts ∨ s ∈ f.2.texts := by
  induction fields with
  | nil => simp [textsFields]
  | cons g fields ih => simp [textsFields, ih, or_assoc]

theorem texts_of_toKey? {x : Json} {k : Key} (h : x.toKey? = some k) : k.texts = x.texts := by
  cases x with
  | arr _ => cases h
  | obj _ => cases h
  | _ => rw [← Option.some.inj h]; rfl

theorem mem_hexDigits {width n : Nat} {c : Char} (h : c ∈ hexDigits width n) :
    c ∈ "0123456789abcdef".toList := by
  induction width generalizing n with
  | zero => cases h
  | succ width ih =>
    rw [hexDigits, List.mem_append, List.mem_singleton] at h
    rcases h with h | rfl
    · exact ih h
    · have hall : ∀ m < 16, Nat.digitChar m ∈ "0123456789abcdef".toList := by decide
      exact hall (n % 16) (Nat.mod_lt n (by omega))

/-- A character stands for itself, or a backslash is written and what names the character. -/
theorem escape_cases (c : Char) : (escape c = [c] ∧ c ≠ '"' ∧ c ≠ '\\') ∨
    ∃ sign code, escape c = '\\' :: sign :: code ∧ sign ∈ "\"\\nrtbfu".toList ∧
      ∀ d ∈ code, d ∈ "0123456789abcdef".toList := by
  unfold escape
  split_ifs with hquote hslash
  · exact .inr ⟨_, _, rfl, by decide, by simp⟩
  · exact .inr ⟨_, _, rfl, by decide, by simp⟩
  · exact .inr ⟨_, _, rfl, by decide, by simp⟩
  · exact .inr ⟨_, _, rfl, by decide, by simp⟩
  · exact .inr ⟨_, _, rfl, by decide, by simp⟩
  · exact .inr ⟨_, _, rfl, by decide, by simp⟩
  · exact .inr ⟨_, _, rfl, by decide, by simp⟩
  · exact .inr ⟨_, _, rfl, by decide, fun d hd => mem_hexDigits hd⟩
  · exact .inl ⟨rfl, hquote, hslash⟩

theorem escape_figure {c : Char} (h : Number.isFigure c = true) : escape c = [c] := by
  have hdigit : c.isDigit = true → 48 ≤ c.toNat ∧ c.toNat ≤ 57 := by
    intro hd
    simp only [Char.isDigit, Bool.and_eq_true, decide_eq_true_eq] at hd
    exact ⟨UInt32.le_iff_toNat_le.1 hd.1, UInt32.le_iff_toNat_le.1 hd.2⟩
  simp only [Number.isFigure, Bool.or_eq_true, decide_eq_true_eq] at h
  rcases h with (((h | rfl) | rfl) | rfl) | rfl
  · have hrange := hdigit h
    have hne : ∀ d : Char, d.toNat < 48 ∨ 57 < d.toNat → c ≠ d := by
      rintro d hd rfl
      omega
    rw [escape, if_neg (hne _ (by decide)), if_neg (hne _ (by decide)), if_neg (hne _ (by decide)),
      if_neg (hne _ (by decide)), if_neg (hne _ (by decide)), if_neg (by omega),
      if_neg (by omega), if_neg (by omega)]
  all_goals decide

/-- A text without anything to escape stands between the quotes as it is. -/
theorem quote_of_clear {s : String} (h : ∀ c ∈ s.toList, escape c = [c]) :
    "\"" ++ s ++ "\"" = quote s := by
  have hsame : s.toList.flatMap escape = s.toList := by
    rw [List.flatMap_congr h, List.flatMap_singleton']
  rw [← String.toList_inj, toList_quote, quoteChars, hsame]
  simp [String.toList_append]

end Json

/-! Classes of texts. -/

/-- A class of texts that is closed under putting a separator between two of them. -/
theorem Text.intercalate_closed {P : String → Prop} {separator : String} (hempty : P "")
    (hacross : ∀ {a b : String}, P a → P b → P (a ++ separator ++ b)) {pieces : List String}
    (hpieces : ∀ piece ∈ pieces, P piece) : P (String.intercalate separator pieces) := by
  induction pieces with
  | nil => exact hempty
  | cons piece rest ih =>
    have hpiece := hpieces piece List.mem_cons_self
    have hrest := ih fun p hp => hpieces p (List.mem_cons_of_mem _ hp)
    cases rest with
    | nil =>
      rw [String.intercalate_singleton]
      exact hpiece
    | cons next rest =>
      rw [String.intercalate_cons_cons]
      exact hacross hpiece hrest

/-- Lower-case letters, digits, blanks and the signs of lists and numbers. -/
def isCalm (c : Char) : Bool := c.isLower || c.isDigit || " \n.,:;?+-=".toList.contains c

/-- What the printer writes has the property `P`, if all strings it is given have `D`. -/
structure PrintsInto (D P : String → Prop) : Prop where
  empty : P ""
  across {a w b : String} : P a → w.toList.all isCalm = true → w ≠ "" → P b → P (a ++ w ++ b)
  brackets {a : String} : P a → P ("[" ++ a ++ "]")
  braces {a : String} : P a → P ("\x7b" ++ a ++ "\x7d")
  quote {s : String} : D s → P (Json.quote s)
  calm {s : String} : s.toList.all isCalm = true → D s
  word {s : String} : s ∈ ["NaN", "Infinity", "-Infinity"] → D s ∧ P s

theorem isCalm_of_isFigure {c : Char} (h : Number.isFigure c = true) : isCalm c = true := by
  simp only [Number.isFigure, Bool.or_eq_true, decide_eq_true_eq] at h
  rcases h with (((h | rfl) | rfl) | rfl) | rfl
  · simp [isCalm, h]
  all_goals decide

theorem all_isCalm {cs : List Char} (h : cs.all Number.isFigure = true) :
    cs.all isCalm = true :=
  List.all_eq_true.2 fun c hc => isCalm_of_isFigure (List.all_eq_true.1 h c hc)

namespace PrintsInto

variable {D P : String → Prop} (h : PrintsInto D P)
include h

theorem calmText {w : String} (hw : w.toList.all isCalm = true) : P w := by
  by_cases hne : w = ""
  · exact hne ▸ h.empty
  · simpa using h.across h.empty hw hne h.empty

theorem intercalate {separator : String} (hs : separator.toList.all isCalm = true)
    (hne : separator ≠ "") {pieces : List String} (hpieces : ∀ piece ∈ pieces, P piece) :
    P (String.intercalate separator pieces) :=
  Text.intercalate_closed h.empty (fun ha hb => h.across ha hs hne hb) hpieces

/-- A number is right both as a text and as a string. -/
theorem number (x : Number.Double) :
    D (Number.jsonStyle.write x) ∧ P (Number.jsonStyle.write x) := by
  rcases Number.write_cases Number.jsonStyle x with hword | hfigures
  · exact h.word hword
  · exact ⟨h.calm (all_isCalm hfigures), h.calmText (all_isCalm hfigures)⟩

theorem quotedNumber (x : Number.Double) : P ("\"" ++ Number.jsonStyle.write x ++ "\"") := by
  rw [Json.quote_of_clear]
  · exact h.quote (h.number x).1
  · rcases Number.write_cases Number.jsonStyle x with hword | hfigures
    · have hclear : ∀ word ∈ ["NaN", "Infinity", "-Infinity"],
          word.toList.all (fun c => Json.escape c = [c]) = true := by decide
      exact List.all_iff_forall_prop.1 (hclear _ hword)
    · exact fun c hc => Json.escape_figure (List.all_eq_true.1 hfigures c hc)

theorem calmKey {s : String} (hs : s.toList.all isCalm = true)
    (hclear : s.toList.all (fun c => Json.escape c = [c]) = true) : P ("\"" ++ s ++ "\"") := by
  rw [Json.quote_of_clear (List.all_iff_forall_prop.1 hclear)]
  exact h.quote (h.calm hs)

theorem key (k : Key) (hk : ∀ s ∈ k.texts, D s) : P k.print := by
  cases k with
  | str s => exact h.quote (hk s List.mem_cons_self)
  | null => exact h.calmKey (s := "null") (by decide) (by decide)
  | bool b =>
    cases b
    · exact h.calmKey (s := "false") (by decide) (by decide)
    · exact h.calmKey (s := "true") (by decide) (by decide)
  | int n =>
    have hfigures : ∀ c ∈ (toString n).toList, Number.isFigure c = true :=
      fun _ => Number.isFigure_of_mem_int
    exact h.calmKey (all_isCalm (List.all_eq_true.2 hfigures))
      (List.all_iff_forall_prop.2 fun c hc => Json.escape_figure (hfigures c hc))
  | float x => exact h.quotedNumber x

end PrintsInto

section
variable {D P : String → Prop}

mutual
/-- Every value whose strings are right is printed right, by induction on the value. -/
theorem PrintsInto.print (h : PrintsInto D P) : (x : Json) → (∀ s ∈ x.texts, D s) → P x.print
  | .null, _ => h.calmText (by decide)
  | .bool b, _ => by
    cases b
    · exact h.calmText (by decide)
    · exact h.calmText (by decide)
  | .int n, _ =>
    h.calmText (all_isCalm (List.all_eq_true.2 fun _ => Number.isFigure_of_mem_int))
  | .float x, _ => (h.number x).2
  | .str s, hs => h.quote (hs s List.mem_cons_self)
  | .arr items, hs => h.brackets (h.intercalate (by decide) (by decide) (h.printItems items hs))
  | .obj fields, hs => h.braces (h.intercalate (by decide) (by decide) (h.printFields fields hs))

theorem PrintsInto.printItems (h : PrintsInto D P) : (items : List Json) →
    (∀ s ∈ Json.textsItems items, D s) → ∀ piece ∈ Json.printItems items, P piece
  | [], _ => by simp [Json.printItems]
  | x :: items, hs => by
    simp only [Json.textsItems, List.mem_append] at hs
    intro piece hpiece
    rw [Json.printItems, List.mem_cons] at hpiece
    rcases hpiece with rfl | hpiece
    · exact h.print x fun s hx => hs s (.inl hx)
    · exact h.printItems items (fun s hi => hs s (.inr hi)) piece hpiece

theorem PrintsInto.printFields (h : PrintsInto D P) : (fields : List (Key × Json)) →
    (∀ s ∈ Json.textsFields fields, D s) → ∀ piece ∈ Json.printFields fields, P piece
  | [], _ => by simp [Json.printFields]
  | (k, x) :: fields, hs => by
    simp only [Json.textsFields, List.mem_append] at hs
    intro piece hpiece
    rw [Json.printFields, List.mem_cons] at hpiece
    rcases hpiece with rfl | hpiece
    · have hkey := h.key k fun s hk => hs s (.inl (.inl hk))
      exact h.across hkey (by decide) (by decide) (h.print x fun s hx => hs s (.inl (.inr hx)))
    · exact h.printFields fields (fun s hf => hs s (.inr hf)) piece hpiece
end
end

end SchemaDecl
