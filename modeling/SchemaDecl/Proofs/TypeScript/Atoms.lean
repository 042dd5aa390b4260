import Mathlib.Data.List.Basic
import SchemaDecl.Name.Identifier
import SchemaDecl.Proofs.Json.Printing
import SchemaDecl.Proofs.Text.Pieces
import SchemaDecl.Proofs.TypeScript.ScanLaws
import SchemaDecl.Text.Blank
import SchemaDecl.TypeScript.IndexedAccess
import SchemaDecl.TypeScript.MemberName

/-! Texts without an operator of their own: printed values, names, member names
and look-ups into a named type. Numbers and names consist of characters that the
scan takes no notice of, everything else is quoted or in brackets. -/

namespace SchemaDecl.TypeScript.Scan

/-- The characters that mean something to the scan. -/
def marks : List Char := ['"', '\'', '(', '[', '\x7b', '<', ')', ']', '\x7d', '>', '|', '&']

theorem mem_marks {c : Char} (h : isPlain c = false) : c ∈ marks := by
  simp only [isPlain, Bool.not_eq_false', Bool.or_eq_true, isQuote, isOpening, isClosing,
    isOperator, decide_eq_true_eq] at h
  simp only [marks, List.mem_cons, List.not_mem_nil, or_false]
  tauto

/-- A class of characters is plain if no mark belongs to it. -/
theorem isPlain_of {p : Char → Bool} (hno : marks.any p = false) {c : Char} (h : p c = true) :
    isPlain c = true := by
  by_contra hmark
  exact List.any_eq_false.1 hno c (mem_marks (by simpa using hmark)) h

theorem isPlain_of_isNameChar {c : Char} (h : Name.isNameChar c = true) : isPlain c = true :=
  isPlain_of (by decide) h

theorem isPlain_of_isBlank {c : Char} (h : Text.isBlank c = true) : isPlain c = true :=
  isPlain_of (by decide) h

theorem passed_of_class {p : Char → Bool} (hp : ∀ {c}, p c = true → isPlain c = true) (low : Int)
    {cs : List Char} (h : cs.all p = true) : Passed low cs :=
  passed_plain low (List.all_eq_true.2 fun c hc => hp (List.all_eq_true.1 h c hc))

theorem passed_name (low : Int) {cs : List Char} (h : cs.all Name.isNameChar = true) :
    Passed low cs := passed_of_class isPlain_of_isNameChar low h

theorem passed_blank (low : Int) {cs : List Char} (h : cs.all Text.isBlank = true) :
    Passed low cs := passed_of_class isPlain_of_isBlank low h

/-! Printed values. -/

theorem isPlain_of_isCalm {c : Char} (h : isCalm c = true) : isPlain c = true :=
  isPlain_of (by decide) h

theorem passed_calm (low : Int) {cs : List Char} (h : cs.all isCalm = true) : Passed low cs :=
  passed_of_class isPlain_of_isCalm low h

/-- Printed values are passed over, whatever strings they hold. -/
theorem printsInto_passed (low : Int) :
    PrintsInto (fun _ => True) (fun text => Passed low text.toList) where
  empty := passed_nil low
  across ha hw _ hb := by
    rw [String.toList_append, String.toList_append]
    exact (ha.append (passed_calm low hw)).append hb
  brackets ha := (ha.mono (by omega)).brackets
  braces ha := (ha.mono (by omega)).braces
  quote {s} _ := by
    rw [Json.toList_quote]
    exact passed_quote low s.toList
  calm _ := trivial
  word {s} hs := by
    have hnames : ∀ word ∈ ["NaN", "Infinity", "-Infinity"], word.toList.all isPlain = true := by
      decide
    exact ⟨trivial, passed_plain low (hnames s hs)⟩

/-- A printed value has no operator outside of quotes. -/
theorem passed_print (low : Int) (x : Json) : Passed low x.print.toList :=
  (printsInto_passed low).print x fun _ _ => trivial

/-! Names. -/

theorem toNat_lt_of_isNameChar {c : Char} (h : Name.isNameChar c = true) : c.toNat < 128 := by
  simp only [Name.isNameChar, Bool.or_eq_true, decide_eq_true_eq] at h
  rcases h with (h | rfl) | rfl
  · have hranges : (decide (c.val ≥ 'A'.val ∧ c.val ≤ 'Z'.val) ||
        (decide (c.val ≥ 'a'.val) && decide (c.val ≤ 'z'.val)) ||
        (decide (c.val ≥ '0'.val) && decide (c.val ≤ '9'.val))) = true := h
    simp only [Bool.or_eq_true, Bool.and_eq_true, decide_eq_true_eq,
      UInt32.le_iff_toNat_le] at hranges
    rcases hranges with (⟨_, h⟩ | ⟨_, h⟩) | ⟨_, h⟩
    · exact Nat.lt_of_le_of_lt h (by decide)
    · exact Nat.lt_of_le_of_lt h (by decide)
    · exact Nat.lt_of_le_of_lt h (by decide)
  · decide
  · decide

theorem isNameChar_toUpper {c : Char} (h : Name.isNameChar c = true) :
    Name.isNameChar c.toUpper = true := by
  have hall : ∀ n < 128, Name.isNameChar (Char.ofNat n) = true →
      Name.isNameChar (Char.ofNat n).toUpper = true := by decide +kernel
  have hc := hall c.toNat (toNat_lt_of_isNameChar h)
  rw [Char.ofNat_toNat] at hc
  exact hc h

theorem isNameChar_of_mem_capitalizeWords {inWord : Bool} {cs : List Char} {c : Char}
    (h : c ∈ Name.capitalizeWords inWord cs) : Name.isNameChar c = true := by
  induction cs generalizing inWord with
  | nil => cases h
  | cons d rest ih =>
    rw [Name.capitalizeWords] at h
    split at h
    · rename_i hd
      rcases List.mem_cons.1 h with h | h
      · rw [h]
        split
        · exact hd
        · exact isNameChar_toUpper hd
      · exact ih h
    · exact ih h

theorem isNameChar_of_mem_identifierChars {cs : List Char} {c : Char}
    (h : c ∈ Name.identifierChars cs) : Name.isNameChar c = true := by
  have hunderscore : Name.isNameChar '_' = true := by decide
  unfold Name.identifierChars Name.guardStart at h
  split at h
  · rw [List.mem_singleton.1 h]
    exact hunderscore
  · rename_i d rest hcs
    have hrest : ∀ x ∈ d :: rest, Name.isNameChar x = true := by
      intro x hx
      rw [← hcs] at hx
      exact isNameChar_of_mem_capitalizeWords hx
    split at h
    · rcases List.mem_cons.1 h with rfl | h
      · exact hunderscore
      · exact hrest c h
    · exact hrest c h

theorem all_isNameChar_of_isIdentifier {cs : List Char} (h : Name.isIdentifier cs = true) :
    cs.all Name.isNameChar = true := by
  cases cs with
  | nil => rfl
  | cons d rest =>
    rw [Name.isIdentifier, Bool.and_eq_true] at h
    rw [List.all_cons, Name.isNameChar_of_isNameStart h.1, h.2, Bool.and_self]

/-- A name ends where no name character follows. -/
theorem nameChars_append {name rest : List Char} (hname : ∀ c ∈ name, Name.isNameChar c = true)
    (hrest : ∀ c ∈ rest.head?, Name.isNameChar c = false) :
    (name ++ rest).takeWhile Name.isNameChar = name ∧
      (name ++ rest).dropWhile Name.isNameChar = rest := by
  have hspan := Text.span_append name hrest
  rw [List.span_eq_takeWhile_dropWhile, List.span_eq_takeWhile_dropWhile, Prod.mk.injEq] at hspan
  rw [hspan.1, hspan.2, List.takeWhile_eq_self_iff.2 hname, List.dropWhile_eq_nil_iff.2 hname]
  exact ⟨rfl, rfl⟩

theorem all_of_isBareName {cs : List Char} (h : isBareName cs = true) :
    (cs.all fun c => Name.isNameChar c || c = '\n') = true := by
  have hall : ∀ {cs : List Char}, Name.isIdentifier cs = true →
      (cs.all fun c => Name.isNameChar c || c = '\n') = true := by
    intro cs hcs
    refine List.all_eq_true.2 fun c hc => ?_
    rw [List.all_eq_true.1 (all_isNameChar_of_isIdentifier hcs) c hc, Bool.true_or]
  rw [isBareName, Bool.or_eq_true, Bool.and_eq_true] at h
  rcases h with h | ⟨hlast, h⟩
  · exact hall h
  · obtain ⟨front, hfront⟩ := List.getLast?_eq_some_iff.1 (beq_iff_eq.1 hlast)
    rw [hfront, List.dropLast_concat] at h
    rw [hfront, List.all_append, hall h]
    rfl

/-- A member name is bare only if the scan takes no notice of it. -/
theorem passed_memberName (low : Int) (name : String) : Passed low (memberName name).toList := by
  unfold memberName
  split
  · rename_i hbare
    exact passed_of_class (fun h => isPlain_of (by decide) h) low (all_of_isBareName hbare)
  · rw [Json.toList_quote]
    exact passed_quote low name.toList

/-! Look-ups into a named type. -/

theorem run_opening (keys : List String) (k : Int) :
    (outside k).run (IndexedAccess.opening keys).toList = outside (k + keys.length) := by
  induction keys generalizing k with
  | nil => simp [IndexedAccess.opening, run_nil]
  | cons key keys ih =>
    have hname : Passed k "NonNullable".toList := passed_name k (by decide)
    have hopening : (IndexedAccess.opening (key :: keys)).toList =
        "NonNullable".toList ++ '<' :: (IndexedAccess.opening keys).toList := by
      simp [IndexedAccess.opening, String.join_cons, String.toList_append]
    rw [hopening, run_append, hname k (Int.le_refl k), run_cons, step_opening rfl, ih,
      List.length_cons, Int.natCast_succ, Int.add_assoc, Int.add_comm 1]

theorem run_closing (keys : List String) (k : Int) :
    (outside (k + keys.length)).run (IndexedAccess.closing keys).toList = outside k := by
  induction keys generalizing k with
  | nil => simp [IndexedAccess.closing, run_nil]
  | cons key keys ih =>
    have hkey : Passed (k + keys.length + 1) ('[' :: (Json.quoteChars key.toList ++ [']'])) :=
      (passed_quote _ key.toList).bracketed rfl rfl
    have hclosing : (IndexedAccess.closing (key :: keys)).toList =
        '[' :: (Json.quoteChars key.toList ++ [']']) ++
          '>' :: (IndexedAccess.closing keys).toList := by
      simp [IndexedAccess.closing, String.join_cons, String.toList_append, Json.toList_quote]
    rw [hclosing, run_append, List.length_cons, Int.natCast_succ, ← Int.add_assoc,
      hkey _ (Int.le_refl _), run_cons, step_closing rfl, ih]

/-- A look-up is passed over if the name of its root is. -/
theorem passed_access (low : Int) {root : String} (h : root.toList.all isPlain = true)
    (keys : List String) : Passed low (IndexedAccess.render ⟨root, keys⟩).toList := by
  intro k _
  rw [IndexedAccess.render, String.toList_append, String.toList_append, run_append, run_append,
    run_opening, passed_plain (k + keys.length) h _ (Int.le_refl _), run_closing]

end SchemaDecl.TypeScript.Scan
