import Mathlib
import SchemaDecl.Declare
import SchemaDecl.Name.Pascal
import SchemaDecl.Proofs.TypeScript.EnumSupply
import SchemaDecl.Text.LowerCase

/-! Names put together from the words of a text. For a name in Pascal case a word is a
letter with the small letters behind it, or digits in a row; for an identifier it is a
run of name characters. What lies between the words is dropped, the words are put one
behind the other with a capital in front, and an identifier gets an underscore if it
needs one. So the characters that are kept stand in the name in their order, and a text
that is such a name already stays as it is: both ways of making names have exactly the
names of their form for fixed points. The lemmas on capitals and small letters used here
come with the whole of Mathlib and with no smaller part of it. -/

namespace SchemaDecl.Name

def capitalize : List Char → List Char
  | [] => []
  | c :: rest => c.toUpper :: rest

/-- What a class keeps of a list starts with the longest front in a smaller class. -/
theorem takeWhile_append_filter {p q : Char → Bool} (h : ∀ c, p c = true → q c = true)
    (cs : List Char) : cs.takeWhile p ++ (cs.dropWhile p).filter q = cs.filter q := by
  have hfront : (cs.takeWhile p).filter q = cs.takeWhile p :=
    List.filter_eq_self.2 fun c hc => h c (List.mem_takeWhile_imp hc)
  calc cs.takeWhile p ++ (cs.dropWhile p).filter q
      = (cs.takeWhile p ++ cs.dropWhile p).filter q := by rw [List.filter_append, hfront]
    _ = cs.filter q := by rw [List.takeWhile_append_dropWhile]

/-! Words of a name in Pascal case. -/

/-- Words from left to right: a letter with all small letters behind it, or all digits in a row. -/
def words : List Char → List (List Char)
  | [] => []
  | c :: rest =>
    if c.isAlpha then (c :: rest.takeWhile Char.isLower) :: words (rest.dropWhile Char.isLower)
    else if c.isDigit then
      (c :: rest.takeWhile Char.isDigit) :: words (rest.dropWhile Char.isDigit)
    else words rest
termination_by cs => cs.length
decreasing_by
  all_goals simp only [List.length_cons]
  · exact Nat.lt_succ_of_le (List.dropWhile_sublist _).length_le
  · exact Nat.lt_succ_of_le (List.dropWhile_sublist _).length_le
  · exact Nat.lt_succ_self _

/-- A capital with nothing but small letters behind it, or a run of digits. -/
def isPascalWord : List Char → Bool
  | [] => false
  | c :: rest => c.isUpper && rest.all Char.isLower || c.isDigit && rest.all Char.isDigit

/-- The text is a row of words in Pascal case. -/
def IsPascal (text : String) : Prop :=
  ∃ pieces : List (List Char), text.toList = pieces.flatten ∧
    ∀ piece ∈ pieces, isPascalWord piece = true

theorem isNameChar_of_isAlphanum {c : Char} (h : c.isAlphanum = true) : isNameChar c = true := by
  rw [isNameChar, h, Bool.true_or, Bool.true_or]

theorem isAlphanum_of_isLower {c : Char} (h : c.isLower = true) : c.isAlphanum = true := by
  rw [Char.isAlphanum, Char.isAlpha, h, Bool.or_true, Bool.true_or]

theorem isAlphanum_of_isDigit {c : Char} (h : c.isDigit = true) : c.isAlphanum = true := by
  rw [Char.isAlphanum, h, Bool.or_true]

theorem isAlpha_of_isLower {c : Char} (h : c.isLower = true) : c.isAlpha = true := by
  rw [Char.isAlpha, h, Bool.or_true]

theorem not_isAlpha_of_isDigit {c : Char} (h : c.isDigit = true) : ¬ c.isAlpha = true := by
  simp [Char.isDigit, Char.isAlpha, Char.isUpper, Char.isLower, UInt32.le_iff_toNat_le] at h ⊢
  omega

theorem toUpper_eq_of_isDigit {c : Char} (h : c.isDigit = true) : c.toUpper = c :=
  Char.toUpper_eq_of_not_isLower fun hlower => not_isAlpha_of_isDigit h (isAlpha_of_isLower hlower)

/-- The words hold what is kept, without gap or overlap. -/
theorem flatten_words (cs : List Char) : (words cs).flatten = cs.filter Char.isAlphanum := by
  induction cs using words.induct with
  | case1 => rw [words]; rfl
  | case2 c rest hletter ih =>
    have hkept : c.isAlphanum = true := by rw [Char.isAlphanum, hletter, Bool.true_or]
    rw [words, if_pos hletter, List.flatten_cons, ih, List.cons_append,
      takeWhile_append_filter fun _ => isAlphanum_of_isLower, List.filter_cons_of_pos hkept]
  | case3 c rest hletter hdigit ih =>
    rw [words, if_neg hletter, if_pos hdigit, List.flatten_cons, ih, List.cons_append,
      takeWhile_append_filter fun _ => isAlphanum_of_isDigit,
      List.filter_cons_of_pos (isAlphanum_of_isDigit hdigit)]
  | case4 c rest hletter hdigit ih =>
    have hdropped : ¬ c.isAlphanum = true := by simp [Char.isAlphanum, hletter, hdigit]
    rw [words, if_neg hletter, if_neg hdigit, ih, List.filter_cons_of_neg hdropped]

/-! How the scan goes over a word. -/

theorem pascalChars_small {small : List Char} (h : ∀ c ∈ small, c.isLower = true)
    (rest : List Char) : pascalChars true (small ++ rest) = small ++ pascalChars true rest := by
  induction small with
  | nil => rfl
  | cons c small ih =>
    obtain ⟨hc, hsmall⟩ := List.forall_mem_cons.1 h
    rw [List.cons_append, pascalChars, if_pos (isAlpha_of_isLower hc), if_pos rfl, ih hsmall,
      List.cons_append]

theorem pascalChars_digits {digits : List Char} (h : ∀ c ∈ digits, c.isDigit = true)
    (rest : List Char) : pascalChars false (digits ++ rest) = digits ++ pascalChars false rest := by
  induction digits with
  | nil => rfl
  | cons c digits ih =>
    obtain ⟨hc, hdigits⟩ := List.forall_mem_cons.1 h
    rw [List.cons_append, pascalChars, if_neg (not_isAlpha_of_isDigit hc), if_pos hc, ih hdigits,
      List.cons_append]

theorem isAlphanum_of_mem_pascalChars {afterLetter : Bool} {cs : List Char} {c : Char}
    (h : c ∈ pascalChars afterLetter cs) : c.isAlphanum = true := by
  induction cs generalizing afterLetter with
  | nil => cases h
  | cons d rest ih =>
    rw [pascalChars] at h
    split at h
    · rename_i hletter
      rcases List.mem_cons.1 h with rfl | h
      · split
        · rw [Char.isAlphanum, hletter, Bool.true_or]
        · rw [Char.isAlphanum, Char.isAlpha_toUpper_eq_isAlpha, hletter, Bool.true_or]
      · exact ih h
    · split at h
      · rename_i hdigit
        rcases List.mem_cons.1 h with rfl | h
        · rw [Char.isAlphanum, hdigit, Bool.or_true]
        · exact ih h
      · exact ih h

/-- Only a small letter in front depends on what stands before it. -/
theorem pascalChars_true_eq {cs : List Char} (h : ∀ c ∈ cs.head?, c.isLower = false) :
    pascalChars true cs = pascalChars false cs := by
  cases cs with
  | nil => rfl
  | cons c rest =>
    have hcapital : c.toUpper = c := Char.toUpper_eq_of_not_isLower (by simp [h c rfl])
    simp only [pascalChars, hcapital, ite_self]

theorem pascalChars_eq_words (cs : List Char) :
    pascalChars false cs = (words cs).flatMap capitalize := by
  induction cs using words.induct with
  | case1 => rw [words]; rfl
  | case2 c rest hletter ih =>
    have hstop : ∀ d ∈ (rest.dropWhile Char.isLower).head?, d.isLower = false := by
      intro d hd
      have hhead := List.head?_dropWhile_not Char.isLower rest
      rwa [hd] at hhead
    have hrest : pascalChars true rest =
        rest.takeWhile Char.isLower ++ pascalChars false (rest.dropWhile Char.isLower) := by
      rw [← pascalChars_true_eq hstop,
        ← pascalChars_small (fun _ hd => List.mem_takeWhile_imp hd),
        List.takeWhile_append_dropWhile]
    rw [words, if_pos hletter, List.flatMap_cons, ← ih, pascalChars, if_pos hletter, hrest]
    rfl
  | case3 c rest hletter hdigit ih =>
    have hrest : pascalChars false rest =
        rest.takeWhile Char.isDigit ++ pascalChars false (rest.dropWhile Char.isDigit) := by
      rw [← pascalChars_digits (fun _ hd => List.mem_takeWhile_imp hd),
        List.takeWhile_append_dropWhile]
    rw [words, if_neg hletter, if_pos hdigit, List.flatMap_cons, ← ih, pascalChars,
      if_neg hletter, if_pos hdigit, hrest, capitalize, toUpper_eq_of_isDigit hdigit]
    rfl
  | case4 c rest hletter hdigit ih =>
    rw [words, if_neg hletter, if_neg hdigit, ← ih, pascalChars, if_neg hletter, if_neg hdigit]

theorem isPascalWord_capitalize {cs word : List Char} (h : word ∈ words cs) :
    isPascalWord (capitalize word) = true := by
  induction cs using words.induct with
  | case1 => rw [words] at h; cases h
  | case2 c rest hletter ih =>
    rw [words, if_pos hletter] at h
    rcases List.mem_cons.1 h with rfl | h
    · have hsmall : (rest.takeWhile Char.isLower).all Char.isLower = true := List.all_takeWhile
      rw [capitalize, isPascalWord, Char.isUpper_toUpper_eq_isAlpha, hletter, hsmall]
      rfl
    · exact ih h
  | case3 c rest hletter hdigit ih =>
    rw [words, if_neg hletter, if_pos hdigit] at h
    rcases List.mem_cons.1 h with rfl | h
    · have hdigits : (rest.takeWhile Char.isDigit).all Char.isDigit = true := List.all_takeWhile
      rw [capitalize, isPascalWord, toUpper_eq_of_isDigit hdigit, hdigit, hdigits, Bool.and_self,
        Bool.or_true]
    · exact ih h
  | case4 c rest hletter hdigit ih =>
    rw [words, if_neg hletter, if_neg hdigit] at h
    exact ih h

theorem toList_toPascal (text : String) :
    (toPascal text).toList = (words text.toList).flatMap capitalize := by
  rw [toPascal, String.toList_ofList, pascalChars_eq_words]

theorem isPascal_toPascal (text : String) : IsPascal (toPascal text) := by
  refine ⟨(words text.toList).map capitalize, ?_, fun piece hpiece => ?_⟩
  · rw [toList_toPascal, List.flatMap_def]
  · obtain ⟨word, hword, rfl⟩ := List.mem_map.1 hpiece
    exact isPascalWord_capitalize hword

/-- Whatever stands before it, a row of words in Pascal case stays as it is. -/
theorem pascalChars_pieces {pieces : List (List Char)}
    (h : ∀ piece ∈ pieces, isPascalWord piece = true) (afterLetter : Bool) :
    pascalChars afterLetter pieces.flatten = pieces.flatten := by
  induction pieces generalizing afterLetter with
  | nil => rfl
  | cons piece pieces ih =>
    obtain ⟨hpiece, hpieces⟩ := List.forall_mem_cons.1 h
    cases piece with
    | nil => cases hpiece
    | cons c rest =>
      rw [isPascalWord, Bool.or_eq_true, Bool.and_eq_true, Bool.and_eq_true, List.all_eq_true,
        List.all_eq_true] at hpiece
      rw [List.flatten_cons, List.cons_append, pascalChars]
      rcases hpiece with ⟨hc, hrest⟩ | ⟨hc, hrest⟩
      · have hletter : c.isAlpha = true := by rw [Char.isAlpha, hc, Bool.true_or]
        have hcapital : c.toUpper = c :=
          Char.toUpper_eq_of_not_isLower (Char.not_isLower_of_isUpper hc)
        rw [if_pos hletter, hcapital, ite_self, pascalChars_small hrest, ih hpieces]
      · rw [if_neg (not_isAlpha_of_isDigit hc), if_pos hc, pascalChars_digits hrest, ih hpieces]

theorem toPascal_eq_self_iff {text : String} : toPascal text = text ↔ IsPascal text := by
  constructor
  · intro h
    exact h ▸ isPascal_toPascal text
  · rintro ⟨pieces, htext, hpieces⟩
    rw [← String.toList_inj, toPascal, String.toList_ofList, htext, pascalChars_pieces hpieces]

/-! Lower case takes back what the capitals changed. -/

theorem map_toLower_capitalize (word : List Char) :
    (capitalize word).map Char.toLower = word.map Char.toLower := by
  cases word with
  | nil => rfl
  | cons c rest => rw [capitalize, List.map_cons, Char.toLower_toUpper_eq_toLower, List.map_cons]

theorem lowerFrom_of_isAlphanum {cs : List Char} (h : ∀ c ∈ cs, c.isAlphanum = true)
    (before : List Char) : Text.lowerFrom before cs = cs.map Char.toLower := by
  induction cs generalizing before with
  | nil => rfl
  | cons c rest ih =>
    obtain ⟨hc, hrest⟩ := List.forall_mem_cons.1 h
    have hsigma : c ≠ 'Σ' := by
      rintro rfl
      revert hc
      decide
    have hascii : c.toNat < 0x80 :=
      TypeScript.Scan.toNat_lt_of_isNameChar (isNameChar_of_isAlphanum hc)
    rw [Text.lowerFrom, if_neg hsigma, Text.lowerChar, if_pos hascii, ih hrest, List.map_cons]
    rfl

theorem lower_ofList {cs : List Char} (h : ∀ c ∈ cs, c.isAlphanum = true) :
    Text.lower (String.ofList cs) = String.ofList (cs.map Char.toLower) := by
  rw [Text.lower, String.toList_ofList, lowerFrom_of_isAlphanum h]

theorem lower_toPascal (text : String) : Text.lower (toPascal text) =
    Text.lower (String.ofList (text.toList.filter Char.isAlphanum)) := by
  have hcase : ((words text.toList).flatMap capitalize).map Char.toLower =
      (words text.toList).flatten.map Char.toLower := by
    rw [List.map_flatMap, List.flatten_eq_flatMap, List.map_flatMap]
    exact List.flatMap_congr fun word _ => map_toLower_capitalize word
  have hkept : ∀ c ∈ (toPascal text).toList, c.isAlphanum = true := by
    intro c hc
    rw [toPascal, String.toList_ofList] at hc
    exact isAlphanum_of_mem_pascalChars hc
  rw [← String.ofList_toList (s := toPascal text), lower_ofList hkept,
    lower_ofList fun c hc => (List.mem_filter.1 hc).2, toList_toPascal, hcase, flatten_words]

/-- Pascal case is a normal form. A name holds the letters and digits of the text in their order and
is made of its words, of which only the first letters change, and only in their case; it is a row of
words in Pascal case; and the texts that stay as they are are exactly such rows, so that a name made
once stays as it is. -/
theorem toPascal_normal_form (text : String) :
    ((toPascal text).toList = (words text.toList).flatMap capitalize ∧
      (words text.toList).flatten = text.toList.filter Char.isAlphanum ∧
      Text.lower (toPascal text) =
        Text.lower (String.ofList (text.toList.filter Char.isAlphanum))) ∧
    IsPascal (toPascal text) ∧ (toPascal text = text ↔ IsPascal text) ∧
    toPascal (toPascal text) = toPascal text :=
  ⟨⟨toList_toPascal text, flatten_words text.toList, lower_toPascal text⟩, isPascal_toPascal text,
    toPascal_eq_self_iff, toPascal_eq_self_iff.2 (isPascal_toPascal text)⟩

/-! Runs of name characters. -/

/-- The longest runs of name characters in a text, from left to right. -/
def runs (cs : List Char) : List (List Char) :=
  (cs.splitOnP fun c => !isNameChar c).filter fun run => !run.isEmpty

/-- Capitals go to the starts of the pieces between the separators, except for the first piece when
the text goes on from a word. -/
theorem capitalizeWords_eq_pieces {cs piece : List Char} {pieces : List (List Char)}
    (h : cs.splitOnP (fun c => !isNameChar c) = piece :: pieces) :
    capitalizeWords true cs = piece ++ pieces.flatMap capitalize ∧
      capitalizeWords false cs = capitalize piece ++ pieces.flatMap capitalize := by
  induction cs generalizing piece pieces with
  | nil =>
    rw [List.splitOnP_nil] at h
    obtain ⟨rfl, rfl⟩ := List.cons.inj h
    exact ⟨rfl, rfl⟩
  | cons c rest ih =>
    obtain ⟨front, back, hrest⟩ :=
      List.exists_cons_of_ne_nil (List.splitOnP_ne_nil (fun c => !isNameChar c) rest)
    obtain ⟨hinside, houtside⟩ := ih hrest
    rw [List.splitOnP_cons_eq_if_modifyHead, hrest] at h
    by_cases hc : isNameChar c = true
    · rw [hc, if_neg (by decide), List.modifyHead_cons] at h
      obtain ⟨rfl, rfl⟩ := List.cons.inj h
      simp only [capitalizeWords, hc, hinside]
      exact ⟨rfl, rfl⟩
    · rw [Bool.not_eq_true] at hc
      rw [hc, if_pos (by decide)] at h
      obtain ⟨rfl, rfl⟩ := List.cons.inj h
      simp only [capitalizeWords, hc, houtside]
      exact ⟨rfl, rfl⟩

theorem flatMap_capitalize_filter (pieces : List (List Char)) :
    (pieces.filter fun run => !run.isEmpty).flatMap capitalize = pieces.flatMap capitalize := by
  induction pieces with
  | nil => rfl
  | cons piece pieces ih =>
    cases piece with
    | nil => exact ih
    | cons c rest => rw [List.filter_cons_of_pos rfl, List.flatMap_cons, ih, List.flatMap_cons]

theorem capitalizeWords_eq_runs (cs : List Char) :
    capitalizeWords false cs = (runs cs).flatMap capitalize := by
  obtain ⟨piece, pieces, h⟩ :=
    List.exists_cons_of_ne_nil (List.splitOnP_ne_nil (fun c => !isNameChar c) cs)
  rw [runs, flatMap_capitalize_filter, h, List.flatMap_cons]
  exact (capitalizeWords_eq_pieces h).2

/-- The runs hold the name characters of the text in their order. -/
theorem flatten_runs (cs : List Char) : (runs cs).flatten = cs.filter isNameChar := by
  rw [runs, List.flatten_filter_not_isEmpty]
  induction cs with
  | nil => rfl
  | cons c rest ih =>
    obtain ⟨front, back, hrest⟩ :=
      List.exists_cons_of_ne_nil (List.splitOnP_ne_nil (fun c => !isNameChar c) rest)
    rw [hrest] at ih
    rw [List.splitOnP_cons_eq_if_modifyHead, hrest, List.filter_cons, ← ih]
    cases isNameChar c <;> rfl

theorem guardStart_eq (cs : List Char) :
    ∃ guard, (guard = [] ∨ guard = ['_']) ∧ guardStart cs = guard ++ cs := by
  cases cs with
  | nil => exact ⟨['_'], .inr rfl, rfl⟩
  | cons c rest =>
    rw [guardStart]
    split
    · exact ⟨['_'], .inr rfl, rfl⟩
    · exact ⟨[], .inl rfl, rfl⟩

theorem isLower_of_head?_capitalizeWords {cs : List Char} {c : Char}
    (h : c ∈ (capitalizeWords false cs).head?) : c.isLower = false := by
  induction cs with
  | nil => cases h
  | cons d rest ih =>
    rw [capitalizeWords] at h
    split at h
    · cases h
      exact Char.isLower_toUpper_eq_false d
    · exact ih h

/-- No small letter starts a name: the guard gives an underscore, and a run starts with a capital or
with what has none. -/
theorem startsSmall_toIdentifier (text : String) :
    (toIdentifier text).toList.head?.any Char.isLower = false := by
  have hstart : ∀ c ∈ (capitalizeWords false text.toList).head?, c.isLower = false :=
    fun _ => isLower_of_head?_capitalizeWords
  have hunderscore : '_'.isLower = false := by decide
  rw [toList_toIdentifier, identifierChars]
  cases hcs : capitalizeWords false text.toList with
  | nil => exact hunderscore
  | cons c rest =>
    rw [hcs] at hstart
    rw [guardStart]
    split
    · exact hunderscore
    · exact hstart c rfl

theorem capitalizeWords_of_all {cs : List Char} (h : cs.all isNameChar = true) :
    capitalizeWords true cs = cs := by
  induction cs with
  | nil => rfl
  | cons c rest ih =>
    rw [List.all_cons, Bool.and_eq_true] at h
    rw [capitalizeWords, if_pos h.1, if_pos rfl, ih h.2]

/-- An identifier stays as it is unless it starts with a small letter. -/
theorem identifierChars_of_isIdentifier {cs : List Char} (h : isIdentifier cs = true)
    (hstart : cs.head?.any Char.isLower = false) : identifierChars cs = cs := by
  cases cs with
  | nil => cases h
  | cons c rest =>
    rw [isIdentifier, Bool.and_eq_true] at h
    have hcapital : c.toUpper = c :=
      Char.toUpper_eq_of_not_isLower (by simpa using hstart)
    have hdigit : ¬ c.isDigit = true := by
      intro hd
      have hfirst := h.1
      simp only [isNameStart, Bool.or_eq_true, decide_eq_true_eq] at hfirst
      rcases hfirst with (hletter | rfl) | rfl
      · exact not_isAlpha_of_isDigit hd hletter
      · revert hd
        decide
      · revert hd
        decide
    rw [identifierChars, capitalizeWords, if_pos (isNameChar_of_isNameStart h.1),
      if_neg (by decide), hcapital, capitalizeWords_of_all h.2, guardStart, if_neg hdigit]

theorem toIdentifier_eq_self_iff {name : String} : toIdentifier name = name ↔
    isIdentifier name.toList = true ∧ name.toList.head?.any Char.isLower = false := by
  constructor
  · intro h
    rw [← h]
    exact ⟨TypeScript.isIdentifier_toIdentifier name, startsSmall_toIdentifier name⟩
  · rintro ⟨hname, hstart⟩
    rw [← String.toList_inj, toList_toIdentifier, identifierChars_of_isIdentifier hname hstart]

/-- What is made of a text is an identifier and stays as it is. It is the name characters of the
text in their order, of which only the starts of the longest runs change, and only to their
capitals, behind an underscore or nothing. The texts that stay as they are are exactly the
identifiers that no small letter starts; the placeholder is one of them. -/
theorem toIdentifier_normal_form (text : String) :
    isIdentifier (toIdentifier text).toList = true ∧
    toIdentifier (toIdentifier text) = toIdentifier text ∧
    ((∃ guard, (guard = [] ∨ guard = ['_']) ∧
      (toIdentifier text).toList = guard ++ (runs text.toList).flatMap capitalize) ∧
      (runs text.toList).flatten = text.toList.filter isNameChar) ∧
    (toIdentifier text = text ↔
      isIdentifier text.toList = true ∧ text.toList.head?.any Char.isLower = false) ∧
    toIdentifier placeholder = placeholder := by
  have hname := TypeScript.isIdentifier_toIdentifier text
  refine ⟨hname, toIdentifier_eq_self_iff.2 ⟨hname, startsSmall_toIdentifier text⟩,
    ⟨?_, flatten_runs text.toList⟩, toIdentifier_eq_self_iff, placeholder_isIdentifier⟩
  rw [toList_toIdentifier, identifierChars, ← capitalizeWords_eq_runs]
  exact guardStart_eq (capitalizeWords false text.toList)

end SchemaDecl.Name
