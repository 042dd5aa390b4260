import Mathlib.Data.List.Find
import SchemaDecl.Json.Reader
import SchemaDecl.Proofs.Inversion
import SchemaDecl.Proofs.Text.Pieces

/-! Numbers and words of JSON text. They are read up to the first character that
can be in none of them, and what is behind it has no influence. So a text that is a
number or a word stands for the same value wherever a blank, a sign of structure
or the end follows. -/

namespace SchemaDecl.Json

namespace Reader

/-- The characters of numbers and words. -/
def isScalarChar (c : Char) : Bool := c.isAlphanum || c = '.' || c = '+' || c = '-'

/-- No number and no word goes on with the text. -/
def Delimited (rest : List Char) : Prop := ∀ c ∈ rest.head?, isScalarChar c = false

theorem Delimited.head_ne {rest : List Char} (hrest : Delimited rest) {c : Char}
    (hc : isScalarChar c = true) : rest.head? ≠ some c := by
  intro hhead
  rw [hrest c hhead] at hc
  cases hc

theorem isScalarChar_of_isDigit {c : Char} (h : c.isDigit = true) : isScalarChar c = true := by
  simp [isScalarChar, Char.isAlphanum, h]

/-! Parts of numbers. -/

/-- The step takes characters of numbers off the start, and looks no further than these go. -/
structure Scans {α : Type} (f : List Char → α × List Char) : Prop where
  front (cs : List Char) : ∃ w, cs = w ++ (f cs).2 ∧ w.all isScalarChar = true
  behind (cs : List Char) {rest : List Char} (hrest : Delimited rest) :
    f (cs ++ rest) = ((f cs).1, (f cs).2 ++ rest)

/-- One step and then another. -/
def andThen {α β : Type} (f : List Char → α × List Char) (g : List Char → β × List Char)
    (cs : List Char) : (α × β) × List Char :=
  (((f cs).1, (g (f cs).2).1), (g (f cs).2).2)

theorem Scans.andThen {α β : Type} {f : List Char → α × List Char} {g : List Char → β × List Char}
    (hf : Scans f) (hg : Scans g) : Scans (andThen f g) where
  front cs := by
    obtain ⟨v, hv, hvall⟩ := hf.front cs
    obtain ⟨w, hw, hwall⟩ := hg.front (f cs).2
    refine ⟨v ++ w, ?_, by rw [List.all_append, hvall, hwall, Bool.and_self]⟩
    rw [List.append_assoc]
    exact hv.trans (congrArg (v ++ ·) hw)
  behind cs rest hrest := by
    simp only [Reader.andThen, hf.behind cs hrest, hg.behind (f cs).2 hrest]

theorem scans_digits : Scans digits where
  front cs := by
    refine ⟨cs.takeWhile Char.isDigit, ?_, List.all_eq_true.2 fun c hc => ?_⟩
    · rw [digits, List.span_eq_takeWhile_dropWhile, List.takeWhile_append_dropWhile]
    · exact isScalarChar_of_isDigit (List.all_eq_true.1 List.all_takeWhile c hc)
  behind cs rest hrest := by
    refine Text.span_append cs fun c hc => ?_
    cases hdigit : c.isDigit
    · rfl
    · exact absurd (hrest c hc) (by simp [isScalarChar_of_isDigit hdigit])

theorem scans_nothing {α : Type} (x : α) : Scans fun cs => (x, cs) where
  front _ := ⟨[], rfl, rfl⟩
  behind _ _ _ := rfl

/-- A step for texts that begin with one of a few signs. It goes on behind the sign with a second
step, and leaves the text as it is if that one has not found what is needed. Other texts are left to
a third step. -/
theorem scans_of_signs {α β : Type} {f g : List Char → α × List Char}
    {next : List Char → β × List Char} (signs : List Char) (found : Char → β → Option α) (x : α)
    (hsigns : signs.all isScalarChar = true) (hg : Scans g) (hnext : Scans next)
    (hother : ∀ cs, (∀ c ∈ cs.head?, c ∉ signs) → f cs = g cs)
    (hsign : ∀ c ∈ signs, ∀ cs, f (c :: cs) =
      (found c (next cs).1).elim (x, c :: cs) fun a => (a, (next cs).2)) : Scans f where
  front cs := by
    by_cases hcs : ∀ c ∈ cs.head?, c ∉ signs
    · rw [hother cs hcs]
      exact hg.front cs
    · cases cs with
      | nil => exact absurd nofun hcs
      | cons c cs =>
        have hc : c ∈ signs := by simpa using hcs
        rw [hsign c hc]
        cases found c (next cs).1 with
        | none => exact ⟨[], rfl, rfl⟩
        | some a =>
          obtain ⟨w, hw, hall⟩ := hnext.front cs
          have hfirst := List.all_eq_true.1 hsigns c hc
          refine ⟨c :: w, ?_, by rw [List.all_cons, hfirst, hall, Bool.and_self]⟩
          exact congrArg (c :: ·) hw
  behind cs rest hrest := by
    by_cases hcs : ∀ c ∈ cs.head?, c ∉ signs
    · have hboth : ∀ c ∈ (cs ++ rest).head?, c ∉ signs := by
        cases cs with
        | nil => exact fun c hc hsign => hrest.head_ne (List.all_eq_true.1 hsigns c hsign) hc
        | cons c cs => exact hcs
      rw [hother cs hcs, hother (cs ++ rest) hboth, hg.behind cs hrest]
    · cases cs with
      | nil => exact absurd nofun hcs
      | cons c cs =>
        have hc : c ∈ signs := by simpa using hcs
        rw [List.cons_append, hsign c hc, hsign c hc, hnext.behind cs hrest]
        cases found c (next cs).1 <;> rfl

/-- The minus of a number. -/
def minus : List Char → Bool × List Char
  | '-' :: rest => (true, rest)
  | rest => (false, rest)

/-- The sign of an exponent. -/
def sign : List Char → Bool × List Char
  | '-' :: rest => (true, rest)
  | '+' :: rest => (false, rest)
  | rest => (false, rest)

/-- The digits before the point: zero alone, or digits that do not start with zero. -/
def whole : List Char → List Char × List Char
  | '0' :: rest => (['0'], rest)
  | cs => digits cs

theorem scans_minus : Scans minus := by
  refine scans_of_signs ['-'] (fun _ _ => some true) false rfl (scans_nothing false)
    (scans_nothing ()) (fun cs hcs => ?_) (fun c hc cs => ?_)
  · unfold minus
    split
    · exact absurd List.mem_cons_self (hcs _ rfl)
    · rfl
  · rw [List.mem_singleton.1 hc]
    rfl

theorem scans_sign : Scans sign := by
  refine scans_of_signs ['-', '+'] (fun c _ => some (c = '-')) false rfl
    (scans_nothing false) (scans_nothing ()) (fun cs hcs => ?_) (fun c hc cs => ?_)
  · unfold sign
    split
    · exact absurd (by simp) (hcs _ rfl)
    · exact absurd (by simp) (hcs _ rfl)
    · rfl
  · rcases List.mem_pair.1 hc with rfl | rfl
    · rfl
    · rfl

theorem scans_whole : Scans whole := by
  refine scans_of_signs ['0'] (fun _ _ => some ['0']) [] rfl scans_digits
    (scans_nothing ()) (fun cs hcs => ?_) (fun c hc cs => ?_)
  · unfold whole
    split
    · exact absurd List.mem_cons_self (hcs _ rfl)
    · rfl
  · rw [List.mem_singleton.1 hc]
    rfl

theorem scans_fraction : Scans fraction := by
  refine scans_of_signs ['.'] (fun _ (ds : List Char) => if ds.isEmpty then none else some ds) []
    rfl (scans_nothing []) scans_digits (fun cs hcs => ?_) (fun c hc cs => ?_)
  · unfold fraction
    split
    · exact absurd List.mem_cons_self (hcs _ rfl)
    · rfl
  · rw [List.mem_singleton.1 hc]
    change (if (digits cs).1.isEmpty then _ else digits cs) = _
    split <;> rfl

theorem scans_exponent : Scans exponent? := by
  refine scans_of_signs ['e', 'E']
    (fun _ (p : Bool × List Char) => if p.2.isEmpty then none
      else some (some (if p.1 then -(natOf p.2 : Int) else natOf p.2)))
    none rfl (scans_nothing none) (scans_sign.andThen scans_digits)
    (fun cs hcs => ?_) (fun c hc cs => ?_)
  · unfold exponent?
    split
    · rename_i e rest
      rw [if_neg (by simpa using hcs e rfl)]
    · rfl
  · have hexponent : (decide (c = 'e') || decide (c = 'E')) = true := by simpa using hc
    unfold exponent?
    dsimp only
    rw [if_pos hexponent]
    change (if (digits (sign cs).2).1.isEmpty then _ else _) =
      Option.elim (if (digits (sign cs).2).1.isEmpty then _ else _) _ _
    split <;> rfl

/-! Numbers. -/

/-- The minus, the digits before and behind the point, and the exponent. -/
def parts : List Char → (Bool × List Char × List Char × Option Int) × List Char :=
  andThen minus (andThen whole (andThen fraction exponent?))

theorem scans_parts : Scans parts :=
  scans_minus.andThen (scans_whole.andThen (scans_fraction.andThen scans_exponent))

def ofParts? : Bool × List Char × List Char × Option Int → Option Json
  | (negative, whole, part, exponent) =>
    if whole.isEmpty then none
    else if part.isEmpty && exponent.isNone then
      if mostDigits < whole.length then none
      else some (.int (if negative then -(natOf whole : Int) else natOf whole))
    else
      some (.float (.ofDecimal negative (natOf (whole ++ part)) (exponent.getD 0 - part.length)))

theorem toOption_number (cs : List Char) :
    (number cs).toOption = (ofParts? (parts cs).1).map fun x => (x, (parts cs).2) := by
  have hcases : ∀ (negative : Bool) (whole part : List Char) (exponent : Option Int)
      (rest : List Char),
      Except.toOption (if whole.isEmpty then .error (Stop.mk .value cs)
        else if part.isEmpty && exponent.isNone then
          if mostDigits < whole.length then .error ⟨.digits whole.length, cs⟩
          else .ok (.int (if negative then -(natOf whole : Int) else natOf whole), rest)
        else .ok (.float (.ofDecimal negative (natOf (whole ++ part))
          (exponent.getD 0 - part.length)), rest)) =
      (ofParts? (negative, whole, part, exponent)).map fun x => (x, rest) := by
    intro negative whole part exponent rest
    dsimp only [ofParts?]
    split
    · rfl
    · split
      · split <;> rfl
      · rfl
  exact hcases (parts cs).1.1 (parts cs).1.2.1 (parts cs).1.2.2.1 (parts cs).1.2.2.2 (parts cs).2

theorem number_append (cs : List Char) {rest : List Char} (hrest : Delimited rest) :
    (number (cs ++ rest)).toOption = (number cs).toOption.map fun p => (p.1, p.2 ++ rest) := by
  rw [toOption_number, toOption_number, scans_parts.behind cs hrest, Option.map_map]
  rfl

/-! Numbers and words. -/

theorem all_isScalarChar_words : ∀ w ∈ words, w.1.all isScalarChar = true := by decide

theorem prefix_of_find {cs word : List Char} {x : Json}
    (h : words.find? (fun w => w.1.isPrefixOf cs) = some (word, x)) : word <+: cs := by
  have hprefix := List.find?_some h
  exact List.isPrefixOf_iff_prefix.1 hprefix

theorem scalar_append (cs : List Char) {rest : List Char} (hrest : Delimited rest) :
    (scalar (cs ++ rest)).toOption = (scalar cs).toOption.map fun p => (p.1, p.2 ++ rest) := by
  have hword : ∀ w ∈ words, (w.1.isPrefixOf (cs ++ rest)) = w.1.isPrefixOf cs := by
    intro w hw
    rw [Bool.eq_iff_iff, List.isPrefixOf_iff_prefix, List.isPrefixOf_iff_prefix]
    refine ⟨fun h => ?_, fun h => h.trans (List.prefix_append cs rest)⟩
    cases rest with
    | nil => rwa [List.append_nil] at h
    | cons c rest =>
      refine Text.prefix_of_foreign (fun hc => ?_) h
      exact hrest.head_ne (List.all_eq_true.1 (all_isScalarChar_words w hw) c hc) rfl
  unfold scalar
  rw [List.find?_congr hword]
  split
  · rename_i word value hfound
    rw [List.drop_append_of_le_length (prefix_of_find hfound).length_le]
    rfl
  · exact number_append cs hrest

/-- What is read as a scalar are characters of scalars. -/
theorem front_of_scalar {cs rest : List Char} {x : Json} (h : scalar cs = .ok (x, rest)) :
    ∃ w, cs = w ++ rest ∧ w.all isScalarChar = true := by
  unfold scalar at h
  split at h
  · rename_i word value hfound
    obtain ⟨-, rfl⟩ := Prod.mk.inj (Except.ok.inj h)
    obtain ⟨tail, rfl⟩ := prefix_of_find hfound
    refine ⟨word, by rw [List.drop_left], ?_⟩
    exact all_isScalarChar_words _ (List.mem_of_find?_eq_some hfound)
  · have hread := toOption_number cs
    rw [h] at hread
    obtain ⟨y, -, hy⟩ := Option.map_eq_some_iff.1 hread.symm
    have hfront := scans_parts.front cs
    rwa [(Prod.mk.inj hy).2] at hfront

end Reader

/-- A text that is one number or word from its first character to its last, and the value. -/
structure Scalar where
  text : List Char
  value : Json
  read : Reader.scalar text = .ok (value, [])

namespace Scalar

open Reader

theorem all_text (x : Scalar) : x.text.all isScalarChar = true := by
  obtain ⟨w, htext, hw⟩ := front_of_scalar x.read
  rwa [htext, List.append_nil]

theorem exists_cons (x : Scalar) : ∃ c cs, x.text = c :: cs := by
  refine List.exists_cons_of_ne_nil fun hnil => ?_
  have hread := x.read
  rw [hnil] at hread
  cases hread

/-- A scalar is read the same in front of anything that it does not go on with. -/
theorem scalar_append (x : Scalar) {rest : List Char} (hrest : Delimited rest) :
    scalar (x.text ++ rest) = .ok (x.value, rest) := by
  have hread := Reader.scalar_append x.text hrest
  rw [x.read] at hread
  exact Inversion.eq_ok_of_toOption hread

theorem exists_of_scalar {cs rest : List Char} {value : Json}
    (h : scalar cs = .ok (value, rest)) (hrest : Delimited rest) :
    ∃ x : Scalar, cs = x.text ++ rest ∧ x.value = value := by
  obtain ⟨w, rfl, -⟩ := front_of_scalar h
  have hread := Reader.scalar_append w hrest
  rw [h] at hread
  obtain ⟨⟨y, left⟩, hw, hy⟩ := Option.map_eq_some_iff.1 hread.symm
  obtain ⟨rfl, hleft⟩ := Prod.mk.inj hy
  obtain rfl : left = [] := List.append_left_eq_self.1 hleft
  exact ⟨⟨w, y, Inversion.eq_ok_of_toOption hw⟩, rfl, rfl⟩

end Scalar

end SchemaDecl.Json
