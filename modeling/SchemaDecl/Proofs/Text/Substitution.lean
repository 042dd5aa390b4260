import Mathlib.Data.List.Infix
import SchemaDecl.Text.Replace

/-! Replacement piece by piece. A stretch of characters that do not occur in the
pattern cannot take part in a match, so the text before it and the text after it
are replaced each on its own. Either nothing is replaced or there is a first
match, and then the replacement goes on behind it. -/

namespace SchemaDecl.Text

/-- None of the characters occurs in the pattern. -/
def Foreign (old w : List Char) : Prop := ∀ c ∈ w, c ∉ old

instance (old w : List Char) : Decidable (Foreign old w) :=
  decidable_of_iff ((w.all fun c => !old.contains c) = true) (by simp [Foreign])

section
variable {old : List Char} (new : List Char)

theorem replaceFrom_nil (n : Nat) : replaceFrom old new n [] = [] := by
  cases n <;> rfl

theorem replaceFrom_drop (n : Nat) (cs : List Char) :
    replaceFrom old new n cs = replaceFrom old new 0 (cs.drop n) := by
  induction n generalizing cs with
  | zero => rfl
  | succ n ih =>
    cases cs with
    | nil => rfl
    | cons c rest => exact ih rest

theorem replaceFrom_match (h : old ≠ []) (b : List Char) :
    replaceFrom old new 0 (old ++ b) = new ++ replaceFrom old new 0 b := by
  obtain ⟨c, rest, rfl⟩ := List.exists_cons_of_ne_nil h
  have hprefix : (c :: rest).isPrefixOf (c :: (rest ++ b)) = true :=
    List.isPrefixOf_iff_prefix.2 (List.prefix_append (c :: rest) b)
  rw [List.cons_append, replaceFrom, if_pos hprefix, replaceFrom_drop]
  simp

theorem replaceFrom_no_match {c : Char} {rest : List Char} (h : ¬ old <+: c :: rest) :
    replaceFrom old new 0 (c :: rest) = c :: replaceFrom old new 0 rest := by
  rw [replaceFrom, if_neg fun hprefix => h (List.isPrefixOf_iff_prefix.1 hprefix)]

/-- No match starts at a character that is not in the pattern. -/
theorem replaceFrom_foreign (h : old ≠ []) {w : List Char} (hw : Foreign old w) (b : List Char) :
    replaceFrom old new 0 (w ++ b) = w ++ replaceFrom old new 0 b := by
  induction w with
  | nil => rfl
  | cons c w ih =>
    have hno : ¬ old <+: c :: (w ++ b) := by
      rintro ⟨t, ht⟩
      obtain ⟨d, rest, rfl⟩ := List.exists_cons_of_ne_nil h
      have hd : d = c := (List.cons.inj ht).1
      exact hw c List.mem_cons_self (hd ▸ List.mem_cons_self)
    rw [List.cons_append, replaceFrom_no_match new hno,
      ih fun x hx => hw x (List.mem_cons_of_mem _ hx)]
    rfl

/-- No match goes across a character that is not in the pattern. -/
theorem prefix_of_foreign {c : Char} (hc : c ∉ old) {a b : List Char}
    (h : old <+: a ++ c :: b) : old <+: a := by
  obtain ⟨t, ht⟩ := h
  rcases List.append_eq_append_iff.1 ht with ⟨s, ha, _⟩ | ⟨s, ho, hs⟩
  · exact ⟨s, ha.symm⟩
  · cases s with
    | nil => rw [List.append_nil] at ho; exact ho ▸ List.prefix_refl a
    | cons d s =>
      have hd : c = d := (List.cons.inj hs).1
      exact absurd (ho ▸ List.mem_append_right a (hd ▸ List.mem_cons_self)) hc

theorem replaceFrom_separator (h : old ≠ []) {c : Char} (hc : c ∉ old) (a b : List Char) :
    replaceFrom old new 0 (a ++ c :: b) =
      replaceFrom old new 0 a ++ c :: replaceFrom old new 0 b := by
  induction hn : a.length using Nat.strong_induction_on generalizing a with
  | _ n ih =>
    subst hn
    by_cases hprefix : old <+: a
    · obtain ⟨t, rfl⟩ := hprefix
      have hshorter : t.length < (old ++ t).length := by
        have hpos := List.length_pos_of_ne_nil h
        rw [List.length_append]
        omega
      rw [List.append_assoc, replaceFrom_match new h, replaceFrom_match new h,
        ih t.length hshorter t rfl, List.append_assoc]
    · cases a with
      | nil =>
        have hno : ¬ old <+: c :: b := fun hp => hprefix (prefix_of_foreign hc (a := []) hp)
        exact replaceFrom_no_match new hno
      | cons x a =>
        have hno : ¬ old <+: x :: (a ++ c :: b) := fun hp =>
          hprefix (prefix_of_foreign hc (a := x :: a) hp)
        rw [List.cons_append, replaceFrom_no_match new hno, replaceFrom_no_match new hprefix,
          ih a.length (by simp) a rfl]
        rfl

theorem replaceFrom_across (h : old ≠ []) {w : List Char} (hw : Foreign old w) (hne : w ≠ [])
    (a b : List Char) : replaceFrom old new 0 (a ++ (w ++ b)) =
      replaceFrom old new 0 a ++ (w ++ replaceFrom old new 0 b) := by
  obtain ⟨c, w, rfl⟩ := List.exists_cons_of_ne_nil hne
  have hrest : Foreign old w := fun x hx => hw x (List.mem_cons_of_mem _ hx)
  rw [List.cons_append, replaceFrom_separator new h (hw c List.mem_cons_self),
    replaceFrom_foreign new h hrest, List.cons_append]

/-! The first match. -/

theorem replaceFrom_cases (h : old ≠ []) (cs : List Char) :
    (¬ old <:+: cs ∧ replaceFrom old new 0 cs = cs) ∨
      ∃ a b, cs = a ++ (old ++ b) ∧
        replaceFrom old new 0 cs = a ++ (new ++ replaceFrom old new 0 b) := by
  induction cs with
  | nil =>
    refine .inl ⟨fun hin => h (List.eq_nil_of_infix_nil hin), rfl⟩
  | cons c rest ih =>
    by_cases hprefix : old <+: c :: rest
    · obtain ⟨b, hb⟩ := hprefix
      exact .inr ⟨[], b, hb.symm, by rw [← hb, replaceFrom_match new h]; rfl⟩
    · rw [replaceFrom_no_match new hprefix]
      rcases ih with ⟨hno, hsame⟩ | ⟨a, b, hcs, hreplaced⟩
      · refine .inl ⟨fun hin => ?_, by rw [hsame]⟩
        exact (List.infix_cons_iff.1 hin).elim hprefix hno
      · exact .inr ⟨c :: a, b, by rw [hcs]; rfl, by rw [hreplaced]; rfl⟩

theorem replaceFrom_of_not_infix {cs : List Char} (h : ¬ old <:+: cs) :
    replaceFrom old new 0 cs = cs := by
  induction cs with
  | nil => rfl
  | cons c rest ih =>
    rw [List.infix_cons_iff, not_or] at h
    rw [replaceFrom_no_match new h.1, ih h.2]

variable {new}

theorem eq_nil_of_replaceFrom (h : old ≠ []) (hnew : new ≠ []) {cs : List Char}
    (hnil : replaceFrom old new 0 cs = []) : cs = [] := by
  rcases replaceFrom_cases new h cs with ⟨_, hsame⟩ | ⟨a, b, _, hreplaced⟩
  · rw [← hsame, hnil]
  · rw [hreplaced] at hnil
    simp only [List.append_eq_nil_iff] at hnil
    exact absurd hnil.2.1 hnew

/-- Only the pattern and the new text itself turn into the new text. -/
theorem eq_or_eq_of_replaceFrom (h : old ≠ []) (hnew : new ≠ []) {cs : List Char}
    (heq : replaceFrom old new 0 cs = new) : cs = new ∨ cs = old := by
  rcases replaceFrom_cases new h cs with ⟨_, hsame⟩ | ⟨a, b, rfl, hreplaced⟩
  · exact .inl (hsame.symm.trans heq)
  · have hlength := congrArg List.length (hreplaced.symm.trans heq)
    simp only [List.length_append] at hlength
    have ha : a = [] := List.eq_nil_of_length_eq_zero (by omega)
    have hb : b = [] :=
      eq_nil_of_replaceFrom h hnew (List.eq_nil_of_length_eq_zero (by omega))
    rw [ha, hb, List.nil_append, List.append_nil]
    exact .inr rfl
end

end SchemaDecl.Text
