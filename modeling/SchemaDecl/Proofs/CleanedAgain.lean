import SchemaDecl.Proofs.CleanedTexts

/-! Texts that are cleaned again. A pass takes out every artefact that stands in the
text, for no two of them overlap. What it leaves behind can be an artefact all the
same: one that was torn apart by others between its characters. That is the only
way, and only then a second pass finds something to do. -/

namespace SchemaDecl.Interface

/-! One pass from left to right. -/

/-- At each place an artefact goes, or one character stays. -/
@[elab_as_elim]
theorem cleaning {motive : List Char → Prop} (nil : motive [])
    (artefact : ∀ w ∈ artefacts, ∀ rest, motive rest → motive (w ++ rest))
    (kept : ∀ c rest, (∀ w ∈ artefacts, ¬ w <+: c :: rest) → motive rest → motive (c :: rest))
    (cs : List Char) : motive cs := by
  have hpos : ∀ w ∈ artefacts, 0 < w.length := by decide
  induction hn : cs.length using Nat.strong_induction_on generalizing cs with
  | _ n ih =>
    subst hn
    cases cs with
    | nil => exact nil
    | cons c rest =>
      by_cases hfound : ∃ w ∈ artefacts, w <+: c :: rest
      · obtain ⟨w, hw, tail, htail⟩ := hfound
        have hshorter : tail.length < (c :: rest).length := by
          have hw := hpos w hw
          rw [← htail, List.length_append]
          omega
        rw [← htail]
        exact artefact w hw tail (ih tail.length hshorter tail rfl)
      · refine kept c rest (fun w hw hprefix => hfound ⟨w, hw, hprefix⟩) ?_
        exact ih rest.length (Nat.lt_succ_self _) rest rfl

theorem cleanFrom_artefact {w : List Char} (hw : w ∈ artefacts) (rest : List Char) :
    cleanFrom 0 (w ++ rest) = cleanFrom 0 rest := cleans_artefact hw rest

theorem length_cleanFrom_le (cs : List Char) : (cleanFrom 0 cs).length ≤ cs.length := by
  induction cs using cleaning with
  | nil => exact Nat.le_refl 0
  | artefact w hw rest ih =>
    rw [cleanFrom_artefact hw, List.length_append]
    omega
  | kept c rest hno ih =>
    rw [cleanFrom_cons hno, List.length_cons, List.length_cons]
    omega

theorem not_opens_of_mem_tail {w : List Char} (hw : w ∈ artefacts) {c : Char} (hc : c ∈ w.tail) :
    opens c = false := by
  have hall : ∀ w ∈ artefacts, w.tail.any opens = false := by decide
  simpa using List.any_eq_false.1 (hall w hw) c hc

/-- An artefact does not reach into a place where one could start. -/
theorem prefix_of_opens {w : List Char} (hw : w ∈ artefacts) {c : Char} (hc : opens c = true)
    {a b : List Char} (hne : a ≠ []) (h : w <+: a ++ c :: b) : w <+: a := by
  obtain ⟨t, ht⟩ := h
  rcases List.append_eq_append_iff.1 ht with ⟨s, ha, _⟩ | ⟨s, rfl, hs⟩
  · exact ⟨s, ha.symm⟩
  · cases s with
    | nil => rw [List.append_nil]
    | cons d s =>
      obtain rfl : c = d := (List.cons.inj hs).1
      have hmem : c ∈ (a ++ c :: s).tail := by
        rw [List.tail_append_of_ne_nil hne]
        exact List.mem_append_right _ List.mem_cons_self
      rw [not_opens_of_mem_tail hw hmem] at hc
      cases hc

/-- What stands before such a place is cleaned on its own. -/
theorem cleanFrom_append_opens {c : Char} (hc : opens c = true) (a b : List Char) :
    cleanFrom 0 (a ++ c :: b) = cleanFrom 0 a ++ cleanFrom 0 (c :: b) := by
  induction a using cleaning with
  | nil => rfl
  | artefact w hw rest ih =>
    rw [List.append_assoc, cleanFrom_artefact hw, cleanFrom_artefact hw, ih]
  | kept d rest hno ih =>
    have hno' : ∀ w ∈ artefacts, ¬ w <+: d :: (rest ++ c :: b) := fun w hw hprefix =>
      hno w hw (prefix_of_opens hw hc (List.cons_ne_nil d rest) hprefix)
    rw [List.cons_append, cleanFrom_cons hno', cleanFrom_cons hno, ih, List.cons_append]

theorem opens_of_mem {c : Char} {w : List Char} (h : c :: w ∈ artefacts) : opens c = true :=
  opens_of_prefix h (List.prefix_refl _)

/-- A pass makes a text with an artefact shorter. -/
theorem length_cleanFrom_lt {cs : List Char} (h : Marked cs) :
    (cleanFrom 0 cs).length < cs.length := by
  obtain ⟨w, hw, a, b, rfl⟩ := h
  obtain ⟨c, v, rfl⟩ := List.exists_cons_of_ne_nil (l := w) (by rintro rfl; revert hw; decide)
  have hclean : cleanFrom 0 (a ++ (c :: v) ++ b) = cleanFrom 0 a ++ cleanFrom 0 b := by
    rw [List.append_assoc, List.cons_append, cleanFrom_append_opens (opens_of_mem hw),
      ← List.cons_append, cleanFrom_artefact hw]
  have ha := length_cleanFrom_le a
  have hb := length_cleanFrom_le b
  rw [hclean]
  simp only [List.length_append, List.length_cons]
  omega

/-! Artefacts that others tear apart. -/

/-- The text spells the word, with artefacts in front of some of its characters. -/
inductive Spread : List Char → List Char → Prop
  | last (c : Char) : Spread [c] [c]
  | sign (c : Char) {v t : List Char} : Spread v t → Spread (c :: v) (c :: t)
  | artefact {w v t : List Char} : w ∈ artefacts → Spread v t → Spread v (w ++ t)

/-- The text is an artefact with others between its characters. -/
def Torn (t : List Char) : Prop :=
  ∃ c v rest, c :: v ∈ artefacts ∧ t = c :: rest ∧ Spread v rest ∧ rest ≠ v

theorem Spread.cleans {v t : List Char} (h : Spread v t) (hv : ∀ c ∈ v, opens c = false) :
    Cleans t v := by
  induction h with
  | last c => exact cleans_sign c (hv c List.mem_cons_self)
  | sign c _ ih =>
    exact (cleans_sign c (hv c List.mem_cons_self)).append
      (ih fun d hd => hv d (List.mem_cons_of_mem _ hd))
  | artefact hw _ ih => exact (cleans_artefact hw).append (ih hv)

theorem Spread.ne_nil {v t : List Char} (h : Spread v t) : v ≠ [] := by
  induction h with
  | last c => exact List.cons_ne_nil c []
  | sign c _ _ => exact List.cons_ne_nil c _
  | artefact _ _ ih => exact ih

/-- The first artefact stands in front of a character of the word. -/
theorem Spread.exists_artefact {v t : List Char} (h : Spread v t) (hne : t ≠ v) :
    ∃ p s w rest, v = p ++ s ∧ s ≠ [] ∧ w ∈ artefacts ∧ t = p ++ (w ++ rest) := by
  induction h with
  | last c => exact absurd rfl hne
  | sign c _ ih =>
    obtain ⟨p, s, w, rest, rfl, hs, hw, rfl⟩ := ih fun heq => hne (heq ▸ rfl)
    exact ⟨c :: p, s, w, rest, rfl, hs, hw, rfl⟩
  | @artefact w v t hw h _ => exact ⟨[], v, w, t, rfl, h.ne_nil, hw, rfl⟩

/-- The pass takes the others out and leaves the torn one whole. -/
theorem cleans_torn {c : Char} {v rest : List Char} (hv : c :: v ∈ artefacts)
    (h : Spread v rest) (hne : rest ≠ v) : Cleans (c :: rest) (c :: v) := by
  have halone : ∀ w ∈ artefacts, ∀ v ∈ artefacts, w <+: v → w = v := by decide
  intro more
  obtain ⟨p, s, w, tail, rfl, hs, hw, hrest⟩ := h.exists_artefact hne
  obtain ⟨d, w, rfl⟩ := List.exists_cons_of_ne_nil (l := w) (by rintro rfl; revert hw; decide)
  have hno : ∀ u ∈ artefacts, ¬ u <+: c :: (rest ++ more) := by
    intro u hu hprefix
    have htext : c :: (rest ++ more) = (c :: p) ++ d :: (w ++ tail ++ more) := by
      simp [hrest]
    rw [htext] at hprefix
    have hbefore := prefix_of_opens hu (opens_of_mem hw) (List.cons_ne_nil c p) hprefix
    have hwhole := halone u hu _ hv (hbefore.trans (List.prefix_append (c :: p) s))
    rw [hwhole] at hbefore
    have hlength := hbefore.length_le
    have hpos := List.length_pos_iff.2 hs
    simp only [List.length_cons, List.length_append] at hlength
    omega
  have hrests := h.cleans (fun d hd => not_opens_of_mem_tail hv hd) more
  rw [List.cons_append, cleanFrom_cons hno, hrests, List.cons_append]

/-- A word that a cleaned text starts with was spread over the start of the text. -/
theorem exists_spread (cs : List Char) : ∀ v u, v ≠ [] → cleanFrom 0 cs = v ++ u →
    ∃ t b, cs = t ++ b ∧ Spread v t := by
  induction cs using cleaning with
  | nil =>
    intro v u hne h
    exact absurd (List.append_eq_nil_iff.1 h.symm).1 hne
  | artefact w hw rest ih =>
    intro v u hne h
    rw [cleanFrom_artefact hw] at h
    obtain ⟨t, b, rfl, hspread⟩ := ih v u hne h
    exact ⟨w ++ t, b, (List.append_assoc w t b).symm, .artefact hw hspread⟩
  | kept c rest hno ih =>
    intro v u hne h
    rw [cleanFrom_cons hno] at h
    obtain ⟨d, v, rfl⟩ := List.exists_cons_of_ne_nil hne
    rw [List.cons_append] at h
    obtain ⟨rfl, hrest⟩ := List.cons.inj h
    by_cases hv : v = []
    · exact ⟨[c], rest, rfl, hv ▸ .last c⟩
    · obtain ⟨t, b, rfl, hspread⟩ := ih v u hv hrest
      exact ⟨c :: t, b, rfl, .sign c hspread⟩

theorem exists_torn (cs : List Char) : ∀ x v y, v ∈ artefacts → cleanFrom 0 cs = x ++ v ++ y →
    ∃ t, Torn t ∧ t <:+: cs := by
  have hlong : ∀ v ∈ artefacts, v.tail ≠ [] := by decide
  induction cs using cleaning with
  | nil =>
    intro x v y hv h
    have hnil := (List.append_eq_nil_iff.1 (List.append_eq_nil_iff.1 h.symm).1).2
    exact absurd (hnil ▸ hv) (by decide)
  | artefact w hw rest ih =>
    intro x v y hv h
    rw [cleanFrom_artefact hw] at h
    obtain ⟨t, htorn, hin⟩ := ih x v y hv h
    exact ⟨t, htorn, hin.trans (List.suffix_append w rest).isInfix⟩
  | kept c rest hno ih =>
    intro x v y hv h
    rw [cleanFrom_cons hno] at h
    cases x with
    | nil =>
      -- the first character of the artefact is kept here, so it is not whole in the text
      cases v with
      | nil => exact absurd hv (by decide)
      | cons d v =>
        rw [List.nil_append, List.cons_append] at h
        obtain ⟨rfl, hrest⟩ := List.cons.inj h
        obtain ⟨t, b, rfl, hspread⟩ := exists_spread rest v y (hlong _ hv) hrest
        refine ⟨c :: t, ⟨c, v, t, hv, rfl, hspread, fun heq => ?_⟩,
          (List.prefix_append (c :: t) b).isInfix⟩
        exact hno _ hv (heq ▸ List.prefix_append (c :: t) b)
    | cons d x =>
      obtain ⟨t, htorn, hin⟩ := ih x v y hv (List.cons.inj h).2
      exact ⟨t, htorn, List.infix_cons hin⟩

/-- After a pass there is an artefact exactly if one was torn apart by others before it. -/
theorem marked_cleanFrom_iff (cs : List Char) :
    Marked (cleanFrom 0 cs) ↔ ∃ t, Torn t ∧ t <:+: cs := by
  constructor
  · rintro ⟨v, hv, x, y, h⟩
    exact exists_torn cs x v y hv h.symm
  · rintro ⟨_, ⟨c, v, rest, hv, rfl, hspread, hne⟩, a, b, rfl⟩
    refine ⟨c :: v, hv, cleanFrom 0 a, cleanFrom 0 b, ?_⟩
    rw [List.append_assoc a (c :: rest), List.cons_append,
      cleanFrom_append_opens (opens_of_mem hv), ← List.cons_append, cleans_torn hv hspread hne,
      List.append_assoc]

/-- A text that a pass does not change is free of artefacts, and the other way round. -/
theorem cleanFrom_eq_self_iff (cs : List Char) : cleanFrom 0 cs = cs ↔ ¬ Marked cs := by
  refine ⟨fun hsame hmarked => ?_, cleanFrom_of_not_marked⟩
  have hshorter := length_cleanFrom_lt hmarked
  rw [hsame] at hshorter
  omega

/-- A cleaned text holds an artefact exactly if in the text itself an artefact was torn apart by
others, and cleaning it again leaves it as it is exactly if there was none such. -/
theorem clean_again_iff (text : String) :
    (Marked (clean text).toList ↔ ∃ t, Torn t ∧ t <:+: text.toList) ∧
      (clean (clean text) = clean text ↔ ¬ ∃ t, Torn t ∧ t <:+: text.toList) := by
  have hmarked := marked_cleanFrom_iff text.toList
  have hclean : ∀ s : String, (clean s).toList = cleanFrom 0 s.toList :=
    fun _ => String.toList_ofList
  rw [← String.toList_inj, hclean (clean text), hclean text, cleanFrom_eq_self_iff, hmarked]
  exact ⟨Iff.rfl, Iff.rfl⟩

/-- Two halves of a tag with a tag between them become a tag. -/
theorem halves_reunited : clean "<<p>p>" = "<p>" ∧ Marked (clean "<<p>p>").toList ∧
    clean (clean "<<p>p>") ≠ clean "<<p>p>" := by
  have hclean : clean "<<p>p>" = "<p>" := by decide +kernel
  have hmarked : Marked "<p>".toList := ⟨"<p>".toList, by decide, List.infix_refl _⟩
  rw [hclean]
  exact ⟨rfl, hmarked, by decide +kernel⟩

end SchemaDecl.Interface
