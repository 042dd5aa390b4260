import SchemaDecl.Interface
import SchemaDecl.Proofs.Json.Sources
import SchemaDecl.Proofs.Json.Updates

/-! Cleaned texts read. The editor leaves nothing behind that reaches out of a string
literal or cuts an escape in two: an artefact in a valid text covers whole glyphs of
one literal. So the cleaned text spells the same source with every literal cleaned on
its own, and the value read from it differs in strings only, which may have become
shorter. -/

namespace SchemaDecl

namespace Interface

open Json Json.Reader

/-! Artefacts. -/

/-- What the editor leaves behind, in every spelling. -/
def artefacts : List (List Char) :=
  ["<p>", "<P>", "注释\\n\\t", "注释\\n\\T", "注释\\N\\t", "注释\\N\\T"].map String.toList

def Marked (cs : List Char) : Prop := ∃ w ∈ artefacts, w <:+: cs

theorem artefact?_eq_some_iff {cs : List Char} {n : Nat} :
    artefact? cs = some n ↔ ∃ w ∈ artefacts, w <+: cs ∧ w.length = n := by
  constructor
  · intro h
    unfold artefact? at h
    split at h
    · split at h
      · rename_i p rest hp
        obtain rfl := Option.some.inj h
        simp only [Bool.or_eq_true, decide_eq_true_eq] at hp
        rcases hp with rfl | rfl
        · exact ⟨"<p>".toList, by decide, ⟨rest, rfl⟩, rfl⟩
        · exact ⟨"<P>".toList, by decide, ⟨rest, rfl⟩, rfl⟩
      · cases h
    · split at h
      · rename_i n t rest hnt
        obtain rfl := Option.some.inj h
        simp only [Bool.and_eq_true, Bool.or_eq_true, decide_eq_true_eq] at hnt
        obtain ⟨rfl | rfl, rfl | rfl⟩ := hnt
        · exact ⟨"注释\\n\\t".toList, by decide, ⟨rest, rfl⟩, rfl⟩
        · exact ⟨"注释\\n\\T".toList, by decide, ⟨rest, rfl⟩, rfl⟩
        · exact ⟨"注释\\N\\t".toList, by decide, ⟨rest, rfl⟩, rfl⟩
        · exact ⟨"注释\\N\\T".toList, by decide, ⟨rest, rfl⟩, rfl⟩
      · cases h
    · cases h
  · rintro ⟨w, hw, ⟨rest, rfl⟩, rfl⟩
    simp only [artefacts, List.map_cons, List.map_nil, List.mem_cons, List.not_mem_nil,
      or_false] at hw
    rcases hw with rfl | rfl | rfl | rfl | rfl | rfl <;> rfl

theorem cleanFrom_drop (n : Nat) (cs : List Char) : cleanFrom n cs = cleanFrom 0 (cs.drop n) := by
  induction n generalizing cs with
  | zero => rfl
  | succ n ih =>
    cases cs with
    | nil => rfl
    | cons c rest => exact ih rest

theorem cleanFrom_cons {c : Char} {rest : List Char} (h : ∀ w ∈ artefacts, ¬ w <+: c :: rest) :
    cleanFrom 0 (c :: rest) = c :: cleanFrom 0 rest := by
  rw [cleanFrom]
  split
  · rename_i n hn
    obtain ⟨w, hw, hprefix, -⟩ := artefact?_eq_some_iff.1 hn
    exact absurd hprefix (h w hw)
  · rfl

/-- A text without artefacts stays as it is. -/
theorem cleanFrom_of_not_marked {cs : List Char} (h : ¬ Marked cs) : cleanFrom 0 cs = cs := by
  induction cs with
  | nil => rfl
  | cons c rest ih =>
    have hrest : ¬ Marked rest := fun ⟨w, hw, hin⟩ => h ⟨w, hw, List.infix_cons hin⟩
    rw [cleanFrom_cons fun w hw hprefix => h ⟨w, hw, hprefix.isInfix⟩, ih hrest]

/-! Texts that are cleaned apart from what follows. -/

/-- The text is cleaned to the other, whatever stands behind it. -/
def Cleans (t u : List Char) : Prop := ∀ rest, cleanFrom 0 (t ++ rest) = u ++ cleanFrom 0 rest

theorem Cleans.eq {t u : List Char} (h : Cleans t u) : cleanFrom 0 t = u := by
  have hnil := h []
  rwa [List.append_nil, cleanFrom, List.append_nil] at hnil

theorem Cleans.append {t u t' u' : List Char} (h : Cleans t u) (h' : Cleans t' u') :
    Cleans (t ++ t') (u ++ u') := by
  intro rest
  rw [List.append_assoc, h, h', List.append_assoc]

theorem cleans_artefact {w : List Char} (hw : w ∈ artefacts) : Cleans w [] := by
  intro rest
  obtain ⟨c, cs, rfl⟩ := List.exists_cons_of_ne_nil (l := w) (by rintro rfl; revert hw; decide)
  have hfound : artefact? (c :: (cs ++ rest)) = some (cs.length + 1) :=
    artefact?_eq_some_iff.2 ⟨c :: cs, hw, List.prefix_append (c :: cs) rest, rfl⟩
  rw [List.cons_append, cleanFrom, hfound]
  dsimp only
  rw [Nat.add_sub_cancel, cleanFrom_drop, List.drop_left]
  rfl

/-- Artefacts start with one of two characters. -/
def opens (c : Char) : Bool := c = '<' || c = '注'

/-- A character of a class that both of them are outside of. -/
theorem opens_eq_false (p : Char → Bool) {c : Char} (hc : p c = true) (hopening : p '<' = false)
    (hcomment : p '注' = false) : opens c = false := by
  cases hopens : opens c
  · rfl
  · simp only [opens, Bool.or_eq_true, decide_eq_true_eq] at hopens
    rcases hopens with rfl | rfl
    · rw [hopening] at hc
      cases hc
    · rw [hcomment] at hc
      cases hc

theorem opens_of_prefix {w : List Char} (hw : w ∈ artefacts) {c : Char} {rest : List Char}
    (h : w <+: c :: rest) : opens c = true := by
  have hall : ∀ w ∈ artefacts, (w.head?.any opens) = true := by decide
  obtain ⟨tail, htail⟩ := h
  cases w with
  | nil => exact absurd hw (by decide)
  | cons d w =>
    obtain ⟨rfl, -⟩ := List.cons.inj htail
    exact hall _ hw

theorem cleans_calm {w : List Char} (hw : ∀ c ∈ w, opens c = false) : Cleans w w := by
  intro rest
  induction w with
  | nil => rfl
  | cons c w ih =>
    have hno : ∀ v ∈ artefacts, ¬ v <+: c :: (w ++ rest) := by
      intro v hv hprefix
      have hc := opens_of_prefix hv hprefix
      rw [hw c List.mem_cons_self] at hc
      cases hc
    rw [List.cons_append, cleanFrom_cons hno, ih fun d hd => hw d (List.mem_cons_of_mem _ hd)]
    rfl

theorem cleans_sign (c : Char) (hc : opens c = false) : Cleans [c] [c] :=
  cleans_calm fun d hd => by rw [List.mem_singleton.1 hd, hc]

/-! Glyphs. -/

theorem opens_digit {digits : List Char} {n : Nat} (h : hexFour? digits = some n) :
    ∀ c ∈ digits, opens c = false := by
  have hhex : ∀ {c : Char} {m : Nat}, hexValue? c = some m → opens c = false := by
    intro c m hc
    exact opens_eq_false (fun c => (hexValue? c).isSome) (by simp [hc]) rfl rfl
  unfold hexFour? at h
  split at h
  · simp only [bind, Option.bind_eq_some_iff] at h
    obtain ⟨_, ha, _, hb, _, hc, _, hd, -⟩ := h
    simp only [List.mem_cons, List.not_mem_nil, or_false]
    rintro x (rfl | rfl | rfl | rfl)
    · exact hhex ha
    · exact hhex hb
    · exact hhex hc
    · exact hhex hd
  · cases h

/-- Only the first character of a glyph can start an artefact. -/
theorem exists_cons_text (g : Glyph) : ∃ c w, g.text = c :: w ∧ ∀ d ∈ w, opens d = false := by
  cases g with
  | plain c quiet => exact ⟨c, [], rfl, by simp⟩
  | escaped sign c read =>
    refine ⟨'\\', [sign], rfl, fun d hd => ?_⟩
    rw [List.mem_singleton.1 hd]
    exact opens_eq_false (fun c => (plainEscape? c).isSome) (by simp [read]) rfl rfl
  | code digits n read =>
    refine ⟨'\\', 'u' :: digits, rfl, fun d hd => ?_⟩
    rcases List.mem_cons.1 hd with rfl | hd
    · rfl
    · exact opens_digit read d hd

/-- A glyph stays if no artefact starts with it. -/
theorem cleans_glyph {g : Glyph} {gs : List Glyph} {u : List Char}
    (hno : ∀ w ∈ artefacts, ¬ w <+: glyphText (g :: gs)) (h : Cleans (glyphText gs ++ ['"']) u) :
    Cleans (glyphText (g :: gs) ++ ['"']) (g.text ++ u) := by
  intro rest
  obtain ⟨c, w, hg, hw⟩ := exists_cons_text g
  have htext : glyphText (g :: gs) ++ ['"'] ++ rest =
      c :: (w ++ (glyphText gs ++ ['"'] ++ rest)) := by
    rw [glyphText, List.flatMap_cons, hg]
    simp [glyphText]
  have hfirst : ∀ v ∈ artefacts, ¬ v <+: c :: (w ++ (glyphText gs ++ ['"'] ++ rest)) := by
    intro v hv hprefix
    have hquote : ∀ v ∈ artefacts, '"' ∉ v := by decide
    rw [← htext, List.append_assoc] at hprefix
    exact hno v hv (Text.prefix_of_foreign (hquote v hv) hprefix)
  rw [htext, cleanFrom_cons hfirst, cleans_calm hw, h, hg, List.cons_append, List.cons_append,
    List.append_assoc]

/-- An artefact covers whole glyphs, none of which is half of a surrogate pair. -/
theorem exists_block {w tail : List Char} (hw : w ∈ artefacts) {gs : List Glyph}
    (h : glyphText gs = w ++ tail) :
    ∃ block more, gs = block ++ more ∧ glyphText block = w ∧ block ≠ [] ∧
      ∀ g ∈ block, ∃ c : Char, g.number = c.toNat := by
  have htag : ∀ p : Char, p ≠ '\\' → glyphText gs = '<' :: p :: '>' :: tail →
      ∃ block more, gs = block ++ more ∧ glyphText block = ['<', p, '>'] ∧ block ≠ [] ∧
        ∀ g ∈ block, ∃ c : Char, g.number = c.toNat := by
    intro p hp h
    obtain ⟨quiet₁, gs₁, rfl, h₁⟩ := exists_plain h (by decide)
    obtain ⟨quiet₂, gs₂, rfl, h₂⟩ := exists_plain h₁ hp
    obtain ⟨quiet₃, gs₃, rfl, -⟩ := exists_plain h₂ (by decide)
    refine ⟨[.plain '<' quiet₁, .plain p quiet₂, .plain '>' quiet₃], gs₃, rfl, rfl,
      List.cons_ne_nil _ _, ?_⟩
    simp only [List.mem_cons, List.not_mem_nil, or_false]
    rintro g (rfl | rfl | rfl)
    · exact ⟨'<', rfl⟩
    · exact ⟨p, rfl⟩
    · exact ⟨'>', rfl⟩
  have hcomment : ∀ n t : Char, n ≠ 'u' → t ≠ 'u' →
      glyphText gs = '注' :: '释' :: '\\' :: n :: '\\' :: t :: tail →
      ∃ block more, gs = block ++ more ∧ glyphText block = ['注', '释', '\\', n, '\\', t] ∧
        block ≠ [] ∧ ∀ g ∈ block, ∃ c : Char, g.number = c.toNat := by
    intro n t hn ht h
    obtain ⟨quiet₁, gs₁, rfl, h₁⟩ := exists_plain h (by decide)
    obtain ⟨quiet₂, gs₂, rfl, h₂⟩ := exists_plain h₁ (by decide)
    obtain ⟨c, read, gs₃, rfl, h₃⟩ := exists_escaped h₂ hn
    obtain ⟨d, read', gs₄, rfl, -⟩ := exists_escaped h₃ ht
    refine ⟨[.plain '注' quiet₁, .plain '释' quiet₂, .escaped n c read, .escaped t d read'], gs₄,
      rfl, rfl, List.cons_ne_nil _ _, ?_⟩
    simp only [List.mem_cons, List.not_mem_nil, or_false]
    rintro g (rfl | rfl | rfl | rfl)
    · exact ⟨'注', rfl⟩
    · exact ⟨'释', rfl⟩
    · exact ⟨c, rfl⟩
    · exact ⟨d, rfl⟩
  simp only [artefacts, List.map_cons, List.map_nil, List.mem_cons, List.not_mem_nil,
    or_false] at hw
  rcases hw with rfl | rfl | rfl | rfl | rfl | rfl
  · exact htag 'p' (by decide) h
  · exact htag 'P' (by decide) h
  · exact hcomment 'n' 't' (by decide) (by decide) h
  · exact hcomment 'n' 'T' (by decide) (by decide) h
  · exact hcomment 'N' 't' (by decide) (by decide) h
  · exact hcomment 'N' 'T' (by decide) (by decide) h

/-! Fewer characters. -/

/-- The second numbers make up fewer characters, and they start with the low surrogate that the
first ones start with, if they do. -/
def Shrinks (ns ms : List Nat) : Prop :=
  (decode ms).length < (decode ns).length ∧
    ∀ n ∈ ns.head?, isLowSurrogate n = true → ms.head? = some n

/-- A surrogate in front makes a pair with what is left only if it made one before. -/
theorem Shrinks.cons {ns ms : List Nat} (h : Shrinks ns ms) (n : Nat) :
    Shrinks (n :: ns) (n :: ms) := by
  refine ⟨?_, fun m hm _ => hm⟩
  rw [length_decode_cons, length_decode_cons]
  by_cases hpair : ns.head?.any (isPair n) = true
  · obtain ⟨m, hm, hnm⟩ := (Option.any_eq_true _ _).1 hpair
    have hlow : isLowSurrogate m = true := (Bool.and_eq_true_iff.1 hnm).2
    rw [if_pos hpair, h.2 m hm hlow, if_pos (by simpa using hnm)]
    exact h.1
  · have hless := h.1
    rw [if_neg hpair]
    split <;> omega

theorem shrinks_block {block gs gs' : List Glyph} (hne : block ≠ [])
    (hchars : ∀ g ∈ block, ∃ c : Char, g.number = c.toNat)
    (hle : (decode (gs'.map Glyph.number)).length ≤ (decode (gs.map Glyph.number)).length) :
    Shrinks ((block ++ gs).map Glyph.number) (gs'.map Glyph.number) := by
  have hlength : (decode ((block ++ gs).map Glyph.number)).length =
      block.length + (decode (gs.map Glyph.number)).length := by
    clear hne
    induction block with
    | nil => simp
    | cons g block ih =>
      obtain ⟨c, hc⟩ := hchars g List.mem_cons_self
      rw [List.cons_append, List.map_cons, hc, decode_char, List.length_cons, List.length_cons,
        ih fun g hg => hchars g (List.mem_cons_of_mem _ hg)]
      omega
  obtain ⟨g, block, rfl⟩ := List.exists_cons_of_ne_nil hne
  refine ⟨?_, fun n hn hlow => ?_⟩
  · rw [hlength, List.length_cons]
    omega
  · obtain ⟨c, hc⟩ := hchars g List.mem_cons_self
    obtain rfl : g.number = n := Option.some.inj hn
    rw [hc, (not_surrogate c).2] at hlow
    cases hlow

/-- The glyphs up to the closing quote are cleaned to glyphs again, by induction on how many there
are: at each place an artefact goes, or one glyph stays. -/
theorem exists_cleaned_glyphs (gs : List Glyph) :
    ∃ gs', Cleans (glyphText gs ++ ['"']) (glyphText gs' ++ ['"']) ∧
      (gs' = gs ∨ Shrinks (gs.map Glyph.number) (gs'.map Glyph.number)) := by
  induction hn : gs.length using Nat.strong_induction_on generalizing gs with
  | _ n ih =>
    subst hn
    cases gs with
    | nil => exact ⟨[], cleans_sign '"' rfl, .inl rfl⟩
    | cons g gs =>
      by_cases hfound : ∃ w ∈ artefacts, w <+: glyphText (g :: gs)
      · obtain ⟨w, hw, tail, htail⟩ := hfound
        obtain ⟨block, more, hgs, rfl, hne, hchars⟩ := exists_block hw htail.symm
        have hshorter : more.length < (g :: gs).length := by
          have hpos := List.length_pos_iff.2 hne
          rw [hgs, List.length_append]
          omega
        obtain ⟨gs', hclean, hsame⟩ := ih more.length hshorter more rfl
        refine ⟨gs', ?_, .inr ?_⟩
        · rw [hgs, glyphText_append, List.append_assoc]
          exact (cleans_artefact hw).append hclean
        · rw [hgs]
          refine shrinks_block hne hchars ?_
          rcases hsame with rfl | hshrinks
          · exact Nat.le_refl _
          · exact Nat.le_of_lt hshrinks.1
      · obtain ⟨gs', hclean, hsame⟩ := ih gs.length (Nat.lt_succ_self _) gs rfl
        have hno : ∀ w ∈ artefacts, ¬ w <+: glyphText (g :: gs) :=
          fun w hw hprefix => hfound ⟨w, hw, hprefix⟩
        refine ⟨g :: gs', ?_, ?_⟩
        · have hkept := cleans_glyph hno hclean
          rwa [← List.append_assoc] at hkept
        · rcases hsame with rfl | hshrinks
          · exact .inl rfl
          · exact .inr (hshrinks.cons g.number)

/-! Literals. -/

theorem exists_cleaned_literal (l : Literal) :
    ∃ m : Literal, Cleans l.text m.text ∧
      (m.value = l.value ∨ m.value.length < l.value.length) := by
  obtain ⟨gs, rfl⟩ := l.exists_glyphs
  obtain ⟨gs', hclean, hsame⟩ := exists_cleaned_glyphs gs
  refine ⟨.ofGlyphs gs', ?_, hsame.imp (fun h => by rw [h]) fun h => ?_⟩
  · exact (cleans_sign '"' rfl).append hclean
  · simpa [Literal.ofGlyphs] using h.1

end Interface

namespace Json

open Interface

/-- The literal with the artefacts taken out of its text. -/
def Literal.cleaned (l : Literal) : Literal where
  text := cleanFrom 0 l.text
  value := match Reader.string (cleanFrom 0 l.text) with
    | .ok (s, _) => s
    | .error _ => ""
  opened := by
    obtain ⟨m, hclean, -⟩ := exists_cleaned_literal l
    rw [hclean.eq]
    exact m.opened
  read := by
    obtain ⟨m, hclean, -⟩ := exists_cleaned_literal l
    rw [hclean.eq, m.read]

theorem Literal.value_congr {l m : Literal} (h : l.text = m.text) : l.value = m.value := by
  have hread := l.read
  rw [h, m.read] at hread
  exact (Prod.mk.inj (Except.ok.inj hread)).1.symm

theorem Literal.cleans (l : Literal) : Cleans l.text l.cleaned.text := by
  obtain ⟨m, hclean, -⟩ := exists_cleaned_literal l
  have htext : l.cleaned.text = m.text := hclean.eq
  rwa [htext]

theorem Literal.value_cleaned (l : Literal) :
    l.cleaned.value = l.value ∨ l.cleaned.value.length < l.value.length := by
  obtain ⟨m, hclean, hvalue⟩ := exists_cleaned_literal l
  rwa [Literal.value_congr (m := m) hclean.eq]

theorem Literal.value_cleaned_of_not_marked {l : Literal} (h : ¬ Marked l.text) :
    l.cleaned.value = l.value :=
  Literal.value_congr (cleanFrom_of_not_marked h)

/-! Sources. -/

namespace Source

mutual
/-- The source with every literal cleaned. -/
def cleaned : Source → Source
  | .scalar x => .scalar x
  | .str l => .str l.cleaned
  | .arr items => .arr (cleanedItems items)
  | .obj members => .obj (cleanedMembers members)

def cleanedItems : List Source → List Source
  | [] => []
  | source :: items => cleaned source :: cleanedItems items

def cleanedMembers : List (Literal × Source) → List (Literal × Source)
  | [] => []
  | (l, source) :: members => (l.cleaned, cleaned source) :: cleanedMembers members
end

end Source

theorem cleans_blank {b : List Char} (hb : b.all Reader.isBlank = true) : Cleans b b := by
  refine cleans_calm fun c hc => ?_
  exact opens_eq_false Reader.isBlank (List.all_eq_true.1 hb c hc) rfl rfl

theorem Scalar.cleans (x : Scalar) : Cleans x.text x.text := by
  refine cleans_calm fun c hc => ?_
  exact opens_eq_false Reader.isScalarChar (List.all_eq_true.1 x.all_text c hc) rfl rfl

mutual
/-- What a text spells is still spelled, cleaned, by the cleaned text. -/
theorem Spells.cleaned {source : Source} {t : List Char} : Spells source t →
    ∃ u, Cleans t u ∧ Spells source.cleaned u
  | .scalar x => ⟨x.text, x.cleans, .scalar x⟩
  | .str l => ⟨l.cleaned.text, l.cleans, .str l.cleaned⟩
  | .noItems hb =>
    ⟨_, (cleans_sign '[' rfl).append
      ((cleans_blank hb).append (cleans_sign ']' rfl)), .noItems hb⟩
  | .arr hitems => by
    obtain ⟨u, hclean, hu⟩ := hitems.cleaned
    exact ⟨_, (cleans_sign '[' rfl).append hclean, .arr hu⟩
  | .noMembers hb =>
    ⟨_, (cleans_sign '\x7b' rfl).append
      ((cleans_blank hb).append (cleans_sign '\x7d' rfl)), .noMembers hb⟩
  | .obj hmembers => by
    obtain ⟨u, hclean, hu⟩ := hmembers.cleaned
    exact ⟨_, (cleans_sign '\x7b' rfl).append hclean, .obj hu⟩
  | .padded hb he hsource => by
    obtain ⟨u, hclean, hu⟩ := hsource.cleaned
    exact ⟨_, (cleans_blank hb).append (hclean.append (cleans_blank he)), .padded hb he hu⟩

theorem SpellsItems.cleaned {items : List Source} {t : List Char} : SpellsItems items t →
    ∃ u, Cleans t u ∧ SpellsItems (Source.cleanedItems items) u
  | .last hsource => by
    obtain ⟨u, hclean, hu⟩ := hsource.cleaned
    exact ⟨_, hclean.append (cleans_sign ']' rfl), .last hu⟩
  | .more hsource hitems => by
    obtain ⟨u, hclean, hu⟩ := hsource.cleaned
    obtain ⟨u', hclean', hu'⟩ := hitems.cleaned
    exact ⟨_, hclean.append ((cleans_sign ',' rfl).append hclean'), .more hu hu'⟩

theorem SpellsMembers.cleaned {members : List (Literal × Source)} {t : List Char} :
    SpellsMembers members t →
    ∃ u, Cleans t u ∧ SpellsMembers (Source.cleanedMembers members) u
  | .last l hb he hsource => by
    obtain ⟨u, hclean, hu⟩ := hsource.cleaned
    have hvalue := hclean.append (cleans_sign '\x7d' rfl)
    have hname := (cleans_blank he).append ((cleans_sign ':' rfl).append hvalue)
    exact ⟨_, (cleans_blank hb).append (l.cleans.append hname), .last l.cleaned hb he hu⟩
  | .more l hb he hsource hmembers => by
    obtain ⟨u, hclean, hu⟩ := hsource.cleaned
    obtain ⟨u', hclean', hu'⟩ := hmembers.cleaned
    have hvalue := hclean.append ((cleans_sign ',' rfl).append hclean')
    have hname := (cleans_blank he).append ((cleans_sign ':' rfl).append hvalue)
    exact ⟨_, (cleans_blank hb).append (l.cleans.append hname), .more l.cleaned hb he hu hu'⟩
end

/-! Values. -/

/-- The second value is the first one, with shorter strings here and there. -/
inductive Shortened : Json → Json → Prop
  | same (x : Json) : Shortened x x
  | str {s t : String} (h : t.length < s.length) : Shortened (.str s) (.str t)
  | arr {xs ys : List Json} (h : List.Forall₂ Shortened xs ys) : Shortened (.arr xs) (.arr ys)
  | obj {fs gs : Fields} (keys : fs.map Prod.fst = gs.map Prod.fst)
    (values : List.Forall₂ Shortened (fs.map Prod.snd) (gs.map Prod.snd)) :
    Shortened (.obj fs) (.obj gs)

theorem Shortened.fields {fs gs : Fields}
    (h : List.Forall₂ (fun f g => f.1 = g.1 ∧ Shortened f.2 g.2) fs gs) :
    Shortened (.obj fs) (.obj gs) := by
  refine .obj ?_ ?_
  · induction h with
    | nil => rfl
    | cons hfg _ ih => exact congrArg₂ List.cons hfg.1 ih
  · rw [List.forall₂_map_left_iff, List.forall₂_map_right_iff]
    exact h.imp fun f g hfg => hfg.2

mutual
/-- With the names of members free of artefacts only strings in values become shorter. -/
theorem Source.shortened : (source : Source) → (∀ l ∈ source.names, ¬ Marked l.text) →
    Shortened source.value source.cleaned.value
  | .scalar x, _ => .same x.value
  | .str l, _ => by
    rcases l.value_cleaned with hsame | hless
    · rw [cleaned, value, value, hsame]
      exact .same _
    · exact .str hless
  | .arr items, h => .arr (shortenedItems items h)
  | .obj members, h => .fields (Fields.forall₂_update (shortenedMembers members h) .nil)

theorem Source.shortenedItems : (items : List Source) →
    (∀ l ∈ namesItems items, ¬ Marked l.text) →
    List.Forall₂ Shortened (values items) (values (cleanedItems items))
  | [], _ => .nil
  | source :: items, h => by
    simp only [namesItems, List.mem_append] at h
    exact .cons (shortened source fun l hl => h l (.inl hl))
      (shortenedItems items fun l hl => h l (.inr hl))

theorem Source.shortenedMembers : (members : List (Literal × Source)) →
    (∀ l ∈ namesMembers members, ¬ Marked l.text) →
    List.Forall₂ (fun f g => f.1 = g.1 ∧ Shortened f.2 g.2) (entries members)
      (entries (cleanedMembers members))
  | [], _ => .nil
  | (l, source) :: members, h => by
    simp only [namesMembers, List.mem_cons, List.mem_append] at h
    have hname := Literal.value_cleaned_of_not_marked (h l (.inl rfl))
    exact .cons ⟨congrArg Key.str hname.symm, shortened source fun m hm => h m (.inr (.inl hm))⟩
      (shortenedMembers members fun m hm => h m (.inr (.inr hm)))
end

end Json

namespace Interface

open Json Inversion

/-- A text that can be read can still be read when it is cleaned. Whatever source it spells, the
cleaned text spells the source with every literal cleaned, and the value is the one of that source.
If no name of a member holds an artefact, the values have the same structure, keys and scalars, and
strings are the same or shorter. -/
theorem read_clean {text : String} {x : Json} (h : Json.read text = .ok x) :
    (∃ source, Spells source text.toList) ∧
      ∀ source, Spells source text.toList →
        source.value = x ∧ Spells source.cleaned (clean text).toList ∧
          Json.read (clean text) = .ok source.cleaned.value ∧
          ((∀ l ∈ source.names, ¬ Marked l.text) → Shortened x source.cleaned.value) := by
  obtain ⟨source, hsource, -⟩ := read_eq_ok_iff.1 h
  refine ⟨⟨source, hsource⟩, fun source hsource => ?_⟩
  have hvalue : source.value = x :=
    Except.ok.inj ((read_eq_ok_iff.2 ⟨source, hsource, rfl⟩).symm.trans h)
  obtain ⟨u, hclean, hu⟩ := hsource.cleaned
  have htext : (clean text).toList = u := by
    rw [clean, String.toList_ofList, hclean.eq]
  refine ⟨hvalue, htext ▸ hu, read_eq_ok_iff.2 ⟨_, htext ▸ hu, rfl⟩, fun hnames => ?_⟩
  rw [← hvalue]
  exact source.shortened hnames

/-- A list under one name: a string with a tag in it, and a number. -/
def tagged : Source :=
  .obj [(⟨"\"k\"".toList, "k", rfl, eq_ok_of_toOption (by decide +kernel)⟩,
    .arr [.str ⟨"\"x<P>\\ny\"".toList, "x<P>\ny", rfl, eq_ok_of_toOption (by decide +kernel)⟩,
      .scalar ⟨"-25".toList, .int (-25), eq_ok_of_toOption (by decide +kernel)⟩])]

theorem spells_tagged :
    Spells tagged "\x7b\"k\": [\"x<P>\\ny\", -25]\x7d".toList :=
  have hnumber := .padded (b := [' ']) (e := []) rfl rfl (.scalar _)
  have hitems := .padded (b := [' ']) (e := []) rfl rfl (.arr (.more (.str _) (.last hnumber)))
  .obj (.last _ (b := []) (e := []) rfl rfl hitems)

theorem read_clean_tagged :
    Json.read "\x7b\"k\": [\"x<P>\\ny\", -25]\x7d" = .ok tagged.value ∧
      clean "\x7b\"k\": [\"x<P>\\ny\", -25]\x7d" = "\x7b\"k\": [\"x\\ny\", -25]\x7d" ∧
      Json.read "\x7b\"k\": [\"x\\ny\", -25]\x7d" = .ok tagged.cleaned.value ∧
      Shortened tagged.value tagged.cleaned.value := by
  have hread : Json.read "\x7b\"k\": [\"x<P>\\ny\", -25]\x7d" = .ok tagged.value :=
    eq_ok_of_toOption (by decide +kernel)
  have hclean : clean "\x7b\"k\": [\"x<P>\\ny\", -25]\x7d" =
      "\x7b\"k\": [\"x\\ny\", -25]\x7d" := by decide +kernel
  obtain ⟨-, -, hcleaned, hshortened⟩ := (read_clean hread).2 tagged spells_tagged
  rw [hclean] at hcleaned
  refine ⟨hread, hclean, hcleaned, hshortened ?_⟩
  have hnames : ∀ l ∈ tagged.names, ∀ w ∈ artefacts, ¬ w <:+: l.text := by decide +kernel
  exact fun l hl ⟨w, hw, hin⟩ => hnames l hl w hw hin

end Interface

end SchemaDecl
