import SchemaDecl.Proofs.Inversion
import SchemaDecl.Proofs.Json.Literals
import SchemaDecl.Proofs.Json.Scalars

/-! The grammar of JSON text. A source is what a text says: numbers and words, string
literals, lists and members in their order, repeated names among them. A text spells a
source with commas, colons and brackets, and blanks around every value and name. The
reader takes the texts that spell a source and no others, and the value it answers with
is the one of the source. -/

namespace SchemaDecl.Json

inductive Source
  | scalar (x : Scalar)
  | str (l : Literal)
  | arr (items : List Source)
  | obj (members : List (Literal × Source))

namespace Source

mutual
def value : Source → Json
  | .scalar x => x.value
  | .str l => .str l.value
  | .arr items => .arr (values items)
  | .obj members => .obj (Fields.ofList (entries members))

def values : List Source → List Json
  | [] => []
  | source :: items => value source :: values items

def entries : List (Literal × Source) → Fields
  | [] => []
  | (l, source) :: members => (.str l.value, value source) :: entries members
end

mutual
/-- The literals that name a member. -/
def names : Source → List Literal
  | .arr items => namesItems items
  | .obj members => namesMembers members
  | .scalar _ | .str _ => []

def namesItems : List Source → List Literal
  | [] => []
  | source :: items => names source ++ namesItems items

def namesMembers : List (Literal × Source) → List Literal
  | [] => []
  | (l, source) :: members => l :: (names source ++ namesMembers members)
end

end Source

mutual
/-- The text says what the source holds. -/
inductive Spells : Source → List Char → Prop
  | scalar (x : Scalar) : Spells (.scalar x) x.text
  | str (l : Literal) : Spells (.str l) l.text
  | noItems {b : List Char} (hb : b.all Reader.isBlank = true) :
    Spells (.arr []) ('[' :: (b ++ [']']))
  | arr {items : List Source} {t : List Char} (h : SpellsItems items t) :
    Spells (.arr items) ('[' :: t)
  | noMembers {b : List Char} (hb : b.all Reader.isBlank = true) :
    Spells (.obj []) ('\x7b' :: (b ++ ['\x7d']))
  | obj {members : List (Literal × Source)} {t : List Char} (h : SpellsMembers members t) :
    Spells (.obj members) ('\x7b' :: t)
  | padded {source : Source} {b t e : List Char} (hb : b.all Reader.isBlank = true)
    (he : e.all Reader.isBlank = true) (h : Spells source t) : Spells source (b ++ (t ++ e))

/-- The items of a list, the first of them at least, and the closing bracket. -/
inductive SpellsItems : List Source → List Char → Prop
  | last {source : Source} {t : List Char} (h : Spells source t) :
    SpellsItems [source] (t ++ [']'])
  | more {source : Source} {t : List Char} {items : List Source} {u : List Char}
    (h : Spells source t) (hitems : SpellsItems items u) :
    SpellsItems (source :: items) (t ++ ',' :: u)

/-- The members of an object, the first of them at least, and the closing brace. -/
inductive SpellsMembers : List (Literal × Source) → List Char → Prop
  | last (l : Literal) {b e : List Char} {source : Source} {t : List Char}
    (hb : b.all Reader.isBlank = true) (he : e.all Reader.isBlank = true)
    (h : Spells source t) :
    SpellsMembers [(l, source)] (b ++ (l.text ++ (e ++ ':' :: (t ++ ['\x7d']))))
  | more (l : Literal) {b e : List Char} {source : Source} {t : List Char}
    {members : List (Literal × Source)} {u : List Char} (hb : b.all Reader.isBlank = true)
    (he : e.all Reader.isBlank = true) (h : Spells source t)
    (hmembers : SpellsMembers members u) :
    SpellsMembers ((l, source) :: members) (b ++ (l.text ++ (e ++ ':' :: (t ++ ',' :: u))))
end

theorem SpellsItems.padded {items : List Source} {b t : List Char}
    (hb : b.all Reader.isBlank = true) (h : SpellsItems items t) : SpellsItems items (b ++ t) := by
  cases h with
  | @last source t hsource =>
    have hpadded := Spells.padded (e := []) hb rfl hsource
    rw [List.append_nil] at hpadded
    rw [← List.append_assoc]
    exact .last hpadded
  | @more source t items u hsource hitems =>
    have hpadded := Spells.padded (e := []) hb rfl hsource
    rw [List.append_nil] at hpadded
    rw [← List.append_assoc]
    exact .more hpadded hitems

theorem SpellsMembers.padded {members : List (Literal × Source)} {b t : List Char}
    (hb : b.all Reader.isBlank = true) (h : SpellsMembers members t) :
    SpellsMembers members (b ++ t) := by
  cases h with
  | last l hb₁ he hsource =>
    rw [← List.append_assoc]
    exact .last l (by rw [List.all_append, hb, hb₁, Bool.and_self]) he hsource
  | more l hb₁ he hsource hmembers =>
    rw [← List.append_assoc]
    exact .more l (by rw [List.all_append, hb, hb₁, Bool.and_self]) he hsource hmembers

namespace Reader

open Inversion

/-! Blanks. -/

theorem skip_blank {b : List Char} (hb : b.all isBlank = true) (cs : List Char) :
    skip (b ++ cs) = skip cs :=
  List.dropWhile_append_of_pos (List.all_eq_true.1 hb)

theorem skip_cons {c : Char} (hc : isBlank c = false) (cs : List Char) :
    skip (c :: cs) = c :: cs :=
  List.dropWhile_cons_of_neg (by simp [hc])

theorem exists_blank (cs : List Char) : ∃ b, b.all isBlank = true ∧ cs = b ++ skip cs :=
  ⟨cs.takeWhile isBlank, List.all_takeWhile, List.takeWhile_append_dropWhile.symm⟩

theorem not_scalarChar_of_isBlank {c : Char} (h : isBlank c = true) : isScalarChar c = false := by
  simp only [isBlank, Bool.or_eq_true, decide_eq_true_eq] at h
  rcases h with ((rfl | rfl) | rfl) | rfl <;> decide

theorem Delimited.blank {b rest : List Char} (hb : b.all isBlank = true) (hrest : Delimited rest) :
    Delimited (b ++ rest) := by
  cases b with
  | nil => exact hrest
  | cons c b =>
    rintro _ ⟨⟩
    exact not_scalarChar_of_isBlank (List.all_eq_true.1 hb c List.mem_cons_self)

theorem delimited_cons {c : Char} (hc : isScalarChar c = false) (rest : List Char) :
    Delimited (c :: rest) := by
  rintro _ ⟨⟩
  exact hc

theorem delimited_of_skip {rest : List Char} (h : Delimited (skip rest)) : Delimited rest := by
  obtain ⟨b, hb, hrest⟩ := exists_blank rest
  rw [hrest]
  exact h.blank hb

/-- Blanks, and then something that is in no number and no word. -/
theorem delimited_of_end {left rest : List Char} {c : Char} (h : skip left = c :: rest)
    (hc : isScalarChar c = false) : Delimited left :=
  delimited_of_skip (h ▸ delimited_cons hc rest)

/-! One step of the reader. -/

section
variable {fuel : Nat} {cs rest : List Char} {x : Json}

theorem value_string_iff :
    value (fuel + 1) ('"' :: cs) = .ok (x, rest) ↔
      ∃ s, string ('"' :: cs) = .ok (s, rest) ∧ .str s = x := by
  rw [value, bind_eq_ok, Prod.exists]
  refine exists_congr fun s => ⟨?_, ?_⟩
  · rintro ⟨left, hs, h⟩
    obtain ⟨rfl, rfl⟩ := Prod.mk.inj (Except.ok.inj h)
    exact ⟨hs, rfl⟩
  · rintro ⟨hs, rfl⟩
    exact ⟨rest, hs, rfl⟩

theorem value_scalar {c : Char} (hc : c ∉ ['"', '[', '\x7b']) :
    value (fuel + 1) (c :: cs) = scalar (c :: cs) := by
  simp only [List.mem_cons, List.not_mem_nil, or_false, not_or] at hc
  simp [value, hc]

theorem value_noItems (h : skip cs = ']' :: rest) :
    value (fuel + 1) ('[' :: cs) = .ok (.arr [], rest) := by
  simp [value, h]

theorem value_items (h : (skip cs).head? ≠ some ']') :
    value (fuel + 1) ('[' :: cs) = items fuel [] (skip cs) := by
  rw [value]
  split
  · rename_i hskip
    rw [hskip] at h
    exact absurd rfl h
  · rfl

theorem value_noMembers (h : skip cs = '\x7d' :: rest) :
    value (fuel + 1) ('\x7b' :: cs) = .ok (.obj [], rest) := by
  simp [value, h]

theorem value_members (h : (skip cs).head? ≠ some '\x7d') :
    value (fuel + 1) ('\x7b' :: cs) = members fuel [] (skip cs) := by
  rw [value]
  split
  · rename_i hskip
    rw [hskip] at h
    exact absurd rfl h
  · rfl

/-- Behind an item stands the end of the list, or a comma and more items. -/
theorem items_succ_iff {acc : List Json} :
    items (fuel + 1) acc cs = .ok (x, rest) ↔
      ∃ y left, value fuel cs = .ok (y, left) ∧
        (skip left = ']' :: rest ∧ .arr (y :: acc).reverse = x ∨
          ∃ more, skip left = ',' :: more ∧ items fuel (y :: acc) (skip more) = .ok (x, rest)) := by
  rw [items, bind_eq_ok, Prod.exists]
  refine exists_congr fun y => exists_congr fun left => and_congr_right fun _ => ?_
  dsimp only
  split
  · rename_i hskip
    simp [hskip, and_comm]
  · rename_i hskip
    simp [hskip]
  · rename_i hclose hcomma
    refine iff_of_false nofun ?_
    rintro (⟨hskip, -⟩ | ⟨more, hskip, -⟩)
    · exact hclose _ hskip
    · exact hcomma _ hskip

theorem members_quote_iff {acc : Fields} :
    members (fuel + 1) acc ('"' :: cs) = .ok (x, rest) ↔
      ∃ name behind, string ('"' :: cs) = .ok (name, behind) ∧ ∃ start, skip behind = ':' :: start ∧
        ∃ y left, value fuel (skip start) = .ok (y, left) ∧
          (skip left = '\x7d' :: rest ∧ .obj (Fields.set acc name y) = x ∨
            ∃ more, skip left = ',' :: more ∧
              members fuel (Fields.set acc name y) (skip more) = .ok (x, rest)) := by
  rw [members, bind_eq_ok, Prod.exists]
  refine exists_congr fun name => exists_congr fun behind => and_congr_right fun _ => ?_
  dsimp only
  split
  · rename_i start hskip
    rw [bind_eq_ok, Prod.exists]
    simp only [hskip, List.cons.injEq, true_and, exists_eq_left']
    refine exists_congr fun y => exists_congr fun left => and_congr_right fun _ => ?_
    split
    · rename_i hskip
      simp [hskip, and_comm]
    · rename_i hskip
      simp [hskip]
    · rename_i hclose hcomma
      refine iff_of_false nofun ?_
      rintro (⟨hskip, -⟩ | ⟨more, hskip, -⟩)
      · exact hclose _ hskip
      · exact hcomma _ hskip
  · rename_i hcolon
    refine iff_of_false nofun ?_
    rintro ⟨start, hskip, -⟩
    exact hcolon start hskip

theorem exists_quote_of_members {acc : Fields} (h : members (fuel + 1) acc cs = .ok (x, rest)) :
    ∃ tail, cs = '"' :: tail := by
  cases cs with
  | nil => cases h
  | cons c tail =>
    by_cases hc : c = '"'
    · exact ⟨tail, hc ▸ rfl⟩
    · simp [members, hc] at h

/-- Behind a name and a colon stands a value, and then the end of the object, or a comma and more
members. -/
theorem members_succ_iff {acc : Fields} :
    members (fuel + 1) acc cs = .ok (x, rest) ↔
      ∃ (l : Literal) (behind start : List Char) (y : Json) (left : List Char),
        cs = l.text ++ behind ∧ skip behind = ':' :: start ∧
        value fuel (skip start) = .ok (y, left) ∧
          (skip left = '\x7d' :: rest ∧ .obj (Fields.set acc l.value y) = x ∨
            ∃ more, skip left = ',' :: more ∧
              members fuel (Fields.set acc l.value y) (skip more) = .ok (x, rest)) := by
  constructor
  · intro h
    obtain ⟨tail, rfl⟩ := exists_quote_of_members h
    obtain ⟨name, behind, hname, start, hstart, y, left, hy, hend⟩ := members_quote_iff.1 h
    obtain ⟨l, hl, rfl⟩ := Literal.exists_of_string hname
    exact ⟨l, behind, start, y, left, hl, hstart, hy, hend⟩
  · rintro ⟨l, behind, start, y, left, rfl, hstart, hy, hend⟩
    obtain ⟨tail, htail⟩ := List.head?_eq_some_iff.1 l.opened
    have hname := l.string_append behind
    rw [htail] at hname ⊢
    exact members_quote_iff.2 ⟨l.value, behind, hname, start, hstart, y, left, hy, hend⟩

/-- No value starts with a closing bracket or with a byte order mark. -/
theorem value_ne_ok {c : Char} (hc : c ∈ [']', '\ufeff']) (p : Json × List Char) :
    value fuel (c :: cs) ≠ .ok p := by
  cases fuel with
  | zero => nofun
  | succ fuel =>
    rcases List.mem_pair.1 hc with rfl | rfl
    · rw [value_scalar (by decide)]
      nofun
    · rw [value_scalar (by decide)]
      nofun

theorem head_ne_of_items {acc : List Json} (h : items fuel acc cs = .ok (x, rest)) :
    cs.head? ≠ some ']' := by
  intro hclose
  obtain ⟨tail, rfl⟩ := List.head?_eq_some_iff.1 hclose
  cases fuel with
  | zero => cases h
  | succ fuel =>
    obtain ⟨y, left, hy, -⟩ := items_succ_iff.1 h
    exact value_ne_ok List.mem_cons_self _ hy

theorem head_ne_of_members {acc : Fields} (h : members fuel acc cs = .ok (x, rest)) :
    cs.head? ≠ some '\x7d' := by
  cases fuel with
  | zero => cases h
  | succ fuel =>
    obtain ⟨tail, rfl⟩ := exists_quote_of_members h
    nofun
end

/-! What is read is spelled. -/

def ValuesSpelled (fuel : Nat) : Prop :=
  ∀ {cs rest : List Char} {x : Json}, value fuel cs = .ok (x, rest) → Delimited rest →
    ∃ source t, cs = t ++ rest ∧ Spells source t ∧ source.value = x

def ItemsSpelled (fuel : Nat) : Prop :=
  ∀ {acc : List Json} {cs rest : List Char} {x : Json}, items fuel acc cs = .ok (x, rest) →
    ∃ sources t, cs = t ++ rest ∧ SpellsItems sources t ∧
      .arr (acc.reverse ++ Source.values sources) = x

def MembersSpelled (fuel : Nat) : Prop :=
  ∀ {acc : Fields} {cs rest : List Char} {x : Json}, members fuel acc cs = .ok (x, rest) →
    ∃ sources t, cs = t ++ rest ∧ SpellsMembers sources t ∧
      .obj (Fields.update acc (Source.entries sources)) = x

section
variable {fuel : Nat}

theorem valuesSpelled_succ (hitems : ItemsSpelled fuel) (hmembers : MembersSpelled fuel) :
    ValuesSpelled (fuel + 1) := by
  intro cs rest x h hrest
  cases cs with
  | nil => cases h
  | cons c cs =>
    by_cases hc : c ∈ ['"', '[', '\x7b']
    · obtain ⟨b, hb, hcs⟩ := exists_blank cs
      simp only [List.mem_cons, List.not_mem_nil, or_false] at hc
      rcases hc with rfl | rfl | rfl
      · obtain ⟨s, hs, rfl⟩ := value_string_iff.1 h
        obtain ⟨l, hl, rfl⟩ := Literal.exists_of_string hs
        exact ⟨.str l, l.text, hl, .str l, rfl⟩
      · by_cases hclose : (skip cs).head? = some ']'
        · obtain ⟨tail, htail⟩ := List.head?_eq_some_iff.1 hclose
          rw [value_noItems htail] at h
          obtain ⟨rfl, rfl⟩ := Prod.mk.inj (Except.ok.inj h)
          exact ⟨.arr [], _, by rw [hcs, htail]; simp, .noItems hb, rfl⟩
        · rw [value_items hclose] at h
          obtain ⟨sources, t, ht, hsources, rfl⟩ := hitems h
          exact ⟨.arr sources, _, by rw [hcs, ht]; simp, .arr (hsources.padded hb), rfl⟩
      · by_cases hclose : (skip cs).head? = some '\x7d'
        · obtain ⟨tail, htail⟩ := List.head?_eq_some_iff.1 hclose
          rw [value_noMembers htail] at h
          obtain ⟨rfl, rfl⟩ := Prod.mk.inj (Except.ok.inj h)
          exact ⟨.obj [], _, by rw [hcs, htail]; simp, .noMembers hb, rfl⟩
        · rw [value_members hclose] at h
          obtain ⟨sources, t, ht, hsources, rfl⟩ := hmembers h
          exact ⟨.obj sources, _, by rw [hcs, ht]; simp, .obj (hsources.padded hb), rfl⟩
    · rw [value_scalar hc] at h
      obtain ⟨y, hy, rfl⟩ := Scalar.exists_of_scalar h hrest
      exact ⟨.scalar y, y.text, hy, .scalar y, rfl⟩

theorem itemsSpelled_succ (hvalues : ValuesSpelled fuel) (hitems : ItemsSpelled fuel) :
    ItemsSpelled (fuel + 1) := by
  intro acc cs rest x h
  obtain ⟨y, left, hy, hend⟩ := items_succ_iff.1 h
  obtain ⟨b, hb, hleft⟩ := exists_blank left
  have hdelimited : Delimited left := by
    rcases hend with ⟨hskip, -⟩ | ⟨more, hskip, -⟩
    · exact delimited_of_end hskip rfl
    · exact delimited_of_end hskip rfl
  obtain ⟨source, t, rfl, hsource, rfl⟩ := hvalues hy hdelimited
  have hpadded : Spells source (t ++ b) := .padded (b := []) rfl hb hsource
  rcases hend with ⟨hskip, rfl⟩ | ⟨more, hskip, hmore⟩
  · refine ⟨[source], _, ?_, .last hpadded, by simp [Source.values]⟩
    rw [hleft, hskip]
    simp
  · obtain ⟨b', hb', hblank⟩ := exists_blank more
    obtain ⟨sources, t', ht', hsources, rfl⟩ := hitems hmore
    refine ⟨source :: sources, _, ?_, .more hpadded (hsources.padded hb'), by simp [Source.values]⟩
    rw [hleft, hskip, hblank, ht']
    simp

theorem membersSpelled_succ (hvalues : ValuesSpelled fuel) (hmembers : MembersSpelled fuel) :
    MembersSpelled (fuel + 1) := by
  intro acc cs rest x h
  obtain ⟨l, behind, start, y, left, rfl, hstart, hy, hend⟩ := members_succ_iff.1 h
  obtain ⟨b₁, hb₁, hbehind⟩ := exists_blank behind
  obtain ⟨b₂, hb₂, hblank⟩ := exists_blank start
  obtain ⟨b₃, hb₃, hleft⟩ := exists_blank left
  have hdelimited : Delimited left := by
    rcases hend with ⟨hskip, -⟩ | ⟨more, hskip, -⟩
    · exact delimited_of_end hskip rfl
    · exact delimited_of_end hskip rfl
  obtain ⟨source, t, ht, hsource, rfl⟩ := hvalues hy hdelimited
  have hpadded : Spells source (b₂ ++ (t ++ b₃)) := .padded hb₂ hb₃ hsource
  rcases hend with ⟨hskip, rfl⟩ | ⟨more, hskip, hmore⟩
  · refine ⟨[(l, source)], _, ?_, .last l (b := []) rfl hb₁ hpadded, rfl⟩
    rw [hbehind, hstart, hblank, ht, hleft, hskip]
    simp
  · obtain ⟨b', hb', hmore'⟩ := exists_blank more
    obtain ⟨sources, t', ht', hsources, rfl⟩ := hmembers hmore
    refine ⟨(l, source) :: sources, _, ?_,
      .more l (b := []) rfl hb₁ hpadded (hsources.padded hb'), rfl⟩
    rw [hbehind, hstart, hblank, ht, hleft, hskip, hmore', ht']
    simp
end

theorem spelled (fuel : Nat) : ValuesSpelled fuel ∧ ItemsSpelled fuel ∧ MembersSpelled fuel := by
  induction fuel with
  | zero => exact ⟨nofun, nofun, nofun⟩
  | succ fuel ih =>
    obtain ⟨hvalues, hitems, hmembers⟩ := ih
    exact ⟨valuesSpelled_succ hitems hmembers, itemsSpelled_succ hvalues hitems,
      membersSpelled_succ hvalues hmembers⟩

/-! What is spelled is read. -/

theorem not_blank_of_scalarChar {c : Char} (h : isScalarChar c = true) : isBlank c = false := by
  cases hblank : isBlank c
  · rfl
  · rw [not_scalarChar_of_isBlank hblank] at h
    cases h

theorem not_opening_of_scalarChar {c : Char} (h : isScalarChar c = true) :
    c ∉ ['"', '[', '\x7b'] := by
  intro hc
  simp only [List.mem_cons, List.not_mem_nil, or_false] at hc
  rcases hc with rfl | rfl | rfl <;> cases h

theorem skip_literal (l : Literal) (rest : List Char) : skip (l.text ++ rest) = l.text ++ rest := by
  obtain ⟨cs, hcs⟩ := List.head?_eq_some_iff.1 l.opened
  rw [hcs]
  exact skip_cons (by decide) _

theorem skip_sign {b : List Char} (hb : b.all isBlank = true) {c : Char} (hc : isBlank c = false)
    (rest : List Char) : skip (b ++ c :: rest) = c :: rest := by
  rw [skip_blank hb, skip_cons hc]

theorem exists_fuel {n fuel : Nat} (h : n + 1 ≤ fuel) : ∃ less, fuel = less + 1 ∧ n ≤ less :=
  ⟨fuel - 1, by omega, by omega⟩

end Reader

section
open Reader

mutual
/-- Steps as many as the text has characters are enough, whatever the value is followed by. -/
theorem Spells.value_eq {source : Source} {t : List Char} : Spells source t →
    ∀ {fuel : Nat} (rest : List Char), t.length ≤ fuel → Delimited rest →
      ∃ b, b.all isBlank = true ∧
        Reader.value fuel (skip (t ++ rest)) = .ok (source.value, b ++ rest)
  | .scalar x, fuel, rest, hfuel, hrest => by
    obtain ⟨c, cs, hx⟩ := x.exists_cons
    have hread := x.scalar_append hrest
    have hc : isScalarChar c = true := by
      have hall := x.all_text
      rw [hx, List.all_cons, Bool.and_eq_true] at hall
      exact hall.1
    rw [hx] at hfuel hread ⊢
    obtain ⟨fuel, rfl, -⟩ := exists_fuel hfuel
    refine ⟨[], rfl, ?_⟩
    rw [List.cons_append, skip_cons (not_blank_of_scalarChar hc),
      value_scalar (not_opening_of_scalarChar hc)]
    exact hread
  | .str l, fuel, rest, hfuel, hrest => by
    obtain ⟨cs, hl⟩ := List.head?_eq_some_iff.1 l.opened
    have hread := l.string_append rest
    rw [skip_literal]
    rw [hl] at hfuel hread ⊢
    obtain ⟨fuel, rfl, -⟩ := exists_fuel hfuel
    exact ⟨[], rfl, value_string_iff.2 ⟨l.value, hread, rfl⟩⟩
  | .noItems hb, fuel, rest, hfuel, hrest => by
    obtain ⟨fuel, rfl, -⟩ := exists_fuel hfuel
    refine ⟨[], rfl, ?_⟩
    rw [List.cons_append, skip_cons (by decide), List.append_assoc]
    exact value_noItems (skip_sign hb (by decide) rest)
  | .arr hitems, fuel, rest, hfuel, hrest => by
    obtain ⟨fuel, rfl, hless⟩ := exists_fuel hfuel
    have hread := hitems.items_eq [] rest hless
    refine ⟨[], rfl, ?_⟩
    rw [List.cons_append, skip_cons (by decide), value_items (head_ne_of_items hread)]
    exact hread
  | .noMembers hb, fuel, rest, hfuel, hrest => by
    obtain ⟨fuel, rfl, -⟩ := exists_fuel hfuel
    refine ⟨[], rfl, ?_⟩
    rw [List.cons_append, skip_cons (by decide), List.append_assoc]
    exact value_noMembers (skip_sign hb (by decide) rest)
  | .obj hmembers, fuel, rest, hfuel, hrest => by
    obtain ⟨fuel, rfl, hless⟩ := exists_fuel hfuel
    have hread := hmembers.members_eq [] rest hless
    refine ⟨[], rfl, ?_⟩
    rw [List.cons_append, skip_cons (by decide), value_members (head_ne_of_members hread)]
    exact hread
  | .padded (b := b) (t := t) (e := e) hb he hsource, fuel, rest, hfuel, hrest => by
    have hless : t.length ≤ fuel := by
      simp only [List.length_append] at hfuel
      omega
    obtain ⟨b₁, hb₁, hread⟩ := hsource.value_eq (e ++ rest) hless (hrest.blank he)
    refine ⟨b₁ ++ e, by rw [List.all_append, hb₁, he, Bool.and_self], ?_⟩
    rw [List.append_assoc, List.append_assoc, skip_blank hb, hread, List.append_assoc]

theorem SpellsItems.items_eq {items : List Source} {t : List Char} : SpellsItems items t →
    ∀ {fuel : Nat} (acc : List Json) (rest : List Char), t.length ≤ fuel →
      Reader.items fuel acc (skip (t ++ rest)) =
        .ok (.arr (acc.reverse ++ Source.values items), rest)
  | .last hsource, fuel, acc, rest, hfuel => by
    rw [List.length_append, List.length_singleton] at hfuel
    obtain ⟨fuel, rfl, hless⟩ := exists_fuel hfuel
    have hclose : Delimited (']' :: rest) := delimited_cons (by decide) rest
    obtain ⟨b, hb, hread⟩ := hsource.value_eq _ hless hclose
    rw [List.append_assoc]
    refine items_succ_iff.2 ⟨_, _, hread, .inl ⟨skip_sign hb (by decide) rest, ?_⟩⟩
    simp [Source.values]
  | .more (u := u) hsource hitems, fuel, acc, rest, hfuel => by
    rw [List.length_append, List.length_cons, ← Nat.add_assoc] at hfuel
    obtain ⟨fuel, rfl, hless⟩ := exists_fuel hfuel
    have hcomma : Delimited (',' :: (u ++ rest)) := delimited_cons (by decide) (u ++ rest)
    obtain ⟨b, hb, hread⟩ := hsource.value_eq _ (Nat.le_of_add_right_le hless) hcomma
    rw [List.append_assoc]
    refine items_succ_iff.2 ⟨_, _, hread, .inr ⟨_, skip_sign hb (by decide) (u ++ rest), ?_⟩⟩
    rw [hitems.items_eq _ rest (Nat.le_of_add_left_le hless)]
    simp [Source.values]

theorem SpellsMembers.members_eq {members : List (Literal × Source)} {t : List Char} :
    SpellsMembers members t → ∀ {fuel : Nat} (acc : Fields) (rest : List Char), t.length ≤ fuel →
      Reader.members fuel acc (skip (t ++ rest)) =
        .ok (.obj (Fields.update acc (Source.entries members)), rest)
  | .last l (b := b) (e := e) (t := t) hb he hsource, fuel, acc, rest, hfuel => by
    simp only [List.length_append, List.length_cons, List.length_nil] at hfuel
    have hmore : t.length + 1 ≤ fuel := by omega
    obtain ⟨fuel, rfl, hless⟩ := exists_fuel hmore
    have hclose : Delimited ('\x7d' :: rest) := delimited_cons (by decide) rest
    obtain ⟨b₁, hb₁, hread⟩ := hsource.value_eq _ hless hclose
    have htext : skip (b ++ (l.text ++ (e ++ ':' :: (t ++ ['\x7d']))) ++ rest) =
        l.text ++ (e ++ ':' :: (t ++ '\x7d' :: rest)) := by
      rw [List.append_assoc, List.append_assoc, skip_blank hb, skip_literal]
      simp
    exact members_succ_iff.2 ⟨l, _, _, _, _, htext, skip_sign he (by decide) _, hread,
      .inl ⟨skip_sign hb₁ (by decide) rest, rfl⟩⟩
  | .more l (b := b) (e := e) (t := t) (u := u) hb he hsource hmembers, fuel, acc, rest,
      hfuel => by
    simp only [List.length_append, List.length_cons] at hfuel
    have hmore : t.length + u.length + 1 ≤ fuel := by omega
    obtain ⟨fuel, rfl, hless⟩ := exists_fuel hmore
    have hcomma : Delimited (',' :: (u ++ rest)) := delimited_cons (by decide) (u ++ rest)
    obtain ⟨b₁, hb₁, hread⟩ := hsource.value_eq _ (Nat.le_of_add_right_le hless) hcomma
    have htext : skip (b ++ (l.text ++ (e ++ ':' :: (t ++ ',' :: u))) ++ rest) =
        l.text ++ (e ++ ':' :: (t ++ ',' :: (u ++ rest))) := by
      rw [List.append_assoc, List.append_assoc, skip_blank hb, skip_literal]
      simp
    exact members_succ_iff.2 ⟨l, _, _, _, _, htext, skip_sign he (by decide) _, hread,
      .inr ⟨_, skip_sign hb₁ (by decide) (u ++ rest),
        hmembers.members_eq _ rest (Nat.le_of_add_left_le hless)⟩⟩
end

/-! Whole texts. -/

theorem Spells.document_eq {source : Source} {cs : List Char} (h : Spells source cs) :
    document cs = .ok source.value := by
  have hfuel : cs.length ≤ 2 * cs.length + 2 := by omega
  obtain ⟨b, hb, hread⟩ := h.value_eq [] hfuel nofun
  rw [List.append_nil, List.append_nil] at hread
  have hend : skip b = [] := by simpa [skip] using skip_blank hb []
  have hmark : cs.head? ≠ some '\ufeff' := by
    intro hcs
    obtain ⟨tail, rfl⟩ := List.head?_eq_some_iff.1 hcs
    rw [skip_cons (by decide)] at hread
    exact value_ne_ok (by simp) _ hread
  rw [document, if_neg hmark, hread]
  simp [bind, Except.bind, hend]

theorem document_eq_ok_iff {cs : List Char} {x : Json} :
    document cs = .ok x ↔ ∃ source, Spells source cs ∧ source.value = x := by
  constructor
  · intro h
    unfold document at h
    split at h
    · cases h
    · obtain ⟨⟨y, rest⟩, hy, hend⟩ := Inversion.bind_eq_ok.1 h
      dsimp only at hend
      split at hend
      · rename_i hskip
        obtain rfl := Except.ok.inj hend
        obtain ⟨b, hb, hcs⟩ := exists_blank cs
        obtain ⟨b', hb', hrest⟩ := exists_blank rest
        have hdelimited : Delimited rest := delimited_of_skip (hskip ▸ nofun)
        obtain ⟨source, t, ht, hsource, rfl⟩ := (spelled _).1 hy hdelimited
        rw [hskip, List.append_nil] at hrest
        refine ⟨source, ?_, rfl⟩
        rw [hcs, ht, hrest]
        exact .padded hb hb' hsource
      · cases hend
  · rintro ⟨source, hsource, rfl⟩
    exact hsource.document_eq

/-- The reader takes the texts of the grammar, and reads what they say. -/
theorem read_eq_ok_iff {text : String} {x : Json} :
    read text = .ok x ↔ ∃ source, Spells source text.toList ∧ source.value = x := by
  rw [read, Inversion.mapError_eq_ok, document_eq_ok_iff]
end

end SchemaDecl.Json
