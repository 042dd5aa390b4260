import SchemaDecl.Proofs.Json.Printing
import SchemaDecl.Proofs.Inversion
import SchemaDecl.Proofs.Text.Pieces
import SchemaDecl.TypeScript.Comment
import SchemaDecl.TypeScript.MemberName
import SchemaDecl.TypeScript.TypeText

/-! Rendered texts in a class of texts. Besides printed values the renderer puts
names, comments and the signs of types into its texts. A class that is closed
under all of these is kept by every way to combine types: joins, tuples, arrays
and objects. -/

namespace SchemaDecl

theorem Inversion.mapM_eq_ok {ε α β : Type} {f : α → Except ε β} {xs : List α} {ys : List β}
    (h : xs.mapM f = .ok ys) : ∀ y ∈ ys, ∃ x ∈ xs, f x = .ok y := by
  induction xs generalizing ys with
  | nil =>
    rw [List.mapM_nil, Inversion.pure_eq_ok] at h
    rw [← h]
    simp
  | cons x xs ih =>
    rw [List.mapM_cons, Inversion.bind_eq_ok] at h
    obtain ⟨y, hy, h⟩ := h
    obtain ⟨rest, hrest, h⟩ := Inversion.bind_eq_ok.1 h
    rw [← Inversion.pure_eq_ok.1 h]
    intro z hz
    rcases List.mem_cons.1 hz with rfl | hz
    · exact ⟨x, List.mem_cons_self, hy⟩
    · obtain ⟨w, hw, hz⟩ := ih hrest z hz
      exact ⟨w, List.mem_cons_of_mem _ hw, hz⟩

theorem Json.eq_toJson_of_toKey? {x : Json} {k : Key} (h : x.toKey? = some k) : x = k.toJson := by
  cases x with
  | arr _ => cases h
  | obj _ => cases h
  | _ => rw [← Option.some.inj h]; rfl

namespace TypeScript

/-- Calm characters and the signs of types. -/
def isQuiet (c : Char) : Bool := isCalm c || "()[]|&".toList.contains c

/-- What the renderer writes has the property `P`, if all strings it is given have `D`. -/
structure RendersInto (D P : String → Prop) : Prop where
  empty : P ""
  across {a w b : String} : P a → w.toList.all isQuiet = true → w ≠ "" → P b → P (a ++ w ++ b)
  braces {a : String} : P a → P ("\x7b" ++ a ++ "\x7d")
  quote {s : String} : D s → P (Json.quote s)
  bare {s : String} : D s → isBareName s.toList = true → P s
  comment {indent text comment : String} : indent.toList.all isQuiet = true → D text →
    comment? indent text = some comment → P comment
  calm {s : String} : s.toList.all isCalm = true → D s
  word {s : String} : s ∈ ["NaN", "Infinity", "-Infinity"] → D s ∧ P s

/-! Comments. -/

/-- The lines of a description stand between the first and the last line of its comment. -/
theorem comment_eq {indent text comment : String} (h : comment? indent text = some comment) :
    comment = indent ++ "/**" ++ "\n" ++ Text.joinLines (commentLines indent text) ++ "\n" ++
      (indent ++ " */") := by
  unfold comment? at h
  split at h
  · cases h
  · rename_i hno
    have htext : Text.replaceFrom "*/".toList "*\\/".toList 0 text.toList ≠ [] := by
      intro hnil
      rw [Text.isAllBlank, Text.eq_nil_of_replaceFrom (by decide) (by decide) hnil] at hno
      exact hno rfl
    have hlines : commentLines indent text ≠ [] := by
      simpa [commentLines, Text.linesOf, Text.replaceAll] using Text.splitLines_ne_nil htext
    rw [← Option.some.inj h, ← List.cons_append, Text.joinLines,
      String.intercalate_append_of_ne_nil (by simp) (by simp),
      String.intercalate_cons_of_ne_nil hlines, String.intercalate_singleton, ← Text.joinLines]

theorem mem_commentLines {indent text line : String} (h : line ∈ commentLines indent text) :
    ∃ cs, cs <:+: Text.replaceFrom "*/".toList "*\\/".toList 0 text.toList ∧
      line.toList <+: indent.toList ++ " * ".toList ++ cs := by
  simp only [commentLines, Text.linesOf, Text.replaceAll, String.toList_ofList, List.map_map,
    List.mem_map, Function.comp_apply] at h
  obtain ⟨cs, hcs, rfl⟩ := h
  refine ⟨cs, Text.infix_of_mem_splitLines hcs, ?_⟩
  have hprefix := Text.trimEnd_prefix (indent ++ " * " ++ String.ofList cs).toList
  rwa [← Text.toList_stripEnd, ← commentLine, String.toList_append, String.toList_append,
    String.toList_ofList (l := cs)] at hprefix

theorem all_isQuiet {cs : List Char} (h : cs.all isCalm = true) : cs.all isQuiet = true := by
  rw [List.all_eq_true] at h ⊢
  intro c hc
  rw [isQuiet, h c hc, Bool.true_or]

namespace RendersInto

variable {D P : String → Prop} (h : RendersInto D P)
include h

theorem quiet {w : String} (hw : w.toList.all isQuiet = true) : P w := by
  by_cases hne : w = ""
  · exact hne ▸ h.empty
  · simpa using h.across h.empty hw hne h.empty

theorem before {w b : String} (hw : w.toList.all isQuiet = true) (hb : P b) : P (w ++ b) := by
  by_cases hne : w = ""
  · simpa [hne] using hb
  · simpa using h.across h.empty hw hne hb

theorem behind {a w : String} (ha : P a) (hw : w.toList.all isQuiet = true) : P (a ++ w) := by
  by_cases hne : w = ""
  · simpa [hne] using ha
  · simpa using h.across ha hw hne h.empty

theorem printsInto : PrintsInto D P where
  empty := h.empty
  across ha hw hne hb := h.across ha (all_isQuiet hw) hne hb
  brackets ha := h.behind (h.before (by decide) ha) (by decide)
  braces := h.braces
  quote := h.quote
  calm := h.calm
  word := h.word

theorem memberName {s : String} (hs : D s) : P (memberName s) := by
  unfold TypeScript.memberName
  split
  · rename_i hbare
    exact h.bare hs hbare
  · exact h.quote hs

theorem intercalate {separator : String} (hs : separator.toList.all isQuiet = true)
    (hne : separator ≠ "") {pieces : List String} (hpieces : ∀ piece ∈ pieces, P piece) :
    P (String.intercalate separator pieces) :=
  Text.intercalate_closed h.empty (fun ha hb => h.across ha hs hne hb) hpieces

/-! Ways to combine types. -/

theorem parenthesize {text : String} (ht : P text) : P (parenthesize text) := by
  unfold TypeScript.parenthesize
  split
  · exact h.behind (h.before (by decide) ht) (by decide)
  · exact ht

omit h in
theorem mem_of_mem_distinct {keys : List Key} {k : Key} (hk : k ∈ TypeText.distinct keys) :
    k ∈ keys := by
  have hfold : ∀ rest seen : List Key,
      k ∈ rest.foldl (fun seen key => if seen.any (·.same key) then seen else seen ++ [key]) seen →
        k ∈ seen ∨ k ∈ rest := by
    intro rest
    induction rest with
    | nil => exact fun seen hmem => .inl hmem
    | cons key rest ih =>
      intro seen hmem
      rcases ih _ hmem with hseen | hrest
      · dsimp only at hseen
        split at hseen
        · exact .inl hseen
        · rcases List.mem_append.1 hseen with hseen | hkey
          · exact .inl hseen
          · exact .inr (List.mem_singleton.1 hkey ▸ List.mem_cons_self)
      · exact .inr (List.mem_cons_of_mem _ hrest)
  exact (hfold keys [] hk).resolve_left List.not_mem_nil

omit h in
theorem display_of_text? {type : TypeText} {text : String} (ht : type.text? = .ok text) :
    type.display = text := by
  cases type with
  | text s => exact Except.ok.inj ht
  | verbatim value => cases ht

omit h in
theorem toJson_ofJson (value : Json) : (TypeText.ofJson value).toJson = value := by
  cases value <;> rfl

omit h in
/-- A key of a type is shown as the type is. -/
theorem display_of_key? {type : TypeText} {key : Key} (hk : type.key? = .ok key) :
    (TypeText.ofJson key.toJson).display = type.display := by
  have hkey : type.toJson.toKey? = some key := by
    unfold TypeText.key? at hk
    split at hk
    · rename_i found hfound
      rw [hfound, Except.ok.inj hk]
    · cases hk
  rw [TypeText.display, toJson_ofJson, TypeText.display, Json.eq_toJson_of_toKey? hkey]

theorem join {separator : String} (hs : separator.toList.all isQuiet = true)
    (hne : separator ≠ "") {types : List TypeText} (htypes : ∀ t ∈ types, P t.display)
    {type : TypeText} (hjoin : TypeText.join separator types = .ok type) : P type.display := by
  unfold TypeText.join at hjoin
  rw [Inversion.bind_eq_ok] at hjoin
  obtain ⟨keys, hkeys, hjoin⟩ := hjoin
  have hshown : ∀ key ∈ TypeText.distinct keys, P (TypeText.ofJson key.toJson).display := by
    intro key hkey
    obtain ⟨t, ht, hkey⟩ := Inversion.mapM_eq_ok hkeys key (mem_of_mem_distinct hkey)
    rw [display_of_key? hkey]
    exact htypes t ht
  split at hjoin
  · rw [← Inversion.pure_eq_ok.1 hjoin]
    exact h.quiet (w := "unknown") (by decide)
  · rename_i key hone
    rw [← Inversion.pure_eq_ok.1 hjoin]
    exact hshown key (hone ▸ List.mem_singleton_self key)
  · obtain ⟨texts, htexts, hjoin⟩ := Inversion.bind_eq_ok.1 hjoin
    rw [← Inversion.pure_eq_ok.1 hjoin]
    refine h.intercalate hs hne fun piece hpiece => ?_
    obtain ⟨text, htext, rfl⟩ := List.mem_map.1 hpiece
    obtain ⟨key, hkey, heq⟩ := Inversion.mapM_eq_ok htexts text htext
    rw [← display_of_text? heq]
    exact h.parenthesize (hshown key hkey)

theorem tuple {types : List TypeText} (htypes : ∀ t ∈ types, P t.display) {text : String}
    (htuple : TypeText.tuple types = .ok text) : P text := by
  unfold TypeText.tuple at htuple
  obtain ⟨texts, htexts, htuple⟩ := Inversion.bind_eq_ok.1 htuple
  rw [← Inversion.pure_eq_ok.1 htuple]
  refine h.printsInto.brackets (h.intercalate (by decide) (by decide) fun piece hpiece => ?_)
  obtain ⟨t, ht, heq⟩ := Inversion.mapM_eq_ok htexts piece hpiece
  rw [← display_of_text? heq]
  exact htypes t ht

theorem arrayOf {type : TypeText} (ht : P type.display) {text : String}
    (harray : type.arrayOf = .ok text) : P text := by
  cases type with
  | text s =>
    rw [← Except.ok.inj harray]
    exact h.behind (h.parenthesize ht) (by decide)
  | verbatim value =>
    simp only [TypeText.arrayOf, Inversion.bind_eq_ok] at harray
    obtain ⟨entries, _, found, _, harray⟩ := harray
    split at harray
    · rw [← Inversion.pure_eq_ok.1 harray]
      exact h.behind (h.before (by decide) ht) (by decide)
    · cases harray

end RendersInto

end TypeScript

end SchemaDecl
