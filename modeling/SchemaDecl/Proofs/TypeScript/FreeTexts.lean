import SchemaDecl.Proofs.Schema.References
import SchemaDecl.Proofs.TypeScript.Renaming
import SchemaDecl.Proofs.TypeScript.Texts
import SchemaDecl.Schema.Prepared

/-! Texts without the placeholder. The placeholder is one word in capitals, and
whatever is put between two texts, or written for a character that needs to be
escaped, shares no character with it. So no occurrence of the placeholder comes
up where texts without it are put together: not in a printed or a shown value,
not in a comment, and not in a look-up along a path of keys. -/

namespace SchemaDecl

open TypeScript

/-- The placeholder does not occur in the text. -/
def Free (s : String) : Prop := ¬ placeholder.toList <:+: s.toList

instance : DecidablePred Free := fun s =>
  decidable_of_iff (Text.contains placeholder s = false) (by
    rw [Free, ← Text.occursIn_iff, Text.contains, Bool.not_eq_true])

namespace Free

theorem of_plain {w : String} (hw : Plain w) : Free w :=
  Text.not_infix_foreign placeholder_ne_nil hw

theorem across {a w b : String} (ha : Free a) (hw : Plain w) (hne : w ≠ "") (hb : Free b) :
    Free (a ++ w ++ b) := by
  have hlist : (a ++ w ++ b).toList = a.toList ++ (w.toList ++ b.toList) := by
    simp [String.toList_append]
  rw [Free, hlist]
  intro hin
  exact (Text.infix_across_foreign placeholder_ne_nil hw (by simpa using hne) hin).elim ha hb

theorem before {w b : String} (hw : Plain w) (hne : w ≠ "") (hb : Free b) : Free (w ++ b) := by
  simpa using across (of_plain (w := "") (by decide)) hw hne hb

theorem behind {a w : String} (ha : Free a) (hw : Plain w) (hne : w ≠ "") : Free (a ++ w) := by
  simpa using across ha hw hne (of_plain (w := "") (by decide))

theorem intercalate {separator : String} (hs : Plain separator) (hne : separator ≠ "")
    {pieces : List String} (h : ∀ piece ∈ pieces, Free piece) :
    Free (String.intercalate separator pieces) :=
  Text.intercalate_closed (of_plain (by decide)) (fun ha hb => across ha hs hne hb) h

end Free

/-- A class of characters is foreign to the placeholder if none of its own belongs to it. -/
theorem plain_of {p : Char → Bool} (hno : placeholder.toList.any p = false) {w : String}
    (h : w.toList.all p = true) : Plain w :=
  fun c hc hmem => List.any_eq_false.1 hno c hmem (List.all_eq_true.1 h c hc)

theorem plain_of_quiet {w : String} (h : w.toList.all isQuiet = true) : Plain w :=
  plain_of (by decide) h

theorem plain_of_figures {w : String} (h : w.toList.all Number.isFigure = true) : Plain w :=
  plain_of (by decide) h

/-! Escaped characters. -/

theorem foreign_escaped {sign : Char} {code : List Char}
    (hsign : sign ∈ "\"'\\nrtbfuxU".toList) (hcode : ∀ c ∈ code, c ∈ "0123456789abcdef".toList) :
    Text.Foreign placeholder.toList ('\\' :: sign :: code) := by
  have hsigns : Text.Foreign placeholder.toList ('\\' :: "\"'\\nrtbfuxU".toList) := by
    decide
  have hhex : Text.Foreign placeholder.toList "0123456789abcdef".toList := by decide
  intro c hc
  rcases List.mem_cons.1 hc with rfl | hc
  · exact hsigns _ List.mem_cons_self
  · rcases List.mem_cons.1 hc with rfl | hc
    · exact hsigns _ (List.mem_cons_of_mem _ hsign)
    · exact hhex c (hcode c hc)

theorem escape_foreign (c : Char) : Json.escape c = [c] ∨
    Text.Foreign placeholder.toList (Json.escape c) ∧ Json.escape c ≠ [] := by
  rcases Json.escape_cases c with ⟨hself, _⟩ | ⟨sign, code, hescape, hsign, hcode⟩
  · exact .inl hself
  · have hsigns : "\"\\nrtbfu".toList ⊆ "\"'\\nrtbfuxU".toList := by decide
    rw [hescape]
    exact .inr ⟨foreign_escaped (hsigns hsign) hcode, by simp⟩

theorem showChar_foreign {mark : Char} (hmark : mark ∈ "\"'".toList) (c : Char) :
    Json.showChar mark c = [c] ∨
      Text.Foreign placeholder.toList (Json.showChar mark c) ∧ Json.showChar mark c ≠ [] := by
  have hmarks : '\\' :: "\"'".toList ⊆ "\"'\\nrtbfuxU".toList := by decide
  unfold Json.showChar
  split_ifs with hself
  · refine .inr ⟨foreign_escaped ?_ (by simp), by simp⟩
    rw [Bool.or_eq_true, decide_eq_true_eq, decide_eq_true_eq] at hself
    rcases hself with rfl | rfl
    · exact hmarks (List.mem_cons_of_mem _ hmark)
    · exact hmarks List.mem_cons_self
  · exact .inr ⟨foreign_escaped (by decide) (by simp), by simp⟩
  · exact .inr ⟨foreign_escaped (by decide) (by simp), by simp⟩
  · exact .inr ⟨foreign_escaped (by decide) (by simp), by simp⟩
  · exact .inl rfl
  · exact .inr ⟨foreign_escaped (by decide) fun _ => Json.mem_hexDigits, by simp⟩
  · exact .inr ⟨foreign_escaped (by decide) fun _ => Json.mem_hexDigits, by simp⟩
  · exact .inr ⟨foreign_escaped (by decide) fun _ => Json.mem_hexDigits, by simp⟩

/-- A text between two marks, with some of its characters escaped. -/
theorem free_marked {s : String} (h : Free s) {f : Char → List Char}
    (hf : ∀ c, f c = [c] ∨ Text.Foreign placeholder.toList (f c) ∧ f c ≠ [])
    {mark : String} (hmark : Plain mark) (hne : mark ≠ "") :
    Free (mark ++ String.ofList (s.toList.flatMap f) ++ mark) := by
  have hbody : Free (String.ofList (s.toList.flatMap f)) := by
    rw [Free, String.toList_ofList]
    exact Text.not_infix_flatMap placeholder_ne_nil hf h
  exact (hbody.before hmark hne).behind hmark hne

theorem free_quote {s : String} (h : Free s) : Free (Json.quote s) := by
  have hquote : Json.quote s = "\"" ++ String.ofList (s.toList.flatMap Json.escape) ++ "\"" := by
    rw [← String.toList_inj, Json.toList_quote, Json.quoteChars]
    simp [String.toList_append]
  rw [hquote]
  exact free_marked h escape_foreign (by decide) (by decide)

theorem free_showText {s : String} (h : Free s) : Free (Json.showText s) := by
  have hshow : ∀ mark ∈ "\"'".toList,
      Free (String.ofList (mark :: (s.toList.flatMap (Json.showChar mark) ++ [mark]))) := by
    intro mark hmark
    have hmarks : ∀ d ∈ "\"'".toList, Plain (String.ofList [d]) ∧ String.ofList [d] ≠ "" :=
      List.all_iff_forall_prop.1 (by decide)
    have hlist : String.ofList (mark :: (s.toList.flatMap (Json.showChar mark) ++ [mark])) =
        String.ofList [mark] ++ String.ofList (s.toList.flatMap (Json.showChar mark)) ++
          String.ofList [mark] := by
      rw [← String.toList_inj]
      simp [String.toList_append]
    obtain ⟨hplain, hne⟩ := hmarks mark hmark
    rw [hlist]
    exact free_marked h (showChar_foreign hmark) hplain hne
  unfold Json.showText
  dsimp only
  split
  · exact hshow _ (by decide)
  · exact hshow _ (by decide)

/-! Shown values. -/

theorem free_shownKey {k : Key} (h : ∀ s ∈ k.texts, Free s) : Free k.shown := by
  have hwords : ∀ word ∈ ["None", "True", "False"], Free word := by decide
  cases k with
  | str s => exact free_showText (h s List.mem_cons_self)
  | null => exact hwords _ (by decide)
  | bool b =>
    cases b
    · exact hwords _ (by decide)
    · exact hwords _ (by decide)
  | int n =>
    exact .of_plain (plain_of_figures (List.all_eq_true.2 fun _ => Number.isFigure_of_mem_int))
  | float x =>
    rcases Number.write_cases Number.displayStyle x with hword | hfigures
    · have hspecial : ∀ word ∈ [Number.displayStyle.nan, Number.displayStyle.infinity,
          "-" ++ Number.displayStyle.infinity], Free word := by decide
      exact hspecial _ hword
    · exact .of_plain (plain_of_figures hfigures)

theorem free_displayKey {k : Key} (h : ∀ s ∈ k.texts, Free s) : Free k.display := by
  cases k with
  | str s => exact h s List.mem_cons_self
  | _ => exact free_shownKey h

mutual
/-- Showing a value makes no placeholder, by induction on the value. -/
theorem free_shown : (x : Json) → (∀ s ∈ x.texts, Free s) → Free x.shown
  | .null, _ => free_shownKey (k := .null) (by simp [Key.texts])
  | .bool b, _ => free_shownKey (k := .bool b) (by simp [Key.texts])
  | .int n, _ => free_shownKey (k := .int n) (by simp [Key.texts])
  | .float x, _ => free_shownKey (k := .float x) (by simp [Key.texts])
  | .str s, h => free_shownKey (k := .str s) h
  | .arr items, h =>
    ((Free.intercalate (by decide) (by decide) (free_shownItems items h)).before (by decide)
      (by decide)).behind (by decide) (by decide)
  | .obj fields, h =>
    ((Free.intercalate (by decide) (by decide) (free_shownFields fields h)).before (by decide)
      (by decide)).behind (by decide) (by decide)

theorem free_shownItems : (items : List Json) → (∀ s ∈ Json.textsItems items, Free s) →
    ∀ piece ∈ Json.shownItems items, Free piece
  | [], _ => by simp [Json.shownItems]
  | x :: items, h => by
    simp only [Json.textsItems, List.mem_append] at h
    intro piece hpiece
    rw [Json.shownItems, List.mem_cons] at hpiece
    rcases hpiece with rfl | hpiece
    · exact free_shown x fun s hs => h s (.inl hs)
    · exact free_shownItems items (fun s hs => h s (.inr hs)) piece hpiece

theorem free_shownFields : (fields : List (Key × Json)) →
    (∀ s ∈ Json.textsFields fields, Free s) → ∀ piece ∈ Json.shownFields fields, Free piece
  | [], _ => by simp [Json.shownFields]
  | (k, x) :: fields, h => by
    simp only [Json.textsFields, List.mem_append] at h
    intro piece hpiece
    rw [Json.shownFields, List.mem_cons] at hpiece
    rcases hpiece with rfl | hpiece
    · have hkey := free_shownKey fun s hs => h s (.inl (.inl hs))
      exact hkey.across (by decide) (by decide) (free_shown x fun s hs => h s (.inl (.inr hs)))
    · exact free_shownFields fields (fun s hs => h s (.inr hs)) piece hpiece
end

theorem free_display {x : Json} (h : ∀ s ∈ x.texts, Free s) : Free x.display := by
  cases x with
  | str s => exact h s List.mem_cons_self
  | _ => exact free_shown _ h

/-! Rendered texts. -/

theorem free_commentLine {indent text line : String} (hindent : indent.toList.all isQuiet = true)
    (htext : Free text) (h : line ∈ commentLines indent text) : Free line := by
  obtain ⟨cs, hcs, hprefix⟩ := mem_commentLines h
  have hescaped : ¬ placeholder.toList <:+:
      Text.replaceFrom "*/".toList "*\\/".toList 0 text.toList :=
    Text.not_infix_replaceFrom placeholder_ne_nil (by decide) (by decide) (by decide) htext
  have hstart : Plain (indent ++ " * ") := by
    intro c hc
    rw [String.toList_append, List.mem_append] at hc
    have hstar : Plain " * " := by decide
    exact hc.elim (plain_of_quiet hindent c) (hstar c)
  intro hin
  have hline := hin.trans hprefix.isInfix
  rw [← String.toList_append] at hline
  exact hescaped ((Text.infix_of_foreign placeholder_ne_nil hstart hline).trans hcs)

theorem free_comment {indent text comment : String} (hindent : indent.toList.all isQuiet = true)
    (htext : Free text) (h : comment? indent text = some comment) : Free comment := by
  have hlines : Free (Text.joinLines (commentLines indent text)) :=
    .intercalate (by decide) (by decide) fun line hline => free_commentLine hindent htext hline
  have hindent' : Free indent := .of_plain (plain_of_quiet hindent)
  have hfirst : Free (indent ++ "/**") := hindent'.behind (by decide) (by decide)
  have hlast : Free (indent ++ " */") := hindent'.behind (by decide) (by decide)
  rw [comment_eq h]
  exact (hfirst.across (by decide) (by decide) hlines).across (by decide) (by decide) hlast

/-- Rendering makes no placeholder where there was none. -/
theorem rendersInto_free : RendersInto Free Free where
  empty := .of_plain (by decide)
  across ha hw hne hb := ha.across (plain_of_quiet hw) hne hb
  braces ha := (ha.before (by decide) (by decide)).behind (by decide) (by decide)
  quote := free_quote
  bare hs _ := hs
  comment := free_comment
  calm hs := .of_plain (plain_of_quiet (all_isQuiet hs))
  word {s} hs := by
    have hwords : ∀ word ∈ ["NaN", "Infinity", "-Infinity"], Free word := by decide
    exact ⟨hwords s hs, hwords s hs⟩

/-! Look-ups along a path. -/

theorem free_access {root : String} (hroot : Free root) {keys : List String}
    (hkeys : ∀ key ∈ keys, Free key) : Free (IndexedAccess.render ⟨root, keys⟩) := by
  have hopening : ∀ keys : List String, Free (IndexedAccess.opening keys ++ root) := by
    intro keys
    induction keys with
    | nil => simpa [IndexedAccess.opening] using hroot
    | cons key keys ih =>
      have hname : Free "NonNullable" := by decide
      have hstep : IndexedAccess.opening (key :: keys) ++ root =
          "NonNullable" ++ "<" ++ (IndexedAccess.opening keys ++ root) := by
        have hpiece : "NonNullable<" = "NonNullable" ++ "<" := by decide
        simp only [IndexedAccess.opening, List.map_cons, String.join_cons, hpiece,
          String.append_assoc]
      rw [hstep]
      exact hname.across (by decide) (by decide) ih
  have hclosing : ∀ (keys : List String) (text : String), (∀ key ∈ keys, Free key) → Free text →
      Free (text ++ IndexedAccess.closing keys) := by
    intro keys
    induction keys with
    | nil => exact fun text _ htext => by simpa [IndexedAccess.closing] using htext
    | cons key keys ih =>
      intro text hkeys htext
      have hquoted := free_quote (hkeys key List.mem_cons_self)
      have hstep : text ++ IndexedAccess.closing (key :: keys) =
          text ++ "[" ++ Json.quote key ++ "]>" ++ IndexedAccess.closing keys := by
        simp only [IndexedAccess.closing, List.map_cons, String.join_cons, String.append_assoc]
      rw [hstep]
      refine ih _ (fun k hk => hkeys k (List.mem_cons_of_mem _ hk)) ?_
      exact (htext.across (by decide) (by decide) hquoted).behind (by decide) (by decide)
  exact hclosing keys _ hkeys (hopening keys)

theorem free_target {typeName : String} (hname : Free typeName) {path : Schema.Path}
    (hpath : ∀ segment ∈ path, Free segment.display) {reference : String} (h : Free reference) :
    Free (Schema.Prepared.target typeName path reference) := by
  refine free_access hname fun segment hsegment => ?_
  rcases Schema.Reference.mem_resolve hsegment with hold | ⟨part, hpart, rfl⟩
  · obtain ⟨x, hx, rfl⟩ := List.mem_map.1 hold
    exact hpath x hx
  · rw [Free, String.toList_ofList]
    have hcollapsed := Schema.Reference.not_infix_collapse (by decide) (by decide) h
    exact fun hin => hcollapsed (hin.trans (Schema.Reference.infix_of_mem_parts hpart))

end SchemaDecl
