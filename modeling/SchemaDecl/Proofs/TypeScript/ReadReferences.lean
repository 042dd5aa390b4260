import SchemaDecl.Proofs.Json.ReadQuoted
import SchemaDecl.Proofs.Text.Substitution
import SchemaDecl.Proofs.TypeScript.Atoms
import SchemaDecl.Schema.Prepared

/-! Look-ups read back from their text. A text that starts like a look-up is one, and
what is behind the opening is read in the same way until a name comes; every
level then finds its key in quotes, and the quoted key says itself where it ends.
So a look-up can be told from its text, whatever characters are in its keys, and
two references have one text only if they lead to one place under one root. -/

namespace SchemaDecl.TypeScript.IndexedAccess

/-! Reading. -/

def openingMark : List Char := "NonNullable<".toList

/-- A key in quotes and brackets, and the end of its look-up. -/
def readKey? : List Char → Option (String × List Char)
  | '[' :: rest => match Json.Reader.string rest with
    | .ok (key, ']' :: '>' :: rest) => some (key, rest)
    | _ => none
  | _ => none

def readName (cs : List Char) : IndexedAccess × List Char :=
  (⟨String.ofList (cs.takeWhile Name.isNameChar), []⟩, cs.dropWhile Name.isNameChar)

/-- A look-up or a name at the start of a text, and what is behind it. Each opening takes one
level, and the name another. -/
def readLevels? : Nat → List Char → Option (IndexedAccess × List Char)
  | 0, _ => none
  | levels + 1, cs =>
    if openingMark.isPrefixOf cs then
      (readLevels? levels (cs.drop openingMark.length)).bind fun (e, rest) =>
        (readKey? rest).map fun (key, rest) => (e.index key, rest)
    else some (readName cs)

/-- The look-up that a whole text is. -/
def read? (text : String) : Option IndexedAccess :=
  match readLevels? (text.toList.length + 1) text.toList with
  | some (e, []) => some e
  | _ => none

/-! Writing, one look-up at a time. -/

theorem render_index (e : IndexedAccess) (key : String) :
    (e.index key).render = "NonNullable<" ++ e.render ++ "[" ++ Json.quote key ++ "]>" := by
  have hopening : opening (e.keys ++ [key]) = "NonNullable<" ++ opening e.keys := by
    rw [opening, opening, List.map_const', List.map_const', List.length_append,
      List.length_singleton, List.replicate_succ, String.join_cons]
  have hclosing : closing (e.keys ++ [key]) =
      closing e.keys ++ ("[" ++ Json.quote key ++ "]>") := by
    simp [closing, String.join_append]
  rw [render, index, hopening, hclosing, render]
  simp only [String.append_assoc]

theorem toList_render_index (e : IndexedAccess) (key : String) (rest : List Char) :
    (e.index key).render.toList ++ rest = openingMark ++ (e.render.toList ++
      '[' :: ((Json.quote key).toList ++ ']' :: '>' :: rest)) := by
  have hbracket : "[".toList = ['['] := rfl
  have hend : "]>".toList = [']', '>'] := rfl
  have hopening : openingMark = "NonNullable<".toList := rfl
  simp only [render_index, hopening, String.toList_append, hbracket, hend, List.append_assoc,
    List.cons_append, List.nil_append]

theorem length_keys_le (e : IndexedAccess) : e.keys.length ≤ e.render.toList.length := by
  obtain ⟨root, keys⟩ := e
  induction keys using List.reverseRecOn with
  | nil => simp
  | append_singleton keys key ih =>
    have hlength := congrArg List.length (toList_render_index ⟨root, keys⟩ key [])
    simp only [index, List.length_append, List.length_cons, List.length_nil] at hlength ⊢
    dsimp only at ih
    omega

/-! Reading what was written. -/

/-- Nothing that a name, or an opening, goes on with. -/
def Ends (rest : List Char) : Prop := ∀ c ∈ rest.head?, Name.isNameChar c = false ∧ c ≠ '<'

theorem not_mem_openingMark {c : Char} (h : Name.isNameChar c = false ∧ c ≠ '<') :
    c ∉ openingMark := by
  intro hmem
  have hall : (openingMark.all fun d => Name.isNameChar d || d == '<') = true := by decide
  have hc := List.all_eq_true.1 hall c hmem
  rw [h.1, Bool.false_or, beq_iff_eq] at hc
  exact h.2 hc

/-- A name is not taken for an opening. -/
theorem not_opening {name rest : List Char} (hname : ∀ c ∈ name, Name.isNameChar c = true)
    (hrest : Ends rest) : ¬ openingMark <+: name ++ rest := by
  have hno : ¬ openingMark <+: name := by
    intro hprefix
    have hangle : '<' ∈ name := hprefix.subset (by decide)
    exact absurd (hname '<' hangle) (by decide)
  cases rest with
  | nil => rwa [List.append_nil]
  | cons c rest =>
    exact fun hprefix => hno (Text.prefix_of_foreign (not_mem_openingMark (hrest c rfl)) hprefix)

theorem readName_append {name rest : List Char} (hname : ∀ c ∈ name, Name.isNameChar c = true)
    (hrest : Ends rest) : readName (name ++ rest) = (⟨String.ofList name, []⟩, rest) := by
  obtain ⟨htake, hdrop⟩ := Scan.nameChars_append hname fun c hc => (hrest c hc).1
  rw [readName, htake, hdrop]

theorem readKey?_quote (key : String) (rest : List Char) :
    readKey? ('[' :: ((Json.quote key).toList ++ ']' :: '>' :: rest)) = some (key, rest) := by
  rw [readKey?, Json.Reader.string_quote]
  rfl

/-- By induction on the keys, the last look-up first: it is the outermost one. -/
theorem readLevels?_render {root : String} (hroot : ∀ c ∈ root.toList, Name.isNameChar c = true)
    (keys : List String) {levels : Nat} (hlevels : keys.length < levels) {rest : List Char}
    (hrest : Ends rest) :
    readLevels? levels ((render ⟨root, keys⟩).toList ++ rest) = some (⟨root, keys⟩, rest) := by
  induction keys using List.reverseRecOn generalizing levels rest with
  | nil =>
    obtain ⟨levels, rfl⟩ := Nat.exists_eq_succ_of_ne_zero (Nat.ne_of_gt hlevels)
    have hno : ¬ openingMark.isPrefixOf (root.toList ++ rest) = true := fun hprefix =>
      not_opening hroot hrest (List.isPrefixOf_iff_prefix.1 hprefix)
    rw [render_root, readLevels?, if_neg hno, readName_append hroot hrest, String.ofList_toList]
  | append_singleton keys key ih =>
    rw [List.length_append, List.length_singleton] at hlevels
    obtain ⟨levels, rfl⟩ := Nat.exists_eq_succ_of_ne_zero (Nat.ne_of_gt (Nat.zero_lt_of_lt hlevels))
    have htext := toList_render_index ⟨root, keys⟩ key rest
    have hopening : openingMark.isPrefixOf (openingMark ++ ((render ⟨root, keys⟩).toList ++
        '[' :: ((Json.quote key).toList ++ ']' :: '>' :: rest))) = true :=
      List.isPrefixOf_iff_prefix.2 (List.prefix_append ..)
    have hends : Ends ('[' :: ((Json.quote key).toList ++ ']' :: '>' :: rest)) := by
      rintro c ⟨⟩
      decide
    have hinner := ih (Nat.lt_of_succ_lt_succ hlevels) hends
    rw [index] at htext
    rw [htext, readLevels?, if_pos hopening, List.drop_left, hinner, Option.bind_some]
    dsimp only
    rw [readKey?_quote]
    rfl

theorem read?_render {root : String} (h : Name.isIdentifier root.toList = true)
    (keys : List String) : read? (render ⟨root, keys⟩) = some ⟨root, keys⟩ := by
  have hroot := List.all_eq_true.1 (Scan.all_isNameChar_of_isIdentifier h)
  have hlevels := Nat.lt_succ_of_le (length_keys_le ⟨root, keys⟩)
  have hends : Ends [] := fun c hc => nomatch hc
  have hread := readLevels?_render hroot keys hlevels hends
  rw [List.append_nil] at hread
  rw [read?, hread]

theorem target_eq (root : String) (path : Schema.Path) (reference : String) :
    Schema.Prepared.target root path reference =
      (fromPath root (Schema.Reference.resolve path reference)).render := by
  rw [fromPath_eq]
  rfl

/-- References can be read back, so that they differ as soon as they lead to different places; and
each key is written around what was written before. -/
theorem references_read_back :
    (∀ (root : String) (keys : List String), Name.isIdentifier root.toList = true →
      read? (fromPath root keys).render = some ⟨root, keys⟩) ∧
    (∀ (root root' : String) (path path' : Schema.Path) (reference reference' : String),
      Name.isIdentifier root.toList = true → Name.isIdentifier root'.toList = true →
      Schema.Prepared.target root path reference = Schema.Prepared.target root' path' reference' →
        root = root' ∧
          Schema.Reference.resolve path reference = Schema.Reference.resolve path' reference') ∧
    ∀ (e : IndexedAccess) (key : String),
      (e.index key).render = "NonNullable<" ++ e.render ++ "[" ++ Json.quote key ++ "]>" := by
  refine ⟨fun root keys h => ?_, ?_, render_index⟩
  · rw [fromPath_eq]
    exact read?_render h keys
  · intro root root' path path' reference reference' hroot hroot' hsame
    rw [target_eq, target_eq, fromPath_eq, fromPath_eq] at hsame
    have hread := read?_render hroot (Schema.Reference.resolve path reference)
    rw [hsame, read?_render hroot'] at hread
    obtain ⟨hroots, hkeys⟩ := IndexedAccess.mk.inj (Option.some.inj hread)
    exact ⟨hroots.symm, hkeys.symm⟩

/-- Keys that look like the text around them, and two references with one text. -/
theorem references_read_back_lookalike :
    Name.isIdentifier "NonNullable".toList = true ∧
      read? (fromPath "NonNullable" ["\"]>", "NonNullable<T[\"", "\\\x01\n"]).render =
        some ⟨"NonNullable", ["\"]>", "NonNullable<T[\"", "\\\x01\n"]⟩ ∧
      Schema.Prepared.target "T" [.str "a", .int 0] "..\\../b//" =
        Schema.Prepared.target "T" [] "id:b" ∧
      Schema.Reference.resolve [.str "a", .int 0] "..\\../b//" =
        Schema.Reference.resolve [] "id:b" := by
  have hname : Name.isIdentifier "T".toList = true := by decide
  have hsame : Schema.Prepared.target "T" [.str "a", .int 0] "..\\../b//" =
      Schema.Prepared.target "T" [] "id:b" := by decide +kernel
  exact ⟨by decide, references_read_back.1 _ _ (by decide), hsame,
    (references_read_back.2.1 _ _ _ _ _ _ hname hname hsame).2⟩

end SchemaDecl.TypeScript.IndexedAccess
