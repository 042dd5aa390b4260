import SchemaDecl.Proofs.Json.ReadQuoted
import SchemaDecl.Proofs.TypeScript.Atoms
import SchemaDecl.TypeScript.Compile

/-! Names of members read back. A name that is printed bare is an identifier and
stands for itself, and a quoted one says where it ends and stands for the string
it quotes, so a member is declared under its key whatever is in the key. There is
one exception: an identifier with a line feed behind it is printed bare as well,
and what is declared is the identifier alone. Two keys become one member in this
way and in no other. -/

namespace SchemaDecl.TypeScript

/-! Reading. -/

/-- The name of a member at the start of a text, and what is behind it. -/
def readMember? : List Char → Option (String × List Char)
  | [] => none
  | c :: rest =>
    if c = '"' then (Json.Reader.string (c :: rest)).toOption
    else if Name.isNameStart c then
      some (String.ofList ((c :: rest).takeWhile Name.isNameChar),
        (c :: rest).dropWhile Name.isNameChar)
    else none

/-- The whole text is one name, which stands for the key: an identifier or a string literal. -/
def Denotes (text key : String) : Prop :=
  text = key ∧ Name.isIdentifier key.toList = true ∨
    text.toList.head? = some '"' ∧ Json.Reader.string text.toList = .ok (key, [])

/-- Nothing that a name goes on with. -/
def Stops (rest : List Char) : Prop := ∀ c ∈ rest.head?, Name.isNameChar c = false

theorem readMember?_identifier {name : List Char} (h : Name.isIdentifier name = true)
    {rest : List Char} (hrest : Stops rest) :
    readMember? (name ++ rest) = some (String.ofList name, rest) := by
  have hall := List.all_eq_true.1 (Scan.all_isNameChar_of_isIdentifier h)
  obtain ⟨htake, hdrop⟩ := Scan.nameChars_append hall hrest
  cases name with
  | nil => cases h
  | cons c name =>
    have hstart : Name.isNameStart c = true := (Bool.and_eq_true_iff.1 h).1
    have hquote : c ≠ '"' := by
      rintro rfl
      exact absurd hstart (by decide)
    rw [List.cons_append] at htake hdrop ⊢
    rw [readMember?, if_neg hquote, if_pos hstart, htake, hdrop]

theorem readMember?_quote (key : String) (rest : List Char) :
    readMember? ((Json.quote key).toList ++ rest) = some (key, rest) := by
  have hread := Json.Reader.string_quote key rest
  rw [Json.toList_quote, Json.quoteChars, List.cons_append] at hread ⊢
  rw [readMember?, if_pos rfl, hread]
  rfl

/-! Keys that end a line. -/

/-- The key is an identifier and a line feed. -/
def EndsLine (name key : String) : Prop :=
  Name.isIdentifier name.toList = true ∧ key = name ++ "\n"

theorem not_isIdentifier_of_endsLine {name key : String} (h : EndsLine name key) :
    Name.isIdentifier key.toList = false := by
  cases hkey : Name.isIdentifier key.toList with
  | false => rfl
  | true =>
    have hall := List.all_eq_true.1 (Scan.all_isNameChar_of_isIdentifier hkey)
    have hmem : '\n' ∈ key.toList := by simp [h.2]
    exact absurd (hall _ hmem) (by decide)

theorem head?_of_endsLine {name key : String} (h : EndsLine name key) :
    key.toList.head? ≠ some '"' := by
  intro hquote
  rw [h.2, String.toList_append] at hquote
  have hname := h.1
  cases hcs : name.toList with
  | nil =>
    rw [hcs] at hname
    cases hname
  | cons c rest =>
    rw [hcs] at hname hquote
    have hstart : Name.isNameStart c = true := (Bool.and_eq_true_iff.1 hname).1
    rw [Option.some.inj hquote] at hstart
    exact absurd hstart (by decide)

theorem isBareName_iff {key : String} :
    isBareName key.toList = true ↔
      Name.isIdentifier key.toList = true ∨ ∃ name, EndsLine name key := by
  simp only [isBareName, Bool.or_eq_true, Bool.and_eq_true, beq_iff_eq]
  refine or_congr_right ⟨?_, ?_⟩
  · rintro ⟨hlast, hname⟩
    obtain ⟨front, hfront⟩ := List.getLast?_eq_some_iff.1 hlast
    refine ⟨String.ofList front, ?_, ?_⟩
    · rw [hfront, List.dropLast_concat] at hname
      rwa [String.toList_ofList]
    · rw [← String.toList_inj, hfront, String.toList_append, String.toList_ofList]
      rfl
  · rintro ⟨name, hname, rfl⟩
    have hfeed : (name ++ "\n").toList = name.toList ++ ['\n'] := String.toList_append
    rw [hfeed, List.getLast?_concat, List.dropLast_concat]
    exact ⟨rfl, hname⟩

/-- A key is printed bare as an identifier, bare with its line feed, or quoted. -/
theorem memberName_cases (key : String) :
    (Name.isIdentifier key.toList = true ∧ memberName key = key) ∨
      (∃ name, EndsLine name key ∧ memberName key = key) ∨
      Name.isIdentifier key.toList = false ∧ (∀ name, ¬ EndsLine name key) ∧
        memberName key = Json.quote key := by
  unfold memberName
  split
  · rename_i hbare
    rcases isBareName_iff.1 hbare with hname | ⟨name, hname⟩
    · exact .inl ⟨hname, rfl⟩
    · exact .inr (.inl ⟨name, hname, rfl⟩)
  · rename_i hbare
    rw [isBareName_iff, not_or, Bool.not_eq_true, not_exists] at hbare
    exact .inr (.inr ⟨hbare.1, hbare.2, rfl⟩)

/-- The name under which a key is declared in front of the rest of a text. -/
def declared (key : String) (rest : List Char) : Option String :=
  (readMember? ((memberName key).toList ++ rest)).map Prod.fst

section
variable {key name : String} {rest : List Char}

theorem readMember?_memberName (h : ∀ name, ¬ EndsLine name key) (hrest : Stops rest) :
    readMember? ((memberName key).toList ++ rest) = some (key, rest) := by
  rcases memberName_cases key with ⟨hname, htext⟩ | ⟨name, hname, _⟩ | ⟨_, _, htext⟩
  · rw [htext, readMember?_identifier hname hrest, String.ofList_toList]
  · exact absurd hname (h name)
  · rw [htext, readMember?_quote]

/-- The name ends in front of the line feed. -/
theorem readMember?_of_endsLine (h : EndsLine name key) (rest : List Char) :
    readMember? ((memberName key).toList ++ rest) = some (name, '\n' :: rest) := by
  have hbare : memberName key = key := if_pos (isBareName_iff.2 (.inr ⟨name, h⟩))
  have htext : key.toList ++ rest = name.toList ++ '\n' :: rest := by simp [h.2]
  have hstops : Stops ('\n' :: rest) := by
    rintro c ⟨⟩
    decide
  rw [hbare, htext, readMember?_identifier h.1 hstops, String.ofList_toList]

theorem denotes_memberName_iff :
    Denotes (memberName key) key ↔ ∀ name, ¬ EndsLine name key := by
  rcases memberName_cases key with ⟨hname, htext⟩ | ⟨name, hline, htext⟩ | ⟨_, hlines, htext⟩
  · refine iff_of_true (.inl ⟨htext, hname⟩) fun name hline => ?_
    rw [not_isIdentifier_of_endsLine hline] at hname
    cases hname
  · refine iff_of_false ?_ fun h => h name hline
    rintro (⟨_, hname⟩ | ⟨hquote, _⟩)
    · rw [not_isIdentifier_of_endsLine hline] at hname
      cases hname
    · rw [htext] at hquote
      exact head?_of_endsLine hline hquote
  · have hread := Json.Reader.string_quote key []
    rw [List.append_nil] at hread
    exact iff_of_true (.inr ⟨by rw [htext, Json.toList_quote]; rfl, htext ▸ hread⟩) hlines

theorem declared_of_no_line (h : ∀ name, ¬ EndsLine name key) (hrest : Stops rest) :
    declared key rest = some key := by
  rw [declared, readMember?_memberName h hrest]
  rfl

theorem declared_of_endsLine (h : EndsLine name key) (rest : List Char) :
    declared key rest = some name := by
  rw [declared, readMember?_of_endsLine h]
  rfl

end

/-- The identifier in front of the line feed is declared, or else the key itself. -/
theorem declared_cases (key : String) :
    (∃ name, EndsLine name key ∧ ∀ rest, declared key rest = some name) ∨
      (∀ name, ¬ EndsLine name key) ∧ ∀ rest, Stops rest → declared key rest = some key := by
  by_cases hline : ∃ name, EndsLine name key
  · obtain ⟨name, hname⟩ := hline
    exact .inl ⟨name, hname, declared_of_endsLine hname⟩
  · rw [not_exists] at hline
    exact .inr ⟨hline, fun rest hrest => declared_of_no_line hline hrest⟩

/-- A line feed behind an identifier is not declared. -/
theorem declared_eq_of_endsLine {name key : String} (h : EndsLine name key) {rest : List Char}
    (hrest : Stops rest) (rest' : List Char) : declared name rest = declared key rest' := by
  rw [declared_of_endsLine h]
  refine declared_of_no_line (fun other hother => ?_) hrest
  have hname := not_isIdentifier_of_endsLine hother
  rw [h.1] at hname
  cases hname

theorem declared_eq_iff {key key' : String} {rest rest' : List Char} (hrest : Stops rest)
    (hrest' : Stops rest') : declared key rest = declared key' rest' ↔
      key = key' ∨ EndsLine key key' ∨ EndsLine key' key := by
  constructor
  · intro hsame
    rcases declared_cases key with ⟨name, hname, hread⟩ | ⟨_, hread⟩ <;>
      rcases declared_cases key' with ⟨name', hname', hread'⟩ | ⟨_, hread'⟩
    · rw [hread, hread', Option.some.injEq] at hsame
      exact .inl (by rw [hname.2, hname'.2, hsame])
    · rw [hread, hread' _ hrest', Option.some.injEq] at hsame
      exact .inr (.inr (hsame ▸ hname))
    · rw [hread _ hrest, hread', Option.some.injEq] at hsame
      exact .inr (.inl (hsame ▸ hname'))
    · rw [hread _ hrest, hread' _ hrest', Option.some.injEq] at hsame
      exact .inl hsame
  · rintro (rfl | hline | hline)
    · rcases declared_cases key with ⟨name, _, hread⟩ | ⟨_, hread⟩
      · rw [hread, hread]
      · rw [hread _ hrest, hread _ hrest']
    · exact declared_eq_of_endsLine hline hrest rest'
    · exact (declared_eq_of_endsLine hline hrest' rest).symm

/-- A key is printed as a name for it, unless it ends a line; then the identifier in front of the
line feed is declared. Two keys are declared under one name only if they differ in that line feed
alone. -/
theorem names_stand_for_keys_iff (key key' : String) {rest rest' : List Char}
    (hrest : Stops rest) (hrest' : Stops rest') :
    (Denotes (memberName key) key ↔ ∀ name, ¬ EndsLine name key) ∧
    ((∀ name, ¬ EndsLine name key) →
      readMember? ((memberName key).toList ++ rest) = some (key, rest)) ∧
    (∀ name, EndsLine name key →
      readMember? ((memberName key).toList ++ rest) = some (name, '\n' :: rest)) ∧
    (declared key rest = declared key' rest' ↔
      key = key' ∨ EndsLine key key' ∨ EndsLine key' key) :=
  ⟨denotes_memberName_iff, fun h => readMember?_memberName h hrest,
    fun _ h => readMember?_of_endsLine h rest, declared_eq_iff hrest hrest'⟩

/-- A key that is quoted although an identifier starts it, and one that is not. -/
theorem names_stand_for_keys_iff_feeds :
    Stops ['?', ':'] ∧ readMember? ((memberName "a\n\n").toList ++ ['?', ':']) =
      some ("a\n\n", ['?', ':']) ∧
    readMember? ((memberName "a\n").toList ++ ['?', ':']) = some ("a", ['\n', '?', ':']) ∧
    declared "a" ['?', ':'] = declared "a\n" ['?', ':'] := by
  have hstops : Stops ['?', ':'] := by
    rintro c ⟨⟩
    decide
  have hline : EndsLine "a" "a\n" := ⟨by decide, by decide⟩
  have hnone : ∀ name, ¬ EndsLine name "a\n\n" := by
    have hbare : ¬ isBareName "a\n\n".toList = true := by decide
    exact fun name hname => hbare (isBareName_iff.2 (.inr ⟨name, hname⟩))
  obtain ⟨-, hquoted, -, -⟩ := names_stand_for_keys_iff "a\n\n" "a" hstops hstops
  obtain ⟨-, -, hbare, -⟩ := names_stand_for_keys_iff "a\n" "a" hstops hstops
  obtain ⟨-, -, -, hsame⟩ := names_stand_for_keys_iff "a" "a\n" hstops hstops
  exact ⟨hstops, hquoted hnone, hbare "a" hline, hsame.2 (.inr (.inl hline))⟩

/-- Two keys of one object are declared as one member. -/
theorem feed_not_denoted :
    ¬ Denotes (memberName "a\n") "a\n" ∧ "a" ≠ "a\n" ∧
      declared "a" "?: unknown;".toList = declared "a\n" "?: unknown;".toList ∧
      ((Compiler.new Formatter.absent []).compile (.obj [("properties",
          .obj [("a", .obj []), ("a\n", .obj [])])]) "T" .plain).1.result =
        .ok ("export interface T \x7b\n  a?: unknown;\n  a\n?: unknown;\n" ++
          "  [k: string]: unknown;\n\x7d\n") := by
  refine ⟨?_, by decide, by decide +kernel, by decide +kernel⟩
  have hline : EndsLine "a" "a\n" := ⟨by decide, by decide⟩
  exact fun h => denotes_memberName_iff.1 h "a" hline

end SchemaDecl.TypeScript
