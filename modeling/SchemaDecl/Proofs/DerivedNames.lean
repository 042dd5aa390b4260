import SchemaDecl.CommandLine.Program
import SchemaDecl.Proofs.DeclaredNames
import SchemaDecl.Proofs.Name.Words

/-! Names that nobody gave. An interface is named after its path, and a schema that is
declared from the command line after its file. Such a name holds nothing but letters
and digits, so it can only be unusable at its start: when it starts with a digit, or
when nothing was left of the text. An interface has another name for the second case. -/

namespace SchemaDecl

open TypeScript

namespace Name

/-- The first character of the text that a name in Pascal case keeps. -/
def firstKept? (text : String) : Option Char := text.toList.find? Char.isAlphanum

theorem isNameStart_eq_isAlpha {c : Char} (h : c.isAlphanum = true) :
    isNameStart c = c.isAlpha := by
  have hunderscore : c ≠ '_' := by
    rintro rfl
    revert h
    decide
  have hdollar : c ≠ '$' := by
    rintro rfl
    revert h
    decide
  simp [isNameStart, hunderscore, hdollar]

/-- The name starts with what is kept first, as a letter or as a digit. -/
theorem head?_pascalChars (afterLetter : Bool) (cs : List Char) :
    (pascalChars afterLetter cs).head?.map Char.isAlpha =
      (cs.find? Char.isAlphanum).map Char.isAlpha := by
  induction cs generalizing afterLetter with
  | nil => rfl
  | cons c rest ih =>
    rw [pascalChars, List.find?_cons]
    by_cases hletter : c.isAlpha = true
    · have hkept : c.isAlphanum = true := by rw [Char.isAlphanum, hletter, Bool.true_or]
      rw [if_pos hletter, hkept, List.head?_cons, Option.map_some, Option.map_some, hletter]
      split
      · rw [hletter]
      · rw [Char.isAlpha_toUpper_eq_isAlpha, hletter]
    · rw [if_neg hletter]
      by_cases hdigit : c.isDigit = true
      · have hkept : c.isAlphanum = true := by rw [Char.isAlphanum, hdigit, Bool.or_true]
        rw [if_pos hdigit, hkept, List.head?_cons]
      · have hdropped : c.isAlphanum = false := by simp [Char.isAlphanum, hletter, hdigit]
        rw [if_neg hdigit, hdropped]
        exact ih false

theorem all_isNameChar_toPascal (text : String) :
    (toPascal text).toList.all isNameChar = true := by
  rw [toPascal, String.toList_ofList]
  exact List.all_eq_true.2 fun _ hc => isNameChar_of_isAlphanum (isAlphanum_of_mem_pascalChars hc)

theorem isIdentifier_toPascal (text : String) :
    isIdentifier (toPascal text).toList = ((firstKept? text).map Char.isAlpha).getD false := by
  have hall := all_isNameChar_toPascal text
  rw [toPascal, String.toList_ofList] at hall ⊢
  rw [firstKept?, ← head?_pascalChars false]
  cases hcs : pascalChars false text.toList with
  | nil => rfl
  | cons c rest =>
    have hc : c.isAlphanum = true :=
      isAlphanum_of_mem_pascalChars (hcs ▸ List.mem_cons_self)
    rw [hcs, List.all_cons, Bool.and_eq_true] at hall
    rw [isIdentifier, hall.2, Bool.and_true, isNameStart_eq_isAlpha hc]
    rfl

theorem toPascal_eq_empty_iff (text : String) : toPascal text = "" ↔ firstKept? text = none := by
  have hhead := head?_pascalChars false text.toList
  rw [← String.toList_inj, toPascal, String.toList_ofList, firstKept?]
  constructor
  · intro h
    rw [h] at hhead
    exact Option.map_eq_none_iff.1 hhead.symm
  · intro h
    rw [h] at hhead
    exact List.head?_eq_none_iff.1 (Option.map_eq_none_iff.1 hhead)

theorem isIdentifier_append_of_ne_nil {name ending : List Char} (hname : name ≠ [])
    (hending : ending.all isNameChar = true) :
    isIdentifier (name ++ ending) = isIdentifier name := by
  obtain ⟨c, rest, rfl⟩ := List.exists_cons_of_ne_nil hname
  rw [List.cons_append, isIdentifier, isIdentifier, List.all_append, hending, Bool.and_true]

end Name

open Name

/-- The name of an interface, and every name made from it with more name characters behind, is an
identifier exactly if no digit comes first among the letters and digits of its path. -/
theorem typeName_usable (path : String) (title : Json) (request response : String) :
    ∃ base, (Interface.mk (.str path) title request response).typeName = .ok base ∧
      ∀ ending : String, ending.toList.all isNameChar = true →
        (isIdentifier (base ++ ending).toList = true ↔
          ∀ c, firstKept? path = some c → c.isAlpha = true) := by
  have hname :
      isIdentifier (if (toPascal path).isEmpty then "Interface" else toPascal path).toList = true ↔
        ∀ c, firstKept? path = some c → c.isAlpha = true := by
    have hempty := toPascal_eq_empty_iff path
    have hidentifier := isIdentifier_toPascal path
    cases hfirst : firstKept? path with
    | none =>
      rw [hempty.2 hfirst, if_pos (by decide)]
      exact ⟨fun _ _ h => (Option.some_ne_none _ h.symm).elim, fun _ => by decide⟩
    | some c =>
      have hne : toPascal path ≠ "" := fun h => by rw [hempty.1 h] at hfirst; cases hfirst
      rw [hfirst] at hidentifier
      simp [hne, hidentifier]
  have hne : (if (toPascal path).isEmpty then "Interface" else toPascal path).toList ≠ [] := by
    split
    · decide
    · rename_i hsome
      simpa using hsome
  refine ⟨_, rfl, fun ending hending => ?_⟩
  rw [String.toList_append, isIdentifier_append_of_ne_nil hne hending]
  exact hname

/-- Derived names are usable unless a digit comes first. The name of an interface and the names of
its two declarations are identifiers exactly if among the letters and digits of its path a letter
comes first, or there are none of either; the name made from a file exactly if a letter comes first;
and this name is the first that is declared when the command is given no other. -/
theorem derived_names_usable_iff (path : String) (title : Json) (request response stem : String) :
    (∃ base, (Interface.mk (.str path) title request response).typeName = .ok base ∧
      ∀ ending ∈ ["", "Request", "Response"], (isIdentifier (base ++ ending).toList = true ↔
        ∀ c, firstKept? path = some c → c.isAlpha = true)) ∧
    (isIdentifier (toPascal stem).toList = true ↔
      ∃ c, firstKept? stem = some c ∧ c.isAlpha = true) ∧
    ∀ (arguments : CommandLine.Arguments) (typeNames : Fields) (text code : String),
      arguments.name = none → arguments.interface = false →
        (CommandLine.declarations arguments typeNames text).outcome.1 = .ok code →
          ∃ schema names, loadSchema (.obj typeNames) text = .ok schema ∧
            Declares schema (toPascal (Files.Location.stem arguments.path.name)) code
              (toPascal (Files.Location.stem arguments.path.name) :: names) := by
  refine ⟨?_, ?_, ?_⟩
  · have hendings : ∀ ending ∈ ["", "Request", "Response"],
        ending.toList.all isNameChar = true := by decide
    obtain ⟨base, hbase, husable⟩ := typeName_usable path title request response
    exact ⟨base, hbase, fun ending hending => husable ending (hendings ending hending)⟩
  · rw [isIdentifier_toPascal]
    cases firstKept? stem <;> simp
  · intro arguments typeNames text code hname hinterface hcode
    cases hrun : (CommandLine.declarations arguments typeNames text).outcome with
    | mk outcome trace =>
      rw [hrun] at hcode
      obtain rfl : outcome = .ok code := hcode
      unfold CommandLine.declarations at hrun
      rw [hinterface, hname] at hrun
      obtain ⟨schema, _, hloaded, hdeclared⟩ := Inversion.run_bind_eq_ok.1 hrun
      exact ⟨schema, _, (Inversion.run_lift_eq_ok.1 hloaded).1, declares_of_declare hdeclared⟩

/-- A path that starts with a digit, and a file with neither a letter nor a digit in its name. -/
theorem digit_first_and_nothing_left :
    (Interface.mk (.str "/3d/list") (.str "") "" "").typeName = .ok "3DList" ∧
      isIdentifier "3DList".toList = false ∧ toPascal "接口" = "" ∧
      isIdentifier "".toList = false := by
  refine ⟨Inversion.eq_ok_of_toOption (by decide +kernel), by decide, by decide +kernel, by decide⟩

end SchemaDecl
