import SchemaDecl.Proofs.TypeScript.EnumNames

/-! The supply of enum names over a run of the compiler. The state changes in two
ways only: an enum is declared and its name handed out, or an unknown type is
reported. A rendering is therefore a chain of such steps, and what it hands out
along the chain is what the file declares behind the root, in the same order. -/

namespace SchemaDecl.TypeScript

/-! Names handed out are identifiers. -/

theorem isNameStart_of_not_digit {c : Char} (h : Name.isNameChar c = true)
    (hc : c.isDigit = false) : Name.isNameStart c = true := by
  simpa [Name.isNameStart, Name.isNameChar, Char.isAlphanum, hc] using h

theorem isIdentifier_toIdentifier (text : String) :
    Name.isIdentifier (Name.toIdentifier text).toList = true := by
  have hchars : ∀ c ∈ Name.capitalizeWords false text.toList, Name.isNameChar c = true :=
    fun c hc => Scan.isNameChar_of_mem_capitalizeWords hc
  have hunderscore : Name.isNameStart '_' = true := by decide
  rw [Name.toList_toIdentifier, Name.identifierChars]
  cases hcs : Name.capitalizeWords false text.toList with
  | nil => rfl
  | cons c rest =>
    rw [hcs, List.forall_mem_cons] at hchars
    have hrest : rest.all Name.isNameChar = true := List.all_eq_true.2 hchars.2
    simp only [Name.guardStart]
    split
    · simp only [Name.isIdentifier, List.all_cons, hunderscore, hchars.1, hrest, Bool.and_self]
    · rename_i hdigit
      have hstart := isNameStart_of_not_digit hchars.1 (Bool.not_eq_true _ ▸ hdigit)
      simp only [Name.isIdentifier, hstart, hrest, Bool.and_self]

/-- The steps from the first state to the second hand out the names of these declarations, one
after the other. -/
inductive Supplies : RenderState → List EnumDeclaration → RenderState → Prop
  | done {s : RenderState} : Supplies s [] s
  | declared {hint name : String} {names values : List Json} {s s' s'' : RenderState}
      {rest : List EnumDeclaration} : (declareEnum hint names values).from s = (.ok name, s') →
        Supplies s' rest s'' → Supplies s (⟨name, enumMembers names values⟩ :: rest) s''
  | reported {s s'' : RenderState} {rest : List EnumDeclaration} (type : Json) :
      Supplies { s with events := s.events ++ [.unknownType type] } rest s'' → Supplies s rest s''

theorem Supplies.trans {s s' s'' : RenderState} {front back : List EnumDeclaration}
    (h : Supplies s front s') (h' : Supplies s' back s'') : Supplies s (front ++ back) s'' := by
  induction h with
  | done => exact h'
  | declared hstep _ ih => exact .declared hstep (ih h')
  | reported type _ ih => exact .reported type (ih h')

end SchemaDecl.TypeScript
