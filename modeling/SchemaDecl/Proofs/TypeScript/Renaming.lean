import SchemaDecl.Declare
import SchemaDecl.Proofs.Text.Substitution

/-! The name asked for in the place of the placeholder. What the compiler puts
between the parts of a declaration is in lower case, so the placeholder is
replaced in each part on its own: the text of a file turns into the text of the
file whose parts were renamed. -/

namespace SchemaDecl.TypeScript

/-- The text with the name in the place of every placeholder. -/
def rename (typeName : String) : String → String := Text.replaceAll placeholder typeName

/-- The text shares no character with the placeholder. -/
def Plain (w : String) : Prop := Text.Foreign placeholder.toList w.toList

instance (w : String) : Decidable (Plain w) :=
  inferInstanceAs (Decidable (Text.Foreign placeholder.toList w.toList))

theorem placeholder_ne_nil : placeholder.toList ≠ [] := by decide

section
variable (typeName : String)

theorem toList_rename (s : String) : (rename typeName s).toList =
    Text.replaceFrom placeholder.toList typeName.toList 0 s.toList := String.toList_ofList

theorem rename_empty : rename typeName "" = "" := rfl

theorem rename_across {w : String} (hw : Plain w) (hne : w ≠ "") (a b : String) :
    rename typeName (a ++ w ++ b) = rename typeName a ++ w ++ rename typeName b := by
  rw [← String.toList_inj]
  simp only [toList_rename, String.toList_append, List.append_assoc]
  exact Text.replaceFrom_across _ placeholder_ne_nil hw (by simpa using hne) _ _

theorem rename_plain_append {w : String} (hw : Plain w) (b : String) :
    rename typeName (w ++ b) = w ++ rename typeName b := by
  rw [← String.toList_inj]
  simp only [toList_rename, String.toList_append]
  exact Text.replaceFrom_foreign _ placeholder_ne_nil hw _

theorem rename_append_plain {w : String} (hw : Plain w) (hne : w ≠ "") (a : String) :
    rename typeName (a ++ w) = rename typeName a ++ w := by
  have h := rename_across typeName hw hne a ""
  rwa [rename_empty, String.append_empty, String.append_empty] at h

/-! The placeholder itself. -/

theorem rename_placeholder : rename typeName placeholder = typeName := by
  rw [← String.toList_inj, toList_rename]
  have h := Text.replaceFrom_match typeName.toList placeholder_ne_nil []
  rwa [List.append_nil, Text.replaceFrom_nil, List.append_nil] at h

theorem rename_of_absent {s : String} (h : Text.contains placeholder s = false) :
    rename typeName s = s := by
  rw [← String.toList_inj, toList_rename]
  refine Text.replaceFrom_of_not_infix _ fun hin => ?_
  rw [Text.contains, Text.occursIn_iff.2 hin] at h
  cases h

/-- Nothing but the placeholder and the name itself turns into the name. -/
theorem eq_of_rename_eq (hne : typeName ≠ "") {s : String} (h : rename typeName s = typeName) :
    s = typeName ∨ s = placeholder := by
  have hlist := congrArg String.toList h
  rw [toList_rename] at hlist
  have hname : typeName.toList ≠ [] := by simpa using hne
  rcases Text.eq_or_eq_of_replaceFrom placeholder_ne_nil hname hlist with heq | heq
  · exact .inl (String.toList_inj.1 heq)
  · exact .inr (String.toList_inj.1 heq)
end

/-! Files. -/

def RootDeclaration.map (f : String → String) : RootDeclaration → RootDeclaration
  | .interface name comment body => .interface (f name) (comment.map f) (f body)
  | .alias name comment type => .alias (f name) (comment.map f) (f type)

def EnumDeclaration.map (f : String → String) (e : EnumDeclaration) : EnumDeclaration :=
  ⟨f e.name, e.members.map fun member => (f member.1, f member.2)⟩

def SourceFile.map (f : String → String) (file : SourceFile) : SourceFile :=
  ⟨file.root.map f, file.enums.map (EnumDeclaration.map f)⟩

section
variable (typeName : String)

theorem rename_commentAbove (comment : Option String) :
    rename typeName (commentAbove comment) = commentAbove (comment.map (rename typeName)) := by
  cases comment with
  | none => rfl
  | some text => exact rename_append_plain typeName (by decide) (by decide) text

theorem rename_root (root : RootDeclaration) :
    rename typeName root.text = (root.map (rename typeName)).text := by
  rcases root with ⟨name, comment, body⟩ | ⟨name, comment, type⟩
  · simp only [RootDeclaration.text, RootDeclaration.map]
    rw [rename_across typeName (by decide) (by decide),
      rename_across typeName (by decide) (by decide), rename_commentAbove]
  · simp only [RootDeclaration.text, RootDeclaration.map]
    rw [rename_append_plain typeName (by decide) (by decide),
      rename_across typeName (by decide) (by decide),
      rename_across typeName (by decide) (by decide), rename_commentAbove]

variable {options : Options} (hindent : Plain options.indent)
include hindent

theorem rename_memberLines (members : List (String × String)) :
    rename typeName (memberLines options.indent members) = memberLines options.indent
      (members.map fun member => (rename typeName member.1, rename typeName member.2)) := by
  fun_induction memberLines options.indent members with
  | case1 => rfl
  | case2 name value =>
    rw [rename_append_plain typeName (by decide) (by decide),
      rename_across typeName (by decide) (by decide), rename_plain_append typeName hindent]
    rfl
  | case3 name value rest hrest ih =>
    rw [rename_across typeName (by decide) (by decide),
      rename_across typeName (by decide) (by decide), rename_plain_append typeName hindent, ih]
    cases rest with
    | nil => exact absurd rfl hrest
    | cons member rest => rfl

theorem rename_enum (e : EnumDeclaration) : rename typeName (e.text options) =
    (e.map (rename typeName)).text options := by
  have hkeyword :
      Plain ("export " ++ (if options.constEnums then "const " else "") ++ "enum ") := by
    cases options.constEnums <;> decide
  simp only [EnumDeclaration.text, EnumDeclaration.map]
  rw [rename_append_plain typeName (by decide) (by decide),
    rename_across typeName (by decide) (by decide), rename_plain_append typeName hkeyword,
    rename_memberLines typeName hindent]

omit hindent in
theorem rename_joined (declarations : List String) :
    rename typeName (String.intercalate "\n" (declarations.map (· ++ "\n"))) =
      String.intercalate "\n" ((declarations.map (rename typeName)).map (· ++ "\n")) := by
  induction declarations with
  | nil => rfl
  | cons d rest ih =>
    cases rest with
    | nil =>
      simp only [List.map_cons, List.map_nil, String.intercalate_singleton]
      exact rename_append_plain typeName (by decide) (by decide) d
    | cons d' rest =>
      simp only [List.map_cons, String.intercalate_cons_cons] at ih ⊢
      rw [rename_across typeName (by decide) (by decide), ih,
        rename_append_plain typeName (by decide) (by decide)]

/-- Renaming the text of a file without a banner renames its parts. -/
theorem rename_file (hbanner : options.banner = "") (file : SourceFile) :
    rename typeName (file.text options) = (file.map (rename typeName)).text options := by
  have hnone : bannerText options.banner = "" := by rw [hbanner]; rfl
  simp only [SourceFile.text, hnone, String.empty_append, rename_joined]
  refine congrArg (fun declarations : List String =>
    String.intercalate "\n" (declarations.map (· ++ "\n"))) ?_
  simp only [SourceFile.declarations, SourceFile.map, List.map_cons, List.map_map, rename_root]
  refine congrArg (List.cons _) (List.map_congr_left fun e _ => ?_)
  exact rename_enum typeName hindent e
end

theorem map_names (f : String → String) (file : SourceFile) :
    (file.map f).names = file.names.map f := by
  have hroot : (file.root.map f).name = f file.root.name := by
    cases file.root <;> rfl
  simp only [SourceFile.names, SourceFile.map, List.map_cons, List.map_map, hroot]
  rfl

end SchemaDecl.TypeScript
