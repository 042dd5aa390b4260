import SchemaDecl.Proofs.DeclaredText
import SchemaDecl.Proofs.Schema.PreparedTree
import SchemaDecl.Proofs.TypeScript.ClosedTexts
import SchemaDecl.Proofs.TypeScript.EnumNames

/-! Declared code and the check it has to pass before it is written. Unless an
author has written a type into the schema, all that is rendered for it is closed,
and so is every enum that is declared on the way. The file stays closed when the
type name takes the place of the placeholder and when blanks are trimmed, so the
check never refuses it. -/

namespace SchemaDecl

open TypeScript Schema OutputCheck

namespace TypeScript

/-! Declarations. -/

theorem closes_commentOf {indent comment : String} {description : Json}
    (hindent : indent.toList.all isQuiet = true)
    (h : commentOf? indent description = some comment) : Closes comment := by
  cases description with
  | str text => exact closes_comment hindent h
  | _ => cases h

theorem closes_memberLines {indent : String} (hindent : indent.toList.all isQuiet = true)
    {members : List (String × String)} (h : ∀ m ∈ members, Closes m.1 ∧ Closes m.2) :
    Closes (memberLines indent members) := by
  have hmember : ∀ {name value ending : String}, Closes name → Closes value →
      ending.toList.all isQuiet = true →
        Closes (indent ++ name ++ " = " ++ value ++ ending) := by
    intro name value ending hname hvalue hending
    have hsign : Closes " = " := closes_of_quiet (by decide)
    exact ((((closes_of_quiet hindent).append hname).append hsign).append hvalue).append
      (closes_of_quiet hending)
  fun_induction memberLines indent members with
  | case1 => exact fun _ => rfl
  | case2 name value =>
    obtain ⟨hname, hvalue⟩ := h _ List.mem_cons_self
    exact hmember hname hvalue (by decide)
  | case3 name value rest hrest ih =>
    obtain ⟨hname, hvalue⟩ := h _ List.mem_cons_self
    exact (hmember hname hvalue (by decide)).append (ih fun m hm => h m (List.mem_cons_of_mem _ hm))

theorem closes_enum {e : EnumDeclaration} (hname : e.name.toList.all Name.isNameChar = true)
    (hmembers : ∀ m ∈ e.members, Closes m.1 ∧ Closes m.2) : Closes (e.text .plain) := by
  have hkeyword : Closes "export const enum " := closes_of_quiet (by decide)
  have hspace : Closes " " := closes_of_quiet (by decide)
  have hindent : Options.plain.indent.toList.all isQuiet = true := by decide
  have hlines := closes_memberLines hindent hmembers
  have hbody := rendersInto_closes.braces (rendersInto_closes.before (w := "\n") (by decide) hlines)
  have htext : e.text .plain = "export const enum " ++ e.name ++ " " ++
      ("\x7b" ++ ("\n" ++ memberLines Options.plain.indent e.members) ++ "\x7d") := by
    have hkeyword : "export " ++ (if Options.plain.constEnums then "const " else "") ++ "enum " =
        "export const enum " := by decide
    have hopen : " \x7b\n" = " " ++ "\x7b" ++ "\n" := by decide
    rw [EnumDeclaration.text, hkeyword, hopen]
    simp only [String.append_assoc]
  rw [htext]
  exact ((hkeyword.append (closes_of_name hname)).append hspace).append hbody

theorem closes_root {prepared : Json} {text : String} (h : Closes text) :
    Closes (rootDeclaration prepared placeholder text).text := by
  have hplaceholder : Closes placeholder := closes_of_name (by decide)
  have hcomment : Closes (commentAbove
      (commentOf? "" (Fields.value (fieldsOf prepared) "description"))) := by
    cases hcomment : commentOf? "" (Fields.value (fieldsOf prepared) "description") with
    | none => exact fun _ => rfl
    | some comment =>
      exact (closes_commentOf (by decide) hcomment).append (closes_of_quiet (s := "\n") (by decide))
  have hinterface : Closes "export interface " := closes_of_quiet (by decide)
  have hspace : Closes " " := closes_of_quiet (by decide)
  have halias : Closes "export type " := closes_of_quiet (by decide)
  have hsign : Closes " = " := closes_of_quiet (by decide)
  have hend : Closes ";" := closes_of_quiet (by decide)
  unfold rootDeclaration
  split
  · exact (((hcomment.append hinterface).append hplaceholder).append hspace).append h
  · exact ((((hcomment.append halias).append hplaceholder).append hsign).append h).append hend

theorem closes_file {file : SourceFile} (hroot : Closes file.root.text)
    (henums : ∀ e ∈ file.enums, Closes (e.text .plain)) : Closes (file.text .plain) := by
  have hfeed : Closes "\n" := closes_of_quiet (by decide)
  have hbanner : Closes (bannerText Options.plain.banner) := fun _ => rfl
  have hdeclarations : ∀ d ∈ file.declarations .plain, Closes d := by
    intro d hd
    rcases List.mem_cons.1 hd with rfl | hd
    · exact hroot
    · obtain ⟨e, he, rfl⟩ := List.mem_map.1 hd
      exact henums e he
  refine hbanner.append (Text.intercalate_closed (fun _ => rfl)
    (fun ha hb => (ha.append hfeed).append hb) fun piece hpiece => ?_)
  obtain ⟨d, hd, rfl⟩ := List.mem_map.1 hpiece
  exact (hdeclarations d hd).append hfeed

/-! Rendered schemas. -/

/-- The enums that are declared are closed. -/
def keepsClosed : Judgement where
  Holds _ Q x _ := ∀ s, (∀ e ∈ s.enums, Closes (e.text .plain)) →
    (∀ e ∈ (x.from s).2.enums, Closes (e.text .plain)) ∧ ∀ a, (x.from s).1 = .ok a → Q a
  lift h := fun s hs => ⟨hs, h⟩
  bind {α β names more Q R x y f g} hx hf := by
    intro s hs
    obtain ⟨henums, hok⟩ := hx s hs
    rw [RenderM.from_bind]
    cases hrun : x.from s with
    | mk outcome s' =>
      rw [hrun] at henums hok
      cases outcome with
      | error fault => exact ⟨henums, nofun⟩
      | ok a => exact hf a (hok a rfl) s' henums
  unknown _ := fun _ hs => ⟨hs, fun _ _ => trivial⟩

theorem keepsClosed_declareEnum (hint : String) (names values : List Json) :
    keepsClosed.Holds [] Closes (declareEnum hint names values)
      (declareEnum hint names values) := by
  intro s hs
  have hrun : (declareEnum hint names values).from s =
      (.ok (freshName s.taken (Name.toIdentifier hint)),
        ⟨s.enums ++ [⟨freshName s.taken (Name.toIdentifier hint), enumMembers names values⟩],
          freshName s.taken (Name.toIdentifier hint) :: s.taken, s.events⟩) := rfl
  have hname := all_isNameChar_freshName s.taken hint
  have hmembers : ∀ m ∈ enumMembers names values, Closes m.1 ∧ Closes m.2 := by
    intro m hm
    obtain ⟨i, hi, rfl⟩ := List.mem_iff_getElem.1 hm
    simp only [enumMembers, List.getElem_zipWith]
    exact ⟨rendersInto_closes.memberName trivial,
      rendersInto_closes.printsInto.print _ fun _ _ => trivial⟩
  rw [hrun]
  refine ⟨fun e he => ?_, fun a ha => Except.ok.inj ha ▸ closes_of_name hname⟩
  rcases List.mem_append.1 he with he | he
  · exact hs e he
  · rw [List.mem_singleton.1 he]
    exact closes_enum hname hmembers

theorem node_closed {fields : Fields} (h : Derived fields) :
    Node keepsClosed (fun _ => True) Closes fields where
  type value hvalue := by
    rcases h with hnone | ⟨root, keys, hroot, hget⟩
    · rw [hvalue] at hnone
      cases hnone
    · obtain rfl := Option.some.inj (hvalue.symm.trans hget)
      exact closes_access (Scan.all_isNameChar_of_isIdentifier hroot) keys
  const _ _ _ _ := trivial
  enum _ _ _ _ := trivial
  property _ _ := trivial
  described _ _ := trivial
  declared hint hint' _ _ := fun s hs => keepsClosed_declareEnum hint _ _ s hs

/-- No type of a schema was written by its author. -/
def Untyped (fields : Fields) : Prop := Fields.get? fields "tsType" = none

instance : DecidablePred Untyped := fun fields =>
  inferInstanceAs (Decidable (Fields.get? fields "tsType" = none))

theorem throughout_derived {schema prepared : Json} {typeName : String}
    (h : Everywhere Untyped schema) (hname : Name.isIdentifier typeName.toList = true)
    (hprepare : Prepared.prepare typeName schema = .ok prepared) :
    Throughout Derived prepared := by
  have hother : ∀ fields, Untyped fields → Untyped (Fields.erase fields "description") :=
    fun fields hfields => (Fields.get?_erase_other fields (by decide)).trans hfields
  refine Prepared.throughout_prepare (A := fun _ => True) hother (fun _ _ _ _ _ _ => trivial)
    (fun _ => trivial) (fun fields hfields => .inl hfields) ?_ h hprepare
  intro path fields result hfields _ hbecomes
  rcases hbecomes.type with ⟨reference, _, hget⟩ | hsame
  · exact .inr ⟨typeName, _, hname, hget⟩
  · exact .inl (hsame.trans hfields)

end TypeScript

theorem closes_fileOf {prepared : Json} {typeName text : String} {state : RenderState}
    (h : Throughout Derived prepared)
    (hrun : renderedRoot typeName prepared = (.ok text, state)) :
    Closes ((fileOf prepared text state).text .plain) := by
  have hindent : Options.plain.indent.toList.all isQuiet = true := by decide
  obtain ⟨henums, htext⟩ := holds_rootText keepsClosed rendersInto_closes hindent rfl
    (h.imp fun fields hfields => node_closed hfields) placeholder placeholder (startOf typeName)
    (by simp [startOf])
  rw [← renderedRoot, hrun] at henums htext
  exact closes_file (closes_root (htext text rfl)) henums

/-! Exports. -/

/-- The words that start the declaration of a root. -/
def keywords : List String := ["export interface", "export type"]

theorem keyword_of_root (root : RootDeclaration) :
    ∃ keyword ∈ keywords, keyword.toList <:+: root.text.toList := by
  rcases root with ⟨name, comment, body⟩ | ⟨name, comment, type⟩
  · refine ⟨"export interface", by decide, (commentAbove comment).toList,
      (" " ++ name ++ " " ++ body).toList, ?_⟩
    simp [RootDeclaration.text, String.toList_append]
  · refine ⟨"export type", by decide, (commentAbove comment).toList,
      (" " ++ name ++ " = " ++ type ++ ";").toList, ?_⟩
    simp [RootDeclaration.text, String.toList_append]

theorem root_within (file : SourceFile) (options : Options) :
    file.root.text.toList <:+: (file.text options).toList := by
  have hbehind : ∃ rest, file.text options =
      bannerText options.banner ++ (file.root.text ++ "\n" ++ rest) := by
    rw [SourceFile.text, SourceFile.declarations, List.map_cons]
    cases (file.enums.map (EnumDeclaration.text options)).map (· ++ "\n") with
    | nil => exact ⟨"", by rw [String.intercalate_singleton, String.append_empty]⟩
    | cons next others =>
      refine ⟨"\n" ++ String.intercalate "\n" (next :: others), ?_⟩
      rw [String.intercalate_cons_cons]
      simp only [String.append_assoc]
  obtain ⟨rest, hrest⟩ := hbehind
  refine ⟨(bannerText options.banner).toList, ("\n" ++ rest).toList, ?_⟩
  simp [hrest, String.toList_append]

/-- A word that starts a declaration outlives the trimming. -/
theorem keyword_strip {keyword : String} (h : keyword ∈ keywords) {text : String}
    (hin : keyword.toList <:+: text.toList) :
    Text.contains "export " (Text.strip text ++ "\n") = true := by
  have hexport : ∀ word ∈ keywords, "export ".toList <:+: word.toList := by decide
  have hends : ∃ w v, keyword.toList = 'e' :: w ∧ 'e' :: w = v ++ ['e'] := by
    simp only [keywords, List.mem_cons, List.not_mem_nil, or_false] at h
    rcases h with rfl | rfl
    · exact ⟨"xport interface".toList, "export interfac".toList, by decide, by decide⟩
    · exact ⟨"xport type".toList, "export typ".toList, by decide, by decide⟩
  obtain ⟨w, v, hkeyword, hlast⟩ := hends
  have hword := hexport keyword h
  rw [hkeyword] at hword hin
  have hkept := Text.infix_trim (by decide) (by decide) hlast hin
  rw [Text.contains, Text.occursIn_iff, String.toList_append, Text.toList_strip]
  exact (hword.trans hkept).trans (List.infix_append_left ..)

/-- Something is exported by every file, also when it was renamed and trimmed. -/
theorem exports_named (file : SourceFile) (typeName : String) :
    Text.contains "export " (named typeName (file.text .plain) ++ "\n") = true := by
  have hrenamed : rename typeName (file.text .plain) =
      (file.map (rename typeName)).text .plain := rename_file typeName (by decide) rfl file
  obtain ⟨keyword, hkeyword, hroot⟩ := keyword_of_root (file.map (rename typeName)).root
  have hin : keyword.toList <:+: (rename typeName (file.text .plain)).toList := by
    rw [hrenamed]
    exact hroot.trans (root_within _ _)
  exact keyword_strip hkeyword hin

/-! Declared schemas. -/

theorem closes_emptyInterface {typeName : String} (h : Closes typeName) :
    Closes (emptyInterface typeName) := by
  have hkeyword : Closes "export interface " := closes_of_quiet (by decide)
  have hbraces : " \x7b\x7d" = " " ++ ("\x7b" ++ "" ++ "\x7d") := by decide
  have hbody : Closes (" " ++ ("\x7b" ++ "" ++ "\x7d")) :=
    rendersInto_closes.before (by decide) (rendersInto_closes.braces rendersInto_closes.empty)
  unfold emptyInterface
  rw [hbraces]
  exact (hkeyword.append h).append hbody

theorem closes_anyAlias {typeName : String} (h : Closes typeName) :
    Closes (anyAlias typeName) := by
  have hkeyword : Closes "export type " := closes_of_quiet (by decide)
  have hany : Closes " = any" := closes_of_quiet (by decide)
  unfold anyAlias
  exact (hkeyword.append h).append hany

theorem check_line {text rest : String} (hclosed : Closes text) (htext : text = "export " ++ rest) :
    OutputCheck.check (text ++ "\n") = .ok () := by
  have hfeed : Closes "\n" := closes_of_quiet (by decide)
  refine check_of_run (hclosed.append hfeed 0) ?_
  rw [Text.contains, Text.occursIn_iff, htext, String.toList_append, String.toList_append,
    List.append_assoc]
  exact (List.prefix_append _ _).isInfix

theorem check_simple {text typeName : String} (hname : Name.isIdentifier typeName.toList = true)
    (h : text = emptyInterface typeName ∨ text = anyAlias typeName) :
    OutputCheck.check (text ++ "\n") = .ok () := by
  have htype : Closes typeName := closes_of_name (Scan.all_isNameChar_of_isIdentifier hname)
  rcases h with rfl | rfl
  · have htext : emptyInterface typeName =
        "export " ++ ("interface " ++ typeName ++ " \x7b\x7d") := by
      have hkeyword : "export interface " = "export " ++ "interface " := by decide
      unfold emptyInterface
      rw [hkeyword]
      simp only [String.append_assoc]
    exact check_line (closes_emptyInterface htype) htext
  · have htext : anyAlias typeName = "export " ++ ("type " ++ typeName ++ " = any") := by
      have hkeyword : "export type " = "export " ++ "type " := by decide
      unfold anyAlias
      rw [hkeyword]
      simp only [String.append_assoc]
    exact check_line (closes_anyAlias htype) htext

/-- What is declared for a schema without written types passes the check, whatever strings the
schema holds. -/
theorem check_declared {schema : Json} {typeName text : String}
    (htypes : Everywhere Untyped schema) (hname : Name.isIdentifier typeName.toList = true)
    (h : (declare (standardBackend typeName) schema typeName).outcome.1 = .ok text) :
    OutputCheck.check (text ++ "\n") = .ok () := by
  rcases outcome_declare schema typeName with ⟨result, hrun, _, hresult⟩ | ⟨fault, hrun⟩ | hrun
  · rw [hrun] at h
    obtain rfl := Except.ok.inj h
    exact check_simple hname hresult
  · rw [hrun] at h
    cases h
  · rw [hrun] at h
    cases hprepare : Prepared.prepare typeName schema with
    | error fault =>
      rw [outcome_of_fault hprepare] at h
      cases h
    | ok prepared =>
      rw [outcome_of_prepare hprepare] at h
      cases hroot : renderedRoot typeName prepared with
      | mk outcome state =>
        rw [hroot] at h
        cases outcome with
        | error fault => cases h
        | ok root =>
          obtain rfl := Except.ok.inj h
          have hclosed := closes_fileOf (throughout_derived htypes hname hprepare) hroot
          exact check_strip (hclosed.rename hname) (exports_named _ _)

/-- Braces, quotes and ends of comments in a description and in a key. -/
def signsSchema : Json :=
  .obj [("properties", .obj [("\"\x7b*/", .obj [("description", .str "it's */ \x7b")])])]

theorem check_declared_signs : ∃ text,
    (declare (standardBackend "T") signsSchema "T").outcome.1 = .ok text ∧
      OutputCheck.check (text ++ "\n") = .ok () := by
  have hcheck : checkNodes (fun fields => decide (Untyped fields)) 4 signsSchema = true := by
    decide +kernel
  have hname : Name.isIdentifier "T".toList = true := by decide
  obtain ⟨text, htext⟩ : ∃ text,
      (declare (standardBackend "T") signsSchema "T").outcome.1 = .ok text :=
    Inversion.exists_ok_of_isSome (by decide +kernel)
  exact ⟨text, htext, check_declared (everywhere_of_checkNodes hcheck) hname htext⟩

end SchemaDecl
