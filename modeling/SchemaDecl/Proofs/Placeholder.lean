import SchemaDecl.Proofs.DeclaredText
import SchemaDecl.Proofs.Schema.PreparedTree
import SchemaDecl.Proofs.TypeScript.FreeTexts

/-! The placeholder comes and goes unnoticed. A schema that does not hold it in
any of its strings, and that names no enums, is rendered without it, except for
the name of the root, where it stands once. No hint for the name of an enum is
ever used, so the run under the placeholder and the run under the name itself go
side by side, and the substitution turns the one text into the other. -/

namespace SchemaDecl

open TypeScript Schema

/-! Strings of the nodes. -/

theorem texts_value {fields : Fields} {key : Key} {s : String}
    (hs : s ∈ (Fields.value fields key).texts) : s ∈ Json.textsFields fields := by
  unfold Fields.value at hs
  cases hget : Fields.get? fields key with
  | none =>
    rw [hget] at hs
    cases hs
  | some v =>
    rw [hget] at hs
    obtain ⟨k, hk⟩ := Fields.mem_of_get? hget
    exact Json.mem_textsFields.2 ⟨_, hk, .inr hs⟩

theorem texts_items {fields : Fields} {x : Json} (hx : x ∈ items fields) {s : String}
    (hs : s ∈ x.texts) : s ∈ Json.textsFields fields := by
  have hvalue : s ∈ (Fields.value fields "items").texts := by
    unfold items at hx
    split at hx
    · cases hx
    · rename_i entries hentries
      rw [hentries]
      exact Json.mem_textsItems.2 ⟨x, hx, hs⟩
    · rw [List.mem_singleton.1 hx] at hs
      exact hs
  exact texts_value hvalue

theorem texts_under {fields : Fields} {x : Json} (h : Under fields x) {s : String}
    (hs : s ∈ x.texts) : s ∈ Json.textsFields fields := by
  have hfield : ∀ {key : Key} {v : Json}, Fields.value fields key = v → s ∈ v.texts →
      s ∈ Json.textsFields fields := fun hv hin => texts_value (hv.symm ▸ hin)
  cases h with
  | child h =>
    cases h with
    | property hp hx => exact hfield hp (Json.mem_textsFields.2 ⟨_, hx, .inr hs⟩)
    | entry hp hx => exact hfield hp (Json.mem_textsItems.2 ⟨x, hx, hs⟩)
    | item hx => exact texts_items hx hs
    | @member key _ _ hx =>
      unfold members at hx
      split at hx
      · rename_i entries hentries
        exact hfield hentries (Json.mem_textsItems.2 ⟨x, hx, hs⟩)
      · cases hx
  | additional hv => exact hfield hv hs
  | nested he hx => exact texts_items he (Json.mem_textsItems.2 ⟨x, hx, hs⟩)

theorem texts_within {x y : Json} (h : Within x y) {s : String} (hs : s ∈ y.texts) :
    s ∈ x.texts := by
  induction h with
  | root => exact hs
  | through hx _ ih => exact texts_under hx (ih hs)

/-- The keys of the properties come from the node, also if its properties were a list. -/
theorem texts_foldNode {fields found : Fields} (h : foldNode fields = .ok found) {p : Key × Json}
    (hp : p ∈ properties found) {s : String} (hs : s ∈ p.1.texts) :
    s ∈ Json.textsFields fields := by
  unfold foldNode at h
  split at h
  · rename_i entries hentries
    obtain ⟨folded, hfolded, h⟩ := Inversion.bind_eq_ok.1 h
    rw [← Inversion.pure_eq_ok.1 h, properties, Fields.value_set_same fields _ rfl] at hp
    obtain ⟨entry, hentry, hkey⟩ := key_foldEntries hfolded hp
    rw [Json.texts_of_toKey? hkey] at hs
    have hname : s ∈ (Json.arr entries).texts := Json.mem_textsItems.2 ⟨_, hentry, texts_value hs⟩
    exact texts_value (hentries.symm ▸ hname)
  · rw [← Except.ok.inj h] at hp
    obtain ⟨old, hold, hp⟩ := mem_of_mem_properties hp
    have hkey : s ∈ (Json.obj old).texts := Json.mem_textsFields.2 ⟨p, hp, .inl hs⟩
    exact texts_value (hold.symm ▸ hkey)

/-- A node that names no enum. -/
def Unnamed (fields : Fields) : Prop := Fields.get? fields "tsEnumNames" = none

instance : DecidablePred Unnamed := fun fields =>
  inferInstanceAs (Decidable (Fields.get? fields "tsEnumNames" = none))

/-- No string of the node holds the placeholder, and it names no enum. -/
structure Clear (fields : Fields) : Prop where
  free : ∀ s ∈ Json.textsFields fields, Free s
  unnamed : Unnamed fields

theorem everywhere_clear {schema : Json} (hstrings : ∀ s ∈ schema.texts, Free s)
    (hunnamed : Everywhere Unnamed schema) : Everywhere Clear schema :=
  fun fields hin => ⟨fun s hs => hstrings s (texts_within hin hs), hunnamed fields hin⟩

theorem Clear.value {fields : Fields} (h : Clear fields) (key : Key) :
    ∀ s ∈ (Fields.value fields key).texts, Free s := fun s hs => h.free s (texts_value hs)

theorem Clear.erase {fields : Fields} (h : Clear fields) :
    Clear (Fields.erase fields "description") where
  free s hs := by
    obtain ⟨f, hf, hs⟩ := Json.mem_textsFields.1 hs
    exact h.free s (Json.mem_textsFields.2 ⟨f, (List.mem_filter.1 hf).1, hs⟩)
  unnamed := (Fields.get?_erase_other fields (by decide)).trans h.unnamed

/-! Side by side. -/

/-- Two computations end alike, whatever the state, and declare no enum. -/
def sideBySide : Judgement where
  Holds _ Q x y := ∃ outcome told, (∀ a, outcome = .ok a → Q a) ∧
    ∀ s : RenderState, x.from s = (outcome, ⟨s.enums, s.taken, s.events ++ told⟩) ∧
      y.from s = x.from s
  lift {α Q x} h := ⟨x, [], h, fun s => ⟨by simp, rfl⟩⟩
  bind {α β names more Q R x y f g} hx hf := by
    obtain ⟨outcome, told, hok, hrun⟩ := hx
    cases outcome with
    | error fault =>
      refine ⟨.error fault, told, nofun, fun s => ?_⟩
      obtain ⟨hfrom, hsame⟩ := hrun s
      rw [RenderM.from_bind, RenderM.from_bind, hsame, hfrom]
      exact ⟨rfl, rfl⟩
    | ok a =>
      obtain ⟨result, more, hresult, hrest⟩ := hf a (hok a rfl)
      refine ⟨result, told ++ more, hresult, fun s => ?_⟩
      obtain ⟨hfrom, hsame⟩ := hrun s
      rw [RenderM.from_bind, RenderM.from_bind, hsame, hfrom]
      obtain ⟨hlast, hsame'⟩ := hrest ⟨s.enums, s.taken, s.events ++ told⟩
      dsimp only
      rw [hsame', hlast, List.append_assoc]
      exact ⟨rfl, rfl⟩
  unknown name := ⟨.ok (), [.unknownType name], fun _ _ => trivial, fun _ => ⟨rfl, rfl⟩⟩

/-- A node is rendered side by side if its strings are free and its type, if it has one, is. -/
theorem node_sideBySide {fields : Fields}
    (htype : ∀ value, Fields.get? fields "tsType" = some value → Free value.display)
    (hkeys : ∀ p ∈ propertiesOf fields, Free p.1.display)
    (hstrings : ∀ key ∈ ["const", "enum", "description"],
      ∀ s ∈ (Fields.value fields (.str key)).texts, Free s)
    (hunnamed : Unnamed fields) : Node sideBySide Free Free fields where
  type value hvalue := by
    rw [TypeText.display, RendersInto.toJson_ofJson]
    exact htype value hvalue
  const value hvalue s hs := by
    refine hstrings "const" (by decide) s ?_
    rw [Fields.value_of_get? hvalue]
    exact hs
  enum value hvalue s hs := by
    refine hstrings "enum" (by decide) s ?_
    unfold entriesUnder at hvalue
    split at hvalue
    · rename_i entries hentries
      rw [hentries]
      exact Json.mem_textsItems.2 ⟨value, hvalue, hs⟩
    · cases hvalue
  property := hkeys
  described text htext := by
    refine hstrings "description" (by decide) text ?_
    rw [htext]
    exact List.mem_singleton_self text
  declared hint hint' hsome hlength := by
    have hnone : entriesUnder fields "tsEnumNames" = [] := by
      rw [entriesUnder, Fields.value, hunnamed]
      rfl
    rw [hnone, List.length_nil] at hlength
    rw [List.eq_nil_of_length_eq_zero hlength.symm] at hsome
    cases hsome

theorem Clear.written {fields : Fields} (h : Clear fields) {value : Json}
    (hvalue : Fields.get? fields "tsType" = some value) : Free value.display := by
  have hstrings := h.value "tsType"
  rw [Fields.value_of_get? hvalue] at hstrings
  exact free_display hstrings

theorem Clear.node {fields : Fields} (h : Clear fields) : Node sideBySide Free Free fields := by
  refine node_sideBySide (fun value hvalue => h.written hvalue) (fun p hp => ?_)
    (fun key _ => h.value key) h.unnamed
  obtain ⟨old, hold, hp⟩ := mem_of_mem_properties hp
  refine free_displayKey fun s hs => h.value "properties" s ?_
  rw [hold]
  exact Json.mem_textsFields.2 ⟨p, hp, .inl hs⟩

theorem free_reference {fields : Fields} (h : Clear fields) {reference : String}
    (hreference : Reference.ofFields? fields = some reference) : Free reference := by
  obtain ⟨s, hfield, hsuffix⟩ := Reference.suffix_of_ofFields hreference
  have hs : Free s := by
    rcases hfield with hv | hv
    · exact h.value "title" s (hv ▸ List.mem_singleton_self s)
    · exact h.value "description" s (hv ▸ List.mem_singleton_self s)
  exact fun hin => hs (hin.trans hsuffix.isInfix)

theorem Clear.becomes {typeName : String} (hname : Free typeName) {path : Path}
    {fields result : Fields} (h : Clear fields) (hpath : ∀ segment ∈ path, Free segment.display)
    (hbecomes : Prepared.Becomes typeName path fields result) :
    Node sideBySide Free Free result := by
  have hsame : ∀ key ∈ ["const", "enum", "description", "tsEnumNames"],
      Fields.get? result (.str key) = Fields.get? fields (.str key) := by
    intro key hkey
    refine hbecomes.other (.str key) ?_ ?_ <;> revert key <;> decide
  refine node_sideBySide ?_ ?_ ?_ ((hsame "tsEnumNames" (by decide)).trans h.unnamed)
  · intro value hvalue
    rcases hbecomes.type with ⟨reference, hreference, hget⟩ | hold
    · obtain rfl := Option.some.inj (hvalue.symm.trans hget)
      exact free_target hname hpath (free_reference h hreference)
    · exact h.written (hold.symm.trans hvalue)
  · intro p hp
    obtain ⟨found, hfold, hkeys⟩ := hbecomes.keys
    obtain ⟨q, hq, hkey⟩ := hkeys p hp
    rw [← hkey]
    exact free_displayKey fun s hs => h.free s (texts_foldNode hfold hq hs)
  · intro key hkey s hs
    have hin : key ∈ ["const", "enum", "description", "tsEnumNames"] :=
      List.mem_append_left ["tsEnumNames"] hkey
    rw [Fields.value_congr (hsame key hin)] at hs
    exact h.value key s hs

theorem throughout_sideBySide {schema prepared : Json} {typeName : String}
    (h : Everywhere Clear schema) (hname : Free typeName)
    (hprepare : Prepared.prepare typeName schema = .ok prepared) :
    Throughout (Node sideBySide Free Free) prepared := by
  refine Prepared.throughout_prepare (A := fun segment => Free segment.display)
    (fun _ hfields => hfields.erase) ?_ ?_ (fun _ hfields => hfields.node) ?_ h hprepare
  · intro fields found hfields hfold p hp
    have hdisplay : p.1.toJson.display = p.1.display := by cases p.1 <;> rfl
    rw [hdisplay]
    exact free_displayKey fun s hs => hfields.free s (texts_foldNode hfold hp hs)
  · intro i
    exact free_displayKey (k := .int i) (by simp [Key.texts])
  · exact fun path fields result hfields hpath hbecomes => hfields.becomes hname hpath hbecomes

/-! Occurrences. -/

/-- The number of places at which the pattern stands. -/
def occurrences (pattern : List Char) : List Char → Nat
  | [] => 0
  | c :: rest => (if pattern.isPrefixOf (c :: rest) then 1 else 0) + occurrences pattern rest

theorem occurrences_eq_zero {pattern cs : List Char} (h : ¬ pattern <:+: cs) :
    occurrences pattern cs = 0 := by
  induction cs with
  | nil => rfl
  | cons c rest ih =>
    rw [List.infix_cons_iff, not_or] at h
    rw [occurrences, ih h.2, if_neg fun hprefix => h.1 (List.isPrefixOf_iff_prefix.1 hprefix)]

/-- Occurrences are counted on the two sides of a character that is not in the pattern. -/
theorem occurrences_across {pattern : List Char} (hne : pattern ≠ []) {c : Char}
    (hc : c ∉ pattern) (a b : List Char) :
    occurrences pattern (a ++ c :: b) = occurrences pattern a + occurrences pattern b := by
  induction a with
  | nil =>
    have hno : ¬ pattern.isPrefixOf (c :: b) = true := fun hprefix =>
      hne (List.prefix_nil.1 (Text.prefix_of_foreign hc (List.isPrefixOf_iff_prefix.1 hprefix)))
    simp only [List.nil_append, occurrences, if_neg hno]
  | cons x a ih =>
    have hsame : pattern.isPrefixOf (x :: (a ++ c :: b)) = pattern.isPrefixOf (x :: a) := by
      rw [Bool.eq_iff_iff, List.isPrefixOf_iff_prefix, List.isPrefixOf_iff_prefix]
      exact ⟨fun h => Text.prefix_of_foreign (a := x :: a) hc h,
        fun h => h.trans (List.prefix_append (x :: a) _)⟩
    rw [List.cons_append, occurrences, occurrences, hsame, ih, Nat.add_assoc]

/-! Declarations. -/

/-- The declaration under another name. -/
def TypeScript.RootDeclaration.withName (name : String) : RootDeclaration → RootDeclaration
  | .interface _ comment body => .interface name comment body
  | .alias _ comment type => .alias name comment type

theorem withName_rootDeclaration (prepared : Json) (name other text : String) :
    (rootDeclaration prepared name text).withName other = rootDeclaration prepared other text := by
  unfold rootDeclaration
  split <;> rfl

/-- A file with nothing but the root in it. -/
def onlyRoot (root : RootDeclaration) : String := (SourceFile.mk root []).text .plain

theorem free_rootComment {prepared : Json} (h : Throughout (Node sideBySide Free Free) prepared) :
    ∀ comment, commentOf? "" (Fields.value (fieldsOf prepared) "description") = some comment →
      Free comment := by
  intro comment hcomment
  cases prepared with
  | obj fields =>
    cases hv : Fields.value fields "description" with
    | str text =>
      rw [fieldsOf, hv] at hcomment
      exact free_comment (by decide) (h.root.described text hv) hcomment
    | _ =>
      rw [fieldsOf, hv] at hcomment
      cases hcomment
  | _ => cases hcomment

theorem free_commentAbove {comment : Option String} (h : ∀ text, comment = some text → Free text) :
    Free (commentAbove comment) := by
  cases comment with
  | none => exact .of_plain (by decide)
  | some text => exact (h text rfl).behind (by decide) (by decide)

theorem onlyRoot_eq (root : RootDeclaration) : onlyRoot root = root.text ++ "\n" := by
  simp [onlyRoot, SourceFile.text, SourceFile.declarations, Options.plain, bannerText]

/-- Between two free texts the placeholder stands once. -/
theorem occurrences_between {a b : String} (ha : Free a) (hb : Free b) :
    occurrences placeholder.toList (a ++ " " ++ placeholder ++ " " ++ b).toList = 1 := by
  have hblank : ' ' ∉ placeholder.toList := by decide +kernel
  have honce : occurrences placeholder.toList placeholder.toList = 1 := by decide +kernel
  have hlist : (a ++ " " ++ placeholder ++ " " ++ b).toList =
      a.toList ++ ' ' :: (placeholder.toList ++ ' ' :: b.toList) := by
    simp [String.toList_append]
  rw [hlist, occurrences_across placeholder_ne_nil hblank,
    occurrences_across placeholder_ne_nil hblank, honce, occurrences_eq_zero ha,
    occurrences_eq_zero hb]

section
variable {prepared : Json} {text : String}
  (hcomment : ∀ comment, commentOf? "" (Fields.value (fieldsOf prepared) "description") =
    some comment → Free comment) (htext : Free text)
include hcomment htext

theorem occurrences_onlyRoot : occurrences placeholder.toList
    (onlyRoot (rootDeclaration prepared placeholder text)).toList = 1 := by
  have habove := free_commentAbove hcomment
  have hinterface : onlyRoot (.interface placeholder
      (commentOf? "" (Fields.value (fieldsOf prepared) "description")) text) =
        commentAbove (commentOf? "" (Fields.value (fieldsOf prepared) "description")) ++
          "export interface" ++ " " ++ placeholder ++ " " ++ (text ++ "\n") := by
    have hkeyword : "export interface " = "export interface" ++ " " := by decide
    rw [onlyRoot_eq, RootDeclaration.text, hkeyword]
    simp only [String.append_assoc]
  have halias : onlyRoot (.alias placeholder
      (commentOf? "" (Fields.value (fieldsOf prepared) "description")) text) =
        commentAbove (commentOf? "" (Fields.value (fieldsOf prepared) "description")) ++
          "export type" ++ " " ++ placeholder ++ " " ++ ("= " ++ text ++ ";\n") := by
    have hkeyword : "export type " = "export type" ++ " " := by decide
    have hsign : " = " = " " ++ "= " := by decide
    have hend : ";\n" = ";" ++ "\n" := by decide
    rw [onlyRoot_eq, RootDeclaration.text, hkeyword, hsign, hend]
    simp only [String.append_assoc]
  unfold rootDeclaration
  dsimp only
  split
  · rw [hinterface]
    exact occurrences_between (habove.behind (by decide) (by decide))
      (htext.behind (by decide) (by decide))
  · rw [halias]
    exact occurrences_between (habove.behind (by decide) (by decide))
      ((htext.before (by decide) (by decide)).behind (by decide) (by decide))

theorem rename_onlyRoot (typeName : String) :
    rename typeName (onlyRoot (rootDeclaration prepared placeholder text)) =
      onlyRoot (rootDeclaration prepared typeName text) := by
  have hsame : ∀ {s : String}, Free s → rename typeName s = s := by
    intro s hs
    refine rename_of_absent typeName ?_
    rw [← Bool.not_eq_true, Text.contains, Text.occursIn_iff]
    exact hs
  have hkept : (commentOf? "" (Fields.value (fieldsOf prepared) "description")).map
      (rename typeName) = commentOf? "" (Fields.value (fieldsOf prepared) "description") := by
    cases hc : commentOf? "" (Fields.value (fieldsOf prepared) "description") with
    | none => rfl
    | some comment => exact congrArg some (hsame (hcomment comment hc))
  have hroot : (rootDeclaration prepared placeholder text).map (rename typeName) =
      rootDeclaration prepared typeName text := by
    unfold rootDeclaration
    dsimp only
    split
    · rw [RootDeclaration.map, rename_placeholder, hkept, hsame htext]
    · rw [RootDeclaration.map, rename_placeholder, hkept, hsame htext]
  rw [onlyRoot, rename_file typeName (by decide) rfl, SourceFile.map, hroot]
  rfl
end

/-- The root as it is rendered under the name itself, from any state. -/
def direct (typeName : String) (prepared : Json) (s : RenderState) :
    Except TypeFault RootDeclaration := ((renderRoot .plain prepared typeName).from s).1

theorem direct_eq (typeName : String) (prepared : Json) (s : RenderState) :
    direct typeName prepared s =
      ((rootText .plain prepared typeName).from s).1.map (rootDeclaration prepared typeName) := by
  rw [direct, renderRoot_eq, RenderM.from_bind]
  cases (rootText .plain prepared typeName).from s with
  | mk outcome s' => cases outcome <;> rfl

/-- A schema without the placeholder is declared as if there were none: under the placeholder the
compiler gives the text of the direct rendering but for the name of the root, where the placeholder
stands for the only time, and what is declared is the text of the direct rendering. -/
theorem placeholder_transparent {fields : Fields} {typeName : String} (hne : fields ≠ [])
    (hany : isMarkedAny fields = false) (hunnamed : Everywhere Unnamed (.obj fields))
    (hstrings : ∀ s ∈ (Json.obj fields).texts, Free s) (hname : Free typeName) :
    (∀ fault, Prepared.prepare typeName (.obj fields) = .error fault →
      (declare (standardBackend typeName) (.obj fields) typeName).outcome.1 =
        .error (.fold fault)) ∧
    ∀ prepared, Prepared.prepare typeName (.obj fields) = .ok prepared → ∀ s,
      (standardBackend typeName ⟨prepared, placeholder, .plain⟩).1 =
        ((direct typeName prepared s).map fun root =>
          onlyRoot (root.withName placeholder)).mapError Failure.type ∧
      (∀ root, direct typeName prepared s = .ok root → root.name = typeName ∧
        occurrences placeholder.toList (onlyRoot (root.withName placeholder)).toList = 1) ∧
      (declare (standardBackend typeName) (.obj fields) typeName).outcome.1 =
        ((direct typeName prepared s).map fun root =>
          Text.strip (onlyRoot root)).mapError Failure.type := by
  rw [declare_eq_declareNode hne hany]
  have hindent : Options.plain.indent.toList.all isQuiet = true := by decide
  constructor
  · intro fault hfault
    rw [outcome_of_fault hfault]
  · intro prepared hprepare s
    have hthrough := throughout_sideBySide (everywhere_clear hstrings hunnamed) hname hprepare
    obtain ⟨outcome, told, hfree, hrun⟩ := holds_rootText sideBySide rendersInto_free hindent rfl
      hthrough placeholder typeName
    have hcompiled : renderedRoot typeName prepared =
        (outcome, ⟨[], [placeholder, typeName], [] ++ told⟩) := (hrun (startOf typeName)).1
    have hdirect : direct typeName prepared s =
        outcome.map (rootDeclaration prepared typeName) := by
      rw [direct_eq, (hrun s).2, (hrun s).1]
    rw [hdirect, standardBackend_eq, outcome_of_prepare hprepare, hcompiled]
    cases outcome with
    | error fault => exact ⟨rfl, nofun, rfl⟩
    | ok text =>
      have hcomment := free_rootComment hthrough
      have htext := hfree text rfl
      have hfile : (fileOf prepared text ⟨[], [placeholder, typeName], [] ++ told⟩).text .plain =
          onlyRoot (rootDeclaration prepared placeholder text) := rfl
      refine ⟨?_, ?_, ?_⟩
      · simp only [Except.map, Except.mapError, withName_rootDeclaration, hfile]
      · intro root hroot
        obtain rfl : rootDeclaration prepared typeName text = root := Except.ok.inj hroot
        refine ⟨?_, ?_⟩
        · unfold rootDeclaration
          dsimp only
          split <;> rfl
        · rw [withName_rootDeclaration]
          exact occurrences_onlyRoot hcomment htext
      · simp only [Except.map, Except.mapError, hfile]
        rw [named, ← rename, rename_onlyRoot hcomment htext]

/-- Parts of the placeholder as a key, in a description and in a reference. -/
def partsSchema : Fields :=
  [("properties", .obj [
    ("THISISA", .obj [("description", .str "FAKE\nTYPENAME")]),
    ("FAKE", .obj [("title", .str "&../THISISA//FAKETYPENAME")])])]

theorem placeholder_transparent_parts : ∃ prepared root,
    Prepared.prepare "T" (.obj partsSchema) = .ok prepared ∧
      direct "T" prepared (startOf "T") = .ok root ∧
      occurrences placeholder.toList (onlyRoot (root.withName placeholder)).toList = 1 ∧
      (declare (standardBackend "T") (.obj partsSchema) "T").outcome.1 =
        .ok (Text.strip (onlyRoot root)) := by
  have hcheck : checkNodes (fun fields => decide (Unnamed fields)) 4 (.obj partsSchema) = true := by
    decide +kernel
  have hstrings : ∀ s ∈ (Json.obj partsSchema).texts, Free s := by decide +kernel
  obtain ⟨prepared, hprepare⟩ : ∃ prepared,
      Prepared.prepare "T" (.obj partsSchema) = .ok prepared :=
    Inversion.exists_ok_of_isSome (by decide +kernel)
  obtain ⟨text, htext⟩ : ∃ text,
      (declare (standardBackend "T") (.obj partsSchema) "T").outcome.1 = .ok text :=
    Inversion.exists_ok_of_isSome (by decide +kernel)
  obtain ⟨_, honce, hdeclared⟩ := (placeholder_transparent (by decide) (by decide)
    (everywhere_of_checkNodes hcheck) hstrings (by decide +kernel)).2 prepared hprepare
      (startOf "T")
  cases hroot : direct "T" prepared (startOf "T") with
  | error fault =>
    rw [hroot, htext] at hdeclared
    cases hdeclared
  | ok root =>
    rw [hroot] at hdeclared
    exact ⟨prepared, root, hprepare, hroot, (honce root hroot).2, hdeclared⟩

end SchemaDecl
