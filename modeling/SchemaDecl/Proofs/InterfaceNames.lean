import SchemaDecl.Interface
import SchemaDecl.Proofs.DeclaredNames

/-! The names that the text of an interface declares. Its two parts are compiled
each on its own, and neither knows of the names the other has given out. The
names of the parts end differently, so these two are never the same; all other
names can meet, and the text declares one of them twice exactly if they do. -/

namespace SchemaDecl.Interface

open TypeScript

/-- A text is the declarations of two schemas, of the request and of the response. -/
structure Parts (i : Interface) (custom : Json) (given text : String) where
  base : String
  request : Json
  response : Json
  requestText : String
  responseText : String
  base_eq : i.baseName given = .ok base
  request_eq : loadSchema custom i.request = .ok request
  response_eq : loadSchema custom i.response = .ok response
  text_eq : text = requestText ++ "\n\n" ++ responseText
  requestDeclares : Declares request (base ++ "Request") requestText
    (declaredNames request (base ++ "Request"))
  responseDeclares : Declares response (base ++ "Response") responseText
    (declaredNames response (base ++ "Response"))

theorem parts_of_declare {i : Interface} {custom : Json} {given text : String}
    (h : (declare standardBackend i custom given).outcome.1 = .ok text) :
    Nonempty (Parts i custom given text) := by
  cases hrun : (declare standardBackend i custom given).outcome with
  | mk outcome trace =>
    rw [hrun] at h
    obtain rfl : outcome = .ok text := h
    unfold declare at hrun
    obtain ⟨base, _, hbase, hrun⟩ := Inversion.run_bind_eq_ok.1 hrun
    dsimp only at hrun
    obtain ⟨requestText, _, hrequest, hrun⟩ := Inversion.run_bind_eq_ok.1 hrun
    obtain ⟨responseText, _, hresponse, hrun⟩ := Inversion.run_bind_eq_ok.1 hrun
    obtain ⟨request, _, hloaded, hrequest⟩ := Inversion.run_bind_eq_ok.1 hrequest
    obtain ⟨response, _, hloaded', hresponse⟩ := Inversion.run_bind_eq_ok.1 hresponse
    exact ⟨{
      base, request, response, requestText, responseText
      base_eq := (Inversion.run_lift_eq_ok.1 hbase).1
      request_eq := (Inversion.run_lift_eq_ok.1 hloaded).1
      response_eq := (Inversion.run_lift_eq_ok.1 hloaded').1
      text_eq := (Inversion.run_pure_eq_ok.1 hrun).1.symm
      requestDeclares := declares_of_declare hrequest
      responseDeclares := declares_of_declare hresponse }⟩

namespace Parts

variable {i : Interface} {custom : Json} {given text : String} (p : Parts i custom given text)

def requestName : String := p.base ++ "Request"

def responseName : String := p.base ++ "Response"

def requestEnums : List String := (chosenNames p.request p.requestName).map (rename p.requestName)

def responseEnums : List String :=
  (chosenNames p.response p.responseName).map (rename p.responseName)

/-- All names of the text, in their order. -/
def names : List String :=
  declaredNames p.request p.requestName ++ declaredNames p.response p.responseName

theorem requestName_ne_empty : p.requestName ≠ "" := by
  simp [requestName]

theorem responseName_ne_empty : p.responseName ≠ "" := by
  simp [responseName]

theorem requestName_ne_responseName : p.requestName ≠ p.responseName := by
  simp [requestName, responseName]

/-- The two parts have no name in common. -/
structure Separated : Prop where
  request : p.requestName ∉ p.responseEnums
  response : p.responseName ∉ p.requestEnums
  enums : p.requestEnums.Disjoint p.responseEnums

theorem disjoint_iff_separated : (declaredNames p.request p.requestName).Disjoint
    (declaredNames p.response p.responseName) ↔ p.Separated := by
  have hne := p.requestName_ne_responseName
  show List.Disjoint (p.requestName :: p.requestEnums) (p.responseName :: p.responseEnums) ↔ _
  rw [List.disjoint_cons_left, List.disjoint_cons_right, List.mem_cons, not_or]
  constructor
  · rintro ⟨⟨_, hrequest⟩, hresponse, henums⟩
    exact ⟨hrequest, hresponse, henums⟩
  · rintro ⟨hrequest, hresponse, henums⟩
    exact ⟨⟨hne, hrequest⟩, hresponse, henums⟩

theorem nodup_names_iff : p.names.Nodup ↔ KeptApart p.request p.requestName ∧
    KeptApart p.response p.responseName ∧ p.Separated := by
  rw [names, List.nodup_append', nodup_declaredNames_iff p.requestName_ne_empty,
    nodup_declaredNames_iff p.responseName_ne_empty, disjoint_iff_separated]

end Parts

/-- The text of an interface declares the names of its two parts. The names of the parts differ
from each other and from the enums of their own part, and all names are distinct exactly if the
renaming keeps those of each part apart and the parts have no name in common. -/
theorem interface_distinct_iff {i : Interface} {custom : Json} {given text : String}
    (h : (declare standardBackend i custom given).outcome.1 = .ok text) :
    ∃ p : Parts i custom given text, p.requestName ≠ p.responseName ∧
      p.requestName ∉ p.requestEnums ∧ p.responseName ∉ p.responseEnums ∧
      (p.names.Nodup ↔ KeptApart p.request p.requestName ∧
        KeptApart p.response p.responseName ∧ p.Separated) := by
  obtain ⟨p⟩ := parts_of_declare h
  exact ⟨p, p.requestName_ne_responseName,
    typeName_not_mem_renamed p.requestName_ne_empty p.request,
    typeName_not_mem_renamed p.responseName_ne_empty p.response, p.nodup_names_iff⟩

/-- A schema with one enum for a property, as a text. -/
def statusText : String :=
  "\x7b\"type\":\"object\",\"properties\":\x7b\"status\":" ++
    "\x7b\"enum\":[1],\"tsEnumNames\":[\"A\"]\x7d\x7d\x7d"

def statusSchema : Json :=
  .obj [("type", .str "object"), ("properties", .obj [("status",
    .obj [("enum", .arr [.int 1]), ("tsEnumNames", .arr [.str "A"])])])]

/-- An interface that answers with what it was asked with. -/
def echo : Interface := ⟨.str "/a", .str "", statusText, statusText⟩

theorem baseName_echo : echo.baseName "" = .ok "A" :=
  Inversion.eq_ok_of_toOption (by decide +kernel)

theorem loadSchema_statusText : loadSchema .null statusText = .ok statusSchema :=
  Inversion.eq_ok_of_toOption (by decide +kernel)

theorem outcome_echo : ∃ text, (declare standardBackend echo .null "").outcome.1 = .ok text :=
  Inversion.exists_ok_of_isSome (by decide +kernel)

theorem names_echo {text : String} (p : Parts echo .null "" text) :
    p.names = ["ARequest", "Status", "AResponse", "Status"] := by
  have hbase : p.base = "A" := Except.ok.inj (p.base_eq.symm.trans baseName_echo)
  have hrequest : p.request = statusSchema :=
    Except.ok.inj (p.request_eq.symm.trans loadSchema_statusText)
  have hresponse : p.response = statusSchema :=
    Except.ok.inj (p.response_eq.symm.trans loadSchema_statusText)
  rw [Parts.names, Parts.requestName, Parts.responseName, hbase, hrequest, hresponse]
  decide +kernel

theorem interface_distinct_iff_echo : ∃ text,
    (declare standardBackend echo .null "").outcome.1 = .ok text ∧
    ∃ p : Parts echo .null "" text, p.requestName ≠ p.responseName ∧
      p.requestName ∉ p.requestEnums ∧ p.responseName ∉ p.responseEnums ∧
      (p.names.Nodup ↔ KeptApart p.request p.requestName ∧
        KeptApart p.response p.responseName ∧ p.Separated) := by
  obtain ⟨text, htext⟩ := outcome_echo
  exact ⟨text, htext, interface_distinct_iff htext⟩

/-- One enum for the same property of request and response is declared twice. -/
theorem echo_declared_twice : ∃ text,
    (declare standardBackend echo .null "").outcome.1 = .ok text ∧
    ∃ p : Parts echo .null "" text, p.names = ["ARequest", "Status", "AResponse", "Status"] ∧
      ¬ p.names.Nodup := by
  obtain ⟨text, htext⟩ := outcome_echo
  obtain ⟨p⟩ := parts_of_declare htext
  refine ⟨text, htext, p, names_echo p, ?_⟩
  rw [names_echo p]
  decide

end SchemaDecl.Interface
