import Mathlib.Data.List.Perm.Subperm
import Mathlib.Data.List.Nodup
import SchemaDecl.Proofs.TypeScript.Atoms
import SchemaDecl.Proofs.TypeScript.Runs
import SchemaDecl.TypeScript.Compile

/-! Names of enums over a run of the renderer. The numbers from one on give
different names, so among one number more than there are taken names one is
free, and the search that stops after as many steps always finds it. Every enum
is therefore declared under a name that was free before and is taken from then
on: over a whole rendering the enums that are added have names different from
each other and from all that were taken at its start. -/

namespace SchemaDecl.TypeScript

theorem numbered_inj {base : String} {m n : Nat} (h : numbered base m = numbered base n) :
    m = n := by
  have hne : ∀ k : Nat, base ++ toString k ≠ base := by
    intro k hk
    have hlength := congrArg String.length hk
    have hpos : 0 < (toString k).length := Nat.length_repr_pos
    rw [String.length_append] at hlength
    omega
  unfold numbered at h
  split at h <;> split at h
  · omega
  · exact absurd h.symm (hne n)
  · exact absurd h (hne m)
  · have hdigits := congrArg String.toList (String.append_right_inj base |>.1 h)
    rw [Nat.toString_eq_repr, Nat.toString_eq_repr, Nat.toList_repr, Nat.toList_repr] at hdigits
    have hvalue := congrArg (fun digits => Nat.ofDigitChars 10 digits 0) hdigits
    simpa using hvalue

theorem mem_of_seekName_none {taken : List String} {base : String} {fuel n : Nat}
    (h : seekName taken base fuel n = none) : ∀ i < fuel, numbered base (n + i) ∈ taken := by
  induction fuel generalizing n with
  | zero => intro i hi; omega
  | succ fuel ih =>
    simp only [seekName] at h
    split at h
    · rename_i hfirst
      intro i hi
      cases i with
      | zero => exact List.contains_iff_mem.1 hfirst
      | succ i =>
        have hrest := ih h i (by omega)
        rwa [Nat.add_right_comm, Nat.add_assoc] at hrest
    · cases h

theorem seekName_spec {taken : List String} {base name : String} {fuel n : Nat}
    (h : seekName taken base fuel n = some name) :
    name ∉ taken ∧ ∃ k, n ≤ k ∧ k < n + fuel ∧ name = numbered base k ∧
      ∀ j, n ≤ j → j < k → numbered base j ∈ taken := by
  induction fuel generalizing n with
  | zero => cases h
  | succ fuel ih =>
    simp only [seekName] at h
    split at h
    · rename_i hfirst
      obtain ⟨hfree, k, hk, hlast, hname, hbefore⟩ := ih h
      refine ⟨hfree, k, by omega, by omega, hname, fun j hj hjk => ?_⟩
      rcases Nat.eq_or_lt_of_le hj with rfl | hj
      · exact List.contains_iff_mem.1 hfirst
      · exact hbefore j hj hjk
    · rename_i hfree
      rw [← Option.some.inj h]
      refine ⟨fun hmem => hfree (List.contains_iff_mem.2 hmem), n, Nat.le_refl n, by omega, rfl, ?_⟩
      intro j hj hjn
      omega

/-- A search through one number more than there are taken names does not come back empty. -/
theorem seekName_ne_none (taken : List String) (base : String) :
    seekName taken base (taken.length + 1) 1 ≠ none := by
  intro h
  have hall := mem_of_seekName_none h
  have hnodup : ((List.range' 1 (taken.length + 1)).map (numbered base)).Nodup :=
    List.Nodup.map (fun _ _ => numbered_inj) List.nodup_range'
  have hsubset : (List.range' 1 (taken.length + 1)).map (numbered base) ⊆ taken := by
    intro name hname
    obtain ⟨m, hm, rfl⟩ := List.mem_map.1 hname
    rw [List.mem_range'_1] at hm
    have hmem := hall (m - 1) (by omega)
    rwa [Nat.add_sub_cancel' hm.1] at hmem
  have hle := (hnodup.subperm hsubset).length_le
  rw [List.length_map, List.length_range'] at hle
  omega

/-- The name found is the first free one among so many numbers. -/
theorem freshName_first (taken : List String) (base : String) :
    freshName taken base ∉ taken ∧ ∃ k, 1 ≤ k ∧ k ≤ taken.length + 1 ∧
      freshName taken base = numbered base k ∧ ∀ j, 1 ≤ j → j < k → numbered base j ∈ taken := by
  cases h : seekName taken base (taken.length + 1) 1 with
  | none => exact absurd h (seekName_ne_none taken base)
  | some name =>
    obtain ⟨hfree, k, hk, hlast, hname, hbefore⟩ := seekName_spec h
    rw [freshName, h]
    exact ⟨hfree, k, hk, by omega, hname, hbefore⟩

/-- The name found is free, and it is the base with a number. -/
theorem freshName_spec (taken : List String) (base : String) :
    freshName taken base ∉ taken ∧ ∃ k, 1 ≤ k ∧ freshName taken base = numbered base k := by
  obtain ⟨hfree, k, hk, _, hname, _⟩ := freshName_first taken base
  exact ⟨hfree, k, hk, hname⟩

theorem isDigit_of_mem_toString {n : Nat} {c : Char} (h : c ∈ (toString n).toList) :
    c.isDigit = true := by
  rw [Nat.toString_eq_repr, Nat.toList_repr] at h
  exact Nat.isDigit_of_mem_toDigits (by decide) (by decide) h

theorem all_isNameChar_toString (n : Nat) : (toString n).toList.all Name.isNameChar = true := by
  rw [List.all_eq_true]
  intro c hc
  simp [Name.isNameChar, Char.isAlphanum, isDigit_of_mem_toString hc]

/-- An identifier stays one when a number is put behind it. -/
theorem all_isNameChar_freshName (taken : List String) (hint : String) :
    (freshName taken (Name.toIdentifier hint)).toList.all Name.isNameChar = true := by
  obtain ⟨k, _, hname⟩ := (freshName_spec taken (Name.toIdentifier hint)).2
  have hbase : (Name.toIdentifier hint).toList.all Name.isNameChar = true := by
    rw [Name.toList_toIdentifier]
    exact List.all_eq_true.2 fun _ => Scan.isNameChar_of_mem_identifierChars
  rw [hname, numbered]
  split
  · exact hbase
  · rw [String.toList_append, List.all_append, hbase, all_isNameChar_toString, Bool.and_self]

/-! What a run adds. -/

/-- The enums that stand in the later state and not yet in the earlier one. -/
structure Adds (new : List EnumDeclaration) (s s' : RenderState) : Prop where
  enums : s'.enums = s.enums ++ new
  taken : s'.taken = (new.map EnumDeclaration.name).reverse ++ s.taken
  free : ∀ e ∈ new, e.name ∉ s.taken
  nodup : (new.map EnumDeclaration.name).Nodup
  chosen : ∀ e ∈ new, ∃ hint k, 1 ≤ k ∧ e.name = numbered (Name.toIdentifier hint) k

def AddsEnums (s s' : RenderState) : Prop := ∃ new, Adds new s s'

theorem adds_nil {s s' : RenderState} (henums : s'.enums = s.enums) (htaken : s'.taken = s.taken) :
    Adds [] s s' where
  enums := by rw [henums, List.append_nil]
  taken := by rw [htaken, List.map_nil, List.reverse_nil, List.nil_append]
  free := by simp
  nodup := List.nodup_nil
  chosen := by simp

theorem Adds.trans {new more : List EnumDeclaration} {s s' s'' : RenderState}
    (h : Adds new s s') (h' : Adds more s' s'') : Adds (new ++ more) s s'' where
  enums := by rw [h'.enums, h.enums, List.append_assoc]
  taken := by
    rw [h'.taken, h.taken, List.map_append, List.reverse_append, List.append_assoc]
  free e he := by
    rcases List.mem_append.1 he with he | he
    · exact h.free e he
    · intro hmem
      refine h'.free e he ?_
      rw [h.taken]
      exact List.mem_append_right _ hmem
  nodup := by
    rw [List.map_append, List.nodup_append]
    refine ⟨h.nodup, h'.nodup, fun name hname name' hname' heq => ?_⟩
    -- what was added first is taken when the rest is added
    obtain ⟨e, he, rfl⟩ := List.mem_map.1 hname'
    refine h'.free e he ?_
    rw [h.taken, ← heq]
    exact List.mem_append_left _ (List.mem_reverse.2 hname)
  chosen e he := (List.mem_append.1 he).elim (h.chosen e) (h'.chosen e)

theorem onward_addsEnums : RenderM.Onward AddsEnums where
  refl s := ⟨[], adds_nil rfl rfl⟩
  trans := by
    rintro s s' s'' ⟨new, h⟩ ⟨more, h'⟩
    exact ⟨new ++ more, h.trans h'⟩

theorem declareEnum_from (hint : String) (names values : List Json) (s : RenderState) :
    (declareEnum hint names values).from s =
      (.ok (freshName s.taken (Name.toIdentifier hint)),
        ((declareEnum hint names values).from s).2) := rfl

theorem adds_declareEnum (hint : String) (names values : List Json) (s : RenderState) :
    Adds [⟨freshName s.taken (Name.toIdentifier hint), enumMembers names values⟩] s
      ((declareEnum hint names values).from s).2 := by
  have hname := freshName_spec s.taken (Name.toIdentifier hint)
  obtain ⟨k, hk, hnumber⟩ := hname.2
  exact {
    enums := rfl
    taken := rfl
    free := by simpa using hname.1
    nodup := List.nodup_singleton _
    chosen := by simpa using ⟨hint, k, hk, hnumber⟩ }

theorem addsEnums_declareEnum (hint : String) (names values : List Json) :
    RenderM.Keeps AddsEnums (declareEnum hint names values) :=
  fun s => ⟨_, adds_declareEnum hint names values s⟩

theorem addsEnums_unknownType (name : Json) : RenderM.Keeps AddsEnums
    (modify fun s => { s with events := s.events ++ [.unknownType name] }) :=
  fun _ => ⟨[], adds_nil rfl rfl⟩

theorem addsEnums_renderRoot (options : Options) (schema : Json) (name : String) :
    RenderM.Keeps AddsEnums (renderRoot options schema name) :=
  keeps_renderRoot onward_addsEnums addsEnums_declareEnum addsEnums_unknownType options
    schema name

/-- The names of the enums that a run of the compiler has declared when it ends. -/
def Compiler.enumNames (c : Compiler) (schema : Json) (name : String) (options : Options) :
    List String := (c.rendered schema name options).2.enums.map EnumDeclaration.name

section
variable (c : Compiler) (schema : Json) (name : String) (options : Options)

theorem Compiler.adds_rendered : ∃ new, (c.rendered schema name options).2.enums = new ∧
    Adds new (c.startState name) (c.rendered schema name options).2 := by
  obtain ⟨new, h⟩ := addsEnums_renderRoot options schema (Name.toIdentifier name)
    (c.startState name)
  exact ⟨new, h.enums, h⟩

theorem Compiler.nodup_enumNames : (c.enumNames schema name options).Nodup := by
  obtain ⟨new, henums, h⟩ := c.adds_rendered schema name options
  rw [enumNames, henums]
  exact h.nodup

/-- No enum has the name of the root or a reserved name. -/
theorem Compiler.enumNames_free {name' : String} (h : name' ∈ c.enumNames schema name options) :
    name' ≠ Name.toIdentifier name ∧ name' ∉ c.reserved := by
  obtain ⟨new, henums, hadds⟩ := c.adds_rendered schema name options
  rw [enumNames, henums] at h
  obtain ⟨e, he, rfl⟩ := List.mem_map.1 h
  have hfree := hadds.free e he
  rwa [startState, List.mem_cons, not_or] at hfree
end

end SchemaDecl.TypeScript
