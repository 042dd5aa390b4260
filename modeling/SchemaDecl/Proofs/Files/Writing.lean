import Mathlib.Data.List.Nodup
import Mathlib.Data.List.Perm.Subperm
import Mathlib.Data.Nat.Digits.Defs
import SchemaDecl.Files.Writer
import SchemaDecl.Proofs.Files.Resolution

/-! Writing as a whole or not at all. A step that fails, wherever it does, leaves
every file as it was, and one that ends well changes its target and no other
file; directories on the way to the target are all that is made besides. A step
that must not overwrite looks for its target before it makes directories. If the
target lies behind a missing directory and a double dot, nothing is found, and
after the directory was made the file at the end of the way is replaced. This is
the only way in which such a step touches a file that was there. -/

namespace SchemaDecl.Files

variable {α β : Type}

/-- Outcome of the work on a tree, and the tree after it. -/
def FileM.from (x : FileM α) (tree : Tree) : Except Failure α × Tree := x.run.run tree

theorem FileM.from_bind (x : FileM α) (f : α → FileM β) (tree : Tree) :
    FileM.from (x >>= f) tree = match FileM.from x tree with
      | (.ok a, tree') => FileM.from (f a) tree'
      | (.error failure, tree') => (.error failure, tree') := by
  have h := Inversion.run_bind x f tree
  unfold FileM.from
  rw [h]
  cases x.run.run tree with
  | mk outcome tree' => cases outcome <;> rfl

theorem FileM.get_bind (f : Tree → FileM β) (tree : Tree) :
    FileM.from (get >>= f) tree = FileM.from (f tree) tree := rfl

theorem FileM.lift_bind (x : Except Failure α) (f : α → FileM β) (tree : Tree) :
    FileM.from (liftM x >>= f) tree = match x with
      | .ok a => FileM.from (f a) tree
      | .error failure => (.error failure, tree) := by
  have hrun : FileM.from (liftM x : FileM α) tree = (x, tree) := rfl
  rw [FileM.from_bind, hrun]
  cases x <;> rfl

theorem FileM.fileStep_bind (action : Tree → Except FileFault α) (f : α → FileM β) (tree : Tree) :
    FileM.from (fileStep action >>= f) tree = match action tree with
      | .ok a => FileM.from (f a) tree
      | .error fault => (.error (.file fault), tree) := by
  have hrun : FileM.from (fileStep action) tree = ((action tree).mapError Failure.file, tree) := rfl
  rw [FileM.from_bind, hrun]
  cases action tree <;> rfl

/-! Names of temporary files. -/

theorem ofDigitChars_zeros (k : Nat) (digits : List Char) :
    Nat.ofDigitChars 10 (List.replicate k '0' ++ digits) 0 = Nat.ofDigitChars 10 digits 0 := by
  induction k with
  | zero => rfl
  | succ k ih =>
    rw [List.replicate_succ, List.cons_append, Nat.ofDigitChars_cons]
    exact ih

theorem temporaryName_inj {name : String} {m n : Nat}
    (h : temporaryName name m = temporaryName name n) : m = n := by
  have hchars := congrArg String.toList h
  simp only [temporaryName, String.toList_append, List.append_assoc, String.toList_ofList] at hchars
  have hdigits := List.append_cancel_left (List.append_cancel_left (List.append_cancel_left hchars))
  rw [← List.append_assoc, ← List.append_assoc] at hdigits
  have hvalue := congrArg (fun digits => Nat.ofDigitChars 10 digits 0)
    (List.append_cancel_right hdigits)
  simpa [ofDigitChars_zeros] using hvalue

theorem temporaryName_usual (name : String) (n : Nat) :
    temporaryName name n ≠ ".." ∧ (temporaryName name n).isEmpty = false := by
  have hlength : 2 < (temporaryName name n).length := by
    have hend : ".tmp".length = 4 := rfl
    simp only [temporaryName, String.length_append, hend]
    omega
  constructor
  · intro heq
    rw [heq] at hlength
    exact absurd hlength (by decide)
  · rw [String.isEmpty_eq_false_iff]
    intro heq
    rw [heq] at hlength
    exact absurd hlength (by decide)

section
variable (tree : Tree) (directory : Location) (name : String)

theorem seekFree_spec (fuel n : Nat) :
    (∀ i < fuel, (tree.node? (directory ++ [temporaryName name (n + i)])).isSome = true) ∨
      tree.node? (directory ++ [temporaryName name (seekFree tree directory name fuel n)]) =
        none := by
  induction fuel generalizing n with
  | zero => exact .inl fun i hi => absurd hi (Nat.not_lt_zero i)
  | succ fuel ih =>
    rw [seekFree]
    split
    · rename_i hfirst
      refine (ih (n + 1)).imp_left fun hrest i hi => ?_
      cases i with
      | zero => exact hfirst
      | succ i =>
        have hnext := hrest i (by omega)
        rwa [Nat.add_right_comm, Nat.add_assoc] at hnext
    · rename_i hfree
      exact .inr (Option.not_isSome_iff_eq_none.1 hfree)

/-- With one candidate more than the tree has entries a free name is found. -/
theorem seekFree_free :
    tree.node? (directory ++ [temporaryName name
      (seekFree tree directory name (tree.entries.length + 1) 0)]) = none := by
  rcases seekFree_spec tree directory name (tree.entries.length + 1) 0 with hall | hfree
  · exfalso
    let candidates := (List.range (tree.entries.length + 1)).map fun i =>
      directory ++ [temporaryName name i]
    have hnodup : candidates.Nodup := by
      refine List.Nodup.map (fun i j hij => ?_) List.nodup_range
      exact temporaryName_inj (List.cons.inj (List.append_cancel_left hij)).1
    have hsubset : candidates ⊆ tree.entries.map Prod.fst := by
      intro l hl
      obtain ⟨i, hi, rfl⟩ := List.mem_map.1 hl
      have htaken := hall i (List.mem_range.1 hi)
      rw [Nat.zero_add] at htaken
      exact Tree.mem_of_node? htaken (by simp)
    have hle := (hnodup.subperm hsubset).length_le
    simp only [candidates, List.length_map, List.length_range] at hle
    omega
  · exact hfree
end

/-! New directories. -/

/-- The trees differ in directories at most, and those are new and on the way. -/
def Grown (way : Location) (tree tree' : Tree) : Prop :=
  ∀ l, tree'.node? l = tree.node? l ∨ tree.node? l = none ∧ tree'.node? l = some .directory ∧
    ∃ front : Location, front <+: way ∧ front.collapse = l

namespace Grown
variable {way way' : Location} {tree tree' tree'' : Tree}

theorem refl (way : Location) (tree : Tree) : Grown way tree tree := fun _ => .inl rfl

theorem trans (h : Grown way tree tree') (h' : Grown way tree' tree'') :
    Grown way tree tree'' := by
  intro l
  rcases h' l with hsame' | ⟨hnone', hnew', hway'⟩
  · rw [hsame']
    exact h l
  · refine .inr ⟨?_, hnew', hway'⟩
    rcases h l with hsame | ⟨hnone, _⟩
    · rw [← hsame, hnone']
    · exact hnone

theorem mono (hway : way <+: way') (h : Grown way tree tree') : Grown way' tree tree' :=
  fun l => (h l).imp_right fun ⟨hnone, hnew, front, hfront, heq⟩ =>
    ⟨hnone, hnew, front, hfront.trans hway, heq⟩

theorem contentOf_eq (h : Grown way tree tree') (l : Location) :
    tree'.contentOf l = tree.contentOf l := by
  rcases h l with hsame | ⟨hnone, hnew, _⟩
  · rw [Tree.contentOf, Tree.contentOf, hsame]
  · rw [Tree.contentOf, Tree.contentOf, hnone, hnew]

theorem toExtends (h : Grown way tree tree') : tree.Extends tree' := by
  intro l node hnode
  rcases h l with hsame | ⟨hnone, _⟩
  · rw [hsame, hnode]
  · rw [hnone] at hnode
    cases hnode
end Grown

theorem grown_makeDirectory {tree tree' : Tree} {l : Location}
    (h : makeDirectory tree l = .ok tree') : Grown l tree tree' := by
  rw [makeDirectory, Inversion.bind_eq_ok] at h
  obtain ⟨place, hplace, h⟩ := h
  cases hnode : tree.node? place with
  | some node =>
    simp only [hnode] at h
    cases h
  | none =>
    simp only [hnode, Inversion.pure_eq_ok] at h
    have hne : place ≠ [] := by
      rintro rfl
      cases hnode
    intro m
    rw [← h]
    by_cases hm : m = place
    · refine .inr ⟨hm ▸ hnode, ?_, l, List.prefix_refl l, ?_⟩
      · rw [hm, Tree.node?_insert_same tree _ hne]
      · rw [hm, Tree.eq_collapse_of_resolve hplace]
    · exact .inl (Tree.node?_insert_other tree _ hm)

/-- An attempt to make a directory where the ones above it are there, if anything is. -/
def makeLast (l : Location) : FileM Unit := do
  match makeDirectory (← get) l with
  | .ok tree => set tree
  | .error fault => if (← get).isDirectory l then return () else throw (.file fault)

theorem makeLast_from (l : Location) (tree : Tree) :
    FileM.from (makeLast l) tree = match makeDirectory tree l with
      | .ok tree' => (.ok (), tree')
      | .error fault => (if tree.isDirectory l then .ok () else .error (.file fault), tree) := by
  have hrun : FileM.from (makeLast l) tree = FileM.from (match makeDirectory tree l with
      | .ok tree' => set tree'
      | .error fault => do
        if (← get).isDirectory l then return () else throw (.file fault)) tree := rfl
  rw [hrun]
  cases makeDirectory tree l with
  | ok tree' => rfl
  | error fault =>
    show FileM.from (if tree.isDirectory l then pure () else throw (.file fault)) tree = _
    split <;> rfl

theorem grown_makeLast (l : Location) (tree : Tree) :
    Grown l tree (FileM.from (makeLast l) tree).2 := by
  rw [makeLast_from]
  cases hmake : makeDirectory tree l with
  | ok tree' => exact grown_makeDirectory hmake
  | error fault => exact .refl l tree

theorem makeDirectories_cons_from (segment : String) (above : List String) (tree : Tree) :
    FileM.from (makeDirectories (segment :: above)) tree =
      FileM.from (if makeDirectory tree (segment :: above).reverse = .error .missing then
        makeDirectories above >>= fun _ => makeLast (segment :: above).reverse
      else makeLast (segment :: above).reverse) tree := by
  rw [makeDirectories]
  generalize (segment :: above).reverse = l
  rw [FileM.get_bind]
  split
  · rename_i tree' hmake
    rw [if_neg (by simp [hmake]), makeLast_from, hmake]
    rfl
  · rename_i hmake
    rw [if_pos hmake]
    rfl
  · rename_i fault hfault hmake
    rw [if_neg (by simpa [hmake] using hfault), makeLast_from, hmake]
    show FileM.from (if tree.isDirectory l then pure () else throw (.file fault)) tree = _
    split <;> rfl

/-- Making directories does no more than that, also when it breaks off. -/
theorem grown_makeDirectories (segments : List String) (tree : Tree) :
    Grown segments.reverse tree (FileM.from (makeDirectories segments) tree).2 := by
  induction segments with
  | nil => exact .refl _ tree
  | cons segment above ih =>
    have hway : above.reverse <+: (segment :: above).reverse := by
      rw [List.reverse_cons]
      exact List.prefix_append _ _
    rw [makeDirectories_cons_from]
    split
    · rw [FileM.from_bind]
      cases habove : FileM.from (makeDirectories above) tree with
      | mk outcome tree' =>
        rw [habove] at ih
        cases outcome with
        | ok _ => exact (ih.mono hway).trans (grown_makeLast _ tree')
        | error failure => exact ih.mono hway
    · exact grown_makeLast _ tree

/-! The temporary file. -/

/-- Either nothing was done or there is a new empty file, under a name that was free. -/
theorem makeTemporary_from (target : Location) (tree : Tree) :
    (∃ failure, FileM.from (makeTemporary target) tree = (.error failure, tree)) ∨
      ∃ place, tree.node? place = none ∧ place ≠ [] ∧
        FileM.from (makeTemporary target) tree =
          (.ok place, tree.insert place (.file ByteArray.empty)) := by
  rw [makeTemporary, FileM.get_bind, FileM.fileStep_bind]
  cases hdirectory : tree.resolve target.parent with
  | error fault => exact .inl ⟨_, rfl⟩
  | ok directory =>
    simp only [FileM.fileStep_bind]
    have hfree := seekFree_free tree directory target.name
    generalize seekFree tree directory target.name (tree.entries.length + 1) 0 = n at hfree ⊢
    cases hplace : tree.resolve (target.parent ++ [temporaryName target.name n]) with
    | error fault => exact .inl ⟨_, rfl⟩
    | ok place =>
      obtain ⟨directory', hdirectory', hstep⟩ := Tree.resolve_append hplace
      obtain rfl : directory = directory' := Except.ok.inj (hdirectory.symm.trans hdirectory')
      obtain ⟨hdots, hnonempty⟩ := temporaryName_usual target.name n
      have heq : place = directory ++ [temporaryName target.name n] := by
        rw [(Tree.step_eq_ok hstep).2, Location.onward, if_neg hdots, hnonempty,
          if_neg Bool.false_ne_true]
      rw [← heq] at hfree
      have hne : place ≠ [] := by simp [heq]
      exact .inr ⟨place, hfree, hne, rfl⟩

/-- What is done while the temporary file is there. -/
def settle (check : Check) (place target : Location) (content : String) (checked : Bool) :
    FileM Unit := do
  fill place content
  if checked then (check content : Except _ _)
  replace place target

/-- Either nothing was done or the file is at its target, which leads to no directory. -/
theorem replace_from (place target : Location) (tree : Tree) :
    (∃ failure, FileM.from (replace place target) tree = (.error failure, tree)) ∨
      ∃ node, tree.node? place = some node ∧ tree.resolve target = .ok target.collapse ∧
        tree.node? target.collapse ≠ some .directory ∧
        FileM.from (replace place target) tree =
          (.ok (), (tree.erase place).insert target.collapse node) := by
  unfold replace
  split
  · exact .inl ⟨_, rfl⟩
  · simp only [FileM.get_bind, FileM.fileStep_bind]
    cases hfinal : tree.resolve target with
    | error fault => exact .inl ⟨_, rfl⟩
    | ok final =>
      obtain rfl := Tree.eq_collapse_of_resolve hfinal
      dsimp only
      split
      · exact .inl ⟨_, rfl⟩
      · rename_i node hnode hno
        exact .inr ⟨node, hnode, rfl, fun hdirectory => hno hdirectory, rfl⟩
      · exact .inl ⟨_, rfl⟩

/-- What is done while the temporary file is there either leaves the content in it, or at the
target. -/
theorem settle_from (check : Check) (place target : Location) (content : String) (checked : Bool)
    (tree : Tree) (hplace : place ≠ []) :
    let filled := tree.insert place (.file content.toUTF8)
    (∃ failure, FileM.from (settle check place target content checked) tree =
      (.error failure, filled)) ∨
      filled.resolve target = .ok target.collapse ∧ target.collapse ≠ [] ∧
        FileM.from (settle check place target content checked) tree =
          (.ok (), (filled.erase place).insert target.collapse (.file content.toUTF8)) := by
  intro filled
  have hfill : ∀ f : Unit → FileM Unit,
      FileM.from (fill place content >>= f) tree = FileM.from (f ()) filled := fun _ => rfl
  have hreplace : (∃ failure, FileM.from (replace place target) filled = (.error failure, filled)) ∨
      filled.resolve target = .ok target.collapse ∧ target.collapse ≠ [] ∧
        FileM.from (replace place target) filled =
          (.ok (), (filled.erase place).insert target.collapse (.file content.toUTF8)) := by
    refine (replace_from place target filled).imp_right ?_
    rintro ⟨node, hnode, hresolve, hdirectory, hrun⟩
    rw [Tree.node?_insert_same tree _ hplace] at hnode
    rw [← Option.some.inj hnode] at hrun
    refine ⟨hresolve, fun hroot => hdirectory ?_, hrun⟩
    rw [hroot]
    rfl
  rw [settle, hfill]
  cases checked with
  | false => exact hreplace
  | true =>
    simp only [if_true, FileM.lift_bind]
    cases check content with
    | ok _ => exact hreplace
    | error failure => exact .inl ⟨failure, rfl⟩

/-! Writing. -/

theorem FileM.tryCatch_from (x : FileM α) (handler : Failure → FileM α) (tree : Tree) :
    FileM.from (tryCatch x handler) tree = match FileM.from x tree with
      | (.ok a, tree') => (.ok a, tree')
      | (.error failure, tree') => FileM.from (handler failure) tree' := by
  simp only [FileM.from, tryCatch, tryCatchThe, MonadExceptOf.tryCatch, ExceptT.tryCatch,
    ExceptT.run_mk, StateT.run_bind]
  rw [ExceptT.run]
  generalize StateT.run x tree = result
  rcases result with ⟨_ | _, _⟩ <;> rfl

/-- The work on a target whose temporary file is there; when it fails, that file is removed. -/
def settleOrRemove (check : Check) (place target : Location) (content : String) (checked : Bool) :
    FileM Unit :=
  tryCatch (settle check place target content checked) fun failure => do
    removeTemporary place
    throw failure

section
variable (check : Check) (target : Location) (content : String) (checked : Bool) {tree : Tree}
  {place : Location}

/-- Nothing of a temporary file that was new is left. -/
theorem settleOrRemove_from (hplace : place ≠ []) (hfree : tree.node? place = none) :
    let run := FileM.from (settleOrRemove check place target content checked)
      (tree.insert place (.file ByteArray.empty))
    (∃ failure, run.1 = .error failure ∧ ∀ l, run.2.node? l = tree.node? l) ∨
      run.1 = .ok () ∧
        (tree.resolve target = .ok target.collapse ∨ tree.resolve target = .error .missing) ∧
        ∀ l, run.2.node? l =
          if l = target.collapse then some (.file content.toUTF8) else tree.node? l := by
  intro run
  let filled := (tree.insert place (.file ByteArray.empty)).insert place (.file content.toUTF8)
  have hother : ∀ l, l ≠ place → filled.node? l = tree.node? l := fun l hl =>
    (Tree.node?_insert_other _ _ hl).trans (Tree.node?_insert_other _ _ hl)
  have herase : ∀ l, (filled.erase place).node? l = tree.node? l := by
    intro l
    by_cases hl : l = place
    · rw [hl, Tree.node?_erase_same filled hplace, hfree]
    · rw [Tree.node?_erase_other filled hl, hother l hl]
  have hrun : run = _ := FileM.tryCatch_from _ _ _
  rcases settle_from check place target content checked
      (tree.insert place (.file ByteArray.empty)) hplace with
    ⟨failure, hfail⟩ | ⟨hresolve, hroot, hdone⟩
  · rw [hfail] at hrun
    refine .inl ⟨failure, by rw [hrun]; rfl, fun l => ?_⟩
    rw [hrun]
    exact herase l
  · rw [hdone] at hrun
    refine .inr ⟨by rw [hrun], ?_, fun l => ?_⟩
    · by_cases hmissing : tree.resolve target = .error .missing
      · exact .inr hmissing
      · have hextends : tree.Extends filled := by
          intro l node hnode
          have hl : l ≠ place := by
            rintro rfl
            rw [hfree] at hnode
            cases hnode
          rw [hother l hl, hnode]
        rw [← hextends.resolve_eq hmissing]
        exact .inl hresolve
    · rw [hrun]
      show ((filled.erase place).insert target.collapse (.file content.toUTF8)).node? l = _
      split
      · rename_i hl
        rw [hl, Tree.node?_insert_same _ _ hroot]
      · rename_i hl
        rw [Tree.node?_insert_other _ _ hl, herase]
end

section
variable (check : Check) (target : Location) (content : String) (checked : Bool) (tree : Tree)

/-- A write that fails makes directories at most. One that ends well puts the content at the target
as well, to which the tree leads unless a node was missing on the way. -/
theorem write_from :
    let run := FileM.from (write check target content checked) tree
    (∃ failure, run.1 = .error failure ∧ Grown target.parent tree run.2) ∨
    run.1 = .ok () ∧
      (tree.resolve target = .ok target.collapse ∨ tree.resolve target = .error .missing) ∧
      ∃ grown, Grown target.parent tree grown ∧ ∀ l, run.2.node? l =
        if l = target.collapse then some (.file content.toUTF8) else grown.node? l := by
  intro run
  have hgrown := grown_makeDirectories target.parent.reverse tree
  rw [List.reverse_reverse] at hgrown
  have hrun : run = FileM.from (makeDirectories target.parent.reverse >>= fun _ =>
    makeTemporary target >>= fun place => settleOrRemove check place target content checked) tree :=
    rfl
  rw [FileM.from_bind] at hrun
  cases hmake : FileM.from (makeDirectories target.parent.reverse) tree with
  | mk outcome grown =>
    rw [hmake] at hgrown hrun
    cases outcome with
    | error failure => exact .inl ⟨failure, by rw [hrun], by rw [hrun]; exact hgrown⟩
    | ok _ =>
      simp only [FileM.from_bind] at hrun
      rcases makeTemporary_from target grown with ⟨failure, hfail⟩ | ⟨place, hfree, hplace, htemp⟩
      · rw [hfail] at hrun
        exact .inl ⟨failure, by rw [hrun], by rw [hrun]; exact hgrown⟩
      · rw [htemp] at hrun
        rcases settleOrRemove_from check target content checked hplace hfree with
          ⟨failure, hfail, hsame⟩ | ⟨hdone, hresolve, hnode⟩
        · refine .inl ⟨failure, by rw [hrun]; exact hfail, fun l => ?_⟩
          rw [hrun, hsame l]
          exact hgrown l
        · refine .inr ⟨by rw [hrun]; exact hdone, ?_, grown, hgrown, by rw [hrun]; exact hnode⟩
          by_cases hmissing : tree.resolve target = .error .missing
          · exact .inr hmissing
          · rw [← hgrown.toExtends.resolve_eq hmissing]
            exact hresolve

theorem contentOf_of_isThere (h : tree.isThere target = .ok false)
    (hresolve : tree.resolve target = .ok target.collapse) :
    tree.contentOf target.collapse = none := by
  rw [Tree.contentOf]
  cases hnode : tree.node? target.collapse with
  | none => rfl
  | some node =>
    have hfind : tree.find target = .ok node := by
      rw [Tree.find, Inversion.bind_eq_ok]
      exact ⟨target.collapse, hresolve, by simp only [hnode]; rfl⟩
    simp only [Tree.isThere, hfind] at h
    cases h

/-- A step that must not overwrite changes nothing or is a write to a target that was not found. -/
theorem writeNew_from :
    (∃ failure, FileM.from (writeNew check target content checked) tree = (.error failure, tree)) ∨
      tree.isThere target = .ok false ∧ FileM.from (writeNew check target content checked) tree =
        FileM.from (write check target content checked) tree := by
  rw [writeNew, FileM.fileStep_bind]
  cases tree.isThere target with
  | error fault => exact .inl ⟨_, rfl⟩
  | ok found =>
    cases found with
    | true => exact .inl ⟨_, rfl⟩
    | false => exact .inr ⟨rfl, rfl⟩
end

/-! Sessions of a writer. -/

structure WriteStep where
  onlyNew : Bool
  target : Location
  content : String
  checked : Bool

def WriteStep.run (check : Check) (step : WriteStep) : FileM Unit :=
  if step.onlyNew then writeNew check step.target step.content step.checked
  else write check step.target step.content step.checked

/-- A step with its outcome and the trees before and after it. -/
structure Performed where
  step : WriteStep
  before : Tree
  outcome : Except Failure Unit
  after : Tree

/-- Steps one after the other, each on the tree that the one before has left. -/
def session (check : Check) : Tree → List WriteStep → List Performed
  | _, [] => []
  | tree, step :: steps =>
    let run := FileM.from (step.run check) tree
    ⟨step, tree, run.1, run.2⟩ :: session check run.2 steps

/-- The step was done as a whole or not at all. -/
structure Performed.Whole (p : Performed) : Prop where
  failed : ∀ failure, p.outcome = .error failure → ∀ l, p.after.contentOf l = p.before.contentOf l
  done : p.outcome = .ok () → ∀ l, p.after.contentOf l =
    if l = p.step.target.collapse then some p.step.content.toUTF8 else p.before.contentOf l
  /-- Apart from the target of a step that ended well only directories on the way are new. -/
  grown : ∃ tree, Grown p.step.target.parent p.before tree ∧
    ∀ l, (p.outcome = .ok () → l ≠ p.step.target.collapse) → p.after.node? l = tree.node? l
  /-- Where a file must not be overwritten, none was there, or its directory was missing. -/
  kept : p.step.onlyNew = true → p.outcome = .ok () →
    p.before.contentOf p.step.target.collapse = none ∨
      p.before.resolve p.step.target = .error .missing
  /-- Exactly then a file that must not be overwritten is: it stands where the way to the target
  ends, a directory on the way was missing, and the step ended well, with another content. -/
  replaced : p.step.onlyNew = true → ∀ l old, p.before.contentOf l = some old →
    (p.after.contentOf l ≠ some old ↔ p.outcome = .ok () ∧ l = p.step.target.collapse ∧
      p.before.resolve p.step.target = .error .missing ∧ old ≠ p.step.content.toUTF8)

/-- What is replaced follows from what a step does to the contents. -/
theorem Performed.Whole.of_contents {p : Performed}
    (hfailed : ∀ failure, p.outcome = .error failure →
      ∀ l, p.after.contentOf l = p.before.contentOf l)
    (hdone : p.outcome = .ok () → ∀ l, p.after.contentOf l =
      if l = p.step.target.collapse then some p.step.content.toUTF8 else p.before.contentOf l)
    (hgrown : ∃ tree, Grown p.step.target.parent p.before tree ∧
      ∀ l, (p.outcome = .ok () → l ≠ p.step.target.collapse) → p.after.node? l = tree.node? l)
    (hkept : p.step.onlyNew = true → p.outcome = .ok () →
      p.before.contentOf p.step.target.collapse = none ∨
        p.before.resolve p.step.target = .error .missing) : p.Whole := by
  refine ⟨hfailed, hdone, hgrown, hkept, fun hnew l old hold => ?_⟩
  cases houtcome : p.outcome with
  | error failure => simp [hfailed failure houtcome l, hold]
  | ok _ =>
    rw [hdone houtcome l]
    by_cases hl : l = p.step.target.collapse
    · have hmissing := (hkept hnew houtcome).resolve_left (by rw [← hl, hold]; nofun)
      simp [hl, hmissing, eq_comm]
    · simp [hl, hold]

theorem whole_of_failed {p : Performed} {failure : Failure} (h : p.outcome = .error failure)
    (hgrown : Grown p.step.target.parent p.before p.after) : p.Whole := by
  have hno : p.outcome ≠ .ok () := by rw [h]; nofun
  exact .of_contents (fun _ _ => hgrown.contentOf_eq) (fun hdone => absurd hdone hno)
    ⟨p.after, hgrown, fun _ _ => rfl⟩ (fun _ hdone => absurd hdone hno)

/-- What one step does to any tree. -/
theorem whole_of_run (check : Check) (step : WriteStep) (tree : Tree) :
    Performed.Whole ⟨step, tree, (FileM.from (step.run check) tree).1,
      (FileM.from (step.run check) tree).2⟩ := by
  have hwrite : FileM.from (step.run check) tree =
      FileM.from (write check step.target step.content step.checked) tree →
      (step.onlyNew = true → tree.isThere step.target = .ok false) →
      Performed.Whole ⟨step, tree, (FileM.from (step.run check) tree).1,
        (FileM.from (step.run check) tree).2⟩ := by
    intro hrun habsent
    rw [hrun]
    rcases write_from check step.target step.content step.checked tree with
      ⟨failure, hfail, hgrown⟩ | ⟨hdone, hresolve, grown, hgrown, hnode⟩
    · exact whole_of_failed hfail hgrown
    · refine .of_contents (fun failure hfail => ?_) (fun _ l => ?_)
        ⟨grown, hgrown, fun l hl => ?_⟩ (fun hnew _ => ?_)
      · rw [hdone] at hfail
        cases hfail
      · have hat := hnode l
        by_cases hl : l = step.target.collapse
        · rw [if_pos hl] at hat
          rw [if_pos hl, Tree.contentOf, hat]
        · rw [if_neg hl] at hat
          rw [if_neg hl, ← hgrown.contentOf_eq l, Tree.contentOf, Tree.contentOf, hat]
      · rw [hnode l, if_neg (hl hdone)]
      · exact hresolve.imp_left fun hok => contentOf_of_isThere _ _ (habsent hnew) hok
  cases hnew : step.onlyNew with
  | false => exact hwrite (by rw [WriteStep.run, hnew]; rfl) (by simp [hnew])
  | true =>
    have hrun : FileM.from (step.run check) tree =
        FileM.from (writeNew check step.target step.content step.checked) tree := by
      rw [WriteStep.run, hnew]
      rfl
    rcases writeNew_from check step.target step.content step.checked tree with
      ⟨failure, hfail⟩ | ⟨habsent, hsame⟩
    · rw [hrun, hfail]
      exact whole_of_failed rfl (.refl _ tree)
    · exact hwrite (hrun.trans hsame) fun _ => habsent

/-- Every step of a session is done as a whole or not at all, whatever the check accepts. -/
theorem session_whole (check : Check) (tree : Tree) (steps : List WriteStep) :
    ∀ p ∈ session check tree steps, p.Whole := by
  induction steps generalizing tree with
  | nil => exact fun _ hp => by cases hp
  | cons step steps ih =>
    intro p hp
    rcases List.mem_cons.1 hp with rfl | hp
    · exact whole_of_run check step tree
    · exact ih _ p hp

/-- A session whose second step is refused. -/
def refusedSteps : List WriteStep :=
  [⟨true, ["types", "a.ts"], "export type A = 1;", true⟩, ⟨false, ["types", "a.ts"], "\x7b", true⟩]

theorem session_whole_refused :
    ∃ p ∈ session standardCheck ⟨[]⟩ refusedSteps, p.outcome ≠ .ok () ∧ p.Whole := by
  have hmem : (session standardCheck ⟨[]⟩ refusedSteps)[1] ∈
      session standardCheck ⟨[]⟩ refusedSteps := List.getElem_mem (by decide)
  exact ⟨_, hmem, by decide +kernel, session_whole standardCheck ⟨[]⟩ refusedSteps _ hmem⟩

/-- Behind a missing directory and a double dot the file that is there is not found and replaced. -/
theorem overwritten_behind_missing :
    let tree : Tree := ⟨[(["a.ts"], .file "export type A = 1;".toUTF8)]⟩
    let run := FileM.from
      (writeNew standardCheck ["missing", "..", "a.ts"] "export type B = 2;" true) tree
    tree.contentOf ["a.ts"] = some "export type A = 1;".toUTF8 ∧ run.1 = .ok () ∧
      run.2.contentOf ["a.ts"] = some "export type B = 2;".toUTF8 := by
  decide +kernel

end SchemaDecl.Files
