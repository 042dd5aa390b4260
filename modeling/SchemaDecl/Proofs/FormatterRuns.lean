import Mathlib.Data.List.Forall2
import SchemaDecl.Proofs.Inversion
import SchemaDecl.Shell.Tool

/-! Formatters that are programs. Whatever a program does, a call gives the code back as
it was or as the program has written it anew, or it ends in a fault, and the calls of a
session do so one by one. A program of a machine may be any script. One that cannot be
started leaves the machine as it is, also where the interpreters that first lines name
are started for one another; and where there is no program, every code of a session
stays as it was. -/

namespace SchemaDecl

open TypeScript

namespace TypeScript.Tool

variable {σ : Type}

/-- What a call of the tool in a world ends with, for the code it is given: the code as it is, where
the tool is missing or fails, or what the tool has written, or a fault. -/
inductive Outcome (tool : Tool σ) (world : σ) (code : String) (options : Options) :
    Except FormatterFault (String × List Event) → Prop
  | missing : Outcome tool world code options (.ok (code, [.formatterMissing]))
  | formatted {output error : ByteArray} {text : String} :
      (tool (formatArguments options) code world).1 = .finished true output error →
        decode output = .ok text → Outcome tool world code options (.ok (text, []))
  | failed {output error : ByteArray} {complaint : String} :
      (tool (formatArguments options) code world).1 = .finished false output error →
        decode error = .ok complaint →
          Outcome tool world code options (.ok (code, [.formatterFailed (Text.strip complaint)]))
  | fault (fault : FormatterFault) : Outcome tool world code options (.error fault)

/-- The calls of a formatter one after the other, each on the state the one before has left. -/
def session (tool : Tool σ) :
    List (String × Options) → ToolState σ →
      List (Except FormatterFault (String × List Event)) × ToolState σ
  | [], s => ([], s)
  | (code, options) :: calls, s =>
    let (outcome, s) := (tool.format code options).run.run s
    let (outcomes, s) := session tool calls s
    (outcome :: outcomes, s)

theorem exists_of_answerOf {launch : Launch} {answer : Answer}
    (h : answerOf launch = .ok (some answer)) :
    ∃ output error, launch = .finished answer.success output error ∧
      decode output = .ok answer.output ∧ decode error = .ok answer.error := by
  cases launch with
  | finished success output error =>
    obtain ⟨text, houtput, hrest⟩ := Inversion.bind_eq_ok.1 h
    obtain ⟨complaint, herror, hanswer⟩ := Inversion.bind_eq_ok.1 hrest
    rw [← Option.some.inj (Except.ok.inj hanswer)]
    exact ⟨output, error, rfl, houtput, herror⟩
  | _ => cases h

section
variable (tool : Tool σ)

theorem run_ask (arguments : List String) (input : String) (s : ToolState σ) :
    (tool.ask arguments input).run.run s =
      (answerOf (tool arguments input s.world).1,
        { s with world := (tool arguments input s.world).2 }) := rfl

/-- Whatever the tool does, the code comes back as it was or as the tool has written it, in the
world in which it was found to be installed. -/
theorem outcome_format (code : String) (options : Options) (s : ToolState σ) :
    Outcome tool (tool.isInstalled.run.run s).2.world code options
      ((tool.format code options).run.run s).1 := by
  rw [format, Inversion.run_bind]
  rcases tool.isInstalled.run.run s with ⟨fault | installed, s'⟩
  · exact .fault fault
  cases installed with
  | false => exact .missing
  | true =>
    simp only [if_true]
    rw [Inversion.run_bind, run_ask]
    cases hanswer : answerOf (tool (formatArguments options) code s'.world).1 with
    | error fault => exact .fault fault
    | ok answer =>
      match answer with
      | none => exact .fault .missing
      | some ⟨true, _, _⟩ =>
        obtain ⟨_, _, hlaunch, houtput, _⟩ := exists_of_answerOf hanswer
        exact .formatted hlaunch houtput
      | some ⟨false, _, _⟩ =>
        obtain ⟨_, _, hlaunch, _, herror⟩ := exists_of_answerOf hanswer
        exact .failed hlaunch herror

/-- The calls of a session end as calls do, one by one. -/
theorem outcomes_session (calls : List (String × Options)) (s : ToolState σ) :
    List.Forall₂ (fun call outcome => ∃ world, Outcome tool world call.1 call.2 outcome) calls
      (tool.session calls s).1 := by
  induction calls generalizing s with
  | nil => exact .nil
  | cons call calls ih => exact .cons ⟨_, outcome_format tool call.1 call.2 s⟩ (ih _)
end

/-- Code that a tool has changed has line feeds at its line ends. -/
theorem Outcome.unified {tool : Tool σ} {world : σ} {code text : String} {options : Options}
    {events : List Event} (h : Outcome tool world code options (.ok (text, events)))
    (hchanged : text ≠ code) : '\r' ∉ text.toList := by
  cases h with
  | missing => exact absurd rfl hchanged
  | failed _ _ => exact absurd rfl hchanged
  | formatted _ houtput =>
    unfold decode at houtput
    split at houtput
    · rw [← Except.ok.inj houtput, Text.unifyLineEnds, String.toList_ofList]
      exact Text.not_mem_unifyLineEndChars _
    · cases houtput

/-! Tools that are missing. -/

section
variable {tool : Tool σ} {P : σ → Prop} (hmissing : ∀ arguments input world, P world →
  (tool arguments input world).1 = .missing ∧ P (tool arguments input world).2)
include hmissing

theorem format_of_missing {s : ToolState σ} (hs : P s.world) (hno : s.installed ≠ some true)
    (code : String) (options : Options) :
    ∃ world, P world ∧ (tool.format code options).run.run s =
      (Formatter.absent code options, ⟨world, some false⟩) := by
  obtain ⟨world, installed⟩ := s
  match installed with
  | some true => exact absurd rfl hno
  | some false => exact ⟨world, hs, rfl⟩
  | none =>
    obtain ⟨hlaunch, hworld⟩ := hmissing ["--version"] "" world hs
    have hasked : tool.isInstalled.run.run ⟨world, none⟩ =
        (.ok false, ⟨(tool ["--version"] "" world).2, some false⟩) := by
      rw [isInstalled, Inversion.run_bind]
      show ((tool.ask ["--version"] "" >>= _).run.run ⟨world, none⟩) = _
      rw [Inversion.run_bind, run_ask, hlaunch]
      rfl
    refine ⟨_, hworld, ?_⟩
    rw [format, Inversion.run_bind, hasked]
    rfl

/-- With a tool that is missing from the start, a session leaves every code as it is. -/
theorem session_of_missing (calls : List (String × Options)) {s : ToolState σ} (hs : P s.world)
    (hno : s.installed ≠ some true) :
    (tool.session calls s).1 = calls.map (fun call => Formatter.absent call.1 call.2) ∧
      P (tool.session calls s).2.world := by
  induction calls generalizing s with
  | nil => exact ⟨rfl, hs⟩
  | cons call calls ih =>
    obtain ⟨world, hworld, hrun⟩ := format_of_missing hmissing hs hno call.1 call.2
    obtain ⟨houtcomes, hkept⟩ := ih (s := ⟨world, some false⟩) hworld nofun
    rw [session, hrun]
    exact ⟨congrArg (_ :: ·) houtcomes, hkept⟩
end

end TypeScript.Tool

/-! Programs of a machine. -/

namespace Shell

open Files

theorem run_locate (path : String) (s : Shell) :
    (locate path).run.run s = (.ok (if path.isEmpty then .error .missing else
      s.machine.tree.resolve (Location.within s.directory (decode path))), s) := by
  unfold locate
  split <;> rfl

theorem run_get (s : Shell) : (get : ShellM Shell).run.run s = (.ok s, s) := rfl

/-- A program that cannot be started leaves everything as it is, by induction on the interpreters
that are started for one another. -/
theorem launch_error {run : Runner} {depth : Nat} {path name : String} {arguments : List String}
    {s s' : Shell} {fault : LaunchFault}
    (h : (launch run depth path name arguments).run.run s = (.ok (.error fault), s')) : s' = s := by
  induction depth generalizing path name arguments with
  | zero => exact (Prod.mk.inj h).2.symm
  | succ depth ih =>
    rw [launch, Inversion.run_bind, run_locate] at h
    dsimp only at h
    split at h
    · exact (Prod.mk.inj h).2.symm
    · exact (Prod.mk.inj h).2.symm
    · exact (Prod.mk.inj h).2.symm
    rw [Inversion.run_bind, run_get] at h
    dsimp only at h
    split at h
    · exact (Prod.mk.inj h).2.symm
    · split at h
      · exact (Prod.mk.inj h).2.symm
      split at h
      · -- a program that has run ends with a status
        obtain ⟨status, t, _, hend⟩ := Inversion.run_bind_eq_ok.1 h
        cases hend
      split at h
      · exact (Prod.mk.inj h).2.symm
      · exact ih h
    · exact (Prod.mk.inj h).2.symm

theorem launch_of_missing {path : String} {s : Shell}
    (h : s.machine.tree.find (Location.within s.directory (decode path)) = .error .missing)
    (run : Runner) (depth : Nat) (name : String) (arguments : List String) :
    (launch run (depth + 1) path name arguments).run.run s = (.ok (.error .missing), s) := by
  rw [launch, Inversion.run_bind, run_locate]
  dsimp only
  by_cases hempty : path.isEmpty
  · rw [if_pos hempty]
    rfl
  rw [if_neg hempty]
  unfold Tree.find at h
  cases hplace : s.machine.tree.resolve (Location.within s.directory (decode path)) with
  | error fault =>
    rw [hplace] at h
    rw [Except.error.inj h]
    rfl
  | ok place =>
    rw [hplace] at h
    dsimp only
    rw [Inversion.run_bind, run_get]
    dsimp only
    cases hnode : s.machine.tree.node? place with
    | none => rfl
    | some node =>
      simp only [Except.bind, bind, hnode] at h
      cases h

section
variable {m : Machine} {directory : Location} {path : String}

theorem start_error {arguments : List String} {input : ByteArray} {fault : LaunchFault}
    {m' : Machine} (h : m.start directory path arguments input = (.error fault, m')) :
    m' = { m with streams := #[] } := by
  unfold Machine.start at h
  rcases hrun : (launch (runTo taskDepth) launchDepth (encode path) (encode path)
    (arguments.map encode)).run.run (startShell m directory input) with ⟨result, s⟩
  rw [StateT.run] at hrun
  simp only [hrun] at h
  split at h
  · rename_i fault' hresult
    obtain rfl := launch_error hrun
    exact (Prod.mk.inj h).2.symm
  all_goals cases h

/-- Unless its tool was started and has ended, a formatter has changed nothing on the machine. -/
theorem toolAt_unstarted {arguments : List String} {input : String}
    (h : ∀ success output error,
      (toolAt directory path arguments input m).1 ≠ .finished success output error) :
    (toolAt directory path arguments input m).2 = { m with streams := #[] } := by
  unfold toolAt at h ⊢
  rcases hstart : m.start directory path arguments input.toUTF8 with ⟨fault | finished, m'⟩
  · exact start_error hstart
  · rw [hstart] at h
    exact absurd rfl (h _ _ _)

/-- Nothing stands where the program is looked for. -/
def Lacks (directory : Location) (path : String) (m : Machine) : Prop :=
  m.tree.find (Location.within directory (decode (encode path))) = .error .missing

theorem start_of_lacks (h : Lacks directory path m) (arguments : List String)
    (input : ByteArray) :
    m.start directory path arguments input = (.error .missing, { m with streams := #[] }) := by
  have hrun := launch_of_missing (s := startShell m directory input) h (runTo taskDepth) 5
    (encode path) (arguments.map encode)
  rw [StateT.run] at hrun
  simp only [Machine.start, launchDepth, hrun]
  rfl

/-- With nothing there to start, the files of the machine stay and a session leaves every code as it
is. -/
theorem session_of_lacks (h : Lacks directory path m) (calls : List (String × TypeScript.Options)) :
    ((toolAt directory path).session calls ⟨m, none⟩).1 =
        calls.map (fun call => Formatter.absent call.1 call.2) ∧
      ((toolAt directory path).session calls ⟨m, none⟩).2.world.tree = m.tree := by
  have hmissing : ∀ arguments input (world : Machine), world.tree = m.tree →
      (toolAt directory path arguments input world).1 = .missing ∧
        (toolAt directory path arguments input world).2.tree = m.tree := by
    intro arguments input world htree
    have hlacks : Lacks directory path world := by rwa [Lacks, htree]
    simp only [toolAt, start_of_lacks hlacks]
    exact ⟨rfl, htree⟩
  exact Tool.session_of_missing hmissing calls rfl nofun
end

end Shell

end SchemaDecl
