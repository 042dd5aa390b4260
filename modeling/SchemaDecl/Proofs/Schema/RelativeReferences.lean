import SchemaDecl.Proofs.Text.Pieces
import SchemaDecl.Schema.Reference

/-! References between two nodes of one tree. The reference climbs from the one
node to what the two paths have in common and goes down from there to the other.
It resolves to the path of that other node, as long as the segments on the way
down can be written at all. The segments of the node's own path are only counted,
so they may be anything. -/

namespace SchemaDecl.Schema.Reference

/-- As many steps up, and from there down along the given segments. -/
def relative (up : Nat) (down : List String) : String :=
  String.join (List.replicate up "../") ++ String.intercalate "/" down

/-- A name that can be written as one part of a reference. -/
structure IsSegment (s : String) : Prop where
  nonempty : s ≠ ""
  not_here : s ≠ "."
  not_up : s ≠ ".."
  no_slash : '/' ∉ s.toList
  no_backslash : '\\' ∉ s.toList

instance : DecidablePred IsSegment := fun s =>
  decidable_of_iff (s ≠ "" ∧ s ≠ "." ∧ s ≠ ".." ∧ '/' ∉ s.toList ∧ '\\' ∉ s.toList)
    ⟨fun ⟨h₁, h₂, h₃, h₄, h₅⟩ => ⟨h₁, h₂, h₃, h₄, h₅⟩,
      fun ⟨h₁, h₂, h₃, h₄, h₅⟩ => ⟨h₁, h₂, h₃, h₄, h₅⟩⟩

/-- Letters and a colon at the start, which `dropScheme` takes off. -/
def Schemed (cs : List Char) : Prop :=
  ∃ letters rest, cs = letters ++ ':' :: rest ∧ letters ≠ [] ∧ ∀ c ∈ letters, isSchemeChar c = true

theorem dropScheme_of_not_schemed {cs : List Char} (h : ¬ Schemed cs) : dropScheme cs = cs := by
  unfold dropScheme
  split
  · rename_i rest hrest
    split
    · rfl
    · rename_i hletters
      refine absurd ⟨cs.takeWhile isSchemeChar, rest, ?_, ?_, ?_⟩ h
      · rw [← hrest, List.takeWhile_append_dropWhile]
      · simpa using hletters
      · exact fun c hc => List.mem_takeWhile_imp hc
  · rfl

theorem not_schemed_of_append {part rest : List Char} (hrest : ∀ c ∈ rest.head?, c = '/')
    (h : ¬ Schemed part) : ¬ Schemed (part ++ rest) := by
  rintro ⟨letters, after, hcs, hne, hletters⟩
  rcases List.append_eq_append_iff.1 hcs with ⟨more, hmore, hafter⟩ | ⟨more, hmore, hafter⟩
  · -- the letters would go on past the slash, or the slash would be the colon
    subst hafter
    cases more with
    | nil => exact absurd (hrest ':' rfl) (by decide)
    | cons c more =>
      have hmem : '/' ∈ letters := by simp [hmore, hrest c rfl]
      exact absurd (hletters '/' hmem) (by decide)
  · cases more with
    | nil =>
      rw [List.nil_append] at hafter
      subst hafter
      exact absurd (hrest ':' rfl) (by decide)
    | cons c more =>
      obtain ⟨hcolon, -⟩ := List.cons.inj hafter
      exact h ⟨letters, more, hcolon ▸ hmore, hne, hletters⟩

/-! Text without doubled separators. -/

theorem collapse_append {part : List Char} (hne : part ≠ [])
    (hpart : ∀ c ∈ part, isSeparator c = false) (after : Bool) (rest : List Char) :
    collapseSeparators after (part ++ rest) = part ++ collapseSeparators false rest := by
  induction part generalizing after with
  | nil => exact absurd rfl hne
  | cons c part ih =>
    have hc : isSeparator c = false := hpart c List.mem_cons_self
    have hstep : collapseSeparators after (c :: part ++ rest) =
        c :: collapseSeparators false (part ++ rest) := by
      simp [collapseSeparators, hc]
    rw [hstep]
    cases part with
    | nil => rfl
    | cons d part =>
      rw [ih (List.cons_ne_nil _ _) (fun x hx => hpart x (List.mem_cons_of_mem _ hx))]
      rfl

theorem collapse_intercalate {parts : List (List Char)}
    (h : ∀ part ∈ parts, part ≠ [] ∧ ∀ c ∈ part, isSeparator c = false) (after : Bool) :
    collapseSeparators after (['/'].intercalate parts) = ['/'].intercalate parts := by
  induction parts generalizing after with
  | nil => rfl
  | cons part parts ih =>
    obtain ⟨hne, hpart⟩ := h part List.mem_cons_self
    have hrest := ih fun other hother => h other (List.mem_cons_of_mem _ hother)
    cases parts with
    | nil =>
      have hone := collapse_append hne hpart after []
      simpa [collapseSeparators] using hone
    | cons next parts =>
      rw [List.intercalate_cons_cons, List.append_assoc, collapse_append hne hpart]
      simp only [List.singleton_append, collapseSeparators]
      simp [isSeparator, hrest true]

section
variable {down : List String}

theorem toList_relative_zero :
    (relative 0 down).toList = ['/'].intercalate (down.map String.toList) := by
  simp [relative]

theorem toList_relative_succ (up : Nat) :
    (relative (up + 1) down).toList = ['.', '.', '/'] ++ (relative up down).toList := by
  simp [relative, List.replicate_succ]

theorem IsSegment.not_separator {s : String} (h : IsSegment s) :
    ∀ c ∈ s.toList, isSeparator c = false := by
  intro c hc
  simp only [isSeparator, Bool.or_eq_false_iff, decide_eq_false_iff_not]
  exact ⟨fun heq => h.no_slash (heq ▸ hc), fun heq => h.no_backslash (heq ▸ hc)⟩

theorem collapse_relative (hdown : ∀ s ∈ down, IsSegment s) (up : Nat) (after : Bool) :
    collapseSeparators after (relative up down).toList = (relative up down).toList := by
  induction up generalizing after with
  | zero =>
    rw [toList_relative_zero]
    refine collapse_intercalate (fun part hpart => ?_) after
    obtain ⟨s, hs, rfl⟩ := List.mem_map.1 hpart
    exact ⟨by simpa using (hdown s hs).nonempty, (hdown s hs).not_separator⟩
  | succ up ih =>
    rw [toList_relative_succ]
    simp [collapseSeparators, isSeparator, ih true]

theorem not_schemed_relative {up : Nat}
    (hscheme : up = 0 → ∀ s ∈ down.head?, ¬ Schemed s.toList) :
    ¬ Schemed (relative up down).toList := by
  have hdot : ∀ cs, ¬ Schemed ('.' :: cs) := by
    rintro cs ⟨letters, rest, hcs, hne, hletters⟩
    obtain ⟨c, letters, rfl⟩ := List.exists_cons_of_ne_nil hne
    obtain ⟨rfl, -⟩ := List.cons.inj hcs
    exact absurd (hletters '.' List.mem_cons_self) (by decide)
  cases up with
  | succ up =>
    rw [toList_relative_succ]
    exact hdot _
  | zero =>
    rw [toList_relative_zero]
    cases down with
    | nil =>
      rintro ⟨letters, rest, hcs, -, -⟩
      simp at hcs
    | cons s down =>
      have hs := hscheme rfl s rfl
      cases down with
      | nil => simpa using hs
      | cons next down =>
        rw [List.map_cons, List.map_cons, List.intercalate_cons_cons, List.append_assoc]
        exact not_schemed_of_append (by simp) hs

theorem splitOn_relative (up : Nat) :
    Text.splitOn '/' (relative up down).toList =
      List.replicate up ['.', '.'] ++ Text.splitOn '/' (relative 0 down).toList := by
  induction up with
  | zero => rfl
  | succ up ih =>
    rw [toList_relative_succ, List.replicate_succ]
    exact congrArg (['.', '.'] :: ·) ih

end

/-! The walk along the parts. -/

theorem foldl_step_up (up : Nat) (segments : List String) :
    (List.replicate up ['.', '.']).foldl step segments =
      segments.take (segments.length - up) := by
  induction up generalizing segments with
  | zero => simp
  | succ up ih =>
    have hstep : step segments ['.', '.'] = segments.dropLast := by simp [step]
    rw [List.replicate_succ, List.foldl_cons, hstep, ih, List.length_dropLast,
      List.dropLast_eq_take, List.take_take]
    congr 1
    omega

theorem foldl_step_down {down : List String} (h : ∀ s ∈ down, IsSegment s)
    (segments : List String) :
    (down.map String.toList).foldl step segments = segments ++ down := by
  induction down generalizing segments with
  | nil => simp
  | cons s down ih =>
    have hs : IsSegment s := h s List.mem_cons_self
    have hstep : step segments s.toList = segments ++ [s] := by
      have hnil : s.toList ≠ [] := by simpa using hs.nonempty
      have hhere : s.toList ≠ ['.'] := fun heq => hs.not_here (String.toList_inj.1 heq)
      have hup : s.toList ≠ ['.', '.'] := fun heq => hs.not_up (String.toList_inj.1 heq)
      simp [step, hnil, hhere, hup]
    rw [List.map_cons, List.foldl_cons, hstep,
      ih (fun other hother => h other (List.mem_cons_of_mem _ hother)), List.append_assoc]
    rfl

theorem foldl_step_splitOn {down : List String} (h : ∀ s ∈ down, IsSegment s)
    (segments : List String) :
    (Text.splitOn '/' (relative 0 down).toList).foldl step segments = segments ++ down := by
  rw [toList_relative_zero, Text.splitOn_eq]
  cases down with
  | nil => simp [step]
  | cons s down =>
    rw [List.splitOn_intercalate '/' _ (by simp), foldl_step_down h]
    intro part hpart
    obtain ⟨other, hother, rfl⟩ := List.mem_map.1 hpart
    exact (h other hother).no_slash

/-- From any node a relative reference leads to any node it can be written for. -/
theorem resolve_relative (common above : Path) (down : List String)
    (hdown : ∀ s ∈ down, IsSegment s)
    (hscheme : above = [] → ∀ s ∈ down.head?, ¬ Schemed s.toList) :
    resolve (common ++ above) (relative above.length down) =
      (common ++ down.map Json.str).map Json.display := by
  have hparts : parts (relative above.length down) =
      List.replicate above.length ['.', '.'] ++ Text.splitOn '/' (relative 0 down).toList := by
    rw [parts, collapse_relative hdown, dropScheme_of_not_schemed, splitOn_relative]
    exact not_schemed_relative fun hzero => hscheme (List.eq_nil_of_length_eq_zero hzero)
  have hcommon : ((common ++ above).map Json.display).take
      (((common ++ above).map Json.display).length - above.length) =
        common.map Json.display := by
    simp
  have hnames : (down.map Json.str).map Json.display = down := by
    rw [List.map_map]
    exact List.map_id _
  rw [resolve, hparts, List.foldl_append, foldl_step_up, hcommon, foldl_step_splitOn hdown,
    List.map_append, hnames]

/-- From a node with `..`, slashes and a position in its path, and from a node to what is below. -/
theorem resolve_relative_across :
    resolve [.str "..", .int 0, .str "a/b", .str "http:"] "../../c:d/é" =
        ["..", "0", "c:d", "é"] ∧
      resolve [.str "x"] "1:a/b" = ["x", "1:a", "b"] := by
  refine ⟨?_, ?_⟩
  · exact resolve_relative [.str "..", .int 0] [.str "a/b", .str "http:"] ["c:d", "é"]
      (by decide +kernel) (fun h => nomatch h)
  · refine resolve_relative [.str "x"] [] ["1:a", "b"] (by decide +kernel) ?_
    rintro - s hs ⟨letters, rest, hcs, hne, hletters⟩
    obtain ⟨c, letters, rfl⟩ := List.exists_cons_of_ne_nil hne
    obtain rfl : "1:a" = s := by simpa using hs
    obtain ⟨rfl, -⟩ := List.cons.inj hcs
    exact absurd (hletters '1' List.mem_cons_self) (by decide)

end SchemaDecl.Schema.Reference
