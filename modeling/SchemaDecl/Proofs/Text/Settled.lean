import Mathlib.Data.List.DropRight
import SchemaDecl.Text.Blank
import SchemaDecl.Text.LowerCase

/-! Text that trimming and lower case leave alone. A trimmed text has no blanks
at its ends, so a second trim finds nothing. For lower case the table of runs is
checked against itself: no run leads into a run, and neither does it lead to the
dotted capital, so every character that is written is settled, and a capital
sigma is never written at all. -/

namespace SchemaDecl.Text

theorem trimEnd_eq_rdropWhile (cs : List Char) : trimEnd cs = cs.rdropWhile isBlank := rfl

theorem dropWhile_of_prefix {p : Char → Bool} {kept cs : List Char}
    (h : kept <+: cs.dropWhile p) : kept.dropWhile p = kept := by
  cases kept with
  | nil => rfl
  | cons c rest =>
    obtain ⟨more, hmore⟩ := h
    have hne : cs.dropWhile p ≠ [] := by simp [← hmore]
    have hhead := List.head_dropWhile_not p hne
    simp only [← hmore, List.cons_append, List.head_cons] at hhead
    simp [hhead]

theorem trimStart_trimEnd_trimStart (cs : List Char) :
    trimStart (trimEnd (trimStart cs)) = trimEnd (trimStart cs) := by
  rw [trimEnd_eq_rdropWhile]
  exact dropWhile_of_prefix (List.rdropWhile_prefix isBlank _)

/-- A second trim changes nothing. -/
theorem trim_trim (cs : List Char) : trim (trim cs) = trim cs := by
  unfold trim
  rw [trimStart_trimEnd_trimStart, trimEnd_eq_rdropWhile, trimEnd_eq_rdropWhile,
    List.rdropWhile_idempotent]

theorem strip_strip (s : String) : strip (strip s) = strip s := by
  rw [strip, toList_strip, trim_trim, ← strip]

/-! Lower case. -/

/-- The first character that a run leads to. -/
def CaseRun.image (r : CaseRun) : Nat := (r.first + r.offset).toNat

def CaseRun.covers (r : CaseRun) (n : Nat) : Bool :=
  r.first ≤ n && n ≤ r.last && (n - r.first) % r.step == 0

/-- The run `q` holds no character that `r` leads to: the two lie apart, or they alternate. -/
def CaseRun.avoids (r q : CaseRun) : Bool :=
  Nat.blt (r.image + (r.last - r.first)) q.first || Nat.blt q.last r.image ||
    (Nat.beq q.step 2 && (Nat.beq r.step 2 || Nat.beq r.first r.last) &&
      Nat.beq ((r.image + q.first) % 2) 1)

/-- The dotted capital I, which has no place in the table. -/
def dottedRun : CaseRun := ⟨0x130, 0x130, 1, 0⟩

/-- The check of the table: every run leads to characters, and into no run. -/
theorem lowerRuns_settled : (lowerRuns.all fun r =>
    decide (0 ≤ r.first + r.offset) && (dottedRun :: lowerRuns).all r.avoids) = true := by
  decide +kernel

theorem CaseRun.not_covers_of_avoids {r q : CaseRun} (h : r.avoids q = true) {n : Nat}
    (hr : r.covers n = true) (h0 : 0 ≤ r.first + r.offset) :
    q.covers (n + r.offset).toNat = false := by
  simp only [covers, Bool.and_eq_true, decide_eq_true_eq, beq_iff_eq] at hr
  obtain ⟨⟨hfirst, hlast⟩, hstep⟩ := hr
  have himage : (n + r.offset).toNat = r.image + (n - r.first) := by unfold image; omega
  rw [Bool.eq_false_iff]
  intro hq
  simp only [covers, Bool.and_eq_true, decide_eq_true_eq, beq_iff_eq, himage] at hq
  obtain ⟨⟨qfirst, qlast⟩, qstep⟩ := hq
  simp only [avoids, Bool.or_eq_true, Bool.and_eq_true, Nat.blt_eq, Nat.beq_eq] at h
  rcases h with (h | h) | ⟨⟨hq2, hr2⟩, hodd⟩
  · omega
  · omega
  · rw [hq2] at qstep
    rcases hr2 with hr2 | hr2
    · rw [hr2] at hstep
      omega
    · omega

/-- Lower case leaves the character alone, wherever it stands. -/
def Lowered (c : Char) : Prop := c ≠ 'Σ' ∧ lowerChar c = [c]

theorem lowerFrom_of_lowered {cs : List Char} (h : ∀ c ∈ cs, Lowered c) (before : List Char) :
    lowerFrom before cs = cs := by
  induction cs generalizing before with
  | nil => rfl
  | cons c rest ih =>
    obtain ⟨hsigma, hchar⟩ := h c List.mem_cons_self
    rw [lowerFrom, if_neg hsigma, hchar, ih (fun d hd => h d (List.mem_cons_of_mem _ hd))]
    rfl

/-- A character that no run covers, the dotted capital included, is settled. -/
theorem lowered_of_not_covered {c : Char}
    (h : ∀ r ∈ dottedRun :: lowerRuns, r.covers c.toNat = false) : Lowered c := by
  have hdotted : c.toNat ≠ 0x130 := by
    intro e
    have := h dottedRun List.mem_cons_self
    rw [e] at this
    exact absurd this (by decide)
  have hfind : lowerRuns.find? (fun r => r.first ≤ c.toNat && c.toNat ≤ r.last &&
      (c.toNat - r.first) % r.step == 0) = none := by
    rw [List.find?_eq_none]
    intro r hr
    simpa [CaseRun.covers] using h r (List.mem_cons_of_mem _ hr)
  constructor
  · rintro rfl
    have hrun : ⟨0x3a3, 0x3ab, 1, 32⟩ ∈ lowerRuns := List.mem_of_getElem? (i := 70) rfl
    exact absurd (h _ (List.mem_cons_of_mem _ hrun)) (by decide)
  · unfold lowerChar
    rw [if_neg hdotted]
    split
    · -- the ASCII letters are covered by the first run
      have hrun : ⟨0x41, 0x5a, 1, 32⟩ ∈ lowerRuns := List.mem_of_getElem? (i := 0) rfl
      have hupper := h _ (List.mem_cons_of_mem _ hrun)
      congr 1
      unfold Char.toLower
      split
      · rename_i _ hc
        simp only [CaseRun.covers, Nat.mod_one, beq_self_eq_true, Bool.and_true,
          Bool.and_eq_false_iff, decide_eq_false_iff_not] at hupper
        have hge : 0x41 ≤ c.toNat := hc.1
        have hle : c.toNat ≤ 0x5a := hc.2
        omega
      · rfl
    · rw [hfind]

theorem lowered_toLower : ∀ n < 0x80, Lowered (Char.ofNat n).toLower := by
  unfold Lowered
  decide +kernel

/-- The characters that only the rules beside the table write. -/
theorem lowered_marks : ∀ c ∈ ['\u0307', 'ς', 'σ'], Lowered c := by
  have huncovered : (['\u0307', 'ς', 'σ'].all fun c =>
      (dottedRun :: lowerRuns).all fun r => !r.covers c.toNat) = true := by decide +kernel
  simp only [List.all_eq_true, Bool.not_eq_true'] at huncovered
  exact fun c hc => lowered_of_not_covered (huncovered c hc)

theorem lowered_ofNat_image {r : CaseRun} (hr : r ∈ lowerRuns) {n : Nat}
    (hn : r.covers n = true) : Lowered (Char.ofNat (n + r.offset).toNat) := by
  have hsettled := List.all_eq_true.mp lowerRuns_settled r hr
  simp only [Bool.and_eq_true, decide_eq_true_eq] at hsettled
  obtain ⟨himage, havoid⟩ := hsettled
  by_cases hvalid : (n + r.offset).toNat.isValidChar
  · apply lowered_of_not_covered
    intro q hq
    rw [Char.ofNat, dif_pos hvalid, show (Char.ofNatAux _ hvalid).toNat = _ from rfl]
    exact CaseRun.not_covers_of_avoids (List.all_eq_true.mp havoid q hq) hn himage
  · rw [Char.ofNat, dif_neg hvalid]
    exact lowered_toLower 0 (by decide)

theorem lowered_of_mem_lowerChar {c d : Char} (hc : c ≠ 'Σ') (h : d ∈ lowerChar c) : Lowered d := by
  simp only [lowerChar] at h
  split at h
  · rename_i hascii
    rw [List.mem_singleton] at h
    rw [h, ← Char.ofNat_toNat c]
    exact lowered_toLower _ hascii
  · rename_i hascii
    split at h
    · simp only [List.mem_cons, List.not_mem_nil, or_false] at h
      rcases h with rfl | rfl
      · exact lowered_toLower 0x69 (by decide)
      · exact lowered_marks _ (by simp)
    · rename_i hdotted
      cases hfind : lowerRuns.find? fun r => r.first ≤ c.toNat && c.toNat ≤ r.last &&
          (c.toNat - r.first) % r.step == 0 with
      | none =>
        rw [hfind, List.mem_singleton] at h
        refine h ▸ ⟨hc, ?_⟩
        rw [lowerChar, if_neg hascii, if_neg hdotted, hfind]
      | some r =>
        rw [hfind, List.mem_singleton] at h
        have hcovers : r.covers c.toNat = true := by
          have := List.find?_some hfind
          exact this
        rw [h]
        exact lowered_ofNat_image (List.mem_of_find?_eq_some hfind) hcovers

theorem lowered_of_mem_lowerFrom {before cs : List Char} {d : Char}
    (h : d ∈ lowerFrom before cs) : Lowered d := by
  induction cs generalizing before with
  | nil => cases h
  | cons c rest ih =>
    rw [lowerFrom, List.mem_append] at h
    rcases h with h | h
    · split at h
      · split at h <;> rw [List.mem_singleton] at h <;> exact h ▸ lowered_marks _ (by simp)
      · exact lowered_of_mem_lowerChar (by assumption) h
    · exact ih h

/-- Lower case of lower case is the same text. -/
theorem lower_lower (s : String) : lower (lower s) = lower s := by
  unfold lower
  rw [String.toList_ofList, lowerFrom_of_lowered fun c hc => lowered_of_mem_lowerFrom hc]

end SchemaDecl.Text
