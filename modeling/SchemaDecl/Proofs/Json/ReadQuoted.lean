import Mathlib.Tactic.SplitIfs
import SchemaDecl.Json.Quoted
import SchemaDecl.Proofs.Json.Literals

/-! Quoted text read back. Each character of a string is quoted as one glyph with its
own number, and the first quote that was not escaped ends the literal. So a string is
read as it was before it was quoted, and whatever stands behind it is left for the
next step. -/

namespace SchemaDecl.Json.Reader

theorem hexFour_hexDigits : ∀ n < 32, hexFour? (hexDigits 4 n) = some n := by decide

/-- What is written for a character is one glyph. -/
theorem exists_glyph (c : Char) : ∃ g : Glyph, g.text = escape c ∧ g.number = c.toNat := by
  unfold escape
  split_ifs with hquote hslash hfeed hreturn htab hback hform hcontrol
  · exact ⟨.escaped '"' c (by rw [hquote]; rfl), rfl, rfl⟩
  · exact ⟨.escaped '\\' c (by rw [hslash]; rfl), rfl, rfl⟩
  · exact ⟨.escaped 'n' c (by rw [hfeed]; rfl), rfl, rfl⟩
  · exact ⟨.escaped 'r' c (by rw [hreturn]; rfl), rfl, rfl⟩
  · exact ⟨.escaped 't' c (by rw [htab]; rfl), rfl, rfl⟩
  · have hc : c = '\x08' := Char.toNat_inj.1 hback
    exact ⟨.escaped 'b' c (by rw [hc]; rfl), rfl, rfl⟩
  · have hc : c = '\x0c' := Char.toNat_inj.1 hform
    exact ⟨.escaped 'f' c (by rw [hc]; rfl), rfl, rfl⟩
  · exact ⟨.code _ _ (hexFour_hexDigits _ hcontrol), rfl, rfl⟩
  · exact ⟨.plain c ⟨hquote, hslash, hcontrol⟩, rfl, rfl⟩

theorem exists_glyphs_escape (cs : List Char) :
    ∃ gs, glyphText gs = cs.flatMap escape ∧ gs.map Glyph.number = cs.map Char.toNat := by
  induction cs with
  | nil => exact ⟨[], rfl, rfl⟩
  | cons c cs ih =>
    obtain ⟨g, htext, hnumber⟩ := exists_glyph c
    obtain ⟨gs, htexts, hnumbers⟩ := ih
    refine ⟨g :: gs, ?_, ?_⟩
    · rw [glyphText, List.flatMap_cons, ← glyphText, htext, htexts, List.flatMap_cons]
    · rw [List.map_cons, List.map_cons, hnumber, hnumbers]

/-- A string is read as it was before it was quoted, whatever follows. -/
theorem string_quote (s : String) (rest : List Char) :
    string ((quote s).toList ++ rest) = .ok (s, rest) := by
  obtain ⟨gs, htext, hnumbers⟩ := exists_glyphs_escape s.toList
  have hquote : (quote s).toList ++ rest = '"' :: (glyphText gs ++ '"' :: rest) := by
    rw [toList_quote, quoteChars, htext]
    simp
  rw [hquote, string_eq_ok_iff]
  exact ⟨gs, rfl, by rw [hnumbers, decode_chars, String.ofList_toList]⟩

end SchemaDecl.Json.Reader
