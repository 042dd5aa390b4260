/-! Line structure of text. `splitLines` cuts at every line end of Unicode and
at the separators U+001C to U+001E; a carriage return followed by a line feed is
one line end, and an end of line at the very end opens no further line.
`joinLines` is the other direction with plain line feeds. `unifyLineEnds` is
what reading a text file does: both carriage return forms become a line feed. -/

namespace SchemaDecl.Text

def isLineEnd (c : Char) : Bool :=
  [0xa, 0xb, 0xc, 0xd, 0x1c, 0x1d, 0x1e, 0x85, 0x2028, 0x2029].contains c.toNat

def splitLines : List Char → List (List Char)
  | [] => []
  | '\r' :: '\n' :: rest => [] :: splitLines rest
  | c :: rest =>
    if isLineEnd c then [] :: splitLines rest
    else match splitLines rest with
      | [] => [[c]]
      | line :: lines => (c :: line) :: lines

def linesOf (s : String) : List String := (splitLines s.toList).map String.ofList

def joinLines (lines : List String) : String := String.intercalate "\n" lines

def unifyLineEndChars : List Char → List Char
  | [] => []
  | '\r' :: '\n' :: rest => '\n' :: unifyLineEndChars rest
  | c :: rest => (if c = '\r' then '\n' else c) :: unifyLineEndChars rest

def unifyLineEnds (s : String) : String := String.ofList (unifyLineEndChars s.toList)

theorem splitLines_ne_nil {cs : List Char} (h : cs ≠ []) : splitLines cs ≠ [] := by
  fun_cases splitLines cs <;> simp_all

theorem not_mem_unifyLineEndChars (cs : List Char) : '\r' ∉ unifyLineEndChars cs := by
  fun_induction unifyLineEndChars cs <;> simp_all
  split <;> simp_all [eq_comm]

end SchemaDecl.Text
