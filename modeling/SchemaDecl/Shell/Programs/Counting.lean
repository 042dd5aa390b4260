import SchemaDecl.Shell.Characters
import SchemaDecl.Shell.Programs.Options

/-! Counting the lines, words, bytes and characters of the input. -/

namespace SchemaDecl.Shell

open Files

structure Counts where
  lines : Nat
  words : Nat
  bytes : Nat
  chars : Nat
  longest : Nat

def wordCount : Bool → List Char → Nat
  | _, [] => 0
  | inWord, c :: rest =>
    if isSpace c then wordCount false rest
    else (if inWord then 0 else 1) + wordCount true rest

def countsOf (text : String) : Counts :=
  let cs := text.toList
  ⟨cs.count '\n', wordCount false cs, cs.length, (characters text).length,
    ((linesOf text).map fun l => (characters l).length).foldl max 0⟩

def Counts.add (a b : Counts) : Counts :=
  ⟨a.lines + b.lines, a.words + b.words, a.bytes + b.bytes, a.chars + b.chars,
    max a.longest b.longest⟩

def Counts.select (c : Counts) (o : Options) : List Nat :=
  let wanted := o.given.map Prod.fst
  if wanted.all fun l => l = '\x01' then [c.lines, c.words, c.bytes]
  else (if o.has 'l' then [c.lines] else []) ++ (if o.has 'w' then [c.words] else []) ++
    (if o.has 'm' then [c.chars] else []) ++ (if o.has 'c' then [c.bytes] else []) ++
    (if o.has 'L' then [c.longest] else [])

def wc : Program :=
  withOptions ⟨"lwcmL", "\x01", [("bytes", 'c'), ("chars", 'm'), ("lines", 'l'), ("words", 'w'),
    ("max-line-length", 'L'), ("total", '\x01')]⟩ 1 fun name o => do
  let words := if o.words.isEmpty then ["-"] else o.words
  let when_ := (o.value? '\x01').getD "auto"
  let rowsAlone := when_ != "only"
  let sizes ← words.mapM fun word => do
    if word = "-" then
      if ← isFile 0 then return some (← lookAhead 0).length else return none
    match ← nodeAt word with
    | .ok (.file content) => return some content.size
    | .ok .directory => return none
    | .error _ => return some 0
  let single := words.length = 1 && ((Counts.select ⟨0, 0, 0, 0, 0⟩ o).length = 1)
  let least := if sizes.any Option.isNone then 7 else 1
  let width := if single || when_ = "only" then 1
    else max least (toString ((sizes.filterMap id).foldl (· + ·) 0)).length
  let row := fun (label : String) (c : Counts) =>
    out (String.intercalate " " ((c.select o).map fun n => pad width false (toString n)) ++
      (if label.isEmpty || when_ = "only" then "" else " " ++ label) ++ "\n")
  let total := fun (sum : Counts) => do
    if when_ = "always" || when_ = "only" || (when_ = "auto" && 1 < words.length) then
      row "total" sum
  let (sum, failed) ← words.foldlM (fun (sum, failed) word => do
    let text ← if word = "-" then pure (.ok (← readAll 0)) else readFile word
    match text with
    | .ok text =>
      let c := countsOf text
      if rowsAlone then row (if o.words.isEmpty then "" else word) c
      return (sum.add c, failed)
    | .error fault =>
      tell name (plainReport word fault)
      if fault = .isADirectory && rowsAlone then row word ⟨0, 0, 0, 0, 0⟩
      return (sum, true)) (Counts.mk 0 0 0 0 0, false)
  total sum
  return statusOf failed

end SchemaDecl.Shell
