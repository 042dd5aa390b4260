import SchemaDecl.Shell.Arithmetic
import SchemaDecl.Shell.Machine
import SchemaDecl.Shell.Pattern

/-! Expansion of words. The parts of a word become glyphs: characters that know
whether they were quoted, written as they are, or put in by an expansion, and
between them the borders of the fields that `$@` makes. Only characters put in
are split at the separators, and only unquoted ones can match names of files. -/

namespace SchemaDecl.Shell

open Files

inductive Kind
  | written
  | quoted
  | expanded
  deriving DecidableEq

inductive Glyph
  | char (c : Char) (kind : Kind)
  /-- Where a field ends, or what stands there if there are no fields. -/
  | border (joint : Option Char)
  /-- Nothing to see, but it makes an empty field exist. -/
  | presence

namespace Glyph

def ofText (kind : Kind) (s : String) : List Glyph := s.toList.map fun c => .char c kind

/-- Text in quotes is there also when it is empty. -/
def ofValue (quoted : Bool) (s : String) : List Glyph :=
  if quoted then .presence :: ofText .quoted s else ofText .expanded s

def under (quoted : Bool) : Glyph → Glyph
  | .char c kind =>
    .char c (if quoted then .quoted else if kind = .written then .expanded else kind)
  | g => g

def char? : Glyph → Option Char
  | .char c _ => some c
  | .border joint => joint
  | .presence => none

def marked? : Glyph → Option Marked
  | .char c kind => some (c, kind = .quoted)
  | .border joint => joint.map fun c => (c, true)
  | .presence => none

/-- Like `marked?`, for text in which quotes do not protect what was put in. -/
def text (gs : List Glyph) : String := String.ofList (gs.filterMap char?)

def marks (gs : List Glyph) : List Marked := gs.filterMap marked?

end Glyph

/-! Values of parameters. -/

def flagsText (s : Shell) : String := String.ofList s.flags

def positional? (s : Shell) (n : Nat) : Option String :=
  if n = 0 then some s.name else s.arguments[n - 1]?

/-- The number that stands for the process of the shell. -/
def ownProcess : String := "4242"

/-- The number that stands for the process in the background. -/
def backgroundProcess : String := "4243"

/-- The value of a parameter that has one value. -/
def parameterValue? (name : String) : ShellM (Option String) := do
  let s ← get
  match name with
  | "#" => return some (toString s.arguments.length)
  | "?" => return some (toString s.status)
  | "-" => return some (flagsText s)
  | "$" => return some ownProcess
  | "!" => return s.lastJob.map fun _ => backgroundProcess
  | name => match natural? name with
    | some n => return positional? s n
    | none =>
      if s.extended && name = "LINENO" then return some (toString s.line)
      return (← variableOf name).bind Variable.value

/-- What stands between the arguments when they are joined. -/
def joint : ShellM String := do
  return String.ofList ((← separators).toList.take 1)

def listGlyphs (quoted joined : Bool) : ShellM (List Glyph) := do
  let arguments := (← get).arguments
  if quoted && joined then
    return Glyph.ofValue true (String.intercalate (← joint) arguments)
  let first := (← separators).toList.head?
  let mark := if joined then first else some ' '
  return (arguments.map (Glyph.ofValue quoted)).intersperse [Glyph.border mark] |>.flatten

def isSet (colon : Bool) (value : Option String) : Bool :=
  match value with
  | none => false
  | some v => !(colon && v.isEmpty)

/-- The value of the arguments as one parameter, for the operators that ask for it. -/
def anyValue? (name : String) : ShellM (Option String) := do
  if name = "@" || name = "*" then
    let arguments := (← get).arguments
    return if arguments.isEmpty then none else some (String.intercalate " " arguments)
  else parameterValue? name

def missingMessage (colon : Bool) (given : String) : String :=
  if given.isEmpty then "parameter not set" ++ (if colon then " or null" else "") else given

/-! Operators of the larger language. -/

def replaceMatches (pattern : Pattern) (new : List Char) (everywhere : Bool) :
    Nat → List Char → List Char
  | 0, cs => cs
  | _, [] => []
  | fuel + 1, c :: rest =>
    match startLength? pattern true (c :: rest) with
    | some (n + 1) =>
      let after := rest.drop n
      new ++ (if everywhere then replaceMatches pattern new everywhere fuel after else after)
    | _ => c :: replaceMatches pattern new everywhere fuel rest

def changeCase (everywhere : Bool) (f : Char → Char) (s : String) : String :=
  match s.toList with
  | [] => ""
  | c :: rest => String.ofList (f c :: if everywhere then rest.map f else rest)

/-- Length of a text: bytes, or in the larger language characters. -/
def lengthOf (extended : Bool) (s : String) : Nat :=
  if extended then (decode s).length else s.length

def sliceOf (s : String) (offset : Int) (length : Option Int) : String :=
  let size : Int := s.length
  let start := if offset < 0 then max 0 (size + offset) else min offset size
  let stop := match length with
    | none => size
    | some n => if n < 0 then max start (size + n) else min size (start + n)
  String.ofList ((s.toList.drop start.toNat).take (stop - start).toNat)

/-! Expansion of parts. -/

def applyArithmetic (text : String) : ShellM Int64 := do
  let s ← get
  let bindings := fun name => ((s.bindings.lookup name).bind Variable.value).getD ""
  match Arithmetic.calculate s.extended bindings text with
  | .error fault => fatal (fault.message text)
  | .ok (n, assigned) =>
    assigned.reverse.forM fun a => Shell.assign a.1 (toString a.2)
    return n

/-- The outcome of a parameter with an operator, its operands being expanded when asked for. -/
def parameterGlyphs (quoted : Bool) (name : String) (operator : Operator)
    (operand second : ShellM (List Glyph)) : ShellM (List Glyph) := do
  let s ← get
  let value ← anyValue? name
  let inner : ShellM (List Glyph) := do
    let gs ← operand
    return (if quoted then [Glyph.presence] else []) ++ gs.map (Glyph.under quoted)
  let required : ShellM String :=
    match value with
    | some v => return v
    | none =>
      if s.flags.contains 'u' && name != "@" && name != "*" then
        fatal (name ++ ": " ++
          (if s.extended then "unbound variable" else "parameter not set"))
      else return ""
  match operator with
  | .value =>
    if name = "@" || name = "*" then listGlyphs quoted (name = "*")
    else return Glyph.ofValue quoted (← required)
  | .length =>
    if (name = "@" || name = "*") && s.extended then
      return Glyph.ofValue quoted (toString s.arguments.length)
    else if name = "@" || name = "*" then
      return Glyph.ofValue quoted (toString (Glyph.text (← listGlyphs false true)).length)
    else return Glyph.ofValue quoted (toString (lengthOf s.extended (← required)))
  | .default colon =>
    if isSet colon value then
      if name = "@" || name = "*" then listGlyphs quoted (name = "*")
      else return Glyph.ofValue quoted (value.getD "")
    else inner
  | .alternative colon => if isSet colon value then inner else return []
  | .assign colon =>
    if isSet colon value then return Glyph.ofValue quoted (value.getD "")
    else do
      let new := Glyph.text (← operand)
      Shell.assign name new
      return Glyph.ofValue quoted new
  | .require colon =>
    if isSet colon value then return Glyph.ofValue quoted (value.getD "")
    else do
      let message := Glyph.text (← operand)
      fatal (name ++ ": " ++ missingMessage colon message)
  | .dropStart longest =>
    let v ← required
    let pattern := toPattern (Glyph.marks (← operand))
    let n := (startLength? pattern longest v.toList).getD 0
    return Glyph.ofValue quoted (String.ofList (v.toList.drop n))
  | .dropEnd longest =>
    let v ← required
    let pattern := toPattern (Glyph.marks (← operand))
    let n := (endStart? pattern longest v.toList).getD v.length
    return Glyph.ofValue quoted (String.ofList (v.toList.take n))
  | .replace everywhere =>
    let v ← required
    let marks := Glyph.marks (← operand)
    let new := (Glyph.text (← second)).toList
    let changed := match marks with
      | ('#', false) :: rest =>
        match startLength? (toPattern rest) true v.toList with
        | some n => new ++ v.toList.drop n
        | none => v.toList
      | ('%', false) :: rest =>
        match endStart? (toPattern rest) true v.toList with
        | some n => v.toList.take n ++ new
        | none => v.toList
      | marks =>
        if marks.isEmpty then v.toList
        else replaceMatches (toPattern marks) new everywhere (v.length + 1) v.toList
    return Glyph.ofValue quoted (String.ofList changed)
  | .slice =>
    let v ← required
    let parts := (Glyph.text (← operand)).splitOn ":"
    let offset ← applyArithmetic (parts.headD "0")
    let length ← (parts[1]?).mapM applyArithmetic
    return Glyph.ofValue quoted (sliceOf v offset.toInt (length.map Int64.toInt))
  | .upper everywhere =>
    return Glyph.ofValue quoted (changeCase everywhere Char.toUpper (← required))
  | .lower everywhere =>
    return Glyph.ofValue quoted (changeCase everywhere Char.toLower (← required))
  | .invalid => fatal "Bad substitution"

/-- Runs commands and answers with what they write. -/
abbrev Substitute := List Command → ShellM String

def withoutLineEnds (s : String) : String :=
  let cs := s.toList.filter (· != '\x00')
  String.ofList (cs.reverse.dropWhile (· = '\n')).reverse

mutual
def expandPart (substitute : Substitute) : Part → ShellM (List Glyph)
  | .text quoted s =>
    return if quoted then .presence :: Glyph.ofText .quoted s else Glyph.ofText .written s
  | .parameter quoted name operator operand second =>
    parameterGlyphs quoted name operator (expandParts substitute operand)
      (expandParts substitute second)
  | .substitution quoted body => do
    return Glyph.ofValue quoted (withoutLineEnds (← substitute body))
  | .arithmetic quoted expression => do
    let text := Glyph.text (← expandParts substitute expression)
    return Glyph.ofValue quoted (toString (← applyArithmetic text))

def expandParts (substitute : Substitute) : List Part → ShellM (List Glyph)
  | [] => return []
  | part :: rest => do
    let front ← expandPart substitute part
    return front ++ (← expandParts substitute rest)
end

/-- The home directory for a tilde at the beginning of a word. -/
def expandTilde (parts : List Part) : ShellM (List Part) := do
  match parts with
  | .text false s :: rest =>
    match s.toList with
    | '~' :: after =>
      let name := after.takeWhile (· != '/')
      let home ← if name.isEmpty then valueOf "HOME"
        else pure (if name = "root".toList then "/root" else "")
      if home.isEmpty then return parts
      return prepend (.text true home)
        (.text false (String.ofList (after.drop name.length)) :: rest)
    | _ => return parts
  | _ => return parts

def glyphsOf (substitute : Substitute) (word : List Part) : ShellM (List Glyph) := do
  expandParts substitute (← expandTilde word)

/-- A word that stays one text. -/
def expandText (substitute : Substitute) (word : List Part) : ShellM String := do
  return Glyph.text (← glyphsOf substitute word)

def expandPattern (substitute : Substitute) (word : List Part) : ShellM Pattern := do
  return toPattern (Glyph.marks (← glyphsOf substitute word))

/-! Fields. -/

inductive Gap
  /-- Right after a border, or at the beginning. -/
  | fresh
  /-- After blank separators that ended a field. -/
  | blank
  deriving DecidableEq

structure Splitting where
  done : List (List Marked)
  /-- The field that is made, backwards, if there is one. -/
  current : Option (List Marked)
  gap : Gap

def Splitting.close (s : Splitting) (gap : Gap) : Splitting :=
  match s.current with
  | some cs => ⟨s.done ++ [cs.reverse], none, gap⟩
  | none => { s with gap }

def Splitting.add (s : Splitting) (m : Marked) : Splitting :=
  { s with current := some (m :: s.current.getD []) }

def Splitting.step (separators : List Char) (s : Splitting) : Glyph → Splitting
  | .presence => { s with current := some (s.current.getD []) }
  | .border _ => s.close .fresh
  | .char c kind =>
    if kind = .expanded && separators.contains c then
      if c = ' ' || c = '\t' || c = '\n' then
        if s.current.isSome then s.close .blank else s
      else if s.current.isSome then s.close .fresh
      else if s.gap = .blank then { s with gap := .fresh }
      else { s with done := s.done ++ [[]] }
    else s.add (c, kind = .quoted)

def splitFields (separators : List Char) (gs : List Glyph) : List (List Marked) :=
  (Splitting.close (gs.foldl (Splitting.step separators) ⟨[], none, .fresh⟩) .fresh).done

/-! Names of files. -/

def splitMarks (cs : List Marked) : List (List Marked) :=
  cs.foldr (fun m parts =>
    if m.1 = '/' then [] :: parts
    else match parts with
      | [] => [[m]]
      | part :: parts => (m :: part) :: parts) [[]]

def plainText (cs : List Marked) : String := String.ofList (cs.map Prod.fst)

/-- Extends written paths by one more component; an empty path is the place where we are. -/
def matchComponent (tree : Tree) (directory : Location) (isLast : Bool) (paths : List String)
    (component : List Marked) : List String :=
  let slash := if isLast then "" else "/"
  paths.flatMap fun path =>
    let l := Location.within directory (decode path)
    if component.any isSpecialMark then
      let pattern := toPattern component
      let hidden := component.head? = some ('.', false) || component.head? = some ('.', true)
      let names := match tree.resolve l with
        | .ok l => tree.namesIn l
        | .error _ => []
      let names := (names.map encode) ++ (if hidden then [".", ".."] else [])
      let found := names.filter fun name =>
        (hidden || name.toList.head? != some '.') && pattern.matchesAll name.toList
      let found := if isLast then found
        else found.filter fun name =>
          tree.isDirectory (Location.within directory (decode (path ++ name)))
      (sortedTexts found).map fun name => path ++ name ++ slash
    else
      let path := path ++ plainText component
      if !isLast || (tree.isThere (Location.within directory (decode path))).toOption = some true
      then [path ++ slash] else []

def matchComponents (tree : Tree) (directory : Location) : List String → List (List Marked) →
    List String
  | paths, [] => paths
  | paths, [component] => matchComponent tree directory true paths component
  | paths, component :: rest =>
    matchComponents tree directory (matchComponent tree directory false paths component) rest

/-- The names a field stands for: the paths it matches, or else itself. -/
def fileNames (tree : Tree) (directory : Location) (field : List Marked) : List String :=
  if field.any isSpecialMark then
    match matchComponents tree directory [""] (splitMarks field) with
    | [] => [plainText field]
    | found => sortedTexts found
  else [plainText field]

/-! Braces of the larger language. -/

/-- The alternatives of the first braces that have some, around the text before and after. -/
def alternatives? (s : String) : Option (List String) :=
  let before := s.toList.takeWhile (· != '\x7b')
  let rest := s.toList.drop (before.length + 1)
  let inside := rest.takeWhile fun c => c != '\x7d' && c != '\x7b'
  let after := rest.drop inside.length
  if after.head? != some '\x7d' then none
  else
    let around := fun (x : String) =>
      String.ofList before ++ x ++ String.ofList (after.drop 1)
    match (String.ofList inside).splitOn ".." with
    | [a, b] => match integer? a, integer? b with
      | some a, some b =>
        let n := (b - a).natAbs + 1
        some ((List.range n).map fun (i : Nat) =>
          around (toString (if a ≤ b then a + Int.ofNat i else a - Int.ofNat i)))
      | _, _ => none
    | _ =>
      let choices := (String.ofList inside).splitOn ","
      if choices.length < 2 then none else some (choices.map around)

def expandBraces : Nat → List Part → List (List Part)
  | 0, word => [word]
  | fuel + 1, word => match word with
    | [.text false s] => match alternatives? s with
      | some choices => choices.flatMap fun c => expandBraces fuel [.text false c]
      | none => [word]
    | .text false s :: rest => match alternatives? s with
      | some choices => choices.flatMap fun c => expandBraces fuel (prepend (.text false c) rest)
      | none => [word]
    | word => [word]

/-- The fields of a word. -/
def expandFields (substitute : Substitute) (word : List Part) : ShellM (List String) := do
  let gs ← glyphsOf substitute word
  let fields := splitFields (← separators).toList gs
  if ← hasFlag 'f' then return fields.map plainText
  let s ← get
  return fields.flatMap (fileNames s.machine.tree s.directory)

def expandWords (substitute : Substitute) (words : List (List Part)) : ShellM (List String) := do
  let words := if (← get).extended then words.flatMap (expandBraces 8) else words
  return (← words.mapM (expandFields substitute)).flatten

end SchemaDecl.Shell
