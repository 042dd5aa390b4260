import SchemaDecl.Shell.Characters

/-! Regular expressions, in the basic and the extended notation. They differ only
in which of the special characters need a backslash. A match is sought from the
left; a repetition takes as much as it can, and of several alternatives the one
counts that makes the whole match longest. -/

namespace SchemaDecl.Shell

inductive Regex
  | char (c : Char)
  | anyOne
  | oneOf (negated : Bool) (ranges : List (Char × Char)) (classes : List String)
  | group (index : Nat) (inside : Regex)
  | sequence (items : List Regex)
  | either (choices : List Regex)
  | repeated (item : Regex) (least : Nat) (most : Option Nat)
  | lineStart
  | lineEnd
  | textStart
  | textEnd
  | again (index : Nat)
  | boundary (before after : Option Bool)
  | notBoundary

namespace Regex

/-- A notation. A lenient one lets a repetition with nothing before it stand for itself, where
another one refuses it. -/
structure Notation where
  extended : Bool
  lenient : Bool

def basic : Notation := ⟨false, false⟩

def extended : Notation := ⟨true, false⟩

/-! Reading. -/

inductive Item
  | plain (c : Char)
  | opening
  | closing
  | bar
  | star
  | plus
  | optional
  | bounds
  | escaped (c : Char)

/-- The next item of the notation and what follows it. -/
def item? (n : Notation) : List Char → Option (Item × List Char)
  | [] => none
  | ['\\'] => some (.plain '\\', [])
  | '\\' :: c :: rest => some (match n.extended, c with
    | false, '(' => (.opening, rest)
    | false, ')' => (.closing, rest)
    | false, '|' => (.bar, rest)
    | false, '+' => (.plus, rest)
    | false, '?' => (.optional, rest)
    | false, '\x7b' => (.bounds, rest)
    | _, c => (.escaped c, rest))
  | c :: rest => some (match n.extended, c with
    | true, '(' => (.opening, rest)
    | true, ')' => (.closing, rest)
    | true, '|' => (.bar, rest)
    | true, '+' => (.plus, rest)
    | true, '?' => (.optional, rest)
    | true, '\x7b' => (.bounds, rest)
    | _, '*' => (.star, rest)
    | _, c => (.plain c, rest))

abbrev Reading := Except String

def unmatchedOpening : String := "Unmatched ( or \\("

def unmatchedClosing : String := "Unmatched ) or \\)"

def unmatchedBracket : String := "Unmatched [, [^, [:, [., or [="

def nothingToRepeat : String := "Invalid preceding regular expression"

def tooBig : String := "Regular expression too big"

def wordClass (negated : Bool) : Regex := .oneOf negated [('_', '_')] ["alnum"]

def escapedItem (groups : Nat) (c : Char) : Reading Regex :=
  match c with
  | 'w' => .ok (wordClass false)
  | 'W' => .ok (wordClass true)
  | 's' => .ok (.oneOf false [] ["space"])
  | 'S' => .ok (.oneOf true [] ["space"])
  | 'b' => .ok (.boundary none none)
  | 'B' => .ok .notBoundary
  | '<' => .ok (.boundary (some false) (some true))
  | '>' => .ok (.boundary (some true) (some false))
  | '\x60' => .ok .textStart
  | '\x27' => .ok .textEnd
  | c =>
    if c.isDigit && c != '0' then
      if c.toNat - 48 ≤ groups then .ok (.again (c.toNat - 48)) else .error "Invalid back reference"
    else .ok (.char c)

/-- The inside of brackets: single characters and ranges of them, and classes. -/
structure BracketSet where
  ranges : List (Char × Char)
  classes : List String

def knownClasses : List String :=
  ["alpha", "digit", "alnum", "upper", "lower", "space", "blank", "punct", "cntrl", "print",
    "graph", "xdigit"]

/-- The end point of a range: a character, which may stand between brackets and dots. -/
def bracketChar? (cs : List Char) : Option (Char × List Char) :=
  match cs with
  | '[' :: '.' :: c :: '.' :: ']' :: rest => some (c, rest)
  | '[' :: '=' :: c :: '=' :: ']' :: rest => some (c, rest)
  | c :: rest => some (c, rest)
  | [] => none

/-- Reads the inside of brackets up to the end of them; a bracket that closes is an ordinary
character at the beginning. -/
def bracketSet : Nat → Bool → BracketSet → List Char → Reading (BracketSet × List Char)
  | 0, _, _, _ => .error tooBig
  | fuel + 1, isFirst, set, cs => match cs with
    | '[' :: ':' :: rest =>
      let name := String.ofList (rest.takeWhile Char.isAlpha)
      match rest.drop name.length with
      | ':' :: ']' :: rest =>
        if knownClasses.contains name then
          bracketSet fuel false { set with classes := set.classes ++ [name] } rest
        else .error "Invalid character class name"
      | _ => .error unmatchedBracket
    | ']' :: rest =>
      if isFirst then bracketRange fuel set (']' :: rest) else .ok (set, rest)
    | cs => bracketRange fuel set cs
where
  bracketRange (fuel : Nat) (set : BracketSet) (cs : List Char) :
      Reading (BracketSet × List Char) :=
    match bracketChar? cs with
    | none => .error unmatchedBracket
    | some (c, '-' :: rest) =>
      if rest.head? = some ']' then
        bracketSet fuel false { set with ranges := set.ranges ++ [(c, c)] } ('-' :: rest)
      else match bracketChar? rest with
        | none => .error unmatchedBracket
        | some (d, rest) =>
          if d < c then .error "Invalid range end"
          else bracketSet fuel false { set with ranges := set.ranges ++ [(c, d)] } rest
    | some (c, rest) =>
      bracketSet fuel false { set with ranges := set.ranges ++ [(c, c)] } rest

def isClassAlone (s : BracketSet) : Bool :=
  match s.ranges with
  | (':', ':') :: rest => 1 < rest.length && rest.getLast? = some (':', ':')
  | _ => false

def bracketItem (cs : List Char) : Reading (Regex × List Char) := do
  let (negated, cs) := match cs with
    | '^' :: rest => (true, rest)
    | cs => (false, cs)
  if cs.isEmpty then throw "Invalid regular expression"
  let (set, rest) ← bracketSet (cs.length + 1) true ⟨[], []⟩ cs
  if isClassAlone set then throw "character class syntax is [[:space:]], not [:space:]"
  return (.oneOf negated set.ranges set.classes, rest)

/-- The numbers in braces, up to their end. -/
def boundsOf (n : Notation) (cs : List Char) : Reading (Nat × Option Nat × List Char) := do
  let least := cs.takeWhile Char.isDigit
  let rest := cs.drop least.length
  let (most, rest) : Option Nat × List Char := match rest with
    | ',' :: rest =>
      let digits := rest.takeWhile Char.isDigit
      (if digits.isEmpty then none else some (natOf digits), rest.drop digits.length)
    | rest => (some (natOf least), rest)
  let after := match n.extended, rest with
    | true, '\x7d' :: rest => some rest
    | false, '\\' :: '\x7d' :: rest => some rest
    | _, _ => none
  match after with
  | none =>
    if !rest.contains '\x7d' then throw "Unmatched \\\x7b"
    else throw "Invalid content of \\\x7b\\\x7d"
  | some rest =>
    if least.isEmpty && cs.head? != some ',' then throw "Invalid content of \\\x7b\\\x7d"
    else if (most.any fun m => m < natOf least) then throw "Invalid content of \\\x7b\\\x7d"
    else if 32767 < natOf least || (most.any fun m => 32767 < m) then throw tooBig
    else return (natOf least, most, rest)

/-- What is read, how many groups were opened so far, and the text after it. -/
abbrev Step := Reading (Regex × Nat × List Char)

def isAtEnd (n : Notation) (cs : List Char) : Bool :=
  match item? n cs with
  | none => true
  | some (.closing, _) | some (.bar, _) => true
  | _ => false

/-- A sign of repetition where there is nothing to repeat. -/
def unrepeated (n : Notation) (c : Char) : Reading Regex :=
  if n.extended && !n.lenient then .error nothingToRepeat
  else if n.extended then .ok (.sequence [])
  else .ok (.char c)

mutual
/-- Reads repetitions after an item. In the basic notation a repetition cannot be repeated. -/
def suffixes (n : Notation) : Nat → Bool → Regex → List Char → Reading (Regex × List Char)
  | 0, _, _, _ => .error tooBig
  | fuel + 1, second, r, cs => match item? n cs with
    | some (.star, rest) => suffix n fuel second (.repeated r 0 none) rest
    | some (.plus, rest) => suffix n fuel second (.repeated r 1 none) rest
    | some (.optional, rest) => suffix n fuel second (.repeated r 0 (some 1)) rest
    | some (.bounds, rest) => match boundsOf n rest with
      | .ok (least, most, rest) => suffix n fuel second (.repeated r least most) rest
      | .error message =>
        if n.extended && n.lenient && !message.startsWith "Invalid content" then .ok (r, cs)
        else if n.extended && n.lenient && (rest.head?.any fun c => !c.isDigit && c != ',') then
          .ok (r, cs)
        else .error message
    | _ => .ok (r, cs)

def suffix (n : Notation) : Nat → Bool → Regex → List Char → Reading (Regex × List Char)
  | 0, _, _, _ => .error tooBig
  | fuel + 1, second, r, rest =>
    if second && !n.extended && !n.lenient then .error nothingToRepeat
    else suffixes n fuel true r rest
end

mutual
def choices (n : Notation) : Nat → Nat → List Char → Step
  | 0, _, _ => .error tooBig
  | fuel + 1, groups, cs => do
    let (first, groups, rest) ← pieces n fuel groups true cs
    match item? n rest with
    | some (.bar, rest) =>
      let (others, groups, rest) ← choices n fuel groups rest
      match others with
      | .either rs => return (.either (first :: rs), groups, rest)
      | r => return (.either [first, r], groups, rest)
    | _ => return (first, groups, rest)

def pieces (n : Notation) : Nat → Nat → Bool → List Char → Step
  | 0, _, _, _ => .error tooBig
  | fuel + 1, groups, isFirst, cs =>
    if isAtEnd n cs then .ok (.sequence [], groups, cs)
    else do
      let (r, groups, rest) ← atom n fuel groups isFirst cs
      let isAnchor := match r with
        | .lineStart => true
        | _ => false
      let (r, rest) ← if isAnchor then pure (r, rest)
        else suffixes n (2 * rest.length + 2) false r rest
      let (others, groups, rest) ← pieces n fuel groups isAnchor rest
      match others with
      | .sequence rs => return (.sequence (r :: rs), groups, rest)
      | other => return (.sequence [r, other], groups, rest)

def atom (n : Notation) : Nat → Nat → Bool → List Char → Step
  | 0, _, _, _ => .error tooBig
  | fuel + 1, groups, isFirst, cs => do
    match item? n cs with
    | none => return (.sequence [], groups, [])
    | some (item, rest) => match item with
      | .opening =>
        let index := groups + 1
        let (inside, groups, rest) ← choices n fuel index rest
        match item? n rest with
        | some (.closing, rest) => return (.group index inside, groups, rest)
        | _ => throw unmatchedOpening
      | .plain '.' => return (.anyOne, groups, rest)
      | .plain '[' => do
        let (r, rest) ← bracketItem rest
        return (r, groups, rest)
      | .plain '^' =>
        return (if n.extended || isFirst then .lineStart else .char '^', groups, rest)
      | .plain '$' =>
        return (if n.extended || isAtEnd n rest then .lineEnd else .char '$', groups, rest)
      | .plain '\\' => throw "Trailing backslash"
      | .plain c => return (.char c, groups, rest)
      | .escaped c => return (← escapedItem groups c, groups, rest)
      | .star => return (← unrepeated n '*', groups, rest)
      | .plus => return (← unrepeated n '+', groups, rest)
      | .optional => return (← unrepeated n '?', groups, rest)
      | .bounds =>
        if n.lenient then match n.extended, boundsOf n rest with
          | true, .ok (_, _, rest) => return (.sequence [], groups, rest)
          | _, _ => return (.char '\x7b', groups, rest)
        else throw nothingToRepeat
      | .closing | .bar => throw unmatchedClosing
end

/-- Protects closing parentheses without an opening one, which a lenient notation takes as they
are. -/
def protectClosings : Nat → Nat → List Char → List Char
  | 0, _, cs => cs
  | fuel + 1, depth, cs => match item? extended cs with
    | none => []
    | some (item, rest) =>
      let step := fun (depth : Nat) (rest : List Char) =>
        cs.take (cs.length - rest.length) ++ protectClosings fuel depth rest
      match item with
      | .opening => step (depth + 1) rest
      | .closing =>
        if depth = 0 then '\\' :: ')' :: protectClosings fuel 0 rest else step (depth - 1) rest
      | .plain '[' => match bracketItem rest with
        | .ok (_, rest) => step depth rest
        | .error _ => cs
      | _ => step depth rest

def read (n : Notation) (cs : List Char) : Reading Regex := do
  let cs := if n.extended && n.lenient then protectClosings (cs.length + 1) 0 cs else cs
  let (r, _, rest) ← choices n (8 * cs.length + 8) 0 cs
  if rest.isEmpty then return r else throw unmatchedClosing

/-- Repetitions in the extended notation that have nothing before them. -/
def strayRepetitions : Nat → Bool → List Char → List String
  | 0, _, _ => []
  | fuel + 1, atStart, cs => match item? extended cs with
    | none => []
    | some (item, rest) => match item with
      | .opening | .bar => strayRepetitions fuel true rest
      | .plain '^' => strayRepetitions fuel atStart rest
      | .plain '[' => match bracketItem rest with
        | .ok (_, rest) => strayRepetitions fuel false rest
        | .error _ => []
      | .star => named fuel atStart "*" rest
      | .plus => named fuel atStart "+" rest
      | .optional => named fuel atStart "?" rest
      | .bounds => match boundsOf extended rest with
        | .ok (_, _, rest) => named fuel atStart "\x7b...\x7d" rest
        | .error _ => strayRepetitions fuel false rest
      | .plain _ | .escaped _ | .closing => strayRepetitions fuel false rest
where
  named (fuel : Nat) (atStart : Bool) (name : String) (rest : List Char) : List String :=
    (if atStart then [name] else []) ++ strayRepetitions fuel atStart rest

/-! Matching. -/

/-- The text to be searched. With several lines in it, anchors hold at each of them; the
character that ends a line is part of it. -/
structure Subject where
  text : Array Char
  ignoreCase : Bool
  lineEnd : Option Char

/-- Where groups begin and end. -/
abbrev Groups := List (Nat × Nat × Nat)

abbrev Outcome := Option (Nat × Groups)

def sameChar (s : Subject) (a b : Char) : Bool :=
  a = b || (s.ignoreCase && lowerCase a = lowerCase b)

def admits (s : Subject) (c : Char) (negated : Bool) (ranges : List (Char × Char))
    (classes : List String) : Bool :=
  let inside := fun c => isInRanges c ranges || classes.any (isOfClass c)
  !isStray c &&
    (inside c || (s.ignoreCase && (inside (lowerCase c) || inside (upperCase c)))) != negated

def isWordAt (s : Subject) (position : Nat) : Bool :=
  match s.text[position]? with
  | some c => isWordChar c
  | none => false

def longer (a b : Outcome) : Outcome :=
  match a, b with
  | some x, some y => if x.1 < y.1 then some y else some x
  | some x, none => some x
  | none, b => b

def slice (s : Subject) (start stop : Nat) : List Char := (s.text.extract start stop).toList

mutual
/-- Matches from a position on and goes on with what follows. -/
def matchAt (s : Subject) : Nat → Regex → Nat → Groups → (Nat → Groups → Outcome) → Outcome
  | 0, _, _, _, _ => none
  | fuel + 1, r, position, groups, go => match r with
    | .char c => match s.text[position]? with
      | some d => if sameChar s c d then go (position + 1) groups else none
      | none => none
    | .anyOne => match s.text[position]? with
      | some d => if isStray d then none else go (position + 1) groups
      | none => none
    | .oneOf negated ranges classes => match s.text[position]? with
      | some d => if admits s d negated ranges classes then go (position + 1) groups else none
      | none => none
    | .group index inside =>
      matchAt s fuel inside position groups fun stop groups =>
        go stop ((index, position, stop) :: groups.filter fun g => g.1 != index)
    | .sequence items => matchItems s fuel items position groups go
    | .either rs => rs.foldl (fun best r => longer best (matchAt s fuel r position groups go)) none
    | .repeated item least most => matchRepeated s fuel item least most position groups go
    | .lineStart =>
      if position = 0 || (s.lineEnd.isSome && s.text[position - 1]? = s.lineEnd) then
        go position groups
      else none
    | .lineEnd =>
      if position = s.text.size || (s.lineEnd.isSome && s.text[position]? = s.lineEnd) then
        go position groups
      else none
    | .textStart => if position = 0 then go position groups else none
    | .textEnd => if position = s.text.size then go position groups else none
    | .again index => match groups.find? fun g => g.1 = index with
      | some (_, start, stop) =>
        let part := slice s start stop
        let there := slice s position (position + part.length)
        if there.length = part.length && (there.zip part).all (fun (a, b) => sameChar s a b) then
          go (position + part.length) groups
        else none
      | none => none
    | .notBoundary =>
      if (0 < position && isWordAt s (position - 1)) = isWordAt s position then go position groups
      else none
    | .boundary before after =>
      let left := 0 < position && isWordAt s (position - 1)
      let right := isWordAt s position
      let fits := match before, after with
        | some b, some a => left = b && right = a
        | _, _ => left != right
      if fits then go position groups else none

def matchItems (s : Subject) : Nat → List Regex → Nat → Groups → (Nat → Groups → Outcome) → Outcome
  | 0, _, _, _, _ => none
  | fuel + 1, items, position, groups, go => match items with
    | [] => go position groups
    | r :: rest => matchAt s fuel r position groups fun position groups =>
      matchItems s fuel rest position groups go

def matchRepeated (s : Subject) : Nat → Regex → Nat → Option Nat → Nat → Groups →
    (Nat → Groups → Outcome) → Outcome
  | 0, _, _, _, _, _, _ => none
  | fuel + 1, item, least, most, position, groups, go =>
    let more := if most = some 0 then none
      else matchAt s fuel item position groups fun stop groups =>
        if stop = position && least = 0 then none
        else matchRepeated s fuel item (least - 1) (most.map (· - 1)) stop groups go
    match more with
    | some outcome => some outcome
    | none => if least = 0 then go position groups else none
end

mutual
def size : Regex → Nat
  | .group _ r => size r + 2
  | .sequence rs => sizes rs + 1
  | .either rs => sizes rs + 1
  | .repeated r least most => size r * (max least (most.getD 0) + 1) + 2
  | _ => 1

def sizes : List Regex → Nat
  | [] => 1
  | r :: rs => size r + sizes rs + 1
end

structure Match where
  start : Nat
  stop : Nat
  groups : Groups

/-- The first match at or after a position whose beginning and end are accepted. -/
def findWhere (s : Subject) (r : Regex) (accept : Nat → Nat → Bool) (start : Nat) :
    Option Match :=
  let fuel := (r.size + 4) * (s.text.size + 4)
  (List.range (s.text.size + 1 - start)).findSome? fun n =>
    let position := start + n
    (matchAt s fuel r position [] fun stop groups =>
      if accept position stop then some (stop, groups) else none).map
      fun (stop, groups) => ⟨position, stop, groups⟩

/-- The first match at or after a position. -/
def find? (s : Subject) (r : Regex) (start : Nat) : Option Match :=
  findWhere s r (fun _ _ => true) start

def Match.group (s : Subject) (m : Match) (index : Nat) : List Char :=
  if index = 0 then slice s m.start m.stop
  else match m.groups.find? fun g => g.1 = index with
    | some (_, start, stop) => slice s start stop
    | none => []

def subject (ignoreCase : Bool) (text : List Char) : Subject := ⟨text.toArray, ignoreCase, none⟩

def occurs (ignoreCase : Bool) (r : Regex) (text : List Char) : Bool :=
  (find? (subject ignoreCase text) r 0).isSome

mutual
/-- How many groups an expression has. -/
def groupCount : Regex → Nat
  | .group _ r => groupCount r + 1
  | .sequence rs => groupCounts rs
  | .either rs => groupCounts rs
  | .repeated r _ _ => groupCount r
  | _ => 0

def groupCounts : List Regex → Nat
  | [] => 0
  | r :: rs => groupCount r + groupCounts rs
end

mutual
/-- Whether an expression looks at bytes rather than characters: it holds no anchor at words, and
its sets name single characters of one byte. -/
def isBytewise : Regex → Bool
  | .oneOf negated ranges classes =>
    !negated && classes.isEmpty && ranges.all fun r => r.1 = r.2 && r.1.toNat < 0x80
  | .boundary .. | .notBoundary => false
  | .group _ r | .repeated r _ _ => isBytewise r
  | .sequence rs | .either rs => areBytewise rs
  | _ => true

def areBytewise : List Regex → Bool
  | [] => true
  | r :: rs => isBytewise r && areBytewise rs
end

end Regex

end SchemaDecl.Shell
