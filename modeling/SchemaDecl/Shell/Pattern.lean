import SchemaDecl.Shell.Bytes

/-! Patterns of the shell. A pattern is made from characters of which each is
quoted or not; only unquoted ones are special. A star stands for any text, a
question mark for any character, and brackets for one of the characters in them,
or with an exclamation mark for none of them. Brackets without an end stand for
themselves. -/

namespace SchemaDecl.Shell

/-- A character and whether it is quoted. -/
abbrev Marked := Char × Bool

inductive PatternItem
  | exactly (c : Char)
  | anyOne
  | anyText
  | oneOf (negated : Bool) (ranges : List (Char × Char)) (classes : List String)

abbrev Pattern := List PatternItem

def isInClass (c : Char) : String → Bool
  | "alpha" => c.isAlpha
  | "digit" => c.isDigit
  | "alnum" => c.isAlphanum
  | "upper" => c.isUpper
  | "lower" => c.isLower
  | "space" => isSpace c
  | "blank" => c = ' ' || c = '\t'
  | "punct" => 33 ≤ c.toNat && c.toNat ≤ 126 && !c.isAlphanum
  | "cntrl" => c.toNat < 32 || c.toNat = 127
  | "print" => 32 ≤ c.toNat && c.toNat ≤ 126
  | "graph" => 33 ≤ c.toNat && c.toNat ≤ 126
  | "xdigit" => c.isDigit || ('a' ≤ c && c ≤ 'f') || ('A' ≤ c && c ≤ 'F')
  | _ => false

def isInRanges (c : Char) (ranges : List (Char × Char)) : Bool :=
  ranges.any fun r => r.1 ≤ c && c ≤ r.2

/-- The name in a class such as `[:digit:]` after its first bracket, and the text after it. -/
def className? (cs : List Marked) : Option (String × List Marked) :=
  match cs with
  | (':', _) :: rest =>
    let name := rest.takeWhile fun m => m.1.isAlpha
    match rest.drop name.length with
    | (':', _) :: (']', _) :: after => some (String.ofList (name.map Prod.fst), after)
    | _ => none
  | _ => none

/-- The inside of brackets up to the end of them; the first character may be a bracket. -/
def bracket : Nat → Bool → List (Char × Char) → List String → List Marked →
    Option (List (Char × Char) × List String × List Marked)
  | 0, _, _, _, _ => none
  | _, _, _, _, [] => none
  | fuel + 1, isFirst, ranges, classes, (c, quoted) :: rest =>
    if c = ']' && !quoted && !isFirst then some (ranges, classes, rest)
    else match (if c = '[' && !quoted then className? rest else none) with
      | some (name, after) => bracket fuel false ranges (classes ++ [name]) after
      | none =>
        let (c, rest) := match c, quoted, rest with
          | '\\', false, (d, _) :: after => (d, after)
          | c, _, rest => (c, rest)
        match rest with
        | ('-', false) :: (d, quoted) :: after =>
          if d = ']' && !quoted then bracket fuel false (ranges ++ [(c, c)]) classes rest
          else bracket fuel false (ranges ++ [(c, d)]) classes after
        | rest => bracket fuel false (ranges ++ [(c, c)]) classes rest

def patternOf : Nat → List Marked → Pattern
  | 0, _ => []
  | _, [] => []
  | fuel + 1, (c, quoted) :: rest =>
    if quoted then .exactly c :: patternOf fuel rest
    else if c = '*' then .anyText :: patternOf fuel rest
    else if c = '?' then .anyOne :: patternOf fuel rest
    else if c = '\\' then match rest with
      | (d, _) :: after => .exactly d :: patternOf fuel after
      | [] => [.exactly c]
    else if c = '[' then
      let (negated, inside) := match rest with
        | ('!', false) :: after => (true, after)
        | rest => (false, rest)
      match bracket (rest.length + 1) true [] [] inside with
      | some (ranges, classes, after) => .oneOf negated ranges classes :: patternOf fuel after
      | none => .exactly c :: patternOf fuel rest
    else .exactly c :: patternOf fuel rest

def toPattern (cs : List Marked) : Pattern := patternOf (cs.length + 1) cs

def PatternItem.admits (c : Char) : PatternItem → Bool
  | .exactly d => c = d
  | .anyOne => true
  | .anyText => false
  | .oneOf negated ranges classes =>
    (isInRanges c ranges || classes.any (isInClass c)) != negated

/-- Whether the pattern stands for the whole text. -/
def Pattern.matchesAll : Pattern → List Char → Bool
  | [], cs => cs.isEmpty
  | .anyText :: items, cs =>
    (List.range (cs.length + 1)).any fun n => Pattern.matchesAll items (cs.drop n)
  | item :: items, c :: cs => item.admits c && Pattern.matchesAll items cs
  | _ :: _, [] => false

def isSpecialMark (m : Marked) : Bool := !m.2 && ['*', '?', '['].contains m.1

/-- How many characters to drop from the start, if some start is matched. -/
def startLength? (pattern : Pattern) (longest : Bool) (cs : List Char) : Option Nat :=
  let lengths := List.range (cs.length + 1)
  (if longest then lengths.reverse else lengths).find? fun n => pattern.matchesAll (cs.take n)

/-- How many characters to keep before an end that is matched, if there is one. -/
def endStart? (pattern : Pattern) (longest : Bool) (cs : List Char) : Option Nat :=
  let lengths := List.range (cs.length + 1)
  (if longest then lengths else lengths.reverse).find? fun n => pattern.matchesAll (cs.drop n)

end SchemaDecl.Shell
