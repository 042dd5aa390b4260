import SchemaDecl.Shell.Format
import SchemaDecl.Shell.Pattern
import SchemaDecl.Shell.Programs.Options

/-! Changing, deleting and squeezing the characters of two sets. A set is written as
characters, ranges of them, classes and repetitions. -/

namespace SchemaDecl.Shell

/-- A part of a set. A repetition without a number fills the second set up to the length of the
first one. -/
inductive SetItem
  | char (c : Char)
  | range (first last : Char)
  | class_ (name : String)
  | same (c : Char)
  | repeated (c : Char) (count : Option Nat)

/-- A character of a set with its escape resolved, and whether there was one. -/
def setChars : Nat → List Char → List (Char × Bool)
  | 0, _ => []
  | _, [] => []
  | _, ['\\'] => [('\\', true)]
  | fuel + 1, '\\' :: c :: rest =>
    let digits := ((c :: rest).take 3).takeWhile Format.isOctal
    if !digits.isEmpty then
      (Format.octalChar digits, true) :: setChars fuel ((c :: rest).drop digits.length)
    else
      let d := match c with
        | 'a' => '\x07'
        | 'b' => '\x08'
        | 'f' => '\x0c'
        | 'n' => '\n'
        | 'r' => '\r'
        | 't' => '\t'
        | 'v' => '\x0b'
        | c => c
      (d, true) :: setChars fuel rest
  | fuel + 1, c :: rest => (c, false) :: setChars fuel rest

/-- What stands between `[:` and `:]`, or between `[=` and `=]`, and the text after it. -/
def bracketName? (mark : Char) (cs : List (Char × Bool)) : Option (String × List (Char × Bool)) :=
  let name := cs.takeWhile fun m => m != (mark, false)
  match cs.drop name.length with
  | _ :: (']', false) :: rest => some (String.ofList (name.map Prod.fst), rest)
  | _ => none

def repetition? (cs : List (Char × Bool)) : Option (Option Nat × List (Char × Bool)) :=
  let digits := cs.takeWhile fun m => m.1.isDigit
  match cs.drop digits.length with
  | (']', false) :: rest =>
    let ds := digits.map Prod.fst
    let n := if ds.head? = some '0' then Arithmetic.valueIn 8 ds else natOf ds
    some (if n = 0 then none else some n, rest)
  | _ => none

def setItems : Nat → List (Char × Bool) → Except String (List SetItem)
  | 0, _ => .ok []
  | _, [] => .ok []
  | fuel + 1, cs =>
    let plain : Except String (List SetItem) := match cs with
      | (a, _) :: ('-', false) :: (b, _) :: rest => do
        if b < a then
          throw ("range-endpoints of " ++ quotedName (String.ofList [a, '-', b]) ++
            " are in reverse collating sequence order")
        return .range a b :: (← setItems fuel rest)
      | (c, _) :: rest => do return .char c :: (← setItems fuel rest)
      | [] => .ok []
    match cs with
    | ('[', false) :: (':', false) :: rest => match bracketName? ':' rest with
      | some (name, rest) =>
        if ["alpha", "digit", "alnum", "upper", "lower", "space", "blank", "punct", "cntrl",
            "print", "graph", "xdigit"].contains name then do
          return .class_ name :: (← setItems fuel rest)
        else .error ("invalid character class " ++ curlyName name)
      | none => plain
    | ('[', false) :: ('=', false) :: rest => match bracketName? '=' rest with
      | some (name, rest) => match name.toList with
        | [c] => do return .same c :: (← setItems fuel rest)
        | _ => .error (name ++ ": equivalence class operand must be a single character")
      | none => plain
    | ('[', false) :: (c, _) :: ('*', false) :: rest => match repetition? rest with
      | some (n, rest) => do return .repeated c n :: (← setItems fuel rest)
      | none => plain
    | _ => plain

def readSet (s : String) : Except String (List SetItem) :=
  let cs := setChars (s.length + 1) s.toList
  setItems (cs.length + 1) cs

def allBytes : List Char := (List.range 256).map Char.ofNat

/-- The characters of a part; a repetition that fills gets the given length. -/
def SetItem.members (fill : Nat) : SetItem → List Char
  | .char c | .same c => [c]
  | .range a b => (List.range (b.toNat + 1 - a.toNat)).map fun i => Char.ofNat (a.toNat + i)
  | .class_ name => allBytes.filter fun c => isInClass c name
  | .repeated c n => List.replicate (n.getD fill) c

def setMembers (fill : Nat) (items : List SetItem) : List Char :=
  items.flatMap (SetItem.members fill)

def isFilling : SetItem → Bool
  | .repeated _ none => true
  | _ => false

def isCaseClass : SetItem → Bool
  | .class_ "upper" | .class_ "lower" => true
  | _ => false

def isClass : SetItem → Bool
  | .class_ _ => true
  | _ => false

/-- Where the classes of upper and lower case begin in a set. -/
def caseOffsets : Nat → List SetItem → List Nat
  | _, [] => []
  | n, item :: rest =>
    (if isCaseClass item then [n] else []) ++ caseOffsets (n + (item.members 0).length) rest

/-- Whether the second set can be translated to, and what is wrong otherwise. -/
def translationFault? (complement truncate : Bool) (first second : List SetItem) :
    Option String :=
  if second.any fun item => isClass item && !isCaseClass item then
    some ("when translating, the only character classes that may appear in\n" ++
      "string2 are 'upper' and 'lower'")
  else if second.any fun item => match item with
      | .same _ => true
      | _ => false then
    some "[=c=] expressions may not appear in string2 when translating"
  else if 1 < (second.filter isFilling).length then
    some "only one [c*] repeat construct may appear in string2"
  else if !(caseOffsets 0 second).all (caseOffsets 0 first).contains && !complement then
    some "misaligned [:upper:] and/or [:lower:] construct"
  else if complement && first.any isClass && 1 < (setMembers 1 second).eraseDups.length then
    some ("when translating with complemented character classes,\n" ++
      "string2 must map all characters in the domain to one")
  else if second.isEmpty && !truncate then
    some "when not truncating set1, string2 must be non-empty"
  else none

def squeezeChars (set : List Char) : List Char → List Char
  | a :: b :: rest =>
    if a = b && set.contains a then squeezeChars set (b :: rest)
    else a :: squeezeChars set (b :: rest)
  | cs => cs

/-- What a character becomes: the last of its places in the first set counts. -/
def translation (truncate : Bool) (from_ to_ : List Char) (c : Char) : Char :=
  let from_ := if truncate then from_.take to_.length else from_
  match (from_.zipIdx.filter fun e => e.1 = c).getLast? with
  | some (_, i) => (to_[i]?).getD (to_.getLast?.getD c)
  | none => c

structure CharacterJob where
  deletes : Bool
  squeezes : Bool
  complement : Bool
  truncate : Bool

def CharacterJob.run (job : CharacterJob) (first : List SetItem) (second : Option (List SetItem))
    (text : List Char) : List Char :=
  let from_ := setMembers 0 first
  let from_ := if job.complement then allBytes.filter (!from_.contains ·) else from_
  let to_ := second.map fun items =>
    setMembers (from_.length - (setMembers 0 items).length) items
  match job.deletes, to_ with
  | true, some to_ =>
    let kept := text.filter (!from_.contains ·)
    if job.squeezes then squeezeChars to_ kept else kept
  | true, none => text.filter (!from_.contains ·)
  | false, none => squeezeChars from_ text
  | false, some to_ =>
    let changed := text.map (translation job.truncate from_ to_)
    if job.squeezes then squeezeChars to_ changed else changed

def tr : Program :=
  withOptions ⟨"cCdst", "", [("complement", 'c'), ("delete", 'd'), ("squeeze-repeats", 's'),
    ("truncate-set1", 't')]⟩ 1 fun name o => do
  let job : CharacterJob := ⟨o.has 'd', o.has 's', o.has 'c' || o.has 'C', o.has 't'⟩
  let least := if job.deletes = job.squeezes then 2 else 1
  let most := if job.deletes && !job.squeezes then 1 else 2
  let why := fun (text : String) => put 2 (text ++ "\n")
  if o.words.length < least then
    match o.words with
    | [] => refuse name "missing operand" 1
    | word :: _ => do
      tell name ("missing operand after " ++ curlyName word)
      why (if job.squeezes
        then "Two strings must be given when both deleting and squeezing repeats."
        else "Two strings must be given when translating.")
      adviseHelp name
      return 1
  else match o.words[most]? with
  | some extra => do
    tell name ("extra operand " ++ curlyName extra)
    if o.words.length = 2 then
      why "Only one string may be given when deleting without squeezing repeats."
    adviseHelp name
    return 1
  | none =>
    match o.words.mapM readSet with
    | .error message => do
      tell name message
      return 1
    | .ok sets =>
      let first := sets.headD []
      let second := sets[1]?
      let fault :=
        if first.any isFilling then some "the [c*] repeat construct may not appear in string1"
        else if job.deletes then none
        else second.bind (translationFault? job.complement job.truncate first)
      match fault with
      | some message => do
        tell name message
        return 1
      | none => do
        out (String.ofList (job.run first second (← readAll 0).toList))
        return 0

end SchemaDecl.Shell
