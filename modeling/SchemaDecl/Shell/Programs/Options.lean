import SchemaDecl.Shell.Machine
import SchemaDecl.Shell.Programs.Quoting

/-! What programs have in common: how they read their options, how they report,
and where they take their input from. Options may stand anywhere before a double
dash; letters can be run together, and a letter that takes a value takes the rest
of its word or the next word. -/

namespace SchemaDecl.Shell

open Files

/-- A program with the name it was called by and its arguments; it ends with a status. -/
abbrev Program := String → List String → ShellM Nat

inductive OptionFault
  | unknownLetter (letter : Char)
  | unknownWord (word : String)
  | ambiguous (word : String) (names : List String)
  | valueMissing (letter : Char)
  | wordValueMissing (name : String)
  | valueUnwanted (name : String)
  | versionAsked

/-- The options of a program: letters without a value, letters with one, and long names. A name
whose letter is in neither list may have a value attached. -/
structure OptionTable where
  plain : String
  valued : String
  long : List (String × Char)

structure Options where
  given : List (Char × String)
  words : List String

namespace Options

def has (o : Options) (letter : Char) : Bool := o.given.any fun g => g.1 = letter

/-- The last value given for a letter. -/
def value? (o : Options) (letter : Char) : Option String :=
  (o.given.reverse.find? fun g => g.1 = letter).map Prod.snd

def values (o : Options) (letter : Char) : List String :=
  (o.given.filter fun g => g.1 = letter).map Prod.snd

def add (o : Options) (letter : Char) (value : String) : Options :=
  { o with given := (letter, value) :: o.given }

end Options

/-- Letters run together; the letter that still waits for its value comes with them. -/
def letters (t : OptionTable) : List Char →
    Except OptionFault (List (Char × String) × Option Char)
  | [] => .ok ([], none)
  | c :: rest =>
    if t.plain.toList.contains c then do
      let (given, waiting) ← letters t rest
      return ((c, "") :: given, waiting)
    else if t.valued.toList.contains c then
      if rest.isEmpty then .ok ([], some c) else .ok ([(c, String.ofList rest)], none)
    else .error (.unknownLetter c)

/-- The long options that a name stands for; it may be shortened. -/
def longNames (t : OptionTable) (name : String) : List (String × Char) :=
  let known := t.long ++ [("help", '?'), ("version", '?')]
  match known.find? fun e => e.1 = name with
  | some e => [e]
  | none => known.filter fun e => e.1.startsWith name

def longWord (t : OptionTable) (word : String) :
    Except OptionFault (List (Char × String) × Option (Char × String)) :=
  let body := word.toList.drop 2
  let name := String.ofList (body.takeWhile (· != '='))
  let attached := String.ofList (body.drop (name.length + 1))
  let hasValue := name.length < body.length
  match longNames t name with
  | [] => .error (.unknownWord word)
  | (full, letter) :: others =>
    if others.any fun e => e.2 != letter then
      .error (.ambiguous ("--" ++ name) (((full, letter) :: others).map Prod.fst))
    else if letter = '?' then .error .versionAsked
    else if t.valued.toList.contains letter then
      if hasValue then .ok ([(letter, attached)], none) else .ok ([], some (letter, full))
    else if hasValue && t.plain.toList.contains letter then .error (.valueUnwanted full)
    else .ok ([(letter, attached)], none)

def readOptions (t : OptionTable) : List String → Except OptionFault Options
  | [] => .ok ⟨[], []⟩
  | "--" :: rest => .ok ⟨[], rest⟩
  | word :: rest => do
    let (given, waiting) ← match word.toList with
      | '-' :: '-' :: _ => longWord t word
      | '-' :: c :: cs => do
        let (given, waiting) ← letters t (c :: cs)
        pure (given, waiting.map fun letter => (letter, ""))
      | _ => pure ([], none)
    let isOption := match word.toList with
      | '-' :: _ :: _ => true
      | _ => false
    match waiting, rest with
    | none, rest =>
      let o ← readOptions t rest
      if isOption then return { o with given := given ++ o.given }
      else return { o with words := word :: o.words }
    | some (letter, _), value :: rest =>
      let o ← readOptions t rest
      return { o with given := given ++ (letter, value) :: o.given }
    | some (letter, full), [] =>
      throw (if full.isEmpty then .valueMissing letter else .wordValueMissing full)

def tell (name message : String) : ShellM Unit := put 2 (name ++ ": " ++ message ++ "\n")

def quotedName (s : String) : String := "'" ++ s ++ "'"

/-- A name between typographic quotes. -/
def curlyName (s : String) : String := encode "\u2018" ++ s ++ encode "\u2019"

def optionMessage : OptionFault → String
  | .unknownLetter c => "invalid option -- " ++ quotedName (String.singleton c)
  | .unknownWord word =>
    "unrecognized option " ++ quotedName (String.ofList (word.toList.takeWhile (· != '=')))
  | .ambiguous word names => "option " ++ quotedName word ++ " is ambiguous; possibilities:" ++
    String.join (names.map fun n => " " ++ quotedName ("--" ++ n))
  | .valueMissing c => "option requires an argument -- " ++ quotedName (String.singleton c)
  | .wordValueMissing name => "option " ++ quotedName ("--" ++ name) ++ " requires an argument"
  | .valueUnwanted name => "option " ++ quotedName ("--" ++ name) ++ " doesn't allow an argument"
  | .versionAsked => ""

def adviseHelp (name : String) : ShellM Unit :=
  put 2 ("Try " ++ quotedName (name ++ " --help") ++ " for more information.\n")

/-- Reports words that make no sense, and where to learn more. -/
def refuse (name message : String) (status : Nat) : ShellM Nat := do
  tell name message
  adviseHelp name
  return status

/-- Runs a program on its options; a wrong one is reported, with advice, and ends it with the
given status. -/
def withAdvice (table : OptionTable) (failure : Nat) (advise : String → ShellM Unit)
    (run : String → Options → ShellM Nat) : Program := fun name arguments => do
  match readOptions table arguments with
  | .ok o => run name o
  | .error .versionAsked =>
    out (name ++ "\n")
    return 0
  | .error fault =>
    tell name (optionMessage fault)
    advise name
    return failure

def withOptions (table : OptionTable) (failure : Nat) (run : String → Options → ShellM Nat) :
    Program := withAdvice table failure adviseHelp run

/-- The input of a program: a text with the name it came from. -/
structure Input where
  name : String
  text : String

/-- Reads the named files, or the standard input without any; the ones that cannot be read are
reported. -/
def inputs (name : String) (report : String → FileFault → String) (words : List String) :
    ShellM (List Input × Bool) := do
  let words := if words.isEmpty then ["-"] else words
  let found ← words.mapM fun word => do
    if word = "-" then return some (Input.mk "-" (← readAll 0))
    match ← readFile word with
    | .ok text => return some (Input.mk word text)
    | .error fault =>
      tell name (report word fault)
      return none
  return (found.filterMap id, found.any Option.isNone)

/-- Goes through the inputs one after another, of which those that cannot be read are reported. -/
def eachInput (name : String) (report : String → FileFault → String) (words : List String)
    (start : σ) (f : σ → Input → ShellM σ) : ShellM (σ × Bool) := do
  let words := if words.isEmpty then ["-"] else words
  words.foldlM (fun (state, failed) word => do
    let text ← if word = "-" then pure (.ok (← readAll 0)) else readFile word
    match text with
    | .ok text => return (← f state ⟨word, text⟩, failed)
    | .error fault =>
      tell name (report word fault)
      return (state, true)) (start, false)

def plainReport (word : String) (fault : FileFault) : String :=
  shellNameIfNeeded true word ++ ": " ++ fault.text

def unquotedReport (word : String) (fault : FileFault) : String := word ++ ": " ++ fault.text

def openReport (word : String) (fault : FileFault) : String :=
  match fault with
  | .isADirectory => "error reading " ++ shellName word ++ ": " ++ fault.text
  | fault => "cannot open " ++ shellName word ++ " for reading: " ++ fault.text

def statusOf (failed : Bool) : Nat := if failed then 1 else 0

end SchemaDecl.Shell
