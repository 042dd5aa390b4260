import SchemaDecl.Shell.Characters
import SchemaDecl.Shell.Format
import SchemaDecl.Shell.Programs.Options
import SchemaDecl.Shell.Regex

/-! Programs that copy their input line by line or character by character, with
numbers, with other blanks, in another order or side by side. -/

namespace SchemaDecl.Shell

open Files

/-- Lines with their ends, so that the last one can lack its end. -/
def rawLinesBy (ending : Char) : List Char → List (List Char)
  | [] => []
  | c :: rest =>
    if c = ending then [c] :: rawLinesBy ending rest
    else match rawLinesBy ending rest with
      | [] => [[c]]
      | line :: lines => (c :: line) :: lines

def rawLines (cs : List Char) : List (List Char) := rawLinesBy '\n' cs

/-! Copying. -/

def visibleChar (ends tabs others : Bool) (c : Char) : String :=
  if c = '\n' then (if ends then "$\n" else "\n")
  else if c = '\t' then (if tabs then "^I" else "\t")
  else if !others then String.singleton c
  else
    let n := c.toNat
    let (mark, n) := if 128 ≤ n then ("M-", n - 128) else ("", n)
    if n < 32 then mark ++ "^" ++ String.singleton (Char.ofNat (n + 64))
    else if n = 127 then mark ++ "^?"
    else mark ++ String.singleton (Char.ofNat n)

/-- What is known between the files that are copied: the number of the next line, whether the
last line was ended and whether it was empty. -/
structure CopyState where
  number : Nat
  ended : Bool
  empty : Bool

/-- The lines of a file as they are copied. -/
def copiedLines (squeeze numbered skipEmpty : Bool) :
    CopyState → List (List Char) → List (List Char) × CopyState
  | s, [] => ([], s)
  | s, line :: lines =>
    let isEmpty := s.ended && line = ['\n']
    if squeeze && isEmpty && s.empty then copiedLines squeeze numbered skipEmpty s lines
    else
      let counts := numbered && s.ended && !(skipEmpty && isEmpty)
      let shown := if counts then (pad 6 false (toString s.number) ++ "\t").toList ++ line else line
      let s := ⟨if counts then s.number + 1 else s.number, line.getLast? = some '\n', isEmpty⟩
      let (rest, s) := copiedLines squeeze numbered skipEmpty s lines
      (shown :: rest, s)

def cat : Program :=
  withOptions ⟨"nbsAETvetu", "", [("number-nonblank", 'b'), ("number", 'n'),
    ("squeeze-blank", 's'), ("show-nonprinting", 'v'), ("show-ends", 'E'), ("show-tabs", 'T'),
    ("show-all", 'A')]⟩ 1 fun name o => do
  let all := o.has 'A'
  let ends := all || o.has 'E' || o.has 'e'
  let tabs := all || o.has 'T' || o.has 't'
  let others := all || o.has 'v' || o.has 'e' || o.has 't'
  let show_ := if ends || tabs || others then visibleChar ends tabs others else String.singleton
  let numbered := o.has 'n' || o.has 'b'
  let (_, failed) ← eachInput name plainReport o.words ⟨1, true, false⟩ fun state i => do
    if o.given.isEmpty then
      out i.text
      return state
    let (lines, state) := copiedLines (o.has 's') numbered (o.has 'b') state
      (rawLines i.text.toList)
    out (String.join (lines.flatten.map show_))
    return state
  return statusOf failed

def tee : Program := withOptions ⟨"aip", "", [("append", 'a'), ("ignore-interrupts", 'i')]⟩ 1
    fun name o => do
  let files ← o.words.mapM fun word => do
    match ← openFile word (if o.has 'a' then .append else .write) with
    | .ok id => return some id
    | .error fault =>
      tell name (plainReport word fault)
      return none
  let text ← readAll 0
  out text
  (files.filterMap id).forM fun id => onMachine fun m => m.write id text
  return statusOf (files.any Option.isNone)

/-! Other orders. -/

/-- Pieces of a text that end with a separator, or begin with one. -/
def recordsOf (separator : String) (before : Bool) (text : String) : List String :=
  let parts := text.splitOn separator
  if before then match parts with
    | [] => []
    | first :: rest => first :: rest.map (separator ++ ·)
  else match parts.getLast? with
    | none => []
    | some last => parts.dropLast.map (· ++ separator) ++ (if last.isEmpty then [] else [last])

def openFailure (word : String) (fault : FileFault) : String :=
  match fault with
  | .isADirectory => word ++ ": read error: " ++ fault.text
  | fault => "failed to open " ++ shellName word ++ " for reading: " ++ fault.text

def tac : Program :=
  withOptions ⟨"br", "s", [("before", 'b'), ("regex", 'r'), ("separator", 's')]⟩ 1 fun name o => do
  let separator := (o.value? 's').getD "\n"
  let (_, failed) ← eachInput name openFailure o.words () fun _ i =>
    out (String.join (recordsOf separator (o.has 'b') i.text).reverse)
  return statusOf failed

def reversedLine (line : List Char) : String :=
  let ended := line.getLast? = some '\n'
  let body := String.ofList (if ended then line.dropLast else line)
  ofCharacters (characters body).reverse ++ (if ended then "\n" else "")

def rev : Program := withOptions ⟨"0", "", [("zero", '0')]⟩ 1 fun name o => do
  let show_ := fun (text : String) => out (String.join ((rawLines text.toList).map reversedLine))
  if o.words.isEmpty then
    show_ (← readAll 0)
    return 0
  let results ← o.words.mapM fun word => do
    match ← readFile word with
    | .ok text =>
      show_ text
      return true
    | .error fault =>
      tell name ("cannot open " ++ word ++ ": " ++ fault.text)
      return false
  return statusOf (results.any (!·))

/-! Numbers. -/

/-- Which lines get a number. -/
inductive NumberStyle
  | all
  | filled
  | none
  | matching (r : Regex)

structure Numbering where
  body : NumberStyle
  header : NumberStyle
  footer : NumberStyle
  mark : String
  start : Int
  increment : Int
  width : Nat
  separator : String
  format : String
  blanks : Nat
  keeps : Bool

structure NumberState where
  style : NumberStyle
  number : Int
  blanks : Nat

def numberStyle? (s : String) : Option (Except String NumberStyle) :=
  match s.toList with
  | ['a'] => some (.ok .all)
  | ['t'] => some (.ok .filled)
  | ['n'] => some (.ok .none)
  | 'p' :: cs => some ((Regex.read Regex.basic (characters (String.ofList cs))).map .matching)
  | _ => Option.none

def Numbering.shown (n : Numbering) (number : Int) : String :=
  let digits := toString number.natAbs
  let sign := if number < 0 then "-" else ""
  match n.format with
  | "ln" => pad n.width true (sign ++ digits)
  | "rz" => sign ++ repeated (n.width - sign.length - digits.length) '0' ++ digits
  | _ => pad n.width false (sign ++ digits)

def Numbering.line (n : Numbering) (s : NumberState) (line : String) : NumberState × String :=
  let section? := fun (count : Nat) =>
    !n.mark.isEmpty && line = String.join (List.replicate count n.mark)
  let enter := fun (style : NumberStyle) =>
    (⟨style, if n.keeps then s.number else n.start, 0⟩, "\n")
  if section? 3 then enter n.header
  else if section? 2 then enter n.body
  else if section? 1 then enter n.footer
  else
    let plain := (s, repeated (n.width + n.separator.length) ' ' ++ line ++ "\n")
    let numbered := ({ s with number := s.number + n.increment, blanks := 0 },
      n.shown s.number ++ n.separator ++ line ++ "\n")
    match s.style with
    | .all =>
      if line.isEmpty && s.blanks + 1 < n.blanks then ({ s with blanks := s.blanks + 1 }, plain.2)
      else numbered
    | .filled => if line.isEmpty then plain else numbered
    | .none => plain
    | .matching r => if Regex.occurs false r (characters line) then numbered else plain

def nl : Program :=
  withOptions ⟨"p", "bhfdilnsvw", [("body-numbering", 'b'), ("header-numbering", 'h'),
    ("footer-numbering", 'f'), ("section-delimiter", 'd'), ("line-increment", 'i'),
    ("join-blank-lines", 'l'), ("number-format", 'n'), ("no-renumber", 'p'),
    ("number-separator", 's'), ("starting-line-number", 'v'), ("number-width", 'w')]⟩ 1
    fun name o => do
  let style := fun (letter : Char) (default : NumberStyle) => match o.value? letter with
    | none => some (Except.ok default)
    | some s => numberStyle? s
  let wrongStyle := [('b', "body"), ('h', "header"), ('f', "footer")].find? fun (letter, _) =>
    (style letter .none).isNone
  let wrongNumber := [('v', "starting line number"), ('i', "line number increment"),
    ('w', "line number field width"), ('l', "line number of blank lines")].find? fun (letter, _) =>
    (o.value? letter).any fun s => (integer? s).isNone
  let number := fun (letter : Char) (default : Int) =>
    ((o.value? letter).bind integer?).getD default
  let format := (o.value? 'n').getD "rn"
  match wrongStyle, wrongNumber with
  | some (letter, what), _ =>
    refuse name ("invalid " ++ what ++ " numbering style: " ++
      curlyName ((o.value? letter).getD "")) 1
  | _, some (letter, what) => do
    tell name ("invalid " ++ what ++ ": " ++ curlyName ((o.value? letter).getD ""))
    return 1
  | none, none =>
    if number 'w' 6 < 1 then
      tell name ("invalid line number field width: " ++ curlyName ((o.value? 'w').getD "") ++
        ": Numerical result out of range")
      return 1
    if !(["ln", "rn", "rz"].contains format) then
      return ← refuse name ("invalid line numbering format: " ++ curlyName format) 1
    match style 'b' .filled, style 'h' .none, style 'f' .none with
    | some (.ok body), some (.ok header), some (.ok footer) =>
      let mark := match (o.value? 'd').map String.toList with
        | some [c] => String.ofList [c, ':']
        | some cs => String.ofList cs
        | none => "\\:"
      let n : Numbering := ⟨body, header, footer, mark, number 'v' 1, number 'i' 1,
        (number 'w' 6).toNat, (o.value? 's').getD "\t", format, (number 'l' 1).toNat, o.has 'p'⟩
      let (_, failed) ← eachInput name plainReport o.words ⟨body, n.start, 0⟩ fun s i => do
        let (s, texts) := (linesOf i.text).foldl (fun (s, texts) line =>
          let (s, text) := n.line s line
          (s, text :: texts)) (s, [])
        out (String.join texts.reverse)
        return s
      return statusOf failed
    | _, _, _ => refuse name "invalid regular expression" 1

/-! Widths. -/

/-- The column after a character. -/
def columnAfter (bytes : Bool) (column : Nat) (c : Char) : Nat :=
  if bytes then column + 1
  else match c with
    | '\x08' => column - 1
    | '\r' => 0
    | '\t' => column / 8 * 8 + 8
    | _ => column + 1

def widthOf (bytes : Bool) (cs : List Char) : Nat := cs.foldl (columnAfter bytes) 0

structure Folding where
  bytes : Bool
  atBlanks : Bool
  width : Nat

/-- Folds a line; `made` is the line that is being made, backwards. -/
def foldedLine (f : Folding) : Nat → List Char → List Char → List (List Char)
  | 0, made, rest => [made.reverse ++ rest]
  | _, made, [] => [made.reverse]
  | fuel + 1, made, c :: rest =>
    let column := columnAfter f.bytes (widthOf f.bytes made.reverse) c
    if column ≤ f.width || made.isEmpty then foldedLine f fuel (c :: made) rest
    else
      let tail := made.takeWhile fun c => c != ' ' && c != '\t'
      if f.atBlanks && tail.length < made.length then
        (made.drop tail.length).reverse :: foldedLine f fuel tail (c :: rest)
      else made.reverse :: foldedLine f fuel [] (c :: rest)

/-- The old form of an option, a dash and a number. -/
def oldNumber (letter : Char) (word : String) : String :=
  match word.toList with
  | '-' :: c :: rest =>
    if c.isDigit && rest.all fun d => d.isDigit || d = ',' then
      String.ofList ('-' :: letter :: c :: rest)
    else word
  | _ => word

def fold : Program := fun name arguments =>
  withOptions ⟨"bs", "w", [("bytes", 'b'), ("spaces", 's'), ("width", 'w')]⟩ 1 (fun name o => do
    let given := (o.value? 'w').getD "80"
    match natural? given with
    | none | some 0 =>
      tell name ("invalid number of columns: " ++ curlyName given ++
        (if given = "0" then ": Numerical result out of range" else ""))
      return 1
    | some width =>
      let f : Folding := ⟨o.has 'b', o.has 's', width⟩
      let (_, failed) ← eachInput name plainReport o.words () fun _ i =>
        let lines := (rawLines i.text.toList).map fun line =>
          let body := line.filter (· != '\n')
          let folded := (foldedLine f (4 * body.length + 4) [] body).map String.ofList
          String.intercalate "\n" folded ++ (if line.getLast? = some '\n' then "\n" else "")
        out (String.join lines)
      return statusOf failed)
    name (arguments.map (oldNumber 'w'))

/-! Tabs. -/

/-- Where the tabs lead: to every multiple of a number, or to listed columns. -/
inductive TabStops
  | every (n : Nat)
  | listed (columns : List Nat)

/-- The next stop after a column; beyond the last one there is none. -/
def TabStops.next? (t : TabStops) (column : Nat) : Option Nat :=
  match t with
  | .every n => some (column / n * n + n)
  | .listed columns => columns.find? fun c => column < c

def tabStops (words : List String) : Except String TabStops := do
  let texts := words.flatMap fun w => (w.map fun c => if c = ' ' then ',' else c).splitOn ","
  let numbers ← (texts.filter (!·.isEmpty)).mapM fun text =>
    if text.toList.all Char.isDigit then .ok (natOf text.toList)
    else .error ("tab size contains invalid character(s): " ++ curlyName text)
  if numbers.contains 0 then throw "tab size cannot be 0"
  if (numbers.zip (numbers.drop 1)).any fun (a, b) => b ≤ a then
    throw "tab sizes must be ascending"
  match numbers with
  | [] => return .every 8
  | [n] => return .every n
  | ns => return .listed ns

structure ExpandState where
  column : Nat
  converts : Bool

def expandChar (t : TabStops) (initial : Bool) (s : ExpandState) (c : Char) :
    ExpandState × String :=
  if c = '\n' then (⟨0, true⟩, "\n")
  else if !s.converts then (s, String.singleton c)
  else
    let goesOn := !initial || c = ' ' || c = '\t'
    match c with
    | '\t' =>
      let next := (t.next? s.column).getD (s.column + 1)
      (⟨next, goesOn⟩, repeated (next - s.column) ' ')
    | '\x08' => (⟨s.column - 1, goesOn⟩, String.singleton c)
    | c => (⟨s.column + 1, goesOn⟩, String.singleton c)

structure UnexpandState where
  column : Nat
  converts : Bool
  /-- Blanks that may become a tab. -/
  pending : List Char
  oneBefore : Bool
  wasBlank : Bool

def UnexpandState.fresh : UnexpandState := ⟨0, true, [], false, true⟩

/-- The pending blanks as they are written. -/
def UnexpandState.flushed (s : UnexpandState) : String :=
  String.ofList (match s.pending with
    | _ :: c :: rest => if s.oneBefore then '\t' :: c :: rest else s.pending
    | pending => pending)

def unexpandChar (t : TabStops) (entire : Bool) (s : UnexpandState) (c : Char) :
    UnexpandState × String :=
  let written := fun (s : UnexpandState) (blank : Bool) (c : Char) =>
    ({ s with pending := [], oneBefore := false, wasBlank := blank
              converts := s.converts && (entire || blank) }, s.flushed ++ String.singleton c)
  if c = '\n' then
    (UnexpandState.fresh, (if s.converts then s.flushed else "") ++ "\n")
  else if !s.converts then (s, String.singleton c)
  else if c = ' ' || c = '\t' then
    match t.next? s.column with
    | none =>
      ({ s with pending := [], oneBefore := false, converts := false },
        s.flushed ++ String.singleton c)
    | some next =>
      let becomesTab := fun (s : UnexpandState) =>
        written { s with pending := if s.oneBefore then s.pending.take 1 else [] } true '\t'
      if c = '\t' then
        let pending := match s.pending with
          | _ :: rest => '\t' :: rest
          | [] => []
        becomesTab { s with column := next, pending }
      else
        let s := { s with column := s.column + 1 }
        if s.wasBlank && s.column = next then
          let pending := match s.pending with
            | _ :: rest => '\t' :: rest
            | [] => ['\t']
          becomesTab { s with pending }
        else
          ({ s with oneBefore := s.oneBefore || s.column = next
                    pending := s.pending ++ [c], wasBlank := true }, "")
  else if c = '\x08' then written { s with column := s.column - 1 } false c
  else written { s with column := s.column + 1 } false c

def tabProgram (plain : String) (long : List (String × Char)) (start : σ)
    (step : Options → TabStops → σ → Char → σ × String) (finish : σ → String) : Program :=
  fun name arguments =>
  withOptions ⟨plain, "t", long⟩ 1 (fun name o => do
    match tabStops (o.values 't') with
    | .error message =>
      tell name message
      return 1
    | .ok stops =>
      let (state, failed) ← eachInput name plainReport o.words start fun state i => do
        let (state, texts) := i.text.toList.foldl (fun (state, texts) c =>
          let (state, text) := step o stops state c
          (state, text :: texts)) (state, [])
        out (String.join texts.reverse)
        return state
      out (finish state)
      return statusOf failed)
    name (arguments.map (oldNumber 't'))

def expand : Program :=
  tabProgram "i" [("initial", 'i'), ("tabs", 't')] (ExpandState.mk 0 true)
    (fun o stops => expandChar stops (o.has 'i')) (fun _ => "")

def unexpand : Program :=
  tabProgram "a" [("all", 'a'), ("first-only", '\x01'), ("tabs", 't')] UnexpandState.fresh
    (fun o stops => unexpandChar stops ((o.has 'a' || o.has 't') && !o.has '\x01'))
    (fun s => if s.converts then s.flushed else "")

/-! Side by side. -/

/-- The lists line by line; a list that is shorter is followed by empty texts. -/
def transposed : Nat → List (List String) → List (List String)
  | 0, _ => []
  | n + 1, columns =>
    if columns.all List.isEmpty then []
    else columns.map (·.headD "") :: transposed n (columns.map (·.drop 1))

def joinedBy (delimiters : List String) (parts : List String) : String :=
  match parts with
  | [] => ""
  | first :: rest =>
    rest.zipIdx.foldl (fun s e =>
      s ++ (delimiters[e.2 % delimiters.length]?).getD "" ++ e.1) first

/-- Delimiters that are used one after another, a zero standing for none. -/
def delimiterList : List Char → Option (List String)
  | [] => some []
  | ['\\'] => none
  | '\\' :: c :: rest =>
    let text := match c with
      | '0' => ""
      | 'b' => "\x08"
      | 'f' => "\x0c"
      | 'n' => "\n"
      | 'r' => "\r"
      | 't' => "\t"
      | 'v' => "\x0b"
      | c => String.singleton c
    (delimiterList rest).map (text :: ·)
  | c :: rest => (delimiterList rest).map (String.singleton c :: ·)

/-- Every so many lines, from a position on. -/
def everyNth (n position : Nat) (lines : List String) : List String :=
  (lines.zipIdx.filter fun e => e.2 % n = position).map Prod.fst

def paste : Program :=
  withOptions ⟨"sz", "d", [("serial", 's'), ("delimiters", 'd'), ("zero-terminated", 'z')]⟩ 1
    fun name o => do
  let given := (o.value? 'd').getD "\t"
  match delimiterList given.toList with
  | none =>
    tell name ("delimiter list ends with an unescaped backslash: " ++ given)
    return 1
  | some delimiters =>
    let delimiters := if delimiters.isEmpty then [""] else delimiters
    let ending := if o.has 'z' then "\x00" else "\n"
    let split := fun (text : String) =>
      let lines := text.splitOn ending
      if lines.getLast? = some "" then lines.dropLast else lines
    let words := if o.words.isEmpty then ["-"] else o.words
    let standard := split (← if words.contains "-" then readAll 0 else pure "")
    let shared := if o.has 's' then 1 else words.count "-"
    let found ← words.mapM fun word => do
      if word = "-" then return some []
      match ← readFile word with
      | .ok text => return some (split text)
      | .error fault =>
        tell name (plainReport word fault)
        return none
    if found.any Option.isNone && !o.has 's' then return 1
    let columns := (words.zip (found.map (·.getD []))).zipIdx.filterMap fun ((word, lines), i) =>
      if word != "-" then if (found.getD i none).isSome then some lines else none
      else
        let position := (words.take i).count "-"
        if o.has 's' then some (if position = 0 then standard else [])
        else some (everyNth shared position standard)
    let rows := if o.has 's' then columns
      else transposed ((columns.map List.length).foldl max 0) columns
    out (String.join (rows.map fun row => joinedBy delimiters row ++ ending))
    return statusOf (found.any Option.isNone)

end SchemaDecl.Shell
