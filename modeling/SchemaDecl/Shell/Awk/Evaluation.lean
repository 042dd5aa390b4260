import SchemaDecl.Shell.Awk.Print

/-! Running a script. Expressions give values and change what the script works on;
statements end, or leave a loop, a function, the rule or the script early. The fuel
bounds how deep a script calls itself and how long a loop goes on. -/

namespace SchemaDecl.Shell.Awk

open Files

def arithmetic (op : BinaryOp) (x y : Float) : Float :=
  match op with
  | .add => x + y
  | .subtract => x - y
  | .multiply => x * y
  | .divide => x / y
  | .remainder => remainder x y
  | .power => Float.pow x y

def holds (c : Comparison) (order : Ordering) (comparable : Bool) : Bool :=
  match c with
  | .less => comparable && order = .lt
  | .lessOrEqual => comparable && order != .gt
  | .equal => comparable && order = .eq
  | .notEqual => !(comparable && order = .eq)
  | .greater => comparable && order = .gt
  | .greaterOrEqual => comparable && order != .lt

/-- The text that takes the place of a match: `&` is the match, unless a backslash stands before
it. -/
def replacement (found : String) : List Char → String
  | [] => ""
  | '\\' :: '&' :: rest => "&" ++ replacement found rest
  | '\\' :: '\\' :: rest => "\\" ++ replacement found rest
  | '&' :: rest => found ++ replacement found rest
  | c :: rest => String.singleton c ++ replacement found rest

/-- A text with matches replaced, and how many there were. An empty match right after another one
does not count. -/
def replaced (r : Regex) (subject : Regex.Subject) (cs : Array Char) (new : List Char)
    (everywhere : Bool) : Nat → Nat → Option Nat → String × Nat
  | 0, position, _ => (String.ofList (cs.extract position cs.size).toList, 0)
  | fuel + 1, position, previous =>
    let text := fun (a b : Nat) => String.ofList (cs.extract a b).toList
    match Pattern.find? r subject position with
    | none => (text position cs.size, 0)
    | some (a, b) =>
      let counts := !(a = b && previous = some a)
      let front := text position a ++ (if counts then replacement (text a b) new else "")
      let stop := if a = b then min (a + 1) cs.size else b
      let front := front ++ (if a = b then text a stop else "")
      let count := if counts then 1 else 0
      if (counts && !everywhere) || (a = b && cs.size ≤ a) then (front ++ text stop cs.size, count)
      else
        let last := if a = b then none else some b
        let (rest, n) := replaced r subject cs new everywhere fuel stop last
        (front ++ rest, n + count)

/-- A part of a text: so many bytes from a position on, which is counted from one. A position
below zero adds to the number of bytes. -/
def part (s : String) (first : Float) (length : Option Float) : String :=
  let start := truncated first
  let count : Int := match length with
    | none => s.length
    | some n => if n ≥ 2147483647.0 then s.length else truncated n - min start 0
  String.ofList ((s.toList.drop (max (start - 1) 0).toNat).take count.toNat)

/-- The position of a text in another one, counted from one; an empty text is at the front. -/
def positionIn (needle : List Char) : Nat → List Char → Nat
  | n, cs =>
    if needle.isPrefixOf cs then n
    else match cs with
      | [] => 0
      | _ :: rest => positionIn needle (n + 1) rest

/-- Functions on numbers. -/
def numeric? : String → Option (Float → Float)
  | "sin" => some Float.sin
  | "cos" => some Float.cos
  | "exp" => some Float.exp
  | "log" => some Float.log
  | "sqrt" => some Float.sqrt
  | "int" => some fun x => if (doubleOf x).isNaN || (doubleOf x).isInfinite then x
      else if isWhole x then x else ofInt (truncated x)
  | _ => none

/-- How a step ends, as a value. -/
def ending (m : AwkM α) : AwkM (Except Leave α) :=
  ExceptT.mk do
    let e ← m.run
    return Except.ok e

/-- Runs a round of a loop: whether the loop goes on. -/
def round (m : AwkM Unit) : AwkM Bool := do
  match ← ending m with
  | .ok () | .error .nextRound => return true
  | .error .stopLoop => return false
  | .error other => throw other

/-- Runs the body of a function with names of its own. -/
def withLocals (names : List (String × Slot)) (m : AwkM Unit) : AwkM Value := do
  let before := (← get).locals
  modify fun s => { s with locals := some names }
  let e ← ending m
  modify fun s => { s with locals := before }
  match e with
  | .ok () => return .unset
  | .error (.result v) => return v
  | .error other => throw other

/-- Who runs commands, and how escapes in an argument are resolved. -/
structure Setting where
  run : Runner
  unescape : String → String

mutual
def value (setting : Setting) : Nat → Expr → AwkM Value
  | 0, _ => runFault "function call nesting too deep"
  | fuel + 1, e => match e with
    | .number x => return .number x
    | .text s => return .text s
    | .regex r => return .ofBool (Pattern.isIn r (← get).record)
    | .name name => plainValue name
    | .element table index => do
      let i ← indexValue setting fuel index
      let id ← tableId table
      let (v, t) := (← tableAt id).get i
      setTable id t
      return v
    | .field n => do field (← fieldPosition (← value setting fuel n))
    | .assign target source => do
      let v ← value setting fuel source
      store setting fuel target v
      return v
    | .update op target source => do
      let y := (← value setting fuel source).toNumber
      let x := (← value setting fuel target).toNumber
      let v := Value.number (arithmetic op x y)
      store setting fuel target v
      return v
    | .step op after target => do
      let x := (← value setting fuel target).toNumber
      let y := arithmetic op x 1
      store setting fuel target (.number y)
      return .number (if after then x else y)
    | .binary op a b => do
      let x := (← value setting fuel a).toNumber
      let y := (← value setting fuel b).toNumber
      return .number (arithmetic op x y)
    | .compare c a b => do
      let x ← value setting fuel a
      let y ← value setting fuel b
      let (order, comparable) := x.compare (← textOf "CONVFMT") y
      return .ofBool (holds c order comparable)
    | .matching negated a pattern => do
      let text ← asText (← value setting fuel a)
      let r ← pattern' setting fuel pattern
      return .ofBool (Pattern.isIn r text != negated)
    | .member index table => do
      let i ← indexValue setting fuel index
      let id ← tableId table
      let (found, t) := (← tableAt id).find false i
      setTable id t
      return .ofBool found
    | .both a b => do
      if (← value setting fuel a).isTrue then return .ofBool (← value setting fuel b).isTrue
      else return .ofBool false
    | .either a b => do
      if (← value setting fuel a).isTrue then return .ofBool true
      else return .ofBool (← value setting fuel b).isTrue
    | .negation a => do return .ofBool (!(← value setting fuel a).isTrue)
    | .minus a => do return .number (-(← value setting fuel a).toNumber)
    | .plus a => do return .number (← value setting fuel a).toNumber
    | .join a b => do
      let x ← asText (← value setting fuel a)
      let y ← asText (← value setting fuel b)
      return .text (x ++ y)
    | .choice condition a b => do
      if (← value setting fuel condition).isTrue then value setting fuel a else value setting fuel b
    | .group es => match es with
      | [e] => value setting fuel e
      | es => do
        let texts ← (← values setting fuel es).mapM asText
        return .text (String.intercalate (← textOf "SUBSEP") texts)
    | .call name arguments => callFunction setting fuel name arguments
    | .builtin name arguments => builtinValue setting fuel name arguments
    | .line source target => readLine setting fuel source target

def values (setting : Setting) : Nat → List Expr → AwkM (List Value)
  | 0, _ => runFault "function call nesting too deep"
  | fuel + 1, es => match es with
    | [] => return []
    | e :: rest => do
      let v ← value setting fuel e
      return v :: (← values setting fuel rest)

def indexValue (setting : Setting) : Nat → List Expr → AwkM Index
  | 0, _ => runFault "function call nesting too deep"
  | fuel + 1, es => match es with
    | [e] => do indexOf (← value setting fuel e)
    | es => do
      let texts ← (← values setting fuel es).mapM asText
      return .name (String.intercalate (← textOf "SUBSEP") texts)

/-- An operand as a regular expression: as it stands between slashes, or as the text it gives. -/
def pattern' (setting : Setting) : Nat → Expr → AwkM Regex
  | 0, _ => runFault "function call nesting too deep"
  | fuel + 1, e => match e with
    | .regex r => return r
    | e => do regexOfText (← asText (← value setting fuel e))

def store (setting : Setting) : Nat → Expr → Value → AwkM Unit
  | 0, _, _ => runFault "function call nesting too deep"
  | fuel + 1, target, v => match target with
    | .name name => setName name v
    | .element table index => do
      let i ← indexValue setting fuel index
      let id ← tableId table
      setTable id ((← tableAt id).set i v)
    | .field n => do setField (← fieldPosition (← value setting fuel n)) v
    | .group [e] => store setting fuel e v
    | _ => return ()

/-- What an argument hands over: a name can be a table. -/
def handOver (setting : Setting) : Nat → Expr → AwkM Slot
  | 0, _ => runFault "function call nesting too deep"
  | fuel + 1, e => match e with
    | .name name => handedOver name
    | e => do return .value (← value setting fuel e)

def handOverAll (setting : Setting) : Nat → List Expr → AwkM (List Slot)
  | 0, _ => runFault "function call nesting too deep"
  | fuel + 1, es => match es with
    | [] => return []
    | e :: rest => do
      let slot ← handOver setting fuel e
      return slot :: (← handOverAll setting fuel rest)

def callFunction (setting : Setting) : Nat → String → List Expr → AwkM Value
  | 0, _, _ => runFault "function call nesting too deep"
  | fuel + 1, name, arguments => do
    let slots ← handOverAll setting fuel arguments
    match (← get).functions.lookup name with
    | none => return .unset
    | some f =>
      let names := f.parameters.zipIdx.map fun (p, i) => (p, slots.getD i (.value .unset))
      withLocals names (execute setting fuel f.body)

def readLine (setting : Setting) : Nat → LineSource Expr → Option Expr → AwkM Value
  | 0, _, _ => runFault "function call nesting too deep"
  | fuel + 1, source, target => do
    let put := fun (record : String) => match target with
      | none => setRecord record
      | some e => store setting fuel e (.ofInput record)
    match source with
    | .input => do
      match ← mainRecord setting.unescape (2 * fuel + 2) with
      | none => return .number 0
      | some record =>
        put record
        return .number 1
    | .file name => do
      let name ← asText (← value setting fuel name)
      fromReader name false put
    | .command text => do
      let text ← asText (← value setting fuel text)
      fromReader text true put
where
  fromReader (name : String) (isCommand : Bool) (put : String → AwkM Unit) : AwkM Value := do
    match ← readerRecord setting.run name isCommand with
    | none => return .number (-1)
    | some none => return .number 0
    | some (some record) =>
      put record
      return .number 1

def builtinValue (setting : Setting) : Nat → String → List Expr → AwkM Value
  | 0, _, _ => runFault "function call nesting too deep"
  | fuel + 1, name, arguments => do
    let text := fun (e : Expr) => do asText (← value setting fuel e)
    match name, arguments with
    | "length", [] => return .ofNat (← get).record.length
    | "length", [.name v] => do
      match ← slotOf v with
      | some (.table id) | some (.undecided id) => return .ofNat (← tableAt id).size
      | _ => return .ofNat (← asText (← plainValue v)).length
    | "length", [e] => return .ofNat (← text e).length
    | "substr", [s, first] =>
      return .text (part (← text s) (← value setting fuel first).toNumber none)
    | "substr", [s, first, count] => do
      let s ← text s
      let first := (← value setting fuel first).toNumber
      return .text (part s first (some (← value setting fuel count).toNumber))
    | "index", [s, t] => do
      let s ← text s
      let t ← text t
      return .ofNat (positionIn t.toList 1 s.toList)
    | "split", s :: .name table :: rest => do
      let s ← text s
      let pieces ← match rest with
        | [.regex r] => pure (splitAt r s)
        | [e] => do splitBy (← text e) s
        | _ => do splitBy (← textOf "FS") s
      let id ← tableId table
      setTable id (.ofList (pieces.map Value.ofInput))
      return .ofNat pieces.length
    | "match", [s, pattern] => do
      let s ← text s
      let r ← pattern' setting fuel pattern
      match Pattern.find? r (Pattern.subject s) 0 with
      | some (a, b) =>
        global "RSTART" (.ofNat (a + 1))
        global "RLENGTH" (.ofNat (b - a))
        return .ofNat (a + 1)
      | none =>
        global "RSTART" (.number 0)
        global "RLENGTH" (.number (-1))
        return .number 0
    | "sub", [pattern, new] => substitute setting fuel false pattern new (.field (.number 0))
    | "gsub", [pattern, new] => substitute setting fuel true pattern new (.field (.number 0))
    | "sub", [pattern, new, target] => substitute setting fuel false pattern new target
    | "gsub", [pattern, new, target] => substitute setting fuel true pattern new target
    | "sprintf", es => return .text (← formatted "sprintf" (← values setting fuel es))
    | "atan2", [a, b] => do
      let y := (← value setting fuel a).toNumber
      return .number (Float.atan2 y (← value setting fuel b).toNumber)
    | "rand", _ => do
      let seed := remainder ((← get).seed * 16807) 2147483647
      modify fun s => { s with seed }
      return .number (seed / 2147483647)
    | "srand", es => do
      let before ← plainValue "srand"
      let v ← match es with
        | [e] => value setting fuel e
        | _ => pure (.number 0)
      global "srand" v
      modify fun s => { s with seed := remainder (v.toNumber.abs + 1) 2147483647 }
      return before
    | "system", [e] => do
      let command ← text e
      flush
      return .ofNat (reported (← lifted (runCommand setting.run command none false)).1)
    | "close", [e] => do return .number (ofInt (← close setting.run (← text e)))
    | "fflush", _ => do
      flush
      return .number 0
    | "tolower", [e] => return .text (String.ofList ((← text e).toList.map Char.toLower))
    | "toupper", [e] => return .text (String.ofList ((← text e).toList.map Char.toUpper))
    | name, [e] => do
      let x := (← value setting fuel e).toNumber
      return .number (match numeric? name with
        | some f => f x
        | none => 0)
    | _, _ => return .number 0

def substitute (setting : Setting) : Nat → Bool → Expr → Expr → Expr → AwkM Value
  | 0, _, _, _, _ => runFault "function call nesting too deep"
  | fuel + 1, everywhere, pattern, new, target => do
    let r ← pattern' setting fuel pattern
    let new ← asText (← value setting fuel new)
    let old ← asText (← value setting fuel target)
    let cs := old.toList.toArray
    let limit := 2 * cs.size + 2
    let (text, n) := replaced r (Pattern.subject old) cs new.toList everywhere limit 0 none
    if n != 0 then store setting fuel target (.text text)
    return .ofNat n

/-- Runs a statement. -/
def execute (setting : Setting) : Nat → Statement → AwkM Unit
  | 0, _ => runFault "function call nesting too deep"
  | fuel + 1, s => match s with
    | .nothing => return ()
    | .expr e => discard (value setting fuel e)
    | .print es destination => do
      let texts ← (← values setting fuel es).mapM printed
      let record := (← get).record
      let texts := if es.isEmpty then [record] else texts
      emit setting fuel destination (String.intercalate (← textOf "OFS") texts ++ (← textOf "ORS"))
    | .printf es destination => do
      emit setting fuel destination (← formatted "printf" (← values setting fuel es))
    | .block body => executeAll setting fuel body
    | .choose condition a b => do
      if (← value setting fuel condition).isTrue then execute setting fuel a
      else match b with
        | some b => execute setting fuel b
        | none => return ()
    | .while_ condition body => repeatWhile setting fuel (some condition) none body
    | .doWhile body condition => do
      if ← round (execute setting fuel body) then
        repeatWhile setting fuel (some condition) none body
    | .loop start condition step body => do
      if let some e := start then discard (value setting fuel e)
      repeatWhile setting fuel condition step body
    | .each name table body => do
      let id ← tableId table
      let (keys, t) := (← tableAt id).keys
      setTable id t
      repeatEach setting fuel name keys body
    | .break_ => throw .stopLoop
    | .continue_ => throw .nextRound
    | .next => throw .next
    | .nextFile => throw .nextFile
    | .exit status => do
      if let some e := status then
        let n := truncated (← value setting fuel e).toNumber
        modify fun s => { s with status := (n % 256).toNat }
      throw .exit
    | .return_ e => do
      match e with
      | some e => throw (.result (← value setting fuel e))
      | none => throw (.result .unset)
    | .delete table index => do
      let id ← tableId table
      match index with
      | none => setTable id .empty
      | some es =>
        let i ← indexValue setting fuel es
        setTable id ((← tableAt id).remove i.text)
where
  printed (v : Value) : AwkM String := do
    match v with
    | .number x => return numberText (← textOf "OFMT") x
    | v => return v.toText ""

def executeAll (setting : Setting) : Nat → List Statement → AwkM Unit
  | 0, _ => runFault "function call nesting too deep"
  | fuel + 1, body => match body with
    | [] => return ()
    | s :: rest => do
      execute setting fuel s
      executeAll setting fuel rest

def repeatWhile (setting : Setting) : Nat → Option Expr → Option Expr → Statement → AwkM Unit
  | 0, _, _, _ => runFault "function call nesting too deep"
  | fuel + 1, condition, step, body => do
    let goesOn ← match condition with
      | some e => do pure (← value setting fuel e).isTrue
      | none => pure true
    if goesOn then
      if ← round (execute setting fuel body) then
        if let some e := step then discard (value setting fuel e)
        repeatWhile setting fuel condition step body

def repeatEach (setting : Setting) : Nat → String → List String → Statement → AwkM Unit
  | 0, _, _, _ => runFault "function call nesting too deep"
  | fuel + 1, name, keys, body => match keys with
    | [] => return ()
    | key :: rest => do
      setName name (.text key)
      if ← round (execute setting fuel body) then repeatEach setting fuel name rest body

/-- Prints a text where it is to go. -/
def emit (setting : Setting) : Nat → Destination → String → AwkM Unit
  | 0, _, _ => runFault "function call nesting too deep"
  | fuel + 1, destination, text => match destination with
    | .output => modify fun s => { s with pending := s.pending ++ text }
    | .file name => do printTo (← asText (← value setting fuel name)) .write text
    | .append name => do printTo (← asText (← value setting fuel name)) .append text
    | .command command => do printToCommand (← asText (← value setting fuel command)) text
end

end SchemaDecl.Shell.Awk
