import SchemaDecl.Shell.Programs.Options

/-! Programs that look at files and move them about. Each one goes on after a file
that it cannot deal with and remembers in its status that there was one. -/

namespace SchemaDecl.Shell

open Files

/-- Does something to each word; the status is one if any of them failed. -/
def eachWord (words : List String) (f : String → ShellM Bool) : ShellM Nat := do
  return statusOf ((← words.mapM f).any (!·))

def failed (name message : String) : ShellM Bool := do
  tell name message
  return false

def lastName (path : String) : String :=
  encode ((Location.segmentsOf (decode path)).getLastD "")

/-! Making and removing. -/

def isEmptyDirectory (l : Location) : ShellM Bool := return ((← tree).namesIn l).isEmpty

/-- Everything below a place, the deepest first, with what the place is. -/
def removeTree (name : String) (verbose : Bool) : Nat → String → Location → ShellM Unit
  | 0, _, _ => return ()
  | fuel + 1, path, l => do
    let names := (← tree).namesIn l
    names.forM fun n => removeTree name verbose fuel (path ++ "/" ++ encode n) (l ++ [n])
    let isDirectory := (← tree).node? l = some .directory
    onMachine fun m => m.remove l
    if verbose then
      out ("removed " ++ (if isDirectory then "directory " else "") ++ shellName path ++ "\n")

def removeWord (o : Options) (name word : String) : ShellM Bool := do
  let report := fun (text : String) =>
    failed name ("cannot remove " ++ shellName word ++ ": " ++ text)
  match ← nodeAt word, ← locate word with
  | .error fault, _ | _, .error fault =>
    if o.has 'f' && fault = .missing then return true else report fault.text
  | .ok node, .ok l =>
    let recursive := o.has 'r' || o.has 'R'
    if node = .directory && !recursive then
      if !o.has 'd' then return ← report FileFault.isADirectory.text
      if !(← isEmptyDirectory l) then return ← report "Directory not empty"
    if recursive && (lastName word = "." || word = ".." || l.isEmpty) then
      return ← failed name ("refusing to remove '.' or '..' directory: skipping " ++
        shellName word)
    removeTree name (o.has 'v') 64 word l
    return true

def rm : Program :=
  withOptions ⟨"rRfidvI", "", [("recursive", 'r'), ("force", 'f'), ("verbose", 'v'), ("dir", 'd')]⟩
    1 fun name o => do
  if o.words.isEmpty && !o.has 'f' then return ← refuse name "missing operand" 1
  eachWord o.words (removeWord o name)

def makeDirectory (o : Options) (name path : String) : ShellM Bool := do
  let report := fun (fault : FileFault) =>
    failed name ("cannot create directory " ++ curlyName path ++ ": " ++ fault.text)
  match ← locate path with
  | .error fault => report fault
  | .ok l => match (← tree).node? l with
    | some .directory => if o.has 'p' then return true else report (.alreadyThere path)
    | some (.file _) => report (.alreadyThere path)
    | none =>
      setTree ((← tree).insert l .directory)
      if o.has 'v' then out (name ++ ": created directory " ++ shellName path ++ "\n")
      return true

/-- Paths on the way to a path, the path itself last. -/
def pathsTo (path : String) : List String :=
  let front := if Location.isAbsolute path then "/" else ""
  let segments := Location.segmentsOf path
  (List.range segments.length).map fun i =>
    front ++ String.intercalate "/" (segments.take (i + 1))

def makeAll (o : Options) (name : String) : List String → ShellM Bool
  | [] => return true
  | path :: paths => do
    match ← nodeAt path with
    | .ok (.file _) =>
      let fault := if paths.isEmpty then FileFault.alreadyThere path else .notADirectory
      failed name ("cannot create directory " ++ curlyName path ++ ": " ++ fault.text)
    | _ => if ← makeDirectory o name path then makeAll o name paths else return false

def mkdir : Program :=
  withOptions ⟨"pv", "m", [("parents", 'p'), ("verbose", 'v'), ("mode", 'm')]⟩ 1 fun name o => do
  if o.words.isEmpty then return ← refuse name "missing operand" 1
  eachWord o.words fun word =>
    if o.has 'p' && !(pathsTo word).isEmpty then makeAll o name (pathsTo word)
    else makeDirectory o name word

def removeDirectory (name path : String) : ShellM Bool := do
  let report := fun (text : String) =>
    failed name ("failed to remove " ++ shellName path ++ ": " ++ text)
  match ← nodeAt path, ← locate path with
  | .error fault, _ | _, .error fault => report fault.text
  | .ok (.file _), _ => report FileFault.notADirectory.text
  | .ok .directory, .ok l =>
    if !(← isEmptyDirectory l) then return ← report "Directory not empty"
    onMachine fun m => m.remove l
    return true

def rmdir : Program :=
  withOptions ⟨"pv", "", [("parents", 'p'), ("verbose", 'v')]⟩ 1 fun name o => do
  if o.words.isEmpty then return ← refuse name "missing operand" 1
  eachWord o.words fun word => do
    let paths := if o.has 'p' then (pathsTo word).reverse else [word]
    return (← paths.mapM (removeDirectory name)).all id

def touch : Program :=
  withOptions ⟨"acmh", "dtr", [("no-create", 'c'), ("date", 'd')]⟩ 1 fun name o => do
  if o.words.isEmpty then return ← refuse name "missing file operand" 1
  eachWord o.words fun word => do
    let report := fun (fault : FileFault) =>
      failed name ("cannot touch " ++ shellName word ++ ": " ++ fault.text)
    match ← locate word with
    | .error fault => report fault
    | .ok l =>
      if ((← tree).node? l).isNone && !o.has 'c' then
        onMachine fun m => m.putFile l ByteArray.empty
      return true

/-- A file of its own name that was not there before. -/
def mktemp : Program :=
  withOptions ⟨"dutq", "p", [("directory", 'd'), ("dry-run", 'u')]⟩ 1 fun name o => do
  let template := o.words.headD "/tmp/tmp.XXXXXXXXXX"
  let body := (template.toList.reverse.dropWhile (· = 'X')).reverse
  let marks := template.length - body.length
  if marks < 3 then
    tell name ("too few X's in template " ++ curlyName template)
    return 1
  let count := (← get).machine.streams.size
  let digits := (toString count).toList
  let path := String.ofList (body ++ List.replicate (marks - digits.length) 'X' ++ digits)
  match ← locate path with
  | .error fault =>
    tell name ("failed to create " ++ (if o.has 'd' then "directory" else "file") ++
      " via template " ++ curlyName template ++ ": " ++ fault.text)
    return 1
  | .ok l =>
    discard (newStream .nowhere)
    if !o.has 'u' then
      setTree ((← tree).insert l (if o.has 'd' then .directory else .file ByteArray.empty))
    out (path ++ "\n")
    return 0

/-! Copying and moving. -/

/-- The place of a file that is put to a target: inside it if it is a directory. -/
def targetPath (source target : String) : ShellM String := do
  match ← nodeAt target with
  | .ok .directory =>
    let slash := if target.toList.getLast? = some '/' then "" else "/"
    return target ++ slash ++ lastName source
  | _ => return target

def arrow (verb source target : String) : String :=
  verb ++ shellName source ++ " -> " ++ shellName target ++ "\n"

def copyFile (o : Options) (name source target : String) (l : Location) (content : ByteArray) :
    ShellM Bool := do
  match ← writable target with
  | .error fault =>
    failed name ("cannot create regular file " ++ shellName target ++ ": " ++ fault.text)
  | .ok (destination, there) =>
    if destination = l then
      return ← failed name (shellName source ++ " and " ++ shellName target ++
        " are the same file")
    if o.has 'n' && there.isSome then return true
    onMachine fun m =>
      let m := m.putFile destination content
      if there.isSome then m else m.setMode destination (m.mode l)
    if o.has 'v' then out (arrow "" source target)
    return true

def copyTree (o : Options) (name : String) : Nat → String → String → ShellM Bool
  | 0, _, _ => return false
  | fuel + 1, source, target => do
    match ← nodeAt source, ← locate source with
    | .error fault, _ | _, .error fault =>
      failed name ("cannot stat " ++ shellName source ++ ": " ++ fault.text)
    | .ok (.file content), .ok l => copyFile o name source target l content
    | .ok .directory, .ok l => do
      if !(o.has 'r' || o.has 'R' || o.has 'a') then
        return ← failed name ("-r not specified; omitting directory " ++ shellName source)
      match ← locate target with
      | .error fault =>
        failed name ("cannot create directory " ++ shellName target ++ ": " ++ fault.text)
      | .ok destination =>
        let names := (← tree).namesIn l
        if ((← tree).node? destination).isNone then
          setTree ((← tree).insert destination .directory)
          if o.has 'v' then out (arrow "" source target)
        let results ← (sortedTexts (names.map encode)).mapM fun n =>
          copyTree o name fuel (source ++ "/" ++ n) (target ++ "/" ++ n)
        return results.all id

def moveWord (o : Options) (name source target : String) : ShellM Bool := do
  match ← nodeAt source, ← locate source with
  | .error fault, _ | _, .error fault =>
    failed name ("cannot stat " ++ shellName source ++ ": " ++ fault.text)
  | .ok node, .ok l => match ← locate target with
    | .error fault =>
      failed name ("cannot move " ++ shellName source ++ " to " ++ shellName target ++ ": " ++
        fault.text)
    | .ok destination =>
      if destination = l then
        return ← failed name (shellName source ++ " and " ++ shellName target ++
          " are the same file")
      if l.isPrefixOf destination then
        return ← failed name ("cannot move " ++ shellName source ++
          " to a subdirectory of itself, " ++ shellName target)
      let there := (← tree).node? destination
      if node = .directory && there.any (· != .directory) then
        return ← failed name ("cannot overwrite non-directory " ++ shellName target ++
          " with directory " ++ shellName source)
      if o.has 'n' && there.isSome then return true
      onMachine fun m => m.move l destination
      if o.has 'v' then out (arrow "renamed " source target)
      return true

/-- Runs something on every source and the target, which is a directory if there are many. -/
def toTarget (name : String) (o : Options) (f : String → String → ShellM Bool) : ShellM Nat := do
  let (sources, target) := match o.value? 't' with
    | some target => (o.words, some target)
    | none => (o.words.dropLast, o.words.getLast?)
  match sources, target with
  | [], none => refuse name "missing file operand" 1
  | [], some only => refuse name ("missing destination file operand after " ++ shellName only) 1
  | sources, target =>
    let target := target.getD ""
    let found ← nodeAt target
    match found with
    | .ok .directory => eachWord sources fun s => do f s (← targetPath s target)
    | _ => match sources with
      | [source] => eachWord [source] fun s => f s target
      | _ =>
        let text := match found with
          | .ok _ => FileFault.notADirectory.text
          | .error fault => fault.text
        tell name ("target " ++ shellName target ++ ": " ++ text)
        return 1

def cp : Program :=
  withOptions ⟨"rRafpvndiuLP", "t", [("recursive", 'r'), ("archive", 'a'), ("force", 'f'),
    ("verbose", 'v'), ("no-clobber", 'n')]⟩ 1 fun name o =>
  toTarget name o (copyTree o name 64)

def mv : Program :=
  withOptions ⟨"fvniu", "t", [("force", 'f'), ("verbose", 'v'), ("no-clobber", 'n')]⟩ 1
    fun name o => toTarget name o (moveWord o name)

/-! Looking. -/

def directoryNames (o : Options) (l : Location) : ShellM (List String) := do
  let names := ((← tree).namesIn l).map encode
  let names := if o.has 'a' then "." :: ".." :: names else names
  let shown := if o.has 'a' || o.has 'A' then names
    else names.filter fun n => n.toList.head? != some '.'
  let sorted := sortedTexts shown
  return if o.has 'r' then sorted.reverse else sorted

/-- A name with the mark that says what it is, if marks are asked for. -/
def markedName (o : Options) (l : Location) (name : String) : ShellM String := do
  let place := Location.within l (decode name)
  if (← tree).isDirectory place then
    return if o.has 'F' || o.has 'p' then name ++ "/" else name
  return if o.has 'F' && (← get).machine.isExecutable place then name ++ "*" else name

def listDirectory (o : Options) (headline : Bool) : Nat → String → Location →
    ShellM (List String)
  | 0, _, _ => return []
  | fuel + 1, path, l => do
    let names ← directoryNames o l
    let rows ← names.mapM (markedName o l)
    let own := (if headline || o.has 'R' then path ++ ":\n" else "") ++ unlines rows
    if !o.has 'R' then return [own]
    let inner ← names.filterMapM fun n => do
      let place := l ++ [decode n]
      return if (← tree).node? place = some .directory then some (path ++ "/" ++ n, place) else none
    return own :: (← inner.mapM fun e => listDirectory o true fuel e.1 e.2).flatten

def ls : Program :=
  withOptions ⟨"1aAdFprRtSUNCx", "I", [("all", 'a'), ("almost-all", 'A'), ("directory", 'd'),
    ("recursive", 'R'), ("reverse", 'r')]⟩ 2 fun name o => do
  let words := if o.words.isEmpty then ["."] else o.words
  let words := if o.has 'r' then (sortedTexts words).reverse else sortedTexts words
  let found ← words.mapM fun word => do
    match ← nodeAt word, ← locate word with
    | .error fault, _ | _, .error fault =>
      tell name ("cannot access " ++ shellName word ++ ": " ++ fault.text)
      return none
    | .ok node, .ok l => return some (word, node, l)
  let there := found.filterMap id
  let isListed := fun (e : String × Node × Location) => e.2.1 = .directory && !o.has 'd'
  let rows ← (there.filter fun e => !isListed e).mapM fun e => do
    markedName o (← get).directory e.1
  let headlines := 1 < words.length
  let blocks ← (there.filter isListed).mapM fun e => listDirectory o headlines 64 e.1 e.2.2
  let blocks := (if rows.isEmpty then [] else [unlines rows]) ++ blocks.flatten
  out (String.intercalate "\n" blocks)
  return if found.any Option.isNone then 2 else 0

/-! Names. -/

/-- The last segment of a path, or a slash for the root. -/
def baseName (path : String) : String :=
  if path.isEmpty then ""
  else
    let cs := (path.toList.reverse.dropWhile (· = '/'))
    if cs.isEmpty then "/" else String.ofList (cs.takeWhile (· != '/')).reverse

def withoutSuffix (suffix name : String) : String :=
  let n := name.length - suffix.length
  if suffix.length < name.length && name.toList.drop n = suffix.toList then
    String.ofList (name.toList.take n)
  else name

def basename : Program :=
  withOptions ⟨"az", "s", [("multiple", 'a'), ("suffix", 's')]⟩ 1 fun name o => do
  let suffix := (o.value? 's').getD ""
  match o.words with
  | [] => refuse name "missing operand" 1
  | words =>
    if o.has 'a' || o.has 's' then
      out (unlines (words.map fun w => withoutSuffix suffix (baseName w)))
      return 0
    match words with
    | [path] =>
      out (baseName path ++ "\n")
      return 0
    | [path, suffix] =>
      out (withoutSuffix suffix (baseName path) ++ "\n")
      return 0
    | words => refuse name ("extra operand " ++ curlyName (words.getD 2 "")) 1

def directoryName (path : String) : String :=
  let cs := path.toList.reverse.dropWhile (· = '/')
  if cs.isEmpty then if path.isEmpty then "." else "/"
  else
    let rest := cs.dropWhile (· != '/')
    if rest.isEmpty then "."
    else
      let rest := rest.dropWhile (· = '/')
      if rest.isEmpty then "/" else String.ofList rest.reverse

def dirname : Program := withOptions ⟨"z", "", []⟩ 1 fun name o => do
  if o.words.isEmpty then return ← refuse name "missing operand" 1
  out (unlines (o.words.map directoryName))
  return 0

def realpath : Program := withOptions ⟨"emsLPqfn", "", []⟩ 1 fun name o => do
  if o.words.isEmpty then return ← refuse name "missing operand" 1
  eachWord o.words fun word => do
    match ← locate word with
    | .error fault => failed name (plainReport word fault)
    | .ok l =>
      if o.has 'e' && ((← tree).node? l).isNone then
        return ← failed name (plainReport word .missing)
      out (encode (Location.text l) ++ "\n")
      return true

/-- As there are no links, only the canonical form of a path can be asked for. -/
def readlink : Program := withOptions ⟨"femnsqvz", "", []⟩ 1 fun name o => do
  if o.words.isEmpty then return ← refuse name "missing operand" 1
  eachWord o.words fun word => do
    match ← locate word with
    | .error _ => return false
    | .ok l =>
      if !(o.has 'f' || o.has 'e' || o.has 'm') then return false
      if o.has 'e' && ((← tree).node? l).isNone then return false
      out (encode (Location.text l) ++ (if o.has 'n' then "" else "\n"))
      return true

/-! Permissions. -/

def octal? (cs : List Char) : Option Nat :=
  if cs.isEmpty || !cs.all (fun c => '0' ≤ c && c ≤ '7') then none
  else
    let n := cs.foldl (fun n c => 8 * n + (c.toNat - 48)) 0
    if n < 4096 then some n else none

/-- The bits of permission letters, for everybody. -/
def permissionBits (isDirectory : Bool) (old : Nat) (cs : List Char) : Option Nat :=
  cs.foldlM (fun n c => match c with
    | 'r' => some (n ||| 0o444)
    | 'w' => some (n ||| 0o222)
    | 'x' => some (n ||| 0o111)
    | 'X' => some (if isDirectory || old &&& 0o111 != 0 then n ||| 0o111 else n)
    | 's' => some (n ||| 0o6000)
    | 't' => some (n ||| 0o1000)
    | _ => none) 0

def withoutBits (n bits : Nat) : Nat := n - (n &&& bits)

/-- Applies a symbolic change such as `u+x` to a mode. -/
def changeMode? (mask : Nat) (isDirectory : Bool) (old : Nat) (clause : List Char) : Option Nat :=
  let who := clause.takeWhile ['u', 'g', 'o', 'a'].contains
  let reach := who.foldl (fun n c => n ||| match c with
    | 'u' => 0o4700
    | 'g' => 0o2070
    | 'o' => 0o1007
    | _ => 0o7777) 0
  let reach := if who.isEmpty then withoutBits 0o7777 mask else reach
  match clause.drop who.length with
  | operator :: letters => do
    let bits ← permissionBits isDirectory old letters
    match operator with
    | '+' => some (old ||| (bits &&& reach))
    | '-' => some (withoutBits old (bits &&& reach))
    | '=' => some (withoutBits old reach ||| (bits &&& reach))
    | _ => none
  | [] => none

def newMode? (mask : Nat) (mode : String) (isDirectory : Bool) (old : Nat) : Option Nat :=
  match octal? mode.toList with
  | some n => some n
  | none => (mode.splitOn ",").foldlM (fun old clause =>
      changeMode? mask isDirectory old clause.toList) old

/-- A word that takes permissions away looks like an option. -/
def protectMode (words : List String) : List String :=
  match words with
  | w :: rest =>
    match w.toList with
    | '-' :: c :: _ =>
      if ['r', 'w', 'x', 'X', 's', 't'].contains c && w != "-R" then "--" :: w :: rest else words
    | _ => words
  | [] => []

def chmod : Program := fun name arguments =>
  withOptions ⟨"Rvcf", "", [("recursive", 'R'), ("verbose", 'v')]⟩ 1 (fun name o => do
    match o.words with
    | [] => refuse name "missing operand" 1
    | [mode] => refuse name ("missing operand after " ++ curlyName mode) 1
    | mode :: words =>
      let mask := (← get).mask
      if (newMode? mask mode false 0).isNone then
        return ← refuse name ("invalid mode: " ++ curlyName mode) 1
      eachWord words fun word => do
        match ← nodeAt word, ← locate word with
        | .error fault, _ | _, .error fault =>
          failed name ("cannot access " ++ shellName word ++ ": " ++ fault.text)
        | .ok node, .ok l =>
          onMachine fun m =>
            m.setMode l ((newMode? mask mode (node = .directory) (m.mode l)).getD (m.mode l))
          return true)
    name (protectMode arguments)

/-! Comparing. -/

/-- The first place where two texts differ, as byte and line numbers. -/
def firstDifference : Nat → Nat → List Char → List Char → Option (Nat × Nat)
  | byte, line, a :: as, b :: bs =>
    if a = b then firstDifference (byte + 1) (if a = '\n' then line + 1 else line) as bs
    else some (byte, line)
  | _, _, _, _ => none

def readOperand (word : String) : ShellM (Except FileFault String) := do
  if word = "-" then return .ok (← readAll 0) else readFile word

def cmp : Program := withOptions ⟨"sbl", "n", [("silent", 's'), ("quiet", 's')]⟩ 2 fun name o => do
  let (first, second) ← match o.words with
    | [] => do
      tell name ("missing operand after " ++ quotedName name)
      tell name ("Try " ++ quotedName (name ++ " --help") ++ " for more information.")
      return 2
    | [a] => pure (a, "-")
    | a :: b :: _ => pure (a, b)
  match ← readOperand first, ← readOperand second with
  | .ok a, .ok b =>
    if a = b then return 0
    let silent := o.has 's'
    match firstDifference 1 1 a.toList b.toList with
    | some (byte, line) =>
      if !silent then
        out (first ++ " " ++ second ++ " differ: byte " ++ toString byte ++ ", line " ++
          toString line ++ "\n")
      return 1
    | none =>
      let (word, text) := if a.length < b.length then (first, a) else (second, b)
      let place := if text.isEmpty then " which is empty"
        else " after byte " ++ toString text.length ++ ", " ++
          (if text.toList.getLast? = some '\n' then "line " else "in line ") ++
          toString (text.toList.count '\n' + if text.toList.getLast? = some '\n' then 0 else 1)
      if !silent then tell name ("EOF on " ++ word ++ place)
      return 1
  | a, b =>
    if !o.has 's' then
      match a, b with
      | .error fault, _ => tell name (unquotedReport first fault)
      | _, .error fault => tell name (unquotedReport second fault)
      | _, _ => return 2
    return 2

end SchemaDecl.Shell
