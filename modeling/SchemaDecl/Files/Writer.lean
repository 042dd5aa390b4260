import SchemaDecl.Failure

/-! Writing a file as a whole or not at all. The content goes into a temporary
file beside the target, is checked there if that is wanted, and then takes the
place of the target in one step. When anything fails after the temporary file
was made, that file is removed again, so a failed write leaves at most new
directories behind. The name of the temporary file is the first of a numbered
series that is free; the series has more names than the tree has entries. -/

namespace SchemaDecl.Files

/-- Work on a file tree; what was done before a failure stays done. -/
abbrev FileM := ExceptT Failure (StateM Tree)

abbrev Check := String → Except Failure Unit

def fileStep (action : Tree → Except FileFault α) : FileM α := do
  (action (← get)).mapError Failure.file

def makeDirectory (tree : Tree) (l : Location) : Except FileFault Tree := do
  let place ← tree.resolve l
  match tree.node? place with
  | some _ => throw (.alreadyThere l.text)
  | none => return tree.insert place .directory

/-- Makes a directory and, where they are missing, the ones above it. The segments are reversed. -/
def makeDirectories : List String → FileM Unit
  | [] => return ()
  | segment :: above => do
    let l := (segment :: above).reverse
    match makeDirectory (← get) l with
    | .ok tree => set tree
    | .error .missing =>
      makeDirectories above
      match makeDirectory (← get) l with
      | .ok tree => set tree
      | .error fault => if (← get).isDirectory l then return () else throw (.file fault)
    | .error fault => if (← get).isDirectory l then return () else throw (.file fault)

def temporaryName (name : String) (n : Nat) : String :=
  let digits := Nat.toDigits 10 n
  "." ++ name ++ "." ++ String.ofList (List.replicate (8 - digits.length) '0' ++ digits) ++ ".tmp"

def seekFree (tree : Tree) (directory : Location) (name : String) : Nat → Nat → Nat
  | 0, n => n
  | fuel + 1, n =>
    if (tree.node? (directory ++ [temporaryName name n])).isSome then
      seekFree tree directory name fuel (n + 1)
    else n

/-- A new empty file beside the target. -/
def makeTemporary (target : Location) : FileM Location := do
  let tree ← get
  let directory ← fileStep fun tree => tree.resolve target.parent
  let n := seekFree tree directory target.name (tree.entries.length + 1) 0
  let place ← fileStep fun tree => tree.resolve (target.parent ++ [temporaryName target.name n])
  set (tree.insert place (.file ByteArray.empty))
  return place

def fill (place : Location) (content : String) : FileM Unit :=
  modify fun tree => tree.insert place (.file content.toUTF8)

/-- Moves a file to the target; a target that ends in a double dot is in use. -/
def replace (place target : Location) : FileM Unit := do
  if target.name = ".." then throw (.file .busy)
  let tree ← get
  let final ← fileStep fun tree => tree.resolve target
  match tree.node? place, tree.node? final with
  | _, some .directory => throw (.file .isADirectory)
  | some node, _ => set ((tree.erase place).insert final node)
  | none, _ => throw (.file .missing)

def removeTemporary (place : Location) : FileM Unit := modify fun tree => tree.erase place

def write (check : Check) (target : Location) (content : String) (checked : Bool) : FileM Unit := do
  makeDirectories target.parent.reverse
  let place ← makeTemporary target
  try
    fill place content
    if checked then (check content : Except _ _)
    replace place target
  catch failure =>
    removeTemporary place
    throw failure

def writeNew (check : Check) (target : Location) (content : String) (checked : Bool) :
    FileM Unit := do
  if ← fileStep fun tree => tree.isThere target then throw (.outputExists target.text)
  write check target content checked

def standardCheck : Check := fun content =>
  (TypeScript.OutputCheck.check content).mapError Failure.rejected

end SchemaDecl.Files
