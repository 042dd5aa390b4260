import SchemaDecl.CommandLine.Program

/-! The program. It takes a picture of the places that its arguments can name,
runs the command on that picture, and then brings the files that have changed to
the disk, each through a temporary file beside it. -/

namespace SchemaDecl

open Files

/-- What an argument may be a path by itself, after its first two characters, or after a `=`. -/
def pathsIn (argument : String) : List String :=
  let (_, after) := Text.cutAt '=' argument.toList
  [argument, String.ofList (argument.toList.drop 2)] ++ (after.map String.ofList).toList

def nodeAt (path : String) : IO (Option Node) := do
  try
    return some (.file (← IO.FS.readBinFile path))
  catch
    | .noFileOrDirectory .. => return none
    | .inappropriateType .. | .resourceExhausted .. | .otherError .. => return some .directory
    | _ => return none

def record (tree : Tree) (l : Location) : IO Tree := do
  let mut tree := tree
  for n in List.range (l.length + 1) do
    let part := l.take n
    if n != 0 && (tree.node? part).isNone then
      if let some node ← nodeAt (Location.text part) then tree := tree.insert part node
  return tree

def picture (directory : Location) (arguments : List String) : IO Tree := do
  let mut tree : Tree := ⟨[]⟩
  for argument in arguments.flatMap pathsIn do
    let l := Location.within directory argument
    for l in [l, l.collapse] do
      tree ← record tree l
  return tree

def bringToDisk (before after : Tree) : IO Unit := do
  for (l, node) in after.entries do
    if let .file content := node then
      if before.contentOf l != some content then
        let above := Location.parent l
        let temporary := Location.text (above ++ [temporaryName (Location.name l) 0])
        IO.FS.createDirAll (Location.text above)
        IO.FS.writeBinFile temporary content
        IO.FS.rename temporary (Location.text l)

end SchemaDecl

open SchemaDecl in
def main (arguments : List String) : IO UInt32 := do
  let directory := Files.Location.segmentsOf (← IO.currentDir).toString
  let before ← picture directory arguments
  let (outcome, after) := CommandLine.run before directory arguments
  bringToDisk before after
  IO.print outcome.standardOutput
  IO.eprint outcome.standardError
  if let some failure := outcome.failure then
    IO.eprintln ("Error: " ++ failure.message?.getD "a value or file is of the wrong kind")
  return outcome.exitCode.toUInt32
