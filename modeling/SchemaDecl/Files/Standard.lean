import SchemaDecl.Files.Tree

/-! The part of a file tree that every system has, as far as paths are likely to
name it: the usual directories, a few files, and the places of programs. -/

namespace SchemaDecl.Files

namespace Tree

def standardDirectories : List Location :=
  [["bin"], ["dev"], ["etc"], ["home"], ["lib"], ["opt"], ["proc"], ["root"], ["run"], ["sbin"],
    ["sys"], ["tmp"], ["usr"], ["usr", "bin"], ["usr", "lib"], ["usr", "local"],
    ["usr", "local", "bin"], ["usr", "sbin"], ["usr", "share"], ["var"], ["var", "tmp"]]

def standardFiles : List Location :=
  [["dev", "null"], ["etc", "passwd"], ["etc", "hosts"], ["etc", "hostname"]]

/-- How the file of a program begins. -/
def programMark : ByteArray := ⟨#[0x7f, 0x45, 0x4c, 0x46, 0x02, 0xff]⟩

/-- The file of a program: what it does is known by its name. -/
def programFile (name : String) : ByteArray := programMark ++ name.toUTF8

/-- The name in the file of a program. -/
def programName? (content : ByteArray) : Option String :=
  if (content.extract 0 programMark.size).data = programMark.data then
    String.fromUTF8? (content.extract programMark.size content.size)
  else none

def programDirectories : List Location := [["bin"], ["usr", "bin"]]

def programNames : List String :=
  ["[", "arch", "awk", "base64", "basename", "bash", "cat", "chmod", "cmp", "comm", "cp", "cut",
    "dash", "dirname", "echo", "egrep", "env", "expand", "expr", "false", "fgrep", "fold", "grep",
    "head", "id", "join", "ls", "mawk", "mkdir", "mktemp", "mv", "nawk", "nice", "nl", "nohup",
    "od", "paste", "printenv", "printf", "pwd", "readlink", "realpath", "rev", "rm", "rmdir", "sed",
    "seq", "setsid", "sh", "sleep", "sort", "stdbuf", "sync", "tac", "tail", "tee", "test",
    "timeout", "touch", "tr", "true", "tty", "uname", "unexpand", "uniq", "wc", "whoami", "xargs",
    "yes"]

def standard : Tree :=
  ⟨standardDirectories.map (fun l => (l, Node.directory)) ++
    standardFiles.map (fun l => (l, Node.file ByteArray.empty)) ++
    programDirectories.flatMap fun directory =>
      programNames.map fun name => (directory ++ [name], Node.file (programFile name))⟩

/-- Names of what a directory holds. -/
def namesIn (tree : Tree) (l : Location) : List String :=
  tree.entries.filterMap fun e =>
    if e.1.length = l.length + 1 && l.isPrefixOf e.1 then some e.1.name else none

/-- Removes a place with everything below it. -/
def eraseAll (tree : Tree) (l : Location) : Tree :=
  ⟨tree.entries.filter fun e => !l.isPrefixOf e.1⟩

end Tree

/-- What a message says about a fault. -/
def FileFault.text : FileFault → String
  | .missing => "No such file or directory"
  | .notADirectory => "Not a directory"
  | .isADirectory => "Is a directory"
  | .alreadyThere _ => "File exists"
  | .nameTooLong => "File name too long"
  | .impossibleName => "Invalid argument"
  | .busy => "Device or resource busy"
  | .notText => "Invalid or incomplete multibyte or wide character"

end SchemaDecl.Files
