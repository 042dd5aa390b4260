import SchemaDecl.Files.Location
import SchemaDecl.Text.Lines

/-! A file tree: which locations hold a file or a directory, with the contents of
the files. The root is always there. Looking a location up goes segment by
segment: only a directory can be stepped into, a double dot steps back, an empty
segment stays, and a name is at most 255 bytes long. A location with an
impossible name anywhere is refused before that. -/

namespace SchemaDecl.Files

inductive Node
  | file (content : ByteArray)
  | directory

instance : DecidableEq Node
  | .file a, .file b => match ByteArray.instDecidableEq a b with
    | isTrue h => isTrue (h ▸ rfl)
    | isFalse h => isFalse fun e => h (Node.file.inj e)
  | .directory, .directory => isTrue rfl
  | .file _, .directory | .directory, .file _ => isFalse nofun

inductive FileFault
  | missing
  | notADirectory
  | isADirectory
  | alreadyThere (path : String)
  | nameTooLong
  /-- A name holds the character that ends names. -/
  | impossibleName
  | busy
  | notText
  deriving DecidableEq

structure Tree where
  entries : List (Location × Node)
  deriving DecidableEq

namespace Tree

def node? (tree : Tree) (l : Location) : Option Node :=
  if l.isEmpty then some .directory else tree.entries.lookup l

def erase (tree : Tree) (l : Location) : Tree := ⟨tree.entries.filter fun e => e.1 != l⟩

def insert (tree : Tree) (l : Location) (node : Node) : Tree :=
  ⟨(l, node) :: (tree.erase l).entries⟩

def step (tree : Tree) (l : Location) (segment : String) : Except FileFault Location :=
  match tree.node? l with
  | none => .error .missing
  | some (.file _) => .error .notADirectory
  | some .directory =>
    if segment = ".." then .ok l.dropLast
    else if segment.isEmpty then .ok l
    else if 255 < segment.utf8ByteSize then .error .nameTooLong
    else .ok (l ++ [segment])

/-- Where a location with double dots leads; its end need not be there. -/
def resolve (tree : Tree) (l : Location) : Except FileFault Location :=
  if l.isPossible then l.foldlM tree.step [] else .error .impossibleName

def find (tree : Tree) (l : Location) : Except FileFault Node := do
  match tree.node? (← tree.resolve l) with
  | some node => return node
  | none => throw .missing

/-- A location that cannot be reached does not exist, one with an impossible name is a fault. -/
def isThere (tree : Tree) (l : Location) : Except FileFault Bool :=
  match tree.find l with
  | .ok _ => .ok true
  | .error .missing | .error .notADirectory | .error .impossibleName => .ok false
  | .error fault => .error fault

def isDirectory (tree : Tree) (l : Location) : Bool := (tree.find l).toOption = some .directory

/-- The text of a file with its line ends unified. -/
def readText (tree : Tree) (l : Location) : Except FileFault String := do
  match ← tree.find l with
  | .directory => throw .isADirectory
  | .file content => match String.fromUTF8? content with
    | some text => return Text.unifyLineEnds text
    | none => throw .notText

def contentOf (tree : Tree) (l : Location) : Option ByteArray :=
  match tree.node? l with
  | some (.file content) => some content
  | _ => none

theorem node?_insert_same (tree : Tree) {l : Location} (node : Node) (h : l ≠ []) :
    (tree.insert l node).node? l = some node := by
  simp [node?, insert, h]

theorem lookup_filter_ne (entries : List (Location × Node)) {l m : Location} (h : m ≠ l) :
    (entries.filter fun e => e.1 != l).lookup m = entries.lookup m := by
  induction entries with
  | nil => rfl
  | cons e entries ih =>
    obtain ⟨k, node⟩ := e
    by_cases hk : k = l
    · have hm : (m == l) = false := by simpa using h
      simp [hk, List.lookup_cons, ih, hm]
    · simp only [bne_iff_ne, ne_eq, hk, not_false_eq_true, List.filter_cons_of_pos,
        List.lookup_cons, ih]

theorem node?_insert_other (tree : Tree) {l m : Location} (node : Node) (h : m ≠ l) :
    (tree.insert l node).node? m = tree.node? m := by
  have hm : (m == l) = false := by simpa using h
  simp [node?, insert, erase, List.lookup_cons, hm, lookup_filter_ne _ h]

theorem node?_erase_other (tree : Tree) {l m : Location} (h : m ≠ l) :
    (tree.erase l).node? m = tree.node? m := by
  simp [node?, erase, lookup_filter_ne _ h]

end Tree

end SchemaDecl.Files
