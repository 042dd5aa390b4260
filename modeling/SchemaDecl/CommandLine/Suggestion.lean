/-! Suggestions for a mistyped word. Two words are alike to the degree that
their characters lie in common blocks: the longest common block is taken, the
first one in the known word and then in the typed word if there are several,
and the search goes on to its left and to its right. Twice the characters so
matched against the characters of both words is the degree, and from three
fifths on a known word is worth suggesting. -/

namespace SchemaDecl.CommandLine

def commonLength : List Char → List Char → Nat
  | a :: as, b :: bs => if a = b then commonLength as bs + 1 else 0
  | _, _ => 0

/-- Length and two positions of the longest common block. -/
def longestBlock (known typed : List Char) : Nat × Nat × Nat :=
  let places := (List.range known.length).flatMap fun i =>
    (List.range typed.length).map fun j => (i, j)
  places.foldl (fun best (i, j) =>
    let length := commonLength (known.drop i) (typed.drop j)
    if best.1 < length then (length, i, j) else best) (0, 0, 0)

def matched : Nat → List Char → List Char → Nat
  | 0, _, _ => 0
  | fuel + 1, known, typed =>
    let (length, i, j) := longestBlock known typed
    if length = 0 then 0
    else matched fuel (known.take i) (typed.take j) + length +
      matched fuel (known.drop (i + length)) (typed.drop (j + length))

structure Likeness where
  word : String
  matched : Nat
  total : Nat

def likeness (typed known : String) : Likeness :=
  let a := known.toList
  let b := typed.toList
  ⟨known, matched a.length a b, a.length + b.length⟩

def Likeness.isClose (l : Likeness) : Bool := 3 * l.total ≤ 10 * l.matched

/-- Words that are more alike come first, and of equally alike ones the later in the alphabet. -/
def Likeness.before (l m : Likeness) : Bool :=
  let x := l.matched * m.total
  let y := m.matched * l.total
  if x = y then m.word ≤ l.word else y < x

/-- At most three words, in alphabetical order. -/
def suggestions (typed : String) (known : List String) : List String :=
  let close := (known.map (likeness typed)).filter Likeness.isClose
  let best := (close.mergeSort Likeness.before).take 3
  (best.map Likeness.word).mergeSort (· ≤ ·)

end SchemaDecl.CommandLine
