import Std.Data.HashMap
import SchemaDecl.Shell.Awk.Value

/-! Tables from texts to values. The order in which a loop meets the entries is fixed
by chains: a name is kept in the chain that its hash selects, and whoever is looked
up moves to the front of its chain. Entries that were only ever named by whole
numbers are kept in other chains, and get their place among the names when names
are asked for. The pieces of a text begin as a plain row. -/

namespace SchemaDecl.Shell.Awk

structure Table where
  /-- Whether the entries are a row, with the numbers from one on. -/
  isRow : Bool
  /-- Whether every entry is in a chain of names. -/
  isNamed : Bool
  size : Nat
  names : Array (List String)
  numbers : Array (List Int)
  values : Std.HashMap String Value

/-- What an entry is looked up by. -/
inductive Index
  | name (s : String)
  | number (n : Int)

def Index.text : Index → String
  | .name s => s
  | .number n => toString n

namespace Table

def firstWidth : Nat := 64

/-- How many entries a chain has on average before the chains are split. -/
def chainLength : Nat := 12

def empty : Table := ⟨false, false, 0, .replicate firstWidth [], .replicate firstWidth [], {}⟩

/-- The hash of a name. -/
def hash (name : String) : Nat :=
  (name.toList.foldl (fun (h : UInt32) c => (h ^^^ c.toNat.toUInt32) * 16777619) 2166136261).toNat

def nameChain (t : Table) (name : String) : Nat := hash name % t.names.size

def numberChain (t : Table) (n : Int) : Nat := (n % t.numbers.size).toNat

/-- Takes something out of its chain, if it is there, and puts it at the front. -/
def inFront [BEq α] (chains : Array (List α)) (i : Nat) (a : α) : Array (List α) :=
  chains.modify i fun chain => a :: chain.erase a

def widthFor : Nat → Nat → Nat → Nat
  | 0, width, _ => width
  | fuel + 1, width, size =>
    if width * chainLength < size then widthFor fuel (2 * width) size else width

/-- A row as chains of numbers. -/
def ofRow (t : Table) : Table :=
  if !t.isRow then t
  else
    let width := widthFor t.size firstWidth t.size
    let numbers := (List.range t.size).foldl (fun (chains : Array (List Int)) i =>
      chains.modify ((i + 1) % width) fun chain => ((i + 1 : Nat) : Int) :: chain)
      (.replicate width [])
    { t with isRow := false, numbers, names := .replicate width [] }

/-- Gives every entry its place among the names. -/
def withNames (t : Table) : Table :=
  if t.isNamed then t
  else
    let t := t.ofRow
    let names := t.numbers.foldl (fun (names : Array (List String)) chain =>
      chain.foldl (fun names n =>
        let name := toString n
        names.modify (hash name % names.size) fun chain => name :: chain) names) t.names
    { t with isNamed := true, names }

/-- Doubles the number of chains. -/
def doubled (t : Table) : Table :=
  let width := 2 * t.names.size
  let names := t.names ++ Array.replicate t.names.size []
  let numbers := t.numbers ++ Array.replicate t.numbers.size []
  let place := fun (name : String) => hash name % width
  let numberPlace := fun (n : Int) => (n % width).toNat
  { t with
    names := names.mapIdx fun i _ =>
      (names.getD (i % t.names.size) []).filter fun name => place name = i
    numbers := numbers.mapIdx fun i _ =>
      (numbers.getD (i % t.numbers.size) []).filter fun n => numberPlace n = i }

def grown (t : Table) : Table :=
  let t := { t with size := t.size + 1 }
  if t.names.size * chainLength < t.size then t.doubled else t

/-- Looks an entry up by its name, and makes it if it is to be made. -/
def findName (create : Bool) (t : Table) (name : String) : Bool × Table :=
  let t := t.withNames
  if t.values.contains name then
    (true, { t with names := inFront t.names (t.nameChain name) name })
  else if !create then (false, t)
  else
    let t := t.grown
    (true, { t with
      names := inFront t.names (t.nameChain name) name
      values := t.values.insert name .unset })

/-- Looks an entry up by a whole number. -/
def findNumber (create : Bool) (t : Table) (n : Int) : Bool × Table :=
  if t.isRow && 1 ≤ n && n ≤ t.size then (true, t)
  else if t.isRow && !create then (false, t)
  else
    let t := t.ofRow
    let inChain := (t.numbers.getD (t.numberChain n) []).contains n
    if inChain then (true, { t with numbers := inFront t.numbers (t.numberChain n) n })
    else
      let (found, t) :=
        if t.isNamed then t.findName create (toString n)
        else if create then
          let t := t.grown
          (true, { t with values := t.values.insert (toString n) .unset })
        else (false, t)
      if found then (true, { t with numbers := inFront t.numbers (t.numberChain n) n })
      else (false, t)

def find (create : Bool) (t : Table) (index : Index) : Bool × Table :=
  if t.size = 0 && !create then (false, t)
  else match index with
    | .name s => t.findName create s
    | .number n => t.findNumber create n

def get (t : Table) (index : Index) : Value × Table :=
  let (_, t) := t.find true index
  (t.values.getD index.text .unset, t)

def set (t : Table) (index : Index) (v : Value) : Table :=
  let (_, t) := t.find true index
  { t with values := t.values.insert index.text v }

def remove (t : Table) (name : String) : Table :=
  if t.size = 0 then t
  else
    let (found, t) := t.findName false name
    if !found then t
    else if t.size = 1 then empty
    else { t with
      size := t.size - 1
      names := t.names.modify (t.nameChain name) (·.erase name)
      numbers := match name.toInt? with
        | some n => if toString n = name then t.numbers.modify (t.numberChain n) (·.erase n)
            else t.numbers
        | none => t.numbers
      values := t.values.erase name }

/-- The names of all entries in the order of the chains. -/
def keys (t : Table) : List String × Table :=
  let t := t.withNames
  (t.names.toList.flatten, t)

/-- A row of values. -/
def ofList (vs : List Value) : Table :=
  if vs.isEmpty then empty
  else { empty with
    isRow := true
    size := vs.length
    values := (vs.zipIdx 1).foldl (fun m (v, i) => m.insert (toString i) v) {} }

end Table

end SchemaDecl.Shell.Awk
