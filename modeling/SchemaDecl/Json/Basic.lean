import SchemaDecl.Number.Double

/-! JSON values and the keys of their objects. An object is the list of its
fields in order. Keys are usually strings, but an object that was folded from a
list of named entries may be keyed by any scalar; two keys are the same when
their canonical forms are equal, so `1`, `1.0` and `true` are one key. Values
have a decidable equality of their own, which tells these apart. -/

namespace SchemaDecl

open Number

inductive Key
  | str (text : String)
  | null
  | bool (value : Bool)
  | int (value : Int)
  | float (value : Double)
  deriving DecidableEq

inductive Json
  | null
  | bool (value : Bool)
  | int (value : Int)
  | float (value : Double)
  | str (text : String)
  | arr (items : List Json)
  | obj (fields : List (Key × Json))

abbrev Fields := List (Key × Json)

instance : Coe String Key := ⟨.str⟩

instance : Inhabited Json := ⟨.null⟩

namespace Key

def canon : Key → Key
  | .bool b => .int (if b then 1 else 0)
  | .float x => match x.toInt? with
    | some n => .int n
    | none => .float x
  | key => key

def same (a b : Key) : Bool := a.canon == b.canon

def toJson : Key → Json
  | .str s => .str s
  | .null => .null
  | .bool b => .bool b
  | .int n => .int n
  | .float x => .float x

theorem same_iff {a b : Key} : a.same b = true ↔ a.canon = b.canon := by simp [same]

theorem same_refl (a : Key) : a.same a = true := by simp [same]

theorem same_str {s t : String} : (Key.str s).same (.str t) = true ↔ s = t := by
  simp [same, canon]

example : (Key.float (.ofDecimal false 10 (-1))).same (.bool true) = true := by decide +kernel

end Key

namespace Json

mutual
def decEq : (a b : Json) → Decidable (a = b)
  | .null, b => match b with
    | .null => isTrue rfl
    | .bool _ | .int _ | .float _ | .str _ | .arr _ | .obj _ => isFalse nofun
  | .bool x, b => match b with
    | .bool y => if h : x = y then isTrue (h ▸ rfl) else isFalse fun e => h (by injection e)
    | .null | .int _ | .float _ | .str _ | .arr _ | .obj _ => isFalse nofun
  | .int x, b => match b with
    | .int y => if h : x = y then isTrue (h ▸ rfl) else isFalse fun e => h (by injection e)
    | .null | .bool _ | .float _ | .str _ | .arr _ | .obj _ => isFalse nofun
  | .float x, b => match b with
    | .float y => if h : x = y then isTrue (h ▸ rfl) else isFalse fun e => h (by injection e)
    | .null | .bool _ | .int _ | .str _ | .arr _ | .obj _ => isFalse nofun
  | .str x, b => match b with
    | .str y => if h : x = y then isTrue (h ▸ rfl) else isFalse fun e => h (by injection e)
    | .null | .bool _ | .int _ | .float _ | .arr _ | .obj _ => isFalse nofun
  | .arr xs, b => match b with
    | .arr ys => match decEqItems xs ys with
      | isTrue h => isTrue (h ▸ rfl)
      | isFalse h => isFalse fun e => h (by injection e)
    | .null | .bool _ | .int _ | .float _ | .str _ | .obj _ => isFalse nofun
  | .obj fs, b => match b with
    | .obj gs => match decEqFields fs gs with
      | isTrue h => isTrue (h ▸ rfl)
      | isFalse h => isFalse fun e => h (by injection e)
    | .null | .bool _ | .int _ | .float _ | .str _ | .arr _ => isFalse nofun

def decEqItems : (xs ys : List Json) → Decidable (xs = ys)
  | [], [] => isTrue rfl
  | [], _ :: _ => isFalse nofun
  | _ :: _, [] => isFalse nofun
  | x :: xs, y :: ys => match decEq x y, decEqItems xs ys with
    | isTrue h, isTrue t => isTrue (h ▸ t ▸ rfl)
    | isFalse h, _ => isFalse fun e => h (by injection e)
    | _, isFalse t => isFalse fun e => t (by injection e)

def decEqFields : (fs gs : List (Key × Json)) → Decidable (fs = gs)
  | [], [] => isTrue rfl
  | [], _ :: _ => isFalse nofun
  | _ :: _, [] => isFalse nofun
  | (k, x) :: fs, (l, y) :: gs =>
    if hk : k = l then match decEq x y, decEqFields fs gs with
      | isTrue h, isTrue t => isTrue (hk ▸ h ▸ t ▸ rfl)
      | isFalse h, _ => isFalse fun e => h (by injection e with e; injection e)
      | _, isFalse t => isFalse fun e => t (by injection e)
    else isFalse fun e => hk (by injection e with e; injection e)
end

instance : DecidableEq Json := decEq

/-- Scalars can be keys; arrays and objects cannot. -/
def toKey? : Json → Option Key
  | .null => some .null
  | .bool b => some (.bool b)
  | .int n => some (.int n)
  | .float x => some (.float x)
  | .str s => some (.str s)
  | .arr _ | .obj _ => none

/-- Null, false, zeros and everything empty are falsy. -/
def truthy : Json → Bool
  | .null => false
  | .bool b => b
  | .int n => n != 0
  | .float x => !x.isZero
  | .str s => !s.isEmpty
  | .arr items => !items.isEmpty
  | .obj fields => !fields.isEmpty

mutual
/-- Levels of containers; a scalar has none. -/
def depth : Json → Nat
  | .arr items => depthItems items + 1
  | .obj fields => depthFields fields + 1
  | .null | .bool _ | .int _ | .float _ | .str _ => 0

def depthItems : List Json → Nat
  | [] => 0
  | x :: items => max x.depth (depthItems items)

def depthFields : List (Key × Json) → Nat
  | [] => 0
  | (_, x) :: fields => max x.depth (depthFields fields)
end

theorem toKey?_toJson (k : Key) : k.toJson.toKey? = some k := by cases k <;> rfl

theorem depth_le_depthItems {x : Json} {items : List Json} (h : x ∈ items) :
    x.depth ≤ depthItems items := by
  induction items with
  | nil => cases h
  | cons y items ih =>
    simp only [depthItems]
    rcases List.mem_cons.1 h with rfl | h
    · exact Nat.le_max_left _ _
    · exact Nat.le_trans (ih h) (Nat.le_max_right _ _)

theorem depth_le_depthFields {f : Key × Json} {fields : List (Key × Json)} (h : f ∈ fields) :
    f.2.depth ≤ depthFields fields := by
  induction fields with
  | nil => cases h
  | cons g fields ih =>
    simp only [depthFields]
    rcases List.mem_cons.1 h with rfl | h
    · exact Nat.le_max_left _ _
    · exact Nat.le_trans (ih h) (Nat.le_max_right _ _)

end Json

end SchemaDecl
