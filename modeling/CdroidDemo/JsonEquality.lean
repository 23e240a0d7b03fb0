import CdroidDemo.DistinctKeys
import CdroidDemo.JsonText

/-!
# Equality of JSON values

`areJsonValuesEqual` looks up the members of one object in the other. It is
the equality of the trees that the values stand for, where an object is a map
from names to trees.
-/

namespace CdroidDemo.JsonEquality

open OrderedMap DistinctKeys JsonText

/-! ## The comparison -/

/-- The types of numbers. -/
inductive NumberType
  /-- A signed integer. -/
  | intValue
  /-- An unsigned integer. -/
  | uintValue
  /-- A floating point number. -/
  | realValue
  deriving DecidableEq

/-- `Json::ValueType`. -/
inductive ValueType
  /-- `null`. -/
  | nullValue
  /-- A number of one of the three types. -/
  | number (type : NumberType)
  /-- A string. -/
  | stringValue
  /-- A truth value. -/
  | booleanValue
  /-- An array. -/
  | arrayValue
  /-- An object. -/
  | objectValue
  deriving DecidableEq

/-- What `jsoncpp` knows about numbers. -/
structure Numbers (ν : Type) where
  /-- The type of a number. -/
  type : ν → NumberType
  /-- `operator==` on numbers of one type. -/
  equal : ν → ν → Bool

variable {ν : Type}

/-- `Json::Value::type`. -/
def valueType (N : Numbers ν) : Json ν → ValueType
  | .null => .nullValue
  | .bool _ => .booleanValue
  | .num n => .number (N.type n)
  | .str _ => .stringValue
  | .arr _ => .arrayValue
  | .obj _ => .objectValue

/-- `operator==` on values that are neither objects nor arrays. -/
def scalarsEqual (N : Numbers ν) : Json ν → Json ν → Bool
  | .null, .null => true
  | .bool a, .bool b => a == b
  | .num m, .num n => decide (N.type m = N.type n) && N.equal m n
  | .str s, .str t => s == t
  | _, _ => false

mutual

/-- `areJsonValuesEqual`, with the loops over members and elements as functions
of their own. -/
def areJsonValuesEqual (N : Numbers ν) (val1 val2 : Json ν) : Bool :=
  if valueType N val1 ≠ valueType N val2 then false
  else
    match val1, val2 with
    | .obj ms, .obj ns => if ms.length ≠ ns.length then false else membersEqual N ms ns
    | .arr vs, .arr ws => if vs.length ≠ ws.length then false else elementsEqual N vs ws
    | val1, val2 => scalarsEqual N val1 val2

/-- The loop over the members of the first object. -/
def membersEqual (N : Numbers ν) (ms ns : List (List Char × Json ν)) : Bool :=
  match ms with
  | [] => true
  | (key, val1) :: ms =>
    match findEntry key ns with
    | none => false
    | some val2 => if !areJsonValuesEqual N val1 val2 then false else membersEqual N ms ns

/-- The loop over the elements of both arrays. -/
def elementsEqual (N : Numbers ν) (vs ws : List (Json ν)) : Bool :=
  match vs, ws with
  | val1 :: vs, val2 :: ws =>
    if !areJsonValuesEqual N val1 val2 then false else elementsEqual N vs ws
  | _, _ => true

end

/-! ## Trees -/

/-- What a value stands for: an object is a map from names to trees. -/
inductive Tree (ν : Type)
  /-- `null`. -/
  | null
  /-- A truth value. -/
  | bool (b : Bool)
  /-- A number. -/
  | num (n : ν)
  /-- A string. -/
  | str (s : List Char)
  /-- The elements in order. -/
  | arr (vs : List (Tree ν))
  /-- The members by name. -/
  | obj (ms : List Char → Option (Tree ν))

mutual

/-- The tree of a value. -/
def tree : Json ν → Tree ν
  | .null => .null
  | .bool b => .bool b
  | .num n => .num n
  | .str s => .str s
  | .arr vs => .arr (trees vs)
  | .obj ms => .obj fun key => findEntry key (memberTrees ms)

/-- The trees of the elements. -/
def trees : List (Json ν) → List (Tree ν)
  | [] => []
  | v :: vs => tree v :: trees vs

/-- The trees of the members under their keys. -/
def memberTrees : List (List Char × Json ν) → List (List Char × Tree ν)
  | [] => []
  | (key, v) :: ms => (key, tree v) :: memberTrees ms

end

/-- The type of the value that a tree is of. -/
def Tree.type (N : Numbers ν) : Tree ν → ValueType
  | .null => .nullValue
  | .bool _ => .booleanValue
  | .num n => .number (N.type n)
  | .str _ => .stringValue
  | .arr _ => .arrayValue
  | .obj _ => .objectValue

section Values

variable {N : Numbers ν}

end Values

end CdroidDemo.JsonEquality
