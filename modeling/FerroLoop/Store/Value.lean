/-!
JSON values as `serde_json` holds them, and its two conversions. The crate is not part of the
repository: `SerdeJson` is the pair of functions the store calls, and `SerdeJson.Documented`
is what its documentation says of them.
-/

namespace FerroLoop.Store

/-- `serde_json::Number`: an unsigned or a negative integer, or the bits of a finite `f64`. -/
inductive Number where
  | posInt (value : UInt64)
  | negInt (value : Int64)
  | float (bits : UInt64)
deriving DecidableEq

namespace Number

def finite (bits : UInt64) : Bool := (bits >>> 52) &&& 0x7ff != 0x7ff

def Canonical : Number → Prop
  | .posInt _ => True
  | .negInt value => value < 0
  | .float bits => finite bits = true

end Number

inductive Tree where
  | null
  | bool (value : Bool)
  | number (value : Number)
  | string (value : String)
  | array (items : List Tree)
  | object (fields : List (String × Tree))

namespace Tree

mutual

def nesting : Tree → Nat
  | .array items => itemsNesting items + 1
  | .object fields => fieldsNesting fields + 1
  | _ => 0

def itemsNesting : List Tree → Nat
  | [] => 0
  | item :: rest => max item.nesting (itemsNesting rest)

def fieldsNesting : List (String × Tree) → Nat
  | [] => 0
  | (_, value) :: rest => max value.nesting (fieldsNesting rest)

end

mutual

def floats : Tree → List UInt64
  | .number (.float bits) => [bits]
  | .array items => itemsFloats items
  | .object fields => fieldsFloats fields
  | _ => []

def itemsFloats : List Tree → List UInt64
  | [] => []
  | item :: rest => item.floats ++ itemsFloats rest

def fieldsFloats : List (String × Tree) → List UInt64
  | [] => []
  | (_, value) :: rest => value.floats ++ fieldsFloats rest

end

mutual

/-- Every number is one the crate builds, and every object is a `BTreeMap`: its keys are
distinct and in order. -/
def Canonical : Tree → Prop
  | .number value => value.Canonical
  | .array items => itemsCanonical items
  | .object fields => (fields.map Prod.fst).Pairwise (· < ·) ∧ fieldsCanonical fields
  | _ => True

def itemsCanonical : List Tree → Prop
  | [] => True
  | item :: rest => item.Canonical ∧ itemsCanonical rest

def fieldsCanonical : List (String × Tree) → Prop
  | [] => True
  | (_, value) :: rest => value.Canonical ∧ fieldsCanonical rest

end

end Tree

/-- `serde_json::Value`. -/
@[ext] structure Value where
  tree : Tree
  canonical : tree.Canonical

namespace Value

def null : Value := ⟨.null, trivial⟩

def nesting (value : Value) : Nat := value.tree.nesting

def floats (value : Value) : List UInt64 := value.tree.floats

end Value

/-- `serde_json::to_vec` and `serde_json::from_slice`, with the floats that parsing restores
from the text they are written as. -/
structure SerdeJson where
  toVec : Value → List UInt8
  fromSlice : List UInt8 → Option Value
  restores : UInt64 → Prop

namespace SerdeJson

/-- The parser's recursion limit is 128: it enters at most this many arrays and objects. -/
def depthLimit : Nat := 127

/-- A value the parser gives back from the text it is written as: not nested past the limit,
and with no float that the default, best-effort float parser changes. -/
def Readable (serde : SerdeJson) (value : Value) : Prop :=
  value.nesting ≤ depthLimit ∧ ∀ bits ∈ value.floats, serde.restores bits

/-- What the crate documents: within the limit a value is read back, and past it the text is
refused. -/
structure Documented (serde : SerdeJson) : Prop where
  reads_back : ∀ value, serde.Readable value → serde.fromSlice (serde.toVec value) = some value
  too_deep : ∀ value, depthLimit < value.nesting → serde.fromSlice (serde.toVec value) = none

end SerdeJson

end FerroLoop.Store
