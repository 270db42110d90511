import Mathlib.Algebra.Ring.Nat

/-!
JSON values, and the length of the compact text that `serde_json::to_vec` writes for one: no blanks,
and in strings only the quote, the backslash and the control characters escaped.
-/

namespace FerroLoop

inductive Json where
  | null
  | bool (value : Bool)
  | nat (value : Nat)
  | str (value : List Char)
  | arr (items : List Json)
  | obj (fields : List (String × Json))

namespace Json

def text (value : String) : Json := .str value.toList

/-- `Option` as `serde` writes it. -/
def option {α : Type} (f : α → Json) : Option α → Json
  | none => .null
  | some a => f a

def escapedSize (c : Char) : Nat :=
  if c.toNat < 32 then
    if c.toNat = 8 ∨ c.toNat = 9 ∨ c.toNat = 10 ∨ c.toNat = 12 ∨ c.toNat = 13 then 2 else 6
  else if c.toNat = 34 ∨ c.toNat = 92 then 2
  else c.utf8Size

def quotedSize (chars : List Char) : Nat := (chars.map escapedSize).sum + 2

mutual

def size : Json → Nat
  | .null => 4
  | .bool true => 4
  | .bool false => 5
  | .nat n => (Nat.toDigits 10 n).length
  | .str chars => quotedSize chars
  | .arr items => itemsSize items + 2
  | .obj fields => fieldsSize fields + 2

def itemsSize : List Json → Nat
  | [] => 0
  | [item] => size item
  | item :: rest => size item + 1 + itemsSize rest

def fieldsSize : List (String × Json) → Nat
  | [] => 0
  | [(name, value)] => quotedSize name.toList + 1 + size value
  | (name, value) :: rest => quotedSize name.toList + 1 + size value + 1 + fieldsSize rest

end

end Json

end FerroLoop
