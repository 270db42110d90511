import FerroLoop.Lib.Checked
import FerroLoop.Store.Layout

namespace FerroLoop.Store.Sample

open Bytes List List
open Text (textBytes)

def textCode (text : String) : List UInt8 := (textBytes text).flatMap (fun byte => [1, byte]) ++ [0]

def numberCode : Number → List UInt8
  | .posInt value => 0 :: toLe 8 value.toNat
  | .negInt value => 1 :: toLe 8 value.toUInt64.toNat
  | .float bits => 2 :: toLe 8 bits.toNat

mutual

def code : Tree → List UInt8
  | .null => ascii ['n', 'u', 'l', 'l']
  | .bool true => ascii ['t', 'r', 'u', 'e']
  | .bool false => ascii ['f', 'a', 'l', 's', 'e']
  | .number value => 35 :: numberCode value
  | .string value => 34 :: textCode value
  | .array [] => [91, 93]
  | .array (item :: rest) => 91 :: (code item ++ itemsCode rest)
  | .object fields => 123 :: fieldsCode fields

def itemsCode : List Tree → List UInt8
  | [] => [93]
  | item :: rest => 44 :: (code item ++ itemsCode rest)

def fieldsCode : List (String × Tree) → List UInt8
  | [] => [125]
  | (name, value) :: rest => 44 :: (textCode name ++ (code value ++ fieldsCode rest))

end

/-! ### No code is the beginning of another -/

variable (depth : Nat) {rest rest' : List UInt8}

theorem toLe_cancel {a b : Nat} (smallA : a < u64Max) (smallB : b < u64Max)
    (same : toLe 8 a ++ rest = toLe 8 b ++ rest') : a = b ∧ rest = rest' := by
  obtain ⟨front, back⟩ := append_inj same (by simp)
  have left : fromLe (toLe 8 a) = a := fromLe_toLe (by rw [u64Max] at smallA; omega)
  have right : fromLe (toLe 8 b) = b := fromLe_toLe (by rw [u64Max] at smallB; omega)
  rw [front] at left
  exact ⟨left.symm.trans right, back⟩

theorem numberCode_cancel {n n' : Number}
    (same : numberCode n ++ rest = numberCode n' ++ rest') : n = n' ∧ rest = rest' := by
  have bits : ∀ {a b : UInt64}, toLe 8 a.toNat ++ rest = toLe 8 b.toNat ++ rest' → a = b ∧ rest = rest' := by
    intro a b equal
    obtain ⟨values, back⟩ := toLe_cancel a.toNat_lt b.toNat_lt equal
    exact ⟨UInt64.toNat_inj.mp values, back⟩
  cases n with
  | posInt a =>
    cases n' with
    | posInt b =>
      obtain ⟨rfl, back⟩ := bits (cons.inj same).2
      exact ⟨rfl, back⟩
    | negInt b | float b => exact absurd (cons.inj same).1 (by decide)
  | negInt a =>
    cases n' with
    | posInt b => exact absurd (cons.inj same).1 (by decide)
    | negInt b =>
      obtain ⟨equal, back⟩ := bits (cons.inj same).2
      obtain ⟨a⟩ := a
      obtain ⟨b⟩ := b
      cases equal
      exact ⟨rfl, back⟩
    | float b => exact absurd (cons.inj same).1 (by decide)
  | float a =>
    cases n' with
    | posInt b | negInt b => exact absurd (cons.inj same).1 (by decide)
    | float b =>
      obtain ⟨rfl, back⟩ := bits (cons.inj same).2
      exact ⟨rfl, back⟩

theorem bytesCode_cancel {bytes bytes' : List UInt8}
    (same : bytes.flatMap (fun byte => [1, byte]) ++ 0 :: rest = bytes'.flatMap (fun byte => [1, byte]) ++ 0 :: rest') :
    bytes = bytes' ∧ rest = rest' := by
  induction bytes generalizing bytes' with
  | nil =>
    cases bytes' with
    | nil => exact ⟨rfl, (cons.inj same).2⟩
    | cons byte others => exact absurd (cons.inj same).1 (by decide)
  | cons byte others ih =>
    rcases bytes' with _ | ⟨byte', others'⟩
    · exact absurd (cons.inj same).1 (by decide)
    obtain ⟨-, inner⟩ := cons.inj same
    obtain ⟨rfl, tails⟩ := cons.inj inner
    obtain ⟨rfl, back⟩ := ih tails
    exact ⟨rfl, back⟩

theorem textCode_cancel {text text' : String}
    (same : textCode text ++ rest = textCode text' ++ rest') : text = text' ∧ rest = rest' := by
  simp only [textCode, append_assoc, cons_append, nil_append] at same
  obtain ⟨bytes, back⟩ := bytesCode_cancel same
  refine ⟨?_, back⟩
  apply String.toByteArray_inj.mp
  apply ByteArray.ext
  exact Array.toList_inj.mp bytes

def firstByte : Tree → UInt8
  | .null => 110
  | .bool true => 116
  | .bool false => 102
  | .number _ => 35
  | .string _ => 34
  | .array _ => 91
  | .object _ => 123

theorem code_first (tree : Tree) (rest : List UInt8) : ∃ later, code tree ++ rest = firstByte tree :: later := by
  cases tree with
  | bool value => cases value <;> exact ⟨_, rfl⟩
  | array items => cases items <;> exact ⟨_, rfl⟩
  | _ => exact ⟨_, rfl⟩

theorem firstByte_eq {tree tree' : Tree} (same : code tree ++ rest = code tree' ++ rest') : firstByte tree = firstByte tree' := by
  obtain ⟨_, left⟩ := code_first tree rest
  obtain ⟨_, right⟩ := code_first tree' rest'
  rw [left, right] at same
  exact (cons.inj same).1

theorem closing_ne_code (tree : Tree) (rest rest' : List UInt8) : 93 :: rest ≠ code tree ++ rest' := by
  intro same
  obtain ⟨_, first⟩ := code_first tree rest'
  rw [first] at same
  have closing := (cons.inj same).1
  cases tree with
  | bool value => cases value <;> simp [firstByte] at closing
  | _ => simp [firstByte] at closing

mutual

theorem code_cancel : ∀ (tree tree' : Tree) {rest rest' : List UInt8},
    code tree ++ rest = code tree' ++ rest' → tree = tree' ∧ rest = rest'
  | .null, tree', rest, rest', same => by
    have first := firstByte_eq same
    cases tree' with
    | null => exact ⟨rfl, append_cancel_left same⟩
    | bool value => cases value <;> simp [firstByte] at first
    | _ => simp [firstByte] at first
  | .bool b, tree', rest, rest', same => by
    have first := firstByte_eq same
    cases tree' with
    | bool value =>
      cases b <;> cases value
      · exact ⟨rfl, append_cancel_left same⟩
      · simp [firstByte] at first
      · simp [firstByte] at first
      · exact ⟨rfl, append_cancel_left same⟩
    | _ => cases b <;> simp [firstByte] at first
  | .number n, tree', rest, rest', same => by
    have first := firstByte_eq same
    cases tree' with
    | bool value => cases value <;> simp [firstByte] at first
    | number value =>
      obtain ⟨rfl, back⟩ := numberCode_cancel (cons.inj same).2
      exact ⟨rfl, back⟩
    | _ => simp [firstByte] at first
  | .string text, tree', rest, rest', same => by
    have first := firstByte_eq same
    cases tree' with
    | bool value => cases value <;> simp [firstByte] at first
    | string value =>
      obtain ⟨rfl, back⟩ := textCode_cancel (cons.inj same).2
      exact ⟨rfl, back⟩
    | _ => simp [firstByte] at first
  | .array items, tree', rest, rest', same => by
    have first := firstByte_eq same
    cases tree' with
    | bool value => cases value <;> simp [firstByte] at first
    | array items' =>
      cases items with
      | nil =>
        cases items' with
        | nil => exact ⟨rfl, append_cancel_left same⟩
        | cons item others =>
          simp only [code, cons_append, nil_append, append_assoc, cons.injEq, true_and] at same
          exact absurd same (closing_ne_code item _ _)
      | cons item others =>
        rcases items' with _ | ⟨item', others'⟩
        · simp only [code, cons_append, nil_append, append_assoc, cons.injEq, true_and] at same
          exact absurd same.symm (closing_ne_code item _ _)
        simp only [code, cons_append, append_assoc, cons.injEq, true_and] at same
        obtain ⟨rfl, tails⟩ := code_cancel item item' same
        obtain ⟨rfl, back⟩ := itemsCode_cancel others others' tails
        exact ⟨rfl, back⟩
    | _ => simp [firstByte] at first
  | .object fields, tree', rest, rest', same => by
    have first := firstByte_eq same
    cases tree' with
    | bool value => cases value <;> simp [firstByte] at first
    | object fields' =>
      obtain ⟨rfl, back⟩ := fieldsCode_cancel fields fields' (cons.inj same).2
      exact ⟨rfl, back⟩
    | _ => simp [firstByte] at first

theorem itemsCode_cancel : ∀ (items items' : List Tree) {rest rest' : List UInt8},
    itemsCode items ++ rest = itemsCode items' ++ rest' → items = items' ∧ rest = rest'
  | [], items', rest, rest', same => by
    cases items' with
    | nil => exact ⟨rfl, append_cancel_left same⟩
    | cons item others => exact absurd (cons.inj same).1 (by decide)
  | item :: others, items', rest, rest', same => by
    rcases items' with _ | ⟨item', others'⟩
    · exact absurd (cons.inj same).1 (by decide)
    simp only [itemsCode, cons_append, append_assoc, cons.injEq, true_and] at same
    obtain ⟨rfl, tails⟩ := code_cancel item item' same
    obtain ⟨rfl, back⟩ := itemsCode_cancel others others' tails
    exact ⟨rfl, back⟩

theorem fieldsCode_cancel : ∀ (fields fields' : List (String × Tree)) {rest rest' : List UInt8},
    fieldsCode fields ++ rest = fieldsCode fields' ++ rest' → fields = fields' ∧ rest = rest'
  | [], fields', rest, rest', same => by
    cases fields' with
    | nil => exact ⟨rfl, append_cancel_left same⟩
    | cons field others => exact absurd (cons.inj same).1 (by decide)
  | (name, value) :: others, fields', rest, rest', same => by
    rcases fields' with _ | ⟨field', others'⟩
    · exact absurd (cons.inj same).1 (by decide)
    obtain ⟨name', value'⟩ := field'
    simp only [fieldsCode, cons_append, append_assoc, cons.injEq, true_and] at same
    obtain ⟨rfl, afterName⟩ := textCode_cancel same
    obtain ⟨rfl, tails⟩ := code_cancel value value' afterName
    obtain ⟨rfl, back⟩ := fieldsCode_cancel others others' tails
    exact ⟨rfl, back⟩

end

open Classical in
noncomputable def decode (bytes : List UInt8) : Option Value :=
  if held : ∃ value : Value, code value.tree = bytes ∧ value.nesting ≤ SerdeJson.depthLimit then some held.choose
  else none

noncomputable def serde : SerdeJson := ⟨fun value => code value.tree, decode, fun _ => True⟩

theorem code_injective {value other : Value} (same : code value.tree = code other.tree) : value = other := by
  have padded : code value.tree ++ [] = code other.tree ++ [] := by rw [same]
  exact Value.ext (code_cancel value.tree other.tree padded).1

theorem serde_documented : serde.Documented where
  reads_back := by
    intro value readable
    have held : ∃ other : Value, code other.tree = code value.tree ∧ other.nesting ≤ SerdeJson.depthLimit :=
      ⟨value, rfl, readable.1⟩
    have found : decode (code value.tree) = some held.choose := dif_pos held
    rw [code_injective held.choose_spec.1] at found
    exact found
  too_deep := by
    intro value deep
    refine dif_neg ?_
    rintro ⟨other, same, shallow⟩
    rw [code_injective same] at shallow
    omega

/-- `null` inside this many arrays. -/
def nestedTree : Nat → Tree
  | 0 => .null
  | depth + 1 => .array [nestedTree depth]

theorem nestedTree_canonical : (nestedTree depth).Canonical := by
  induction depth with
  | zero => trivial
  | succ depth ih => exact ⟨ih, trivial⟩

def nested (depth : Nat) : Value := ⟨nestedTree depth, nestedTree_canonical depth⟩

theorem nested_nesting : (nested depth).nesting = depth := by
  show (nestedTree depth).nesting = depth
  induction depth with
  | zero => rfl
  | succ depth ih =>
    simp only [nestedTree, Tree.nesting, Tree.itemsNesting, ih]
    omega

theorem nested_floats : (nested depth).floats = [] := by
  show (nestedTree depth).floats = []
  induction depth with
  | zero => rfl
  | succ depth ih => simp only [nestedTree, Tree.floats, Tree.itemsFloats, ih, append_nil]

theorem nested_readable {depth : Nat} (shallow : depth ≤ SerdeJson.depthLimit) : serde.Readable (nested depth) := by
  refine ⟨by rw [nested_nesting]; exact shallow, ?_⟩
  intro bits member
  rw [nested_floats] at member
  cases member

theorem nested_code_length : (serde.toVec (nested depth)).length = 2 * depth + 4 := by
  show (code (nestedTree depth)).length = _
  induction depth with
  | zero => rfl
  | succ depth ih =>
    simp only [nestedTree, code, itemsCode, length_cons, length_append, length_nil, ih]
    omega

/-! ### A commit on which the theorems are tried -/

def engine : Engine where
  validateRowGroup _ _ := .ok ()
  upsert collection _ _ _ := .ok collection
  deleteId collection _ := .ok collection
  vectorLevel _ _ := 0
  checkStored _ _ _ := .ok ()
  checkOrder _ := .ok ()

/-- One document, `null` inside `depth` arrays. -/
def put (depth : Nat) : Op := .put "notes" "a" (nested depth)

theorem note_encodes {json : SerdeJson} {doc : Value} (small : (json.toVec doc).length ≤ 10000) (seq : Nat) :
    ∃ frame, encodeFrame json seq [.put "notes" "a" doc] = .ok frame := by
  have written : writeJson json doc = .ok (toLe 4 (json.toVec doc).length ++ json.toVec doc) := by
    have fits : (json.toVec doc).length < u32Max := by rw [u32Max]; omega
    rw [writeJson, writeLp, writeCount, if_pos fits]
    rfl
  have payload : encodePayload json seq [.put "notes" "a" doc] = .ok (toLe 8 seq ++ (toLe 4 1 ++ ([1] ++
      (toLe 4 5 ++ textBytes "notes" ++ (toLe 4 1 ++ textBytes "a" ++
        (toLe 4 (json.toVec doc).length ++ json.toVec doc))) ++ []))) := by
    rw [encodePayload]
    simp only [writeEach, encodeOp, written]
    rfl
  have collection : (textBytes "notes").length = 5 := rfl
  have id : (textBytes "a").length = 1 := rfl
  have fits : ∀ body, encodePayload json seq [.put "notes" "a" doc] = .ok body → body.length < u32Max := by
    intro body wrote
    rw [payload] at wrote
    cases wrote
    simp only [length_append, length_cons, length_nil, toLe_length, collection, id]
    rw [u32Max]
    omega
  rw [encodeFrame, payload]
  simp only [Checked.ok_bind, both, writeCount, if_pos (fits _ payload)]
  exact ⟨_, rfl⟩

theorem put_encodes {depth : Nat} (small : depth ≤ 1000) (seq : Nat) :
    ∃ frame, encodeFrame serde seq [put depth] = .ok frame := by
  have short : (serde.toVec (nested depth)).length ≤ 10000 := by
    rw [nested_code_length]
    omega
  exact note_encodes short seq

end FerroLoop.Store.Sample
