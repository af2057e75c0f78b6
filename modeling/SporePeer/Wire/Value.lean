import Mathlib.Data.List.Basic
import Mathlib.Tactic.Common

/-!
# JSON values

The values that both encodings of a request decode to. An object keeps its fields sorted by key,
one field for each key.

## Main definitions

* `Value`: JSON values
* `Value.insertField`: one field set in an object
* `Value.get`, `asStr`, `asU64`, `asArray`, `asObject`: the readers
-/

namespace SporePeer

/-- JSON numbers. A float is its bits, as nothing here reads it. -/
inductive Number
  | posInt (n : UInt64)
  | negInt (n : Int64)
  | float (bits : UInt64)
  deriving DecidableEq, Repr

/-- JSON values. -/
inductive Value
  | null
  | bool (b : Bool)
  | number (n : Number)
  | string (s : String)
  | array (items : List Value)
  | object (fields : List (String × Value))

namespace Value

/-- Sets a field, in key order. -/
def insertField (k : String) (v : Value) : List (String × Value) → List (String × Value)
  | [] => [(k, v)]
  | (k', v') :: rest =>
    if k < k' then (k, v) :: (k', v') :: rest
    else if k = k' then (k, v) :: rest
    else (k', v') :: insertField k v rest

/-- The value of a field. -/
def field (k : String) : List (String × Value) → Option Value
  | [] => none
  | (k', v') :: rest => if k = k' then some v' else field k rest

def asObject : Value → Option (List (String × Value))
  | object fields => some fields
  | _ => none

def asArray : Value → Option (List Value)
  | array items => some items
  | _ => none

def asStr : Value → Option String
  | string s => some s
  | _ => none

def asU64 : Value → Option UInt64
  | number (.posInt n) => some n
  | _ => none

/-- `v.get(k)`: the field `k` of an object. -/
def get (v : Value) (k : String) : Option Value := v.asObject.bind (field k)

/-- The number of a natural number below 2^64. -/
def uint (n : ℕ) : Value := number (.posInt (UInt64.ofNat n))

@[simp] theorem asObject_object (fields : List (String × Value)) :
    (object fields).asObject = some fields := rfl

@[simp] theorem asArray_array (items : List Value) : (array items).asArray = some items := rfl

@[simp] theorem asStr_string (s : String) : (string s).asStr = some s := rfl

@[simp] theorem asU64_uint (n : ℕ) : (uint n).asU64 = some (UInt64.ofNat n) := rfl

/-- Setting a field changes no other. -/
@[simp] theorem field_insertField (k k' : String) (v : Value) (fields : List (String × Value)) :
    field k' (insertField k v fields) = if k' = k then some v else field k' fields := by
  induction fields with
  | nil => rfl
  | cons f rest ih =>
    rw [insertField]
    split
    · rfl
    · split
      · rename_i h
        subst h
        simp only [field]
        split <;> rfl
      · rename_i hne
        simp only [field, ih]
        by_cases h : k' = k
        · subst h
          simp [hne]
        · simp [h]

end Value

end SporePeer
