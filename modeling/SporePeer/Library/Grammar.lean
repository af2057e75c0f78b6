import SporePeer.Library.Bytes

/-!
# The grammar of CBOR

The well-formed items of RFC 8949 of definite length, and their bytes. A head carries its argument
in any width that holds it, the shortest one or not. Text need not be UTF-8, nor keys distinct:
such items are well-formed, if not valid.

## Main definitions

* `Width`: how a head carries its argument
* `Item`, `Item.WellFormed`, `Item.encode`: items, and their bytes
* `Item.parts`: the items directly inside an item
* `Item.tags`: the number of tags in an item

## Main results

* `Item.encode_eq`: an item is what stands in front, and then its parts
-/

namespace Grammar

open Bytes

/-- How a head carries its argument: in its first byte, or in the bytes after it. -/
inductive Width
  | immediate
  | one
  | two
  | four
  | eight
  deriving DecidableEq, Repr

namespace Width

/-- The bytes of the argument after the first byte of a head. -/
def bytes : Width → ℕ
  | immediate => 0
  | one => 1
  | two => 2
  | four => 4
  | eight => 8

/-- The additional information of a head. -/
def info (w : Width) (n : ℕ) : ℕ :=
  match w with
  | immediate => n
  | one => 24
  | two => 25
  | four => 26
  | eight => 27

/-- The arguments that fit. -/
def bound : Width → ℕ
  | immediate => 24
  | w => 256 ^ w.bytes

theorem info_lt {w : Width} {n : ℕ} (h : n < w.bound) : w.info n < 32 := by
  cases w with
  | immediate =>
    have hn : n < 24 := h
    show n < 32
    omega
  | one => show 24 < 32; omega
  | two => show 25 < 32; omega
  | four => show 26 < 32; omega
  | eight => show 27 < 32; omega

end Width

/-- The head of an item: its major type, and its argument. -/
def head (major : ℕ) (w : Width) (n : ℕ) : Bytes :=
  UInt8.ofNat (major * 32 + w.info n) :: toBe w.bytes n

theorem length_head (major : ℕ) (w : Width) (n : ℕ) : (head major w n).length = w.bytes + 1 := by
  rw [head, List.length_cons, length_toBe]

/-- Items. A negative integer with the argument `n` is `-1 - n`; a float is a simple value in two,
four or eight bytes. -/
inductive Item
  | uint (w : Width) (n : ℕ)
  | nint (w : Width) (n : ℕ)
  | bytes (w : Width) (b : Bytes)
  | text (w : Width) (b : Bytes)
  | array (w : Width) (items : List Item)
  | map (w : Width) (pairs : List (Item × Item))
  | tag (w : Width) (n : ℕ) (item : Item)
  | simple (w : Width) (n : ℕ)

/-- Keys and values in turn. -/
def inTurn : List (Item × Item) → List Item
  | [] => []
  | p :: pairs => p.1 :: p.2 :: inTurn pairs

namespace Item

/-- Every argument fits its head, and a simple value in a byte of its own is none of those that fit
the first byte or are reserved. -/
inductive WellFormed : Item → Prop
  | uint {w : Width} {n : ℕ} (hn : n < w.bound) : WellFormed (.uint w n)
  | nint {w : Width} {n : ℕ} (hn : n < w.bound) : WellFormed (.nint w n)
  | bytes {w : Width} {b : Bytes} (hn : b.length < w.bound) : WellFormed (.bytes w b)
  | text {w : Width} {b : Bytes} (hn : b.length < w.bound) : WellFormed (.text w b)
  | array {w : Width} {items : List Item} (hn : items.length < w.bound)
      (h : ∀ x ∈ items, WellFormed x) : WellFormed (.array w items)
  | map {w : Width} {pairs : List (Item × Item)} (hn : pairs.length < w.bound)
      (hk : ∀ p ∈ pairs, WellFormed p.1) (hv : ∀ p ∈ pairs, WellFormed p.2) :
      WellFormed (.map w pairs)
  | tag {w : Width} {n : ℕ} {x : Item} (hn : n < w.bound) (h : WellFormed x) :
      WellFormed (.tag w n x)
  | simple {w : Width} {n : ℕ} (hn : n < w.bound) (hone : w = .one → 32 ≤ n) :
      WellFormed (.simple w n)

mutual

/-- The bytes of an item. -/
def encode : Item → Bytes
  | .uint w n => head 0 w n
  | .nint w n => head 1 w n
  | .bytes w b => head 2 w b.length ++ b
  | .text w b => head 3 w b.length ++ b
  | .array w items => head 4 w items.length ++ encodeAll items
  | .map w pairs => head 5 w pairs.length ++ encodePairs pairs
  | .tag w n x => head 6 w n ++ encode x
  | .simple w n => head 7 w n

/-- The bytes of items one after another. -/
def encodeAll : List Item → Bytes
  | [] => []
  | x :: s => encode x ++ encodeAll s

def encodePairs : List (Item × Item) → Bytes
  | [] => []
  | (k, v) :: s => encode k ++ encode v ++ encodePairs s

end

mutual

/-- The number of tags in an item. -/
def tags : Item → ℕ
  | .array _ items => tagsAll items
  | .map _ pairs => tagsPairs pairs
  | .tag _ _ x => tags x + 1
  | _ => 0

def tagsAll : List Item → ℕ
  | [] => 0
  | x :: s => tags x + tagsAll s

def tagsPairs : List (Item × Item) → ℕ
  | [] => 0
  | (k, v) :: s => tags k + tags v + tagsPairs s

end

theorem encodeAll_append (s t : List Item) : encodeAll (s ++ t) = encodeAll s ++ encodeAll t := by
  induction s with
  | nil => rfl
  | cons x s ih => rw [List.cons_append, encodeAll, encodeAll, ih, List.append_assoc]

theorem tagsAll_append (s t : List Item) : tagsAll (s ++ t) = tagsAll s + tagsAll t := by
  induction s with
  | nil => exact (Nat.zero_add _).symm
  | cons x s ih => rw [List.cons_append, tagsAll, tagsAll, ih, Nat.add_assoc]

theorem encodePairs_eq (pairs : List (Item × Item)) :
    encodePairs pairs = encodeAll (inTurn pairs) := by
  induction pairs with
  | nil => rfl
  | cons p pairs ih => rw [encodePairs, ih, inTurn, encodeAll, encodeAll, List.append_assoc]

theorem tagsPairs_eq (pairs : List (Item × Item)) :
    tagsPairs pairs = tagsAll (inTurn pairs) := by
  induction pairs with
  | nil => rfl
  | cons p pairs ih => rw [tagsPairs, ih, inTurn, tagsAll, tagsAll, Nat.add_assoc]

/-- The head of an item, with the string behind it. -/
def front : Item → Bytes
  | .uint w n => head 0 w n
  | .nint w n => head 1 w n
  | .bytes w b => head 2 w b.length ++ b
  | .text w b => head 3 w b.length ++ b
  | .array w items => head 4 w items.length
  | .map w pairs => head 5 w pairs.length
  | .tag w n _ => head 6 w n
  | .simple w n => head 7 w n

/-- The items directly inside an item. -/
def parts : Item → List Item
  | .array _ items => items
  | .map _ pairs => inTurn pairs
  | .tag _ _ x => [x]
  | _ => []

theorem encode_eq (x : Item) : x.encode = x.front ++ encodeAll x.parts := by
  cases x with
  | uint | nint | bytes | text | simple => exact (List.append_nil _).symm
  | array w items => rw [encode, front, parts]
  | map w pairs => rw [encode, encodePairs_eq, front, parts]
  | tag w n x => rw [encode, front, parts, encodeAll, encodeAll, List.append_nil]

theorem front_ne_nil (x : Item) : x.front ≠ [] := by
  cases x <;> exact List.cons_ne_nil _ _

theorem encodeAll_eq_nil {s : List Item} (h : encodeAll s = []) : s = [] := by
  cases s with
  | nil => rfl
  | cons x s =>
    rw [encodeAll, encode_eq, List.append_assoc, List.append_eq_nil_iff] at h
    exact absurd h.1 x.front_ne_nil

end Item

theorem length_inTurn (pairs : List (Item × Item)) : (inTurn pairs).length = 2 * pairs.length := by
  induction pairs with
  | nil => rfl
  | cons p pairs ih =>
    rw [inTurn, List.length_cons, List.length_cons, List.length_cons, ih]
    omega

theorem forall_mem_inTurn {P : Item → Prop} {pairs : List (Item × Item)} :
    (∀ x ∈ inTurn pairs, P x) ↔ ∀ p ∈ pairs, P p.1 ∧ P p.2 := by
  induction pairs with
  | nil => exact iff_of_true nofun nofun
  | cons p pairs ih =>
    rw [inTurn, List.forall_mem_cons, List.forall_mem_cons, List.forall_mem_cons, ih, and_assoc]

theorem Item.WellFormed.parts {x : Item} (h : x.WellFormed) : ∀ y ∈ x.parts, y.WellFormed := by
  cases h with
  | uint | nint | bytes | text | simple => exact nofun
  | array _ h => exact h
  | map _ hk hv => exact forall_mem_inTurn.mpr fun p hp => ⟨hk p hp, hv p hp⟩
  | tag _ h => exact List.forall_mem_singleton.mpr h

end Grammar
