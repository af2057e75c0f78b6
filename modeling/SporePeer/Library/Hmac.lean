import Mathlib.Algebra.Order.Floor.Div
import SporePeer.Library.Bytes

/-!
# Keyed hashes and key derivation

The keyed hash of RFC 2104 and the key derivation of RFC 5869, over an arbitrary hash function and
block length.

## Main definitions

* `blockKey`, `hmac`: the key brought to the length of a block, and the keyed hash
* `extract`, `block`, `blocks`, `expand`: the two steps of the derivation; `block i` is `T(i)`

## Main results

* `blocks_succ`: the stream grows by one block at a time
* `expand_eq_take_blocks`: the output may be cut from any stream long enough
* `hmac_inj`: keys and texts are told apart
-/

namespace Hmac

variable {hashLen : ℕ} (hash : Bytes → U8Array hashLen) (blockLen : ℕ)

/-- RFC 2104: a key longer than a block is hashed, and zeros are appended up to the block. -/
def blockKey (key : Bytes) : Bytes :=
  if blockLen < key.length then
    (hash key).toList ++ List.replicate (blockLen - hashLen) 0
  else key ++ List.replicate (blockLen - key.length) 0

/-- A block of the byte `pad`, combined with the key. -/
def padded (pad : UInt8) (key : Bytes) : Bytes :=
  List.zipWith (· ^^^ ·) (List.replicate blockLen pad) (blockKey hash blockLen key)

/-- RFC 2104: `H(K xor opad, H(K xor ipad, text))`. -/
def hmac (key text : Bytes) : U8Array hashLen :=
  hash (padded hash blockLen 0x5c key ++ (hash (padded hash blockLen 0x36 key ++ text)).toList)

/-- RFC 5869: the extraction step. -/
def extract (salt ikm : Bytes) : U8Array hashLen := hmac hash blockLen salt ikm

/-- RFC 5869: `T(0)` is empty, and `T(i)` is keyed over `T(i-1)`, the context and the octet `i`. -/
def block (prk info : Bytes) : ℕ → Bytes
  | 0 => []
  | i + 1 =>
    (hmac hash blockLen prk (block prk info i ++ info ++ [UInt8.ofNat (i + 1)])).toList

/-- `T(1) | T(2) | ... | T(n)`. -/
def blocks (prk info : Bytes) (n : ℕ) : Bytes :=
  (List.range n).flatMap fun i => block hash blockLen prk info (i + 1)

/-- RFC 5869: the first `n` octets of the stream of `⌈n / hashLen⌉` blocks. -/
def expand (prk info : Bytes) (n : ℕ) : Bytes :=
  (blocks hash blockLen prk info (n ⌈/⌉ hashLen)).take n

/-! ## The stream -/

section Stream

variable {hash blockLen} {prk info : Bytes}

@[simp] theorem length_block (i : ℕ) :
    (block hash blockLen prk info (i + 1)).length = hashLen := by
  rw [block, List.Vector.toList_length]

@[simp] theorem blocks_zero : blocks hash blockLen prk info 0 = [] := rfl

theorem blocks_succ (n : ℕ) :
    blocks hash blockLen prk info (n + 1) =
      blocks hash blockLen prk info n ++ block hash blockLen prk info (n + 1) := by
  rw [blocks, List.range_succ, List.flatMap_append, List.flatMap_singleton, blocks]

@[simp] theorem length_blocks (n : ℕ) :
    (blocks hash blockLen prk info n).length = n * hashLen := by
  induction n with
  | zero => simp
  | succ n ih => rw [blocks_succ, List.length_append, ih, length_block, Nat.succ_mul]

/-- A longer stream begins with the shorter one. -/
theorem blocks_prefix (hash : Bytes → U8Array hashLen) (blockLen : ℕ) (prk info : Bytes)
    {m n : ℕ} (h : m ≤ n) :
    blocks hash blockLen prk info m <+: blocks hash blockLen prk info n := by
  induction n, h using Nat.le_induction with
  | base => exact List.prefix_rfl
  | succ n _ ih =>
    rw [blocks_succ]
    exact ih.trans (List.prefix_append _ _)

/-- The output may be cut from any stream long enough. -/
theorem expand_eq_take_blocks {n count : ℕ} (hpos : 0 < hashLen) (h : n ≤ count * hashLen) :
    expand hash blockLen prk info n = (blocks hash blockLen prk info count).take n := by
  have hle : n ⌈/⌉ hashLen ≤ count := by
    rw [ceilDiv_le_iff_le_mul hpos, Nat.mul_comm]
    exact h
  have henough : n ≤ (n ⌈/⌉ hashLen) * hashLen := by
    rw [Nat.mul_comm]
    exact le_smul_ceilDiv hpos
  -- the shorter stream already reaches past the cut
  obtain ⟨tail, htail⟩ := blocks_prefix hash blockLen prk info hle
  rw [expand, ← htail, List.take_append_of_le_length (by simpa using henough)]

theorem length_expand {n : ℕ} (hpos : 0 < hashLen) :
    (expand hash blockLen prk info n).length = n := by
  have henough : n ≤ (n ⌈/⌉ hashLen) * hashLen := by
    rw [Nat.mul_comm]
    exact le_smul_ceilDiv hpos
  simpa [expand] using henough

/-- As many octets as the hash has are one block. -/
theorem expand_hashLen (hpos : 0 < hashLen) (prk info : Bytes) :
    expand hash blockLen prk info hashLen = (hmac hash blockLen prk (info ++ [1])).toList := by
  have hone : hashLen ≤ 1 * hashLen := (Nat.one_mul _).ge
  rw [expand_eq_take_blocks hpos hone, blocks_succ, blocks_zero, List.nil_append,
    List.take_of_length_le (length_block 0).le]
  rfl

end Stream

/-! ## Separation -/

section Separation

variable {hash blockLen} {key key' text text' : Bytes} {pad : UInt8}

theorem zipWith_replicate (block : Bytes) :
    List.zipWith (· ^^^ ·) (List.replicate block.length pad) block =
      block.map fun k => pad ^^^ k := by
  induction block with
  | nil => rfl
  | cons k block ih =>
    rw [List.length_cons, List.replicate_succ, List.zipWith_cons_cons, ih, List.map_cons]

theorem padded_eq_map (hle : key.length ≤ blockLen) : padded hash blockLen pad key =
    (key ++ List.replicate (blockLen - key.length) 0).map fun k => pad ^^^ k := by
  have hlen : (key ++ List.replicate (blockLen - key.length) 0).length = blockLen := by
    simp only [List.length_append, List.length_replicate]
    omega
  rw [padded, blockKey, if_neg (not_lt.mpr hle), ← zipWith_replicate, hlen]

theorem length_padded (hle : key.length ≤ blockLen) :
    (padded hash blockLen pad key).length = blockLen := by
  rw [padded_eq_map hle]
  simp only [List.length_map, List.length_append, List.length_replicate]
  omega

/-- Keys of one length, of a block at most, are told apart by either pad. -/
theorem padded_inj (hlen : key.length = key'.length) (hle : key.length ≤ blockLen)
    (h : padded hash blockLen pad key = padded hash blockLen pad key') : key = key' := by
  have hxor : Function.Injective fun k : UInt8 => pad ^^^ k := by
    intro a b hab
    have hback : pad ^^^ (pad ^^^ a) = pad ^^^ (pad ^^^ b) := congrArg _ hab
    simpa [← UInt8.xor_assoc] using hback
  rw [padded_eq_map hle, padded_eq_map (hlen ▸ hle)] at h
  exact List.append_inj_left (List.map_injective_iff.mpr hxor h) hlen

/-- The texts that a keyed hash is made of. -/
def hashed (hash : Bytes → U8Array hashLen) (blockLen : ℕ) (key text : Bytes) : List Bytes :=
  [padded hash blockLen 0x36 key ++ text,
    padded hash blockLen 0x5c key ++ (hash (padded hash blockLen 0x36 key ++ text)).toList]

/-- **The keyed hash separates keys and texts**, as far as the hash separates what it is applied
to. -/
theorem hmac_inj (hlen : key.length = key'.length) (hle : key.length ≤ blockLen)
    (hinj : ∀ x ∈ hashed hash blockLen key text, ∀ y ∈ hashed hash blockLen key' text',
      hash x = hash y → x = y)
    (h : hmac hash blockLen key text = hmac hash blockLen key' text') :
    key = key' ∧ text = text' := by
  have hpads (p : UInt8) : (padded hash blockLen p key).length =
      (padded hash blockLen p key').length := by
    rw [length_padded hle, length_padded (hlen ▸ hle)]
  obtain ⟨hkey, hinner⟩ := List.append_inj
    (hinj _ (List.mem_cons_of_mem _ List.mem_cons_self) _
      (List.mem_cons_of_mem _ List.mem_cons_self) h) (hpads _)
  have htext := hinj _ List.mem_cons_self _ List.mem_cons_self (List.Vector.toList_injective hinner)
  exact ⟨padded_inj hlen hle hkey, List.append_inj_right htext (hpads _)⟩

end Separation

end Hmac
