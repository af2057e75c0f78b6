import Mathlib.Data.Vector.Basic
import Mathlib.Tactic.Ring
import SporePeer.Library.Program

/-!
# Bytes and machine words

Byte strings, arrays of a fixed length, and the two byte orders of unsigned words. Slicing out of
range and copying between lengths that differ unwind, as indexing and `copy_from_slice` do.

## Main definitions

* `Bytes`, `U8Array n`: byte strings, and those of length `n`
* `toLe`, `ofLe`, `toBe`, `ofBe`: words as bytes
* `sliceFrom`, `getRange`, `copyFromSlice`, `copyInto`, `checkedAdd`, `addU64`, `addU8`: partial
  operations

## Main results

* `ofLe_toLe`, `toLe_ofLe`, `ofBe_toBe`: the two byte orders are faithful
-/

/-- Byte strings. -/
abbrev Bytes := List UInt8

/-- Byte arrays of length `n`. -/
abbrev U8Array (n : ℕ) := List.Vector UInt8 n

namespace Bytes

open Effects

/-- The low `w` bytes of `n`, least significant first. -/
def toLe : ℕ → ℕ → Bytes
  | 0, _ => []
  | w + 1, n => UInt8.ofNat (n % 256) :: toLe w (n / 256)

/-- The word with the given bytes, least significant first. -/
def ofLe : Bytes → ℕ
  | [] => 0
  | b :: bs => b.toNat + 256 * ofLe bs

/-- The low `w` bytes of `n`, most significant first. -/
def toBe (w n : ℕ) : Bytes := (toLe w n).reverse

/-- The word with the given bytes, most significant first. -/
def ofBe (bs : Bytes) : ℕ := ofLe bs.reverse

@[simp] theorem length_toLe (w n : ℕ) : (toLe w n).length = w := by
  induction w generalizing n with
  | zero => rfl
  | succ w ih => simp [toLe, ih]

@[simp] theorem length_toBe (w n : ℕ) : (toBe w n).length = w := by
  simp [toBe]

theorem ofLe_lt (bs : Bytes) : ofLe bs < 256 ^ bs.length := by
  induction bs with
  | nil => simp [ofLe]
  | cons b bs ih =>
    have hb := b.toNat_lt
    rw [ofLe, List.length_cons, pow_succ]
    omega

theorem ofLe_toLe {w n : ℕ} (h : n < 256 ^ w) : ofLe (toLe w n) = n := by
  induction w generalizing n with
  | zero => simp [toLe, ofLe]; omega
  | succ w ih =>
    have hd : n / 256 < 256 ^ w := by
      rw [pow_succ] at h
      omega
    rw [toLe, ofLe, ih hd, UInt8.toNat_ofNat']
    omega

/-- A word too large for its bytes is cut off. -/
theorem ofLe_toLe_mod (w n : ℕ) : ofLe (toLe w n) = n % 256 ^ w := by
  induction w generalizing n with
  | zero => simp [toLe, ofLe, Nat.mod_one]
  | succ w ih =>
    have hb : (UInt8.ofNat (n % 256)).toNat = n % 256 := by
      rw [UInt8.toNat_ofNat']
      omega
    rw [toLe, ofLe, ih, hb, pow_succ', Nat.mod_mul]

theorem ofBe_toBe_mod (w n : ℕ) : ofBe (toBe w n) = n % 256 ^ w := by
  rw [ofBe, toBe, List.reverse_reverse, ofLe_toLe_mod]

theorem ofBe_toBe {w n : ℕ} (h : n < 256 ^ w) : ofBe (toBe w n) = n := by
  rw [ofBe, toBe, List.reverse_reverse, ofLe_toLe h]

theorem toLe_ofLe (bs : Bytes) : toLe bs.length (ofLe bs) = bs := by
  induction bs with
  | nil => rfl
  | cons b bs ih =>
    have hb := b.toNat_lt
    have hm : (b.toNat + 256 * ofLe bs) % 256 = b.toNat := by omega
    have hd : (b.toNat + 256 * ofLe bs) / 256 = ofLe bs := by omega
    rw [List.length_cons, toLe, ofLe, hm, hd, ih, UInt8.ofNat_toNat]

/-- `buf[at..]`. -/
def sliceFrom (buf : Bytes) (at' : ℕ) : Result Bytes :=
  if at' ≤ buf.length then .ok (buf.drop at') else .error .sliceRange

theorem sliceFrom_ok {buf : Bytes} {n : ℕ} (h : n ≤ buf.length) :
    sliceFrom buf n = .ok (buf.drop n) := if_pos h

/-- `buf.get(i..j)`. -/
def getRange (buf : Bytes) (i j : ℕ) : Option Bytes :=
  if i ≤ j ∧ j ≤ buf.length then some ((buf.drop i).take (j - i)) else none

theorem getRange_append (pre mid tail : Bytes) :
    getRange (pre ++ (mid ++ tail)) pre.length (pre.length + mid.length) = some mid := by
  rw [getRange, if_pos (by simp), List.drop_left, Nat.add_sub_cancel_left, List.take_left]

theorem length_of_getRange {buf b : Bytes} {i j : ℕ} (h : getRange buf i j = some b) :
    i ≤ j ∧ j ≤ buf.length ∧ b.length = j - i := by
  unfold getRange at h
  split at h
  · rename_i hij
    cases h
    refine ⟨hij.1, hij.2, ?_⟩
    rw [List.length_take, List.length_drop]
    omega
  · cases h

/-- `copy_from_slice` into an array of length `n`. -/
def copyFromSlice (n : ℕ) (src : Bytes) : Result (U8Array n) :=
  if h : src.length = n then .ok ⟨src, h⟩ else .error .copyLength

@[simp] theorem copyFromSlice_toList {n : ℕ} (v : U8Array n) :
    copyFromSlice n v.toList = .ok v := dif_pos v.toList_length

/-- `buf[..upTo].copy_from_slice(src)`. -/
def copyInto {n : ℕ} (buf : U8Array n) (upTo : ℕ) (src : Bytes) : Result (U8Array n) :=
  if hupTo : upTo ≤ n then
    if hlen : src.length = upTo then .ok ⟨src ++ buf.toList.drop upTo, by simp; omega⟩
    else .error .copyLength
  else .error .sliceRange

theorem copyInto_ok {n upTo : ℕ} (buf : U8Array n) {src : Bytes} (hlen : src.length = upTo)
    (hupTo : upTo ≤ n) :
    ∃ v, copyInto buf upTo src = .ok v ∧ v.toList = src ++ buf.toList.drop upTo := by
  refine ⟨⟨src ++ buf.toList.drop upTo, by simp; omega⟩, ?_, rfl⟩
  rw [copyInto, dif_pos hupTo, dif_pos hlen]

/-- `checked_add` on 64-bit words. -/
def checkedAdd (a b : ℕ) : Option ℕ := if a + b < 2 ^ 64 then some (a + b) else none

/-- `+` on 64-bit words: past the top it unwinds when the build checks overflow, and wraps around
when it does not. -/
def addU64 (overflowChecks : Bool) (a b : ℕ) : Result ℕ :=
  if a + b < 2 ^ 64 then .ok (a + b)
  else if overflowChecks then .error .overflow
  else .ok ((a + b) % 2 ^ 64)

/-- `+` on bytes, in the same two ways. -/
def addU8 (overflowChecks : Bool) (a b : UInt8) : Result UInt8 :=
  if a.toNat + b.toNat < 2 ^ 8 then .ok (a + b)
  else if overflowChecks then .error .overflow
  else .ok (a + b)

theorem addU64_ok {c : Bool} {a b : ℕ} (h : a + b < 2 ^ 64) : addU64 c a b = .ok (a + b) :=
  if_pos h

theorem addU64_error_iff {c : Bool} {a b : ℕ} :
    (∃ p, addU64 c a b = .error p) ↔ c = true ∧ 2 ^ 64 ≤ a + b := by
  unfold addU64
  split
  · simp
    omega
  · split
    · simp [*]
      omega
    · simp [*]

end Bytes
