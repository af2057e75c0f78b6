import Mathlib.Data.Vector.Zip
import SporePeer.Library.Hmac
import SporePeer.Node.System

/-!
# Deriving handles

A handle is derived from the seed of a contact card, the epoch of the prekeys and the session.
The keyed hash and the derivation are written out in the repository. They are compared here with
the two standards, for every hash function: they agree wherever the block counter does not
overflow, and the counter is advanced past the last block that the standard permits.

## Main definitions

* `hmacSha256`, `hkdfPrk`, `hkdfExpand`, `fabricHandle`: the code

## Main results

* `hmacSha256_eq`: the keyed hash is the standard's, for every key
* `hkdfExpandLoop_ok`, `hkdfExpandLoop_overflow`: the two ways in which the loop ends
* `fabricHandle_eq`: the handle is derived with a salt of zeros
* `derivation_matches_iff`: which lengths of output every build derives
-/

namespace SporePeer

open Bytes Text Effects

/-! ## The code -/

def labelHandle : Bytes := asBytes "spore/fabric/v1/handle"

/-- Byte `i` of the two pads, in the loop over the block. -/
def padRound (k : U8Array 64) (pads : U8Array 64 × U8Array 64) (i : Fin 64) :
    U8Array 64 × U8Array 64 :=
  (pads.1.set i (pads.1.get i ^^^ k.get i), pads.2.set i (pads.2.get i ^^^ k.get i))

/-- The key in a block of zeros. A key longer than the block is hashed first. -/
def hmacKey (build : Build) (key : Bytes) : Result (U8Array 64) :=
  if 64 < key.length then copyInto (.replicate 64 0) 32 (build.sha256 key).toList
  else copyInto (.replicate 64 0) key.length key

/-- A hasher that is updated twice hashes the two texts in a row. -/
def hmacSha256 (build : Build) (key data : Bytes) : Result (U8Array 32) := do
  let k ← hmacKey build key
  let pads := (List.finRange 64).foldl (padRound k) (.replicate 64 0x36, .replicate 64 0x5c)
  let ih := build.sha256 (pads.1.toList ++ data)
  return build.sha256 (pads.2.toList ++ ih.toList)

/-- The extraction step, with a salt of zeros. -/
def hkdfPrk (build : Build) (ikm : Bytes) : Result (U8Array 32) :=
  hmacSha256 build (List.replicate 32 0) ikm

/-- The loop of the expansion step, from the output, the last block and the counter so far. -/
def hkdfExpandLoop (build : Build) (prk : U8Array 32) (info : Bytes) (n : ℕ) (okm t : Bytes)
    (counter : UInt8) : Result Bytes :=
  if okm.length < n then do
    let t ← hmacSha256 build prk.toList (t ++ info ++ [counter])
    let counter ← addU8 build.overflowChecks counter 1
    hkdfExpandLoop build prk info n (okm ++ t.toList) t.toList counter
  else return okm
termination_by n - okm.length
decreasing_by
  rw [List.length_append, List.Vector.toList_length]
  omega

/-- The expansion step. -/
def hkdfExpand (build : Build) (prk : U8Array 32) (info : Bytes) (n : ℕ) : Result Bytes := do
  let okm ← hkdfExpandLoop build prk info n [] [] 1
  return okm.take n

/-- The epoch-salted handle under which relays index. -/
def fabricHandle (build : Build) (seed : U8Array 32) (epoch : UInt32) (sid : U8Array 8) :
    Result (U8Array 32) := do
  let prk ← hkdfPrk build seed.toList
  let info := labelHandle ++ toBe 4 epoch.toNat ++ sid.toList
  let out ← hkdfExpand build prk info 32
  copyFromSlice 32 out

/-! ## The keyed hash -/

/-- The loop combines each byte of the pads with its byte of the key, once. -/
theorem get_foldl_padRound (k : U8Array 64) {is : List (Fin 64)} (hnodup : is.Nodup)
    (pads : U8Array 64 × U8Array 64) (j : Fin 64) :
    (is.foldl (padRound k) pads).1.get j =
        (if j ∈ is then pads.1.get j ^^^ k.get j else pads.1.get j) ∧
      (is.foldl (padRound k) pads).2.get j =
        if j ∈ is then pads.2.get j ^^^ k.get j else pads.2.get j := by
  induction is generalizing pads with
  | nil => simp
  | cons i is ih =>
    obtain ⟨hi, his⟩ := List.nodup_cons.mp hnodup
    rw [List.foldl_cons, (ih his _).1, (ih his _).2]
    by_cases hij : i = j
    · -- the byte of this round, which no later round touches
      subst hij
      simp [hi, padRound, List.Vector.get_set_same]
    · -- another byte, which this round leaves to the others
      have hji : ¬ j = i := fun h => hij h.symm
      simp [padRound, List.Vector.get_set_of_ne hij, hji]

theorem foldl_padRound_eq (k a b : U8Array 64) :
    (List.finRange 64).foldl (padRound k) (a, b) =
      (List.Vector.zipWith (· ^^^ ·) a k, List.Vector.zipWith (· ^^^ ·) b k) := by
  have hget := fun j => get_foldl_padRound k (List.nodup_finRange 64) (a, b) j
  apply Prod.ext
  · apply List.Vector.ext
    intro j
    rw [(hget j).1, if_pos (List.mem_finRange j), List.Vector.zipWith_get]
  · apply List.Vector.ext
    intro j
    rw [(hget j).2, if_pos (List.mem_finRange j), List.Vector.zipWith_get]

/-- In all three cases of its length the key becomes the block of the standard. -/
theorem hmacKey_eq (build : Build) (key : Bytes) :
    ∃ k, hmacKey build key = .ok k ∧ k.toList = Hmac.blockKey build.sha256 64 key := by
  by_cases hlong : 64 < key.length
  · -- the hash of the key at the start of the zeros
    obtain ⟨k, hk, hlist⟩ := copyInto_ok (.replicate 64 0)
      (List.Vector.toList_length (build.sha256 key)) (by decide)
    refine ⟨k, by rw [hmacKey, if_pos hlong, hk], ?_⟩
    rw [hlist, Hmac.blockKey, if_pos hlong]
    rfl
  · -- the key itself, which may fill the block
    obtain ⟨k, hk, hlist⟩ := copyInto_ok (.replicate 64 0) (Eq.refl key.length) (by omega)
    refine ⟨k, by rw [hmacKey, if_neg hlong, hk], ?_⟩
    rw [hlist, Hmac.blockKey, if_neg hlong]
    congr 1
    exact List.drop_replicate

/-- **The keyed hash is the standard's**, for every key and text. -/
theorem hmacSha256_eq (build : Build) (key data : Bytes) :
    hmacSha256 build key data = .ok (Hmac.hmac build.sha256 64 key data) := by
  obtain ⟨k, hk, hlist⟩ := hmacKey_eq build key
  rw [hmacSha256, hk]
  have hpad (pad : UInt8) : (List.Vector.zipWith (· ^^^ ·) (.replicate 64 pad) k).toList =
      Hmac.padded build.sha256 64 pad key := by
    rw [List.Vector.zipWith_toList, hlist]
    rfl
  show Except.ok _ = _
  rw [foldl_padRound_eq, hpad, hpad]
  rfl

/-! ## The expansion -/

section Expansion

variable {build : Build} {prk : U8Array 32} {info : Bytes} {n : ℕ}

theorem addU8_one {checks : Bool} {i : ℕ} (hi : i < 255) (hc : checks = true → i < 254) :
    addU8 checks (UInt8.ofNat (i + 1)) 1 = .ok (UInt8.ofNat (i + 2)) := by
  have hnat : (UInt8.ofNat (i + 1)).toNat = i + 1 := by
    rw [UInt8.toNat_ofNat']
    omega
  have hsum : UInt8.ofNat (i + 1) + 1 = UInt8.ofNat (i + 2) := by
    rw [UInt8.ofNat_add, UInt8.ofNat_add i 2, UInt8.add_assoc]
    rfl
  rw [addU8, hnat, hsum]
  cases checks with
  | false => simp
  | true =>
    have hlt := hc rfl
    rw [if_pos]
    show i + 1 + 1 < 2 ^ 8
    omega

theorem addU8_overflow : addU8 true (UInt8.ofNat (254 + 1)) 1 = .error .overflow := by decide

/-- One round of the loop, after `i` blocks. -/
theorem hkdfExpandLoop_step {i : ℕ} (hlt : i * 32 < n) :
    hkdfExpandLoop build prk info n (Hmac.blocks build.sha256 64 prk.toList info i)
        (Hmac.block build.sha256 64 prk.toList info i) (UInt8.ofNat (i + 1)) =
      (addU8 build.overflowChecks (UInt8.ofNat (i + 1)) 1 >>= fun counter =>
        hkdfExpandLoop build prk info n (Hmac.blocks build.sha256 64 prk.toList info (i + 1))
          (Hmac.block build.sha256 64 prk.toList info (i + 1)) counter) := by
  rw [hkdfExpandLoop, if_pos (by simpa using hlt), hmacSha256_eq, Hmac.blocks_succ]
  rfl

/-- While the counter does not overflow, the loop ends with a stream long enough. -/
theorem hkdfExpandLoop_ok (prk : U8Array 32) (info : Bytes) (hn : n ≤ 255 * 32)
    (hchecks : build.overflowChecks = true → n ≤ 254 * 32) (i : ℕ) :
    ∃ count, n ≤ count * 32 ∧
      hkdfExpandLoop build prk info n (Hmac.blocks build.sha256 64 prk.toList info i)
          (Hmac.block build.sha256 64 prk.toList info i) (UInt8.ofNat (i + 1)) =
        .ok (Hmac.blocks build.sha256 64 prk.toList info count) := by
  -- on the number of bytes that are missing
  induction hm : n - i * 32 using Nat.strong_induction_on generalizing i with
  | _ m ih =>
    by_cases hlt : i * 32 < n
    · -- another block is needed, so that the counter is below its last value
      obtain ⟨count, hcount, hloop⟩ := ih (n - (i + 1) * 32) (by omega) (i + 1) rfl
      refine ⟨count, hcount, ?_⟩
      rw [hkdfExpandLoop_step hlt, addU8_one (by omega) fun hc => by have := hchecks hc; omega]
      exact hloop
    · refine ⟨i, by omega, ?_⟩
      rw [hkdfExpandLoop, if_neg (by simpa using hlt)]
      rfl

/-- Where overflow is checked, the counter unwinds behind block 255. -/
theorem hkdfExpandLoop_overflow (prk : U8Array 32) (info : Bytes)
    (hchecks : build.overflowChecks = true) (hn : 254 * 32 < n) {i : ℕ} (hi : i ≤ 254) :
    hkdfExpandLoop build prk info n (Hmac.blocks build.sha256 64 prk.toList info i)
        (Hmac.block build.sha256 64 prk.toList info i) (UInt8.ofNat (i + 1)) =
      .error .overflow := by
  -- from the last block down to the first
  induction hi using Nat.decreasingInduction with
  | self =>
    -- block 255 is computed; what unwinds is the increment behind it
    rw [hkdfExpandLoop_step (by omega), hchecks, addU8_overflow]
    rfl
  | of_succ i hi ih =>
    rw [hkdfExpandLoop_step (by omega), addU8_one (by omega) fun _ => by omega]
    exact ih

/-- **What the expansion returns**, in a build that checks overflow and in one that does not. -/
theorem hkdfExpand_eq (hn : n ≤ 255 * 32) :
    hkdfExpand build prk info n =
      if build.overflowChecks = true ∧ 254 * 32 < n then .error .overflow
      else .ok (Hmac.expand build.sha256 64 prk.toList info n) := by
  split
  · rename_i h
    have hloop := hkdfExpandLoop_overflow prk info h.1 h.2 (Nat.zero_le 254)
    rw [hkdfExpand]
    exact congrArg (· >>= _) hloop
  · rename_i h
    have hchecks : build.overflowChecks = true → n ≤ 254 * 32 := by
      intro hc
      by_contra hlt
      exact h ⟨hc, by omega⟩
    obtain ⟨count, hcount, hloop⟩ := hkdfExpandLoop_ok prk info hn hchecks 0
    rw [Hmac.expand_eq_take_blocks (by decide) hcount, hkdfExpand]
    exact congrArg (· >>= _) hloop

end Expansion

/-! ## The handle -/

/-- **The handle is the standard's**: extracted with a salt of zeros, and expanded with the label,
the epoch and the session as the context. -/
theorem fabricHandle_eq (build : Build) (seed : U8Array 32) (epoch : UInt32) (sid : U8Array 8) :
    (fabricHandle build seed epoch sid).map List.Vector.toList =
      .ok (Hmac.expand build.sha256 64
        (Hmac.extract build.sha256 64 (List.replicate 32 0) seed.toList).toList
        (labelHandle ++ toBe 4 epoch.toNat ++ sid.toList) 32) := by
  rw [fabricHandle, hkdfPrk, hmacSha256_eq]
  show Except.map _ (hkdfExpand build _ _ 32 >>= _) = _
  rw [hkdfExpand_eq (by decide), if_neg (by rintro ⟨-, h⟩; revert h; decide)]
  show Except.map _ (copyFromSlice 32 _) = _
  rw [copyFromSlice, dif_pos (Hmac.length_expand (by decide))]
  rfl

/-! ## Against the standards -/

/-- **Key derivation against the standards.** The keyed hash and the handle are the standards', and
so is the output of the expansion in a build without overflow checks. Every build returns it just
for the lengths that do not need block 255, behind which the counter overflows. -/
theorem derivation_matches_iff (build : Build) (prk : U8Array 32) (info : Bytes) {n : ℕ}
    (hn : n ≤ 255 * 32) :
    (∀ key data, hmacSha256 build key data = .ok (Hmac.hmac build.sha256 64 key data)) ∧
      ((∀ checks, hkdfExpand { build with overflowChecks := checks } prk info n =
          .ok (Hmac.expand build.sha256 64 prk.toList info n)) ↔ n ≤ 254 * 32) ∧
      hkdfExpand { build with overflowChecks := false } prk info n =
        .ok (Hmac.expand build.sha256 64 prk.toList info n) ∧
      ∀ seed epoch sid, (fabricHandle build seed epoch sid).map List.Vector.toList =
        .ok (Hmac.expand build.sha256 64
          (Hmac.extract build.sha256 64 (List.replicate 32 0) seed.toList).toList
          (labelHandle ++ toBe 4 epoch.toNat ++ sid.toList) 32) := by
  refine ⟨hmacSha256_eq build, ⟨?_, ?_⟩, ?_, fabricHandle_eq build⟩
  · intro h
    by_contra hlt
    -- the build that checks overflow unwinds on the last block
    have hchecked := h true
    rw [hkdfExpand_eq hn, if_pos ⟨rfl, by omega⟩] at hchecked
    cases hchecked
  · intro hle checks
    rw [hkdfExpand_eq hn, if_neg (by omega)]
  · rw [hkdfExpand_eq hn, if_neg (by simp)]

theorem derivation_matches_iff_last_block :
    ((∀ checks, hkdfExpand { Build.const (.replicate 32 7) with overflowChecks := checks }
          (.replicate 32 1) [2] (255 * 32) =
        .ok (Hmac.expand (fun _ => .replicate 32 7) 64 (List.replicate 32 1) [2] (255 * 32))) ↔
      255 * 32 ≤ 254 * 32) ∧
    ((∀ checks, hkdfExpand { Build.const (.replicate 32 7) with overflowChecks := checks }
          (.replicate 32 1) [2] 100 =
        .ok (Hmac.expand (fun _ => .replicate 32 7) 64 (List.replicate 32 1) [2] 100)) ↔
      100 ≤ 254 * 32) :=
  ⟨(derivation_matches_iff (Build.const (.replicate 32 7)) (.replicate 32 1) [2] (by decide)).2.1,
    (derivation_matches_iff (Build.const (.replicate 32 7)) (.replicate 32 1) [2] (by decide)).2.1⟩

/-- The longest output that the standard permits. -/
theorem hkdfExpand_last_block_unwinds :
    hkdfExpand { Build.const (.replicate 32 7) with overflowChecks := true } (.replicate 32 1) [2]
        (255 * 32) = .error .overflow ∧
      hkdfExpand { Build.const (.replicate 32 7) with overflowChecks := true } (.replicate 32 1)
        [2] (255 * 32) ≠
        .ok (Hmac.expand (fun _ => .replicate 32 7) 64 (List.replicate 32 1) [2] (255 * 32)) := by
  have h : hkdfExpand { Build.const (.replicate 32 7) with overflowChecks := true }
      (.replicate 32 1) [2] (255 * 32) = .error .overflow := by
    rw [hkdfExpand_eq (by decide), if_pos ⟨rfl, by decide⟩]
  exact ⟨h, by rw [h]; exact nofun⟩

end SporePeer
