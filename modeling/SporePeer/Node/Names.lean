import SporePeer.Wire.Codec

/-!
# Hexadecimal names

The node reads the names of bodies with a decoder of its own, two bytes of text at a time. Each
pair is read by the integer parser, which takes a leading `+`, and is cut out of the text as a
slice, which unwinds in the middle of a character.

## Main definitions

* `hexDecode`: the decoder
* `CutsCharacter`: the texts in which a pair is no slice
* `readBlid`: the 32 bytes that a name reads as

## Main results

* `hexDecode_unwinds_iff`: the decoder unwinds on exactly these texts
* `hexDecode_encode`: it reads the lower-case spelling of every byte string
-/

namespace SporePeer

open Effects Text

/-- The next `n` bytes spelled from byte offset `i` on. -/
def hexDecodeFrom (s : Bytes) : ℕ → ℕ → Decode Bytes
  | 0, _ => return []
  | n + 1, i => do
    let pair ← OptionT.lift (strSlice s i (i + 2))
    let b ← orReject (fromStrRadix16 pair)
    let rest ← hexDecodeFrom s n (i + 2)
    return b :: rest

/-- `hex_decode` of the text with the UTF-8 bytes `s`: two characters for every byte, each pair
read by `u8::from_str_radix`. -/
def hexDecode (s : Bytes) : Decode Bytes :=
  if s.length % 2 ≠ 0 then failure else hexDecodeFrom s (s.length / 2) 0

/-- The 32 bytes that a name reads as, if it does; the decoder may unwind. -/
def readBlid (text : String) : Result (Option (U8Array 32)) :=
  (hexDecode (asBytes text)).run.map fun r =>
    r.bind fun e => if h : e.length = 32 then some ⟨e, h⟩ else none

/-- The two bytes at offset `i` are a slice of the text. -/
def IsSlice (s : Bytes) (i : ℕ) : Prop := isCharBoundary s i ∧ isCharBoundary s (i + 2)

instance (s : Bytes) (i : ℕ) : Decidable (IsSlice s i) := inferInstanceAs (Decidable (_ ∧ _))

/-- The two bytes at offset `i` spell a byte. -/
def SpellsByte (s : Bytes) (i : ℕ) : Prop := (fromStrRadix16 ((s.drop i).take 2)).isSome

instance (s : Bytes) (i : ℕ) : Decidable (SpellsByte s i) :=
  inferInstanceAs (Decidable (_ = true))

/-- In a text of even length, some pair cuts a character, and every pair before it spells a
byte. -/
def CutsCharacter (s : Bytes) : Prop :=
  s.length % 2 = 0 ∧ ∃ k < s.length / 2, (∀ j < k, SpellsByte s (2 * j)) ∧ ¬ IsSlice s (2 * k)

instance (s : Bytes) : Decidable (CutsCharacter s) := inferInstanceAs (Decidable (_ ∧ _))

section

variable {s : Bytes}

theorem strSlice_of_isSlice {i : ℕ} (h : IsSlice s i) :
    strSlice s i (i + 2) = .ok ((s.drop i).take 2) := by
  rw [strSlice, if_pos ⟨Nat.le_add_right i 2, h.1, h.2⟩, Nat.add_sub_cancel_left]

theorem strSlice_of_not_isSlice {i : ℕ} (h : ¬ IsSlice s i) :
    strSlice s i (i + 2) = .error .charBoundary :=
  if_neg fun hs => h ⟨hs.2.1, hs.2.2⟩

theorem run_hexDecodeFrom_succ (n i : ℕ) :
    (hexDecodeFrom s (n + 1) i).run =
      if IsSlice s i then
        match fromStrRadix16 ((s.drop i).take 2) with
        | none => .ok none
        | some b => (hexDecodeFrom s n (i + 2)).run.map fun r => r.map fun rest => b :: rest
      else .error .charBoundary := by
  rw [hexDecodeFrom]
  split
  · rename_i h
    rw [strSlice_of_isSlice h, lift_ok_bind]
    cases fromStrRadix16 ((s.drop i).take 2) with
    | none => rfl
    | some b =>
      rw [orReject_some_bind, OptionT.run_bind]
      rcases (hexDecodeFrom s n (i + 2)).run with p | _ | rest <;> rfl
  · rename_i h
    rw [strSlice_of_not_isSlice h]
    rfl

/-- From offset `i` on, the decoder unwinds at the first pair that is no slice, unless a pair
before it spells no byte. -/
theorem hexDecodeFrom_unwinds_iff (n i : ℕ) :
    (∃ p, (hexDecodeFrom s n i).run = .error p) ↔
      ∃ k < n, (∀ j < k, SpellsByte s (i + 2 * j)) ∧ ¬ IsSlice s (i + 2 * k) := by
  induction n generalizing i with
  | zero =>
    constructor
    · rintro ⟨p, hp⟩
      cases hp
    · rintro ⟨k, hk, -⟩
      omega
  | succ n ih =>
    rw [run_hexDecodeFrom_succ]
    by_cases hs : IsSlice s i
    swap
    · rw [if_neg hs]
      exact ⟨fun _ => ⟨0, by omega, by omega, hs⟩, fun _ => ⟨_, rfl⟩⟩
    rw [if_pos hs]
    have shift : ∀ j, i + 2 + 2 * j = i + 2 * (j + 1) := by
      intro j
      omega
    cases hb : fromStrRadix16 ((s.drop i).take 2) with
    | none =>
      -- the pair is no byte: the decoder stops here, and reads no later slice
      constructor
      · rintro ⟨p, hp⟩
        cases hp
      · rintro ⟨k, hk, hspell, hcut⟩
        cases k with
        | zero => exact absurd hs hcut
        | succ k =>
          have h0 := hspell 0 (by omega)
          simp [SpellsByte, hb] at h0
    | some b =>
      -- the pair is a byte: what unwinds is the rest
      have hmap : (∃ p, (hexDecodeFrom s n (i + 2)).run.map (fun r => r.map (b :: ·)) = .error p) ↔
          ∃ p, (hexDecodeFrom s n (i + 2)).run = .error p := by
        cases (hexDecodeFrom s n (i + 2)).run <;> simp [Except.map]
      rw [hmap, ih]
      constructor
      · rintro ⟨k, hk, hspell, hcut⟩
        refine ⟨k + 1, by omega, ?_, by rwa [← shift]⟩
        intro j hj
        cases j with
        | zero => simp [SpellsByte, hb]
        | succ j =>
          rw [← shift]
          exact hspell j (by omega)
      · rintro ⟨k, hk, hspell, hcut⟩
        cases k with
        | zero => exact absurd hs hcut
        | succ k =>
          refine ⟨k, by omega, ?_, by rwa [shift]⟩
          intro j hj
          rw [shift]
          exact hspell (j + 1) (by omega)

/-- **The decoder unwinds** exactly on the texts in which a pair cuts a character. -/
theorem hexDecode_unwinds_iff : (∃ p, (hexDecode s).run = .error p) ↔ CutsCharacter s := by
  unfold hexDecode CutsCharacter
  split
  · rename_i h
    constructor
    · rintro ⟨p, hp⟩
      cases hp
    · rintro ⟨he, -⟩
      exact absurd he h
  · rename_i h
    have he : s.length % 2 = 0 := not_not.mp h
    simp only [he, true_and, hexDecodeFrom_unwinds_iff, Nat.zero_add]

theorem readBlid_unwinds_iff {text : String} :
    (∃ p, readBlid text = .error p) ↔ CutsCharacter (asBytes text) := by
  rw [← hexDecode_unwinds_iff]
  unfold readBlid
  cases (hexDecode (asBytes text)).run <;> simp [Except.map]

/-! ## Lower-case names -/

theorem isCharBoundary_of_ascii (h : ∀ c ∈ s, c < 128) {i : ℕ} (hi : i ≤ s.length) :
    isCharBoundary s i := by
  by_cases hl : i = s.length
  · simp [isCharBoundary, hl]
  · have hlt : i < s.length := by omega
    have hc : s[i] < 128 := h _ (List.getElem_mem hlt)
    simp [isCharBoundary, List.getElem?_eq_getElem hlt, hc]

theorem fromStrRadix16_digits (x : UInt8) :
    fromStrRadix16 [Hex.digitByte (x.toNat / 16), Hex.digitByte (x.toNat % 16)] = some x := by
  have all : ∀ h < 16, ∀ l < 16,
      fromStrRadix16 [Hex.digitByte h, Hex.digitByte l] = some (UInt8.ofNat (h * 16 + l)) := by
    decide
  rw [all _ (Hex.digit_high_lt x) _ (Hex.digit_low_lt x), Hex.ofNat_digits]

theorem digitByte_lt {d : ℕ} (h : d < 16) : Hex.digitByte d < 128 := by
  revert d
  decide

theorem asBytes_encode_lt (b : Bytes) : ∀ c ∈ asBytes (Hex.encode b), c < 128 := by
  intro c hc
  rw [Hex.asBytes_encode, List.mem_flatMap] at hc
  obtain ⟨x, -, hx⟩ := hc
  simp only [List.mem_cons, List.not_mem_nil, or_false] at hx
  rcases hx with rfl | rfl
  · exact digitByte_lt (Hex.digit_high_lt x)
  · exact digitByte_lt (Hex.digit_low_lt x)

/-- After any ASCII text, the spelling of a byte string reads as that byte string. -/
theorem hexDecodeFrom_encode (b pre : Bytes) (hpre : ∀ c ∈ pre, c < 128) :
    (hexDecodeFrom (pre ++ asBytes (Hex.encode b)) b.length pre.length).run = .ok (some b) := by
  induction b generalizing pre with
  | nil => rfl
  | cons x b ih =>
    have hascii : ∀ c ∈ pre ++ asBytes (Hex.encode (x :: b)), c < 128 := by
      intro c hc
      rcases List.mem_append.mp hc with hc | hc
      · exact hpre c hc
      · exact asBytes_encode_lt _ c hc
    have hlen : (asBytes (Hex.encode (x :: b))).length = 2 * b.length + 2 := by
      rw [length_asBytes, Hex.utf8ByteSize_encode, List.length_cons]
      omega
    have hslice : IsSlice (pre ++ asBytes (Hex.encode (x :: b))) pre.length :=
      ⟨isCharBoundary_of_ascii hascii (by simp), isCharBoundary_of_ascii hascii (by
        rw [List.length_append, hlen]
        omega)⟩
    -- the digits of one byte go over to what has been read
    have hsplit : pre ++ asBytes (Hex.encode (x :: b)) =
        (pre ++ [Hex.digitByte (x.toNat / 16), Hex.digitByte (x.toNat % 16)]) ++
          asBytes (Hex.encode b) := by
      rw [Hex.asBytes_encode_cons, List.append_assoc]
      rfl
    have hrest := ih (pre ++ [Hex.digitByte (x.toNat / 16), Hex.digitByte (x.toNat % 16)]) (by
      intro c hc
      rw [hsplit] at hascii
      exact hascii c (List.mem_append_left _ hc))
    rw [← hsplit, List.length_append] at hrest
    rw [List.length_cons, run_hexDecodeFrom_succ, if_pos hslice, List.drop_left,
      Hex.asBytes_encode_cons]
    simp only [List.take_succ_cons, List.take_zero, fromStrRadix16_digits]
    rw [← Hex.asBytes_encode_cons]
    change (hexDecodeFrom _ b.length (pre.length + 2)).run = _ at hrest
    rw [hrest]
    rfl

/-- The lower-case spelling of a byte string reads as that byte string. -/
theorem hexDecode_encode (b : Bytes) : (hexDecode (asBytes (Hex.encode b))).run = .ok (some b) := by
  have hlen : (asBytes (Hex.encode b)).length = 2 * b.length := by
    rw [length_asBytes, Hex.utf8ByteSize_encode]
  have h := hexDecodeFrom_encode b [] (by simp)
  rw [hexDecode, if_neg (by omega), hlen, Nat.mul_div_cancel_left _ (by omega)]
  exact h

theorem readBlid_encode (blid : U8Array 32) :
    readBlid (Hex.encode blid.toList) = .ok (some blid) := by
  rw [readBlid, hexDecode_encode]
  change Except.ok (if h : blid.toList.length = 32 then some (⟨blid.toList, h⟩ : U8Array 32)
    else none) = _
  rw [dif_pos blid.toList_length]
  rfl

end

end SporePeer
