import SporePeer.Library.Text

/-!
# Hexadecimal text

The two functions of the hexadecimal codec: the lower-case spelling of a byte string, and the
reader that accepts both cases and nothing else.

## Main definitions

* `Hex.encode`: two lower-case digits for every byte
* `Hex.decode`: the bytes of an even number of hexadecimal digits of either case
* `Hex.IsHex`: these texts, by their characters

## Main results

* `Hex.decode_encode`, `Hex.encode_injective`: the spelling determines the bytes
* `Hex.toLowercase_of_decode`: lower-casing a readable text gives the spelling of its bytes
* `Hex.decode_eq_some_iff`: what the reader accepts, and what it reads
-/

namespace Hex

open Text

/-- The lower-case digit of a value below 16. -/
def digitChar (d : ℕ) : Char := if d < 10 then Char.ofNat (48 + d) else Char.ofNat (87 + d)

/-- The byte of the lower-case digit of a value below 16. -/
def digitByte (d : ℕ) : UInt8 := if d < 10 then UInt8.ofNat (48 + d) else UInt8.ofNat (87 + d)

/-- `hex::encode`. -/
def encode (b : Bytes) : String :=
  String.ofList (b.flatMap fun x => [digitChar (x.toNat / 16), digitChar (x.toNat % 16)])

/-- The bytes spelled by pairs of digits. -/
def decodePairs : Bytes → Option Bytes
  | [] => some []
  | [_] => none
  | a :: b :: rest =>
    match hexDigit a, hexDigit b, decodePairs rest with
    | some x, some y, some r => some (UInt8.ofNat (x * 16 + y) :: r)
    | _, _, _ => none

/-- `hex::decode`. -/
def decode (s : String) : Option Bytes := decodePairs (asBytes s)

/-- The digits of both cases. -/
def digits : List Char :=
  ['0', '1', '2', '3', '4', '5', '6', '7', '8', '9', 'a', 'b', 'c', 'd', 'e', 'f', 'A', 'B', 'C',
    'D', 'E', 'F']

/-- An even number of hexadecimal digits of either case. -/
def IsHex (s : String) : Prop := s.length % 2 = 0 ∧ ∀ c ∈ s.toList, c ∈ digits

instance (s : String) : Decidable (IsHex s) := inferInstanceAs (Decidable (_ ∧ _))

theorem utf8EncodeChar_digitChar {d : ℕ} (h : d < 16) :
    String.utf8EncodeChar (digitChar d) = [digitByte d] := by
  revert d
  decide

theorem hexDigit_digitByte {d : ℕ} (h : d < 16) : hexDigit (digitByte d) = some d := by
  revert d
  decide

theorem digit_high_lt (x : UInt8) : x.toNat / 16 < 16 := by
  have := x.toNat_lt
  omega

theorem digit_low_lt (x : UInt8) : x.toNat % 16 < 16 := by omega

theorem ofNat_digits (x : UInt8) : UInt8.ofNat (x.toNat / 16 * 16 + x.toNat % 16) = x := by
  rw [Nat.div_add_mod', UInt8.ofNat_toNat]

theorem asBytes_encode (b : Bytes) :
    asBytes (encode b) =
      b.flatMap fun x => [digitByte (x.toNat / 16), digitByte (x.toNat % 16)] := by
  rw [encode, asBytes_ofList, List.flatMap_assoc]
  refine List.flatMap_congr fun x _ => ?_
  simp only [List.flatMap_cons, List.flatMap_nil, List.append_nil,
    utf8EncodeChar_digitChar (digit_high_lt x), utf8EncodeChar_digitChar (digit_low_lt x),
    List.singleton_append]

/-- A text of digits has no character that is no digit. -/
theorem notMem_encode {c : Char} (hc : ∀ d < 16, digitChar d ≠ c) (b : Bytes) :
    c ∉ (encode b).toList := by
  rw [encode, String.toList_ofList, List.mem_flatMap]
  rintro ⟨x, -, hx⟩
  rcases List.mem_cons.mp hx with rfl | hx
  · exact hc _ (digit_high_lt x) rfl
  · exact hc _ (digit_low_lt x) (List.mem_singleton.mp hx).symm

theorem mem_digits_of_mem_encode (b : Bytes) :
    ∀ c ∈ (encode b).toList, c ∈ "0123456789abcdef".toList := by
  have hdigit : ∀ d < 16, digitChar d ∈ "0123456789abcdef".toList := by decide
  intro c hc
  rw [encode, String.toList_ofList, List.mem_flatMap] at hc
  obtain ⟨x, -, hx⟩ := hc
  rcases List.mem_cons.mp hx with rfl | hx
  · exact hdigit _ (digit_high_lt x)
  · rw [List.mem_singleton.mp hx]
    exact hdigit _ (digit_low_lt x)

/-- Every text of an even number of lower-case digits spells some bytes. -/
theorem exists_encode {s : String} {n : ℕ} (hlen : s.length = 2 * n)
    (hs : ∀ c ∈ s.toList, c ∈ "0123456789abcdef".toList) :
    ∃ b : Bytes, b.length = n ∧ encode b = s := by
  have hdigits : "0123456789abcdef".toList = (List.range 16).map digitChar := by decide
  have hdigit : ∀ c ∈ "0123456789abcdef".toList, ∃ d < 16, digitChar d = c := by
    intro c hc
    rw [hdigits] at hc
    obtain ⟨d, hd, rfl⟩ := List.mem_map.mp hc
    exact ⟨d, List.mem_range.mp hd, rfl⟩
  -- two digits at a time
  have hcs (n : ℕ) (cs : List Char) (hlen : cs.length = 2 * n)
      (hcs : ∀ c ∈ cs, c ∈ "0123456789abcdef".toList) : ∃ b : Bytes, b.length = n ∧
        (b.flatMap fun x => [digitChar (x.toNat / 16), digitChar (x.toNat % 16)]) = cs := by
    induction n generalizing cs with
    | zero => exact ⟨[], rfl, (List.eq_nil_of_length_eq_zero hlen).symm⟩
    | succ n ih =>
      match cs, hlen, hcs with
      | c :: c' :: cs, hlen, hcs =>
        obtain ⟨d, hd, rfl⟩ := hdigit c (hcs c (by simp))
        obtain ⟨e, he, rfl⟩ := hdigit c' (hcs c' (by simp))
        simp only [List.length_cons] at hlen
        obtain ⟨b, hb, hspell⟩ := ih cs (by omega) fun c hc => hcs c (by simp [hc])
        have hbyte : (UInt8.ofNat (d * 16 + e)).toNat = d * 16 + e := by
          rw [UInt8.toNat_ofNat']
          omega
        refine ⟨UInt8.ofNat (d * 16 + e) :: b, by rw [List.length_cons, hb], ?_⟩
        rw [List.flatMap_cons, hspell, hbyte, show (d * 16 + e) / 16 = d by omega,
          show (d * 16 + e) % 16 = e by omega]
        rfl
  obtain ⟨b, hb, hspell⟩ := hcs n s.toList hlen hs
  exact ⟨b, hb, by rw [encode, hspell, String.ofList_toList]⟩

theorem length_encode (b : Bytes) : (encode b).length = 2 * b.length := by
  rw [encode, String.length_ofList, List.length_flatMap]
  simp [Nat.mul_comm]

@[simp] theorem utf8ByteSize_encode (b : Bytes) : (encode b).utf8ByteSize = 2 * b.length := by
  rw [← length_asBytes, asBytes_encode, List.length_flatMap]
  simp [Nat.mul_comm]

theorem asBytes_encode_cons (x : UInt8) (b : Bytes) :
    asBytes (encode (x :: b)) =
      digitByte (x.toNat / 16) :: digitByte (x.toNat % 16) :: asBytes (encode b) := by
  simp [asBytes_encode]

/-- The spelling of a byte string reads back as that byte string. -/
@[simp] theorem decode_encode (b : Bytes) : decode (encode b) = some b := by
  unfold decode
  induction b with
  | nil => rfl
  | cons x b ih =>
    rw [asBytes_encode_cons, decodePairs, hexDigit_digitByte (digit_high_lt x),
      hexDigit_digitByte (digit_low_lt x), ih]
    simp only [ofNat_digits]

theorem encode_injective : Function.Injective encode := by
  intro a b h
  simpa using congrArg decode h

theorem length_of_decodePairs {cs b : Bytes} (h : decodePairs cs = some b) :
    cs.length = 2 * b.length := by
  fun_induction decodePairs cs generalizing b with
  | case1 => cases h; rfl
  | case2 => cases h
  | case3 _ _ _ _ _ _ hr _ _ ih =>
    cases h
    simp only [List.length_cons, ih hr]
    omega
  | case4 => cases h

/-! ## Lower-casing -/

theorem isSome_hexDigit_of_decodePairs {cs b : Bytes} (h : decodePairs cs = some b) :
    ∀ x ∈ cs, (hexDigit x).isSome := by
  fun_induction decodePairs cs generalizing b with
  | case1 => simp
  | case2 => cases h
  | case3 _ _ _ _ _ _ hr hx hy ih =>
    simp only [List.forall_mem_cons, hx, hy, Option.isSome_some, true_and]
    exact ih hr
  | case4 => cases h

theorem hexDigit_of_large {x : UInt8} (h : 128 ≤ x.toNat) : hexDigit x = none := by
  simp only [hexDigit, UInt8.le_iff_toNat_le]
  repeat rw [if_neg (by simp; omega)]

/-- The characters outside ASCII have a byte that is no digit. -/
theorem ascii_of_digits {c : Char} (h : ∀ x ∈ String.utf8EncodeChar c, (hexDigit x).isSome) :
    c.toNat < 128 ∧ String.utf8EncodeChar c = [UInt8.ofNat c.toNat] := by
  -- every byte of a longer encoding is at least 128
  have large (n k : ℕ) (hk : 128 ≤ k) (hnk : n + k < 256) :
      hexDigit (UInt8.ofNat (n + k)) = none := by
    apply hexDigit_of_large
    rw [UInt8.toNat_ofNat', Nat.mod_eq_of_lt hnk]
    omega
  unfold String.utf8EncodeChar at h ⊢
  simp only [Char.toNat] at *
  split at h
  · exact ⟨by omega, if_pos ‹_›⟩
  · exfalso
    split at h
    · have hx := h _ List.mem_cons_self
      rw [large _ 0xc0 (by omega) (by omega)] at hx
      cases hx
    · split at h
      · have hx := h _ List.mem_cons_self
        rw [large _ 0xe0 (by omega) (by omega)] at hx
        cases hx
      · have hx := h _ List.mem_cons_self
        rw [large _ 0xf0 (by omega) (by omega)] at hx
        cases hx

/-- A digit of either case is lower-cased to the digit of the same value. -/
theorem toLower_of_hexDigit {n d : ℕ} (hn : n < 128) (h : hexDigit (UInt8.ofNat n) = some d) :
    d < 16 ∧ (Char.ofNat n).toLower = digitChar d := by
  have all : ∀ n < 128, ∀ d ∈ hexDigit (UInt8.ofNat n),
      d < 16 ∧ (Char.ofNat n).toLower = digitChar d := by decide
  exact all n hn d h

theorem hexDigit_lt {c : UInt8} {d : ℕ} (h : hexDigit c = some d) : d < 16 := by
  by_cases hc : c.toNat < 128
  · rw [← UInt8.ofNat_toNat (x := c)] at h
    exact (toLower_of_hexDigit hc h).1
  · rw [hexDigit_of_large (not_lt.mp hc)] at h
    cases h

theorem map_toLower_of_decodePairs {b : Bytes} {cs : List Char} (ha : ∀ c ∈ cs, c.toNat < 128)
    (h : decodePairs (cs.map fun c => UInt8.ofNat c.toNat) = some b) :
    cs.map Char.toLower =
      b.flatMap fun x => [digitChar (x.toNat / 16), digitChar (x.toNat % 16)] := by
  induction b generalizing cs with
  | nil =>
    have hl := length_of_decodePairs h
    simp_all
  | cons x b ih =>
    match cs with
    | [] => simp [decodePairs] at h
    | [_] => simp [decodePairs] at h
    | c :: c' :: cs =>
      simp only [List.map_cons, decodePairs] at h
      split at h
      · rename_i d d' r hd hd' hr
        simp only [Option.some.injEq, List.cons.injEq] at h
        obtain ⟨rfl, rfl⟩ := h
        obtain ⟨hl, hc⟩ := toLower_of_hexDigit (ha c (by simp)) hd
        obtain ⟨hl', hc'⟩ := toLower_of_hexDigit (ha c' (by simp)) hd'
        simp only [Char.ofNat_toNat] at hc hc'
        -- the digits are those of the byte they make
        have hx : (UInt8.ofNat (d * 16 + d')).toNat = d * 16 + d' := by
          rw [UInt8.toNat_ofNat']
          omega
        have hh : (d * 16 + d') / 16 = d := by omega
        have hw : (d * 16 + d') % 16 = d' := by omega
        simp only [List.map_cons, List.flatMap_cons, List.cons_append, List.nil_append, hx, hh, hw,
          hc, hc', ih (fun c hc => ha c (by simp [hc])) hr]
      · cases h

/-- The characters of a readable text are bytes. -/
theorem ascii_of_decode {s : String} {b : Bytes} (h : decode s = some b) :
    (∀ c ∈ s.toList, c.toNat < 128) ∧ asBytes s = s.toList.map fun c => UInt8.ofNat c.toNat := by
  rw [decode, asBytes_eq_flatMap] at h
  have hd := isSome_hexDigit_of_decodePairs h
  have ha : ∀ c ∈ s.toList, c.toNat < 128 ∧ String.utf8EncodeChar c = [UInt8.ofNat c.toNat] :=
    fun c hc => ascii_of_digits fun x hx => hd x (List.mem_flatMap.mpr ⟨c, hc, hx⟩)
  refine ⟨fun c hc => (ha c hc).1, ?_⟩
  rw [asBytes_eq_flatMap, List.map_eq_flatMap]
  exact List.flatMap_congr fun c hc => (ha c hc).2

/-- The lower-case digits of a readable text are the spelling of its bytes. -/
theorem lower_of_decode {s : String} {b : Bytes} (h : decode s = some b) :
    String.ofList (s.toList.map Char.toLower) = encode b := by
  obtain ⟨ha, hs⟩ := ascii_of_decode h
  rw [decode, hs] at h
  rw [map_toLower_of_decodePairs ha h, encode]

/-- Lower-casing a readable text gives the spelling of its bytes. -/
theorem toLowercase_of_decode {unicode : String → String} {s : String} {b : Bytes}
    (h : decode s = some b) : toLowercase unicode s = encode b := by
  have hall : s.toList.all (·.toNat < 128) = true := by
    simpa using (ascii_of_decode h).1
  rw [toLowercase, if_pos hall, lower_of_decode h]

/-! ## The readable texts -/

/-- The digits are the ASCII characters whose byte is a digit. -/
theorem mem_digits_iff {c : Char} :
    c ∈ digits ↔ c.toNat < 128 ∧ (hexDigit (UInt8.ofNat c.toNat)).isSome := by
  constructor
  · intro hc
    have all : digits.all fun c =>
        decide (c.toNat < 128 ∧ (hexDigit (UInt8.ofNat c.toNat)).isSome) := by decide
    simpa using List.all_eq_true.mp all c hc
  · rintro ⟨ha, hc⟩
    have all : ∀ n < 128, (hexDigit (UInt8.ofNat n)).isSome → Char.ofNat n ∈ digits := by decide
    simpa only [Char.ofNat_toNat] using all c.toNat ha hc

theorem isSome_decodePairs_iff {cs : Bytes} :
    (decodePairs cs).isSome ↔ cs.length % 2 = 0 ∧ ∀ x ∈ cs, (hexDigit x).isSome := by
  constructor
  · intro h
    obtain ⟨b, hb⟩ := Option.isSome_iff_exists.mp h
    have hlen := length_of_decodePairs hb
    exact ⟨by omega, isSome_hexDigit_of_decodePairs hb⟩
  · rintro ⟨he, hcs⟩
    fun_induction decodePairs cs with
    | case1 => rfl
    | case2 => simp at he
    | case3 => rfl
    | case4 a b rest hno ih =>
      -- every digit has a value, and so has the rest
      simp only [List.forall_mem_cons] at hcs
      obtain ⟨⟨x, hx⟩, ⟨y, hy⟩, hrest⟩ := hcs.imp Option.isSome_iff_exists.mp
        (And.imp_left Option.isSome_iff_exists.mp)
      have hr := ih (by
        simp only [List.length_cons] at he
        omega) hrest
      obtain ⟨r, hr⟩ := Option.isSome_iff_exists.mp hr
      exact (hno x y r hx hy hr).elim

/-- **The reader accepts** an even number of digits, and nothing else. -/
theorem isSome_decode_iff {s : String} : (decode s).isSome ↔ IsHex s := by
  constructor
  · intro h
    obtain ⟨b, hb⟩ := Option.isSome_iff_exists.mp h
    obtain ⟨ha, hs⟩ := ascii_of_decode hb
    rw [decode, hs, isSome_decodePairs_iff] at h
    obtain ⟨he, hd⟩ := h
    rw [List.length_map, String.length_toList] at he
    refine ⟨he, fun c hc => mem_digits_iff.mpr ⟨ha c hc, ?_⟩⟩
    exact hd _ (List.mem_map_of_mem hc)
  · rintro ⟨he, hd⟩
    have hs : asBytes s = s.toList.map fun c => UInt8.ofNat c.toNat := by
      rw [asBytes_eq_flatMap, List.map_eq_flatMap]
      refine List.flatMap_congr fun c hc => ?_
      have hc : c.val.toNat < 128 := (mem_digits_iff.mp (hd c hc)).1
      exact if_pos (by omega)
    rw [decode, hs, isSome_decodePairs_iff, List.length_map, String.length_toList]
    refine ⟨he, ?_⟩
    intro x hx
    obtain ⟨c, hc, rfl⟩ := List.mem_map.mp hx
    exact (mem_digits_iff.mp (hd c hc)).2

/-- What is read is what the digits spell in lower case. -/
theorem decode_eq_some_iff {s : String} {b : Bytes} :
    decode s = some b ↔ IsHex s ∧ String.ofList (s.toList.map Char.toLower) = encode b := by
  constructor
  · intro h
    exact ⟨isSome_decode_iff.mp (by rw [h]; rfl), lower_of_decode h⟩
  · rintro ⟨hs, hb⟩
    obtain ⟨b', hb'⟩ := Option.isSome_iff_exists.mp (isSome_decode_iff.mpr hs)
    have := encode_injective ((lower_of_decode hb').symm.trans hb)
    rw [hb', this]

end Hex
