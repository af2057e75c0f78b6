import SporePeer.Node.Fetch

/-!
# The decoder of names, compared with a hexadecimal decoder

The decoder of names hands each pair of bytes to the integer parser, whose grammar has a sign. It
agrees with a hexadecimal decoder on every text that it does not unwind on, except on those in
which a `+` stands for the first digit of a pair. The reader of bodies opens the file of whatever
text the decoder reads as 32 bytes.

## Main definitions

* `spelledPairs`: what the decoder reads where it does not unwind
* `SignedPairs`: the texts of pairs that the integer parser reads
* `ReadsHex`: the decoder is a hexadecimal decoder on a text
* `OpensBodies`: the reader of bodies opens no file but a body with a hexadecimal name

## Main results

* `spelledPairs_of_run`: the decoder reads the pairs, or unwinds
* `reads32_iff`: the texts that it reads as the name of a body
* `mem_trace_serveBody_iff`: the reader opens the file of the text
* `readsHex_iff`: the texts on which the decoder is one
-/

namespace SporePeer

open Effects Text

/-- The bytes spelled by pairs that the integer parser reads. -/
def spelledPairs : Bytes → Option Bytes
  | [] => some []
  | [_] => none
  | a :: b :: rest =>
    match fromStrRadix16 [a, b], spelledPairs rest with
    | some x, some r => some (x :: r)
    | _, _ => none

/-- Pairs of digits, of which the first may be a `+` instead. -/
def SignedPairs : Bytes → Prop
  | [] => True
  | [_] => False
  | a :: b :: rest =>
    (a = 43 ∨ (hexDigit a).isSome) ∧ (hexDigit b).isSome ∧ SignedPairs rest

/-! ## Pairs -/

theorem hexDigits_singleton {c : UInt8} : hexDigits 0 [c] = hexDigit c := by
  rw [hexDigits]
  rcases hc : hexDigit c with _ | d
  · rfl
  · have hd := Hex.hexDigit_lt hc
    simp only [Nat.zero_mul, Nat.zero_add, hexDigits, if_pos (show d < 256 by omega)]

/-- Two digits, the first of which is no sign. -/
theorem fromStrRadix16_pair {a b : UInt8} (ha : a ≠ 43) :
    fromStrRadix16 [a, b] =
      match hexDigit a, hexDigit b with
      | some x, some y => some (UInt8.ofNat (x * 16 + y))
      | _, _ => none := by
  have hsign : fromStrRadix16 [a, b] = (hexDigits 0 [a, b]).map UInt8.ofNat := by
    unfold fromStrRadix16
    split
    · rename_i h
      cases h
    · rename_i h
      exact absurd (List.cons.inj h).1 ha
    · rfl
  rw [hsign, hexDigits]
  rcases hx : hexDigit a with _ | x
  · rfl
  rcases hy : hexDigit b with _ | y
  · simp [hexDigits, hy]
  · -- two digits make at most 255
    have hx := Hex.hexDigit_lt hx
    have hy' := Hex.hexDigit_lt hy
    simp [hexDigits, hy, show x < 256 by omega, show x * 16 + y < 256 by omega]

theorem fromStrRadix16_plus (b : UInt8) :
    fromStrRadix16 [43, b] = (hexDigit b).map UInt8.ofNat := by
  rw [fromStrRadix16, hexDigits_singleton]

theorem isSome_fromStrRadix16_pair {a b : UInt8} :
    (fromStrRadix16 [a, b]).isSome ↔ (a = 43 ∨ (hexDigit a).isSome) ∧ (hexDigit b).isSome := by
  by_cases ha : a = 43
  · -- a sign in front of one digit
    rw [ha, fromStrRadix16_plus, Option.isSome_map]
    simp
  · rw [fromStrRadix16_pair ha]
    cases hexDigit a <;> cases hexDigit b <;> simp [ha]

/-! ## Texts -/

section

variable {s : Bytes}

/-- The texts that are read are those of pairs with or without a sign. -/
theorem isSome_spelledPairs_iff : (spelledPairs s).isSome ↔ SignedPairs s := by
  fun_induction SignedPairs s with
  | case1 => simp [spelledPairs]
  | case2 => simp [spelledPairs]
  | case3 a b rest ih =>
    rw [spelledPairs, ← and_assoc, ← isSome_fromStrRadix16_pair, ← ih]
    cases fromStrRadix16 [a, b] <;> cases spelledPairs rest <;> simp

instance (s : Bytes) : Decidable (SignedPairs s) := decidable_of_iff _ isSome_spelledPairs_iff

/-- Without a sign, the pairs are read as a hexadecimal decoder reads them. -/
theorem spelledPairs_of_notMem (h : 43 ∉ s) : spelledPairs s = Hex.decodePairs s := by
  fun_induction SignedPairs s with
  | case1 => rfl
  | case2 => rfl
  | case3 a b rest ih =>
    simp only [List.mem_cons, not_or] at h
    obtain ⟨ha, -, hrest⟩ := h
    rw [spelledPairs, fromStrRadix16_pair (Ne.symm ha), ih hrest, Hex.decodePairs]
    cases hexDigit a <;> cases hexDigit b <;> cases Hex.decodePairs rest <;> rfl

/-- A hexadecimal decoder reads no sign. -/
theorem decodePairs_of_mem (h : 43 ∈ s) : Hex.decodePairs s = none := by
  rcases hb : Hex.decodePairs s with _ | b
  · rfl
  · cases Hex.isSome_hexDigit_of_decodePairs hb 43 h

theorem length_of_spelledPairs {b : Bytes} (h : spelledPairs s = some b) :
    s.length = 2 * b.length := by
  fun_induction SignedPairs s generalizing b with
  | case1 =>
    cases h
    rfl
  | case2 => cases h
  | case3 a c rest ih =>
    rw [spelledPairs] at h
    split at h
    · rename_i x r hx hr
      cases h
      simp only [List.length_cons, ih hr]
      omega
    · cases h

/-- A pair that is read is two ASCII characters. -/
theorem ascii_of_signedPairs (h : SignedPairs s) : ∀ c ∈ s, c < 128 := by
  have digit (c : UInt8) (hc : (hexDigit c).isSome) : c < 128 := by
    rw [UInt8.lt_iff_toNat_lt]
    by_contra hlarge
    rw [Hex.hexDigit_of_large (Nat.not_lt.mp hlarge)] at hc
    cases hc
  fun_induction SignedPairs s with
  | case1 => simp
  | case2 => exact h.elim
  | case3 a b rest ih =>
    obtain ⟨ha, hb, hrest⟩ := h
    intro c hc
    rcases List.mem_cons.mp hc with rfl | hc
    · rcases ha with rfl | ha
      · decide
      · exact digit _ ha
    rcases List.mem_cons.mp hc with rfl | hc
    · exact digit _ hb
    · exact ih hrest c hc

/-! ## The decoder -/

/-- From offset `i` on, a decoder that does not unwind reads the pairs. -/
theorem spelledPairs_of_runFrom {n i : ℕ} {r : Option Bytes} (hlen : s.length = i + 2 * n)
    (h : (hexDecodeFrom s n i).run = .ok r) : r = spelledPairs (s.drop i) := by
  induction n generalizing i r with
  | zero =>
    rw [List.drop_of_length_le (by omega)]
    exact (Except.ok.inj h).symm
  | succ n ih =>
    rw [run_hexDecodeFrom_succ] at h
    split at h
    swap
    · cases h
    -- the next pair, and what is behind it
    have hpair : s.drop i = s[i] :: s[i + 1] :: s.drop (i + 2) := by
      rw [List.drop_eq_getElem_cons (by omega), List.drop_eq_getElem_cons (by omega)]
    rw [hpair] at h ⊢
    simp only [List.take_succ_cons, List.take_zero] at h
    rw [spelledPairs]
    rcases hx : fromStrRadix16 [s[i], s[i + 1]] with _ | x
    · -- the first pair that is no byte ends the reading
      rw [hx] at h
      exact (Except.ok.inj h).symm
    · rw [hx] at h
      rcases hrest : (hexDecodeFrom s n (i + 2)).run with p | r'
      · rw [hrest] at h
        cases h
      · rw [hrest] at h
        obtain rfl := Except.ok.inj h
        rw [← ih (by omega) hrest]
        cases r' <;> rfl

/-- **The decoder reads the pairs**, unless it unwinds. -/
theorem spelledPairs_of_run {r : Option Bytes} (h : (hexDecode s).run = .ok r) :
    r = spelledPairs s := by
  rw [hexDecode] at h
  split at h
  · rename_i hodd
    obtain rfl := Except.ok.inj h
    rcases hr : spelledPairs s with _ | b
    · rfl
    · have := length_of_spelledPairs hr
      omega
  · simpa using spelledPairs_of_runFrom (by omega) h

/-- It does not unwind on pairs that are read. -/
theorem not_cutsCharacter_of_signedPairs (h : SignedPairs s) : ¬ CutsCharacter s := by
  rintro ⟨-, k, hk, -, hcut⟩
  have hascii := ascii_of_signedPairs h
  exact hcut ⟨isCharBoundary_of_ascii hascii (by omega), isCharBoundary_of_ascii hascii (by omega)⟩

theorem run_hexDecode (h : ¬ CutsCharacter s) : (hexDecode s).run = .ok (spelledPairs s) := by
  rcases hr : (hexDecode s).run with p | r
  · exact absurd (hexDecode_unwinds_iff.mp ⟨p, hr⟩) h
  · rw [spelledPairs_of_run hr]

end

/-! ## The reader of bodies -/

/-- In pairs that are read, some first digit is a `+`. -/
def SpelledWithSign (s : Bytes) : Prop := SignedPairs s ∧ 43 ∈ s

instance (s : Bytes) : Decidable (SpelledWithSign s) := inferInstanceAs (Decidable (_ ∧ _))

/-- A text has twice as many characters as the bytes that it spells. -/
theorem length_of_decode {s : String} {b : Bytes} (h : Hex.decode s = some b) :
    s.length = 2 * b.length := by
  obtain ⟨-, hlower⟩ := Hex.decode_eq_some_iff.mp h
  -- lower-casing keeps the number of characters
  have hlen := congrArg String.length hlower
  rwa [String.length_ofList, List.length_map, String.length_toList, Hex.length_encode] at hlen

/-- **32 bytes are read** from 64 hexadecimal digits, and from 64 bytes spelled with a sign. -/
theorem reads32_iff {s : String} :
    (∃ raw : Bytes, (hexDecode (asBytes s)).run = .ok (some raw) ∧ raw.length = 32) ↔
      (Hex.IsHex s ∧ s.length = 64) ∨ (SpelledWithSign (asBytes s) ∧ s.utf8ByteSize = 64) := by
  constructor
  · rintro ⟨raw, hrun, hlen⟩
    have hraw := spelledPairs_of_run hrun
    by_cases hmem : 43 ∈ asBytes s
    · have hbytes := length_of_spelledPairs hraw.symm
      have hpairs : SignedPairs (asBytes s) := isSome_spelledPairs_iff.mp (by rw [← hraw]; rfl)
      refine .inr ⟨⟨hpairs, hmem⟩, ?_⟩
      rw [← length_asBytes]
      omega
    · rw [spelledPairs_of_notMem hmem] at hraw
      have hchars := length_of_decode hraw.symm
      exact .inl ⟨(Hex.decode_eq_some_iff.mp hraw.symm).1, by omega⟩
  · intro h
    -- in both cases the pairs are read, and a text that is read does not unwind
    obtain ⟨raw, hraw, hlen⟩ : ∃ raw, spelledPairs (asBytes s) = some raw ∧ raw.length = 32 := by
      rcases h with ⟨hhex, hlen⟩ | ⟨⟨hpairs, -⟩, hlen⟩
      · obtain ⟨raw, hraw⟩ := Option.isSome_iff_exists.mp (Hex.isSome_decode_iff.mpr hhex)
        have hsign : 43 ∉ asBytes s := by
          intro hmem
          rw [Hex.decode, decodePairs_of_mem hmem] at hraw
          cases hraw
        have hchars := length_of_decode hraw
        exact ⟨raw, (spelledPairs_of_notMem hsign).trans hraw, by omega⟩
      · obtain ⟨raw, hraw⟩ := Option.isSome_iff_exists.mp (isSome_spelledPairs_iff.mpr hpairs)
        have hbytes := length_of_spelledPairs hraw
        rw [length_asBytes] at hbytes
        exact ⟨raw, hraw, by omega⟩
    have hpairs : SignedPairs (asBytes s) := isSome_spelledPairs_iff.mp (by rw [hraw]; rfl)
    refine ⟨raw, ?_, hlen⟩
    rw [run_hexDecode (not_cutsCharacter_of_signedPairs hpairs), hraw]

/-- `hex_decode` is a hexadecimal decoder on the text `s`. -/
structure ReadsHex (s : String) : Prop where
  returns : ∃ r, (hexDecode (asBytes s)).run = .ok r
  /-- It reads an even number of digits, as the bytes that these spell in lower case. -/
  value : ∀ b, (hexDecode (asBytes s)).run = .ok (some b) ↔
    Hex.IsHex s ∧ String.ofList (s.toList.map Char.toLower) = Hex.encode b
  agrees : (hexDecode (asBytes s)).run = .ok (Hex.decode s)
  inverse : ∀ b, s = Hex.encode b → (hexDecode (asBytes s)).run = .ok (some b)

/-- Asked for the name `s`, `serve_body` opens no file but a body with a name of 64 hexadecimal
digits, whatever the node and its state. -/
def OpensBodies (build : Build) (s : String) : Prop :=
  ∀ {σ : Type} (env : Env σ) (w : World σ), ∀ c ∈ trace env.handle (serveBody build s) w,
    ∃ cid, Hex.IsHex cid ∧ cid.length = 64 ∧ c = ⟨_, .read (bodyFile cid)⟩

section

variable {σ : Type} {env : Env σ} {build : Build} {w : World σ} {s : String}

/-- The reader opens the file of the text that it is asked for, when that reads as 32 bytes. -/
theorem trace_serveBody {raw : Bytes} (hrun : (hexDecode (asBytes s)).run = .ok (some raw))
    (hlen : raw.length = 32) :
    trace env.handle (serveBody build s) w = [⟨_, .read (bodyFile s)⟩] := by
  rw [serveBody, hrun, orPanic_ok_bind]
  simp only [Option.filter_some, hlen, decide_true, if_true, trace_ask_bind]
  -- what is read from the file leads to no other call
  rcases (env.handle _ (.read (bodyFile s)) w).2 with _ | data
  · rfl
  by_cases hsha : (build.sha256 data).toList ≠ raw
  · simp only [refuseIf_bind_of hsha]
    rfl
  · simp only [refuseIf_bind_of_not hsha]
    rfl

theorem mem_trace_serveBody_iff {c : Σ γ, Op γ} :
    c ∈ trace env.handle (serveBody build s) w ↔
      (∃ raw : Bytes, (hexDecode (asBytes s)).run = .ok (some raw) ∧ raw.length = 32) ∧
        c = ⟨_, .read (bodyFile s)⟩ := by
  by_cases h : ∃ raw : Bytes, (hexDecode (asBytes s)).run = .ok (some raw) ∧ raw.length = 32
  · obtain ⟨raw, hrun, hlen⟩ := h
    rw [trace_serveBody hrun hlen, List.mem_singleton]
    exact ⟨fun hc => ⟨⟨raw, hrun, hlen⟩, hc⟩, And.right⟩
  · refine ⟨fun hc => ?_, fun hc => absurd hc.1 h⟩
    -- no file is opened before the name is read
    rw [serveBody] at hc
    rcases hrun : (hexDecode (asBytes s)).run with p | _ | raw
    · rw [hrun] at hc
      cases hc
    · rw [hrun, orPanic_ok_bind] at hc
      cases hc
    · have hlen : ¬ raw.length = 32 := fun hlen => h ⟨raw, hrun, hlen⟩
      rw [hrun, orPanic_ok_bind] at hc
      simp only [Option.filter_some, hlen, decide_false, Bool.false_eq_true, if_false] at hc
      cases hc

/-- The decoder is a hexadecimal decoder on a text, unless it unwinds or reads a sign. -/
theorem readsHex_iff :
    ReadsHex s ↔ ¬ CutsCharacter (asBytes s) ∧ ¬ SpelledWithSign (asBytes s) := by
  constructor
  · intro h
    refine ⟨fun hcut => ?_, fun ⟨hpairs, hsign⟩ => ?_⟩
    · obtain ⟨r, hr⟩ := h.returns
      obtain ⟨p, hp⟩ := hexDecode_unwinds_iff.mpr hcut
      rw [hr] at hp
      cases hp
    · -- the pairs are read, and a hexadecimal decoder reads no sign
      have hnone := spelledPairs_of_run h.agrees
      have hsome := isSome_spelledPairs_iff.mpr hpairs
      rw [← hnone, Hex.decode, decodePairs_of_mem hsign] at hsome
      cases hsome
  · rintro ⟨hcut, hsign⟩
    have hagrees : (hexDecode (asBytes s)).run = .ok (Hex.decode s) := by
      rw [run_hexDecode hcut, Hex.decode]
      by_cases hmem : 43 ∈ asBytes s
      · -- with a sign neither of them reads anything
        have hnone : ¬ (spelledPairs (asBytes s)).isSome := fun h =>
          hsign ⟨isSome_spelledPairs_iff.mp h, hmem⟩
        rw [decodePairs_of_mem hmem, Option.not_isSome_iff_eq_none.mp hnone]
      · rw [spelledPairs_of_notMem hmem]
    refine ⟨⟨_, hagrees⟩, fun b => ?_, hagrees, ?_⟩
    · rw [hagrees, ← Hex.decode_eq_some_iff, Except.ok.injEq]
    · rintro b rfl
      exact hexDecode_encode b

/-- The reader opens another file exactly on the texts of 64 bytes that are spelled with a
sign. -/
theorem opensBodies_iff :
    OpensBodies build s ↔ ¬ (SpelledWithSign (asBytes s) ∧ s.utf8ByteSize = 64) := by
  constructor
  · rintro h ⟨⟨hpairs, hsign⟩, hlen⟩
    have hread := reads32_iff.mpr (.inr ⟨⟨hpairs, hsign⟩, hlen⟩)
    -- the file of this text is opened, and its name holds a sign
    obtain ⟨cid, hcid, -, hc⟩ := h (Env.still (fun p _ => (p, .error "")) 0) (World.fresh ())
      ⟨_, .read (bodyFile s)⟩ (mem_trace_serveBody_iff.mpr ⟨hread, rfl⟩)
    obtain rfl : s = cid := by
      simpa [bodyFile_inj] using hc
    obtain ⟨b, hb⟩ := Option.isSome_iff_exists.mp (Hex.isSome_decode_iff.mpr hcid)
    rw [Hex.decode, decodePairs_of_mem hsign] at hb
    cases hb
  · intro h σ env w c hc
    obtain ⟨hread, rfl⟩ := mem_trace_serveBody_iff.mp hc
    rcases reads32_iff.mp hread with ⟨hhex, hlen⟩ | hsign
    · exact ⟨s, hhex, hlen, rfl⟩
    · exact absurd hsign h

/-- **The decoder of names is a hexadecimal decoder**, and the reader of bodies opens no file but a
body with a hexadecimal name, exactly on the texts in which no pair that is reached cuts a
character, and which are not read with a sign. What is opened depends on the sign alone. -/
theorem hexDecode_decodes_iff (build : Build) (s : String) :
    (ReadsHex s ∧ OpensBodies build s ↔
      ¬ CutsCharacter (asBytes s) ∧ ¬ SpelledWithSign (asBytes s)) ∧
    (OpensBodies build s ↔ ¬ (SpelledWithSign (asBytes s) ∧ s.utf8ByteSize = 64)) := by
  refine ⟨?_, opensBodies_iff⟩
  rw [readsHex_iff, opensBodies_iff]
  constructor
  · exact And.left
  · intro h
    exact ⟨h, fun hs => h.2 hs.1⟩

end

/-- The pair `+a` reads as the byte 10, the file that thirty-two such pairs name is opened, and a
pair that ends inside a character unwinds. -/
theorem plus_reads_as_digit :
    let cid := String.ofList (List.replicate 32 ['+', 'a']).flatten
    (hexDecode (asBytes "+a")).run = .ok (some [10]) ∧ Hex.decode "+a" = none ∧
    ¬ Hex.IsHex cid ∧
    trace (Env.still (fun p _ => (p, .error "closed")) 0).handle (serveBody .leading cid)
      (World.fresh ()) = [⟨_, .read (bodyFile cid)⟩] ∧
    (hexDecode (asBytes "aéa")).run = .error .charBoundary ∧
    ¬ ReadsHex "+a" ∧ ¬ OpensBodies .leading cid ∧ ¬ ReadsHex "aéa" := by
  intro cid
  have hrun : (hexDecode (asBytes cid)).run = .ok (some (List.replicate 32 10)) := by
    decide +kernel
  have hplus : '+' ∈ cid.toList := by
    rw [String.toList_ofList]
    decide
  refine ⟨by decide +kernel, by decide +kernel, fun h => ?_,
    trace_serveBody hrun (by decide), by decide +kernel, ?_, ?_, ?_⟩
  · exact absurd (h.2 _ hplus) (by decide)
  · rw [readsHex_iff]
    decide +kernel
  · rw [opensBodies_iff]
    decide +kernel
  · rw [readsHex_iff]
    decide +kernel

end SporePeer
