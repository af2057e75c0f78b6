import Mathlib.Data.List.Basic
import SporePeer.Library.Bytes

/-!
# UTF-8 text

A text is seen through its UTF-8 bytes, as lengths and slices of it are counted in bytes. A slice
that cuts a character unwinds.

## Main definitions

* `asBytes`, `fromUtf8`: the bytes of a text, and the text of valid bytes
* `isCharBoundary`, `strSlice`: slicing a text at byte offsets
* `fromStrRadix16`: the integer parser, which accepts a leading `+`
* `fromUtf8Lossy`: the text of any bytes, with U+FFFD for what is no character
* `toLowercase`, `trimEndMatches`, `extension`

## Main results

* `fromUtf8_asBytes`, `fromUtf8_eq_some`: the text of a text's bytes is that text
* `fromUtf8Lossy_asBytes`: nothing is lost of a text
* `extension_append`, `trimEndMatches_append`: a name and its extension
-/

namespace Text

open Effects

/-- The UTF-8 bytes of a text. -/
def asBytes (s : String) : Bytes := s.toByteArray.data.toList

/-- The text with the given UTF-8 bytes. -/
def fromUtf8 (b : Bytes) : Option String := String.fromUTF8? ⟨b.toArray⟩

@[simp] theorem length_asBytes (s : String) : (asBytes s).length = s.utf8ByteSize := by
  simp only [asBytes, Array.length_toList]
  rfl

theorem asBytes_inj {s t : String} : asBytes s = asBytes t ↔ s = t := by
  simp only [asBytes, Array.toList_inj, ← String.toByteArray_inj]
  constructor
  · exact fun h => ByteArray.ext h
  · exact fun h => h ▸ rfl

@[simp] theorem asBytes_append (s t : String) : asBytes (s ++ t) = asBytes s ++ asBytes t := by
  simp [asBytes]

@[simp] theorem fromUtf8_asBytes (s : String) : fromUtf8 (asBytes s) = some s := by
  have hb : (⟨(asBytes s).toArray⟩ : ByteArray) = s.toByteArray := by simp [asBytes]
  rw [fromUtf8, hb, String.fromUTF8?, dif_pos s.isValidUTF8]
  rfl

theorem fromUtf8_eq_some {b : Bytes} {s : String} : fromUtf8 b = some s ↔ asBytes s = b := by
  constructor
  · intro h
    simp only [fromUtf8, String.fromUTF8?] at h
    split at h
    · cases h
      rfl
    · cases h
  · rintro rfl
    exact fromUtf8_asBytes s

/-- Texts that end in suffixes of one length are equal in both parts. -/
theorem append_inj_of_size {s t a b : String} (hl : a.utf8ByteSize = b.utf8ByteSize)
    (h : s ++ a = t ++ b) : s = t ∧ a = b := by
  have hb := congrArg asBytes h
  rw [asBytes_append, asBytes_append] at hb
  obtain ⟨hs, ha⟩ := List.append_inj' hb (by simpa using hl)
  exact ⟨asBytes_inj.mp hs, asBytes_inj.mp ha⟩

theorem asBytes_ofList (cs : List Char) :
    asBytes (String.ofList cs) = cs.flatMap String.utf8EncodeChar := by
  simp [asBytes, List.utf8Encode]

theorem asBytes_eq_flatMap (s : String) : asBytes s = s.toList.flatMap String.utf8EncodeChar := by
  rw [← asBytes_ofList, String.ofList_toList]

/-- Whether the second byte of a character of three or four bytes may follow its first. -/
def secondFits (a b : UInt8) : Bool :=
  if a = 0xE0 then 0xA0 ≤ b && b ≤ 0xBF
  else if a = 0xED then 0x80 ≤ b && b ≤ 0x9F
  else if a = 0xF0 then 0x90 ≤ b && b ≤ 0xBF
  else if a = 0xF4 then 0x80 ≤ b && b ≤ 0x8F
  else 0xE1 ≤ a && a ≤ 0xF3 && 0x80 ≤ b && b ≤ 0xBF

/-- How many bytes stand for one U+FFFD where no character starts: the longest start of one. -/
def badLength : Bytes → ℕ
  | a :: b :: rest =>
    if secondFits a b = false then 1
    else if 0xF0 ≤ a ∧ rest.head?.any (fun c => 0x80 ≤ c && c ≤ 0xBF) then 3
    else 2
  | _ => 1

/-- The characters of at most `fuel` steps. -/
def lossyChars : ℕ → Bytes → List Char
  | 0, _ => []
  | _ + 1, [] => []
  | fuel + 1, b =>
    match ByteArray.utf8DecodeChar? ⟨b.toArray⟩ 0 with
    | some c => c :: lossyChars fuel (b.drop c.utf8Size)
    | none => '\uFFFD' :: lossyChars fuel (b.drop (badLength b))

/-- `String::from_utf8_lossy`. -/
def fromUtf8Lossy (b : Bytes) : String := String.ofList (lossyChars b.length b)

theorem lossyChars_encode (cs : List Char) {fuel : ℕ}
    (hfuel : (cs.flatMap String.utf8EncodeChar).length ≤ fuel) :
    lossyChars fuel (cs.flatMap String.utf8EncodeChar) = cs := by
  induction cs generalizing fuel with
  | nil => cases fuel <;> rfl
  | cons c cs ih =>
    have hpos := c.utf8Size_pos
    have hlen := String.length_utf8EncodeChar c
    rw [List.flatMap_cons, List.length_append] at hfuel
    obtain ⟨fuel, rfl⟩ : ∃ n, fuel = n + 1 := ⟨fuel - 1, by omega⟩
    have hdecode : ByteArray.utf8DecodeChar?
        ⟨(String.utf8EncodeChar c ++ cs.flatMap String.utf8EncodeChar).toArray⟩ 0 = some c := by
      have hbytes (l : Bytes) : l.toByteArray = ⟨l.toArray⟩ := ByteArray.ext (by simp)
      rw [← hbytes, List.toByteArray_append]
      exact ByteArray.utf8DecodeChar?_utf8EncodeChar_append
    have hdrop : (String.utf8EncodeChar c ++ cs.flatMap String.utf8EncodeChar).drop c.utf8Size =
        cs.flatMap String.utf8EncodeChar := List.drop_left' hlen
    rw [List.flatMap_cons, lossyChars, hdecode]
    · dsimp only
      rw [hdrop, ih (by omega)]
    · intro hnil
      rw [(List.append_eq_nil_iff.mp hnil).1] at hlen
      exact absurd hlen.symm hpos.ne'

@[simp] theorem fromUtf8Lossy_asBytes (s : String) : fromUtf8Lossy (asBytes s) = s := by
  rw [fromUtf8Lossy, asBytes_eq_flatMap, lossyChars_encode _ le_rfl, String.ofList_toList]

/-- Whether the byte offset `i` stands between two characters of the UTF-8 bytes `b`. -/
def isCharBoundary (b : Bytes) (i : ℕ) : Bool :=
  i == 0 || i == b.length || b[i]?.any fun c => c < 128 || 192 ≤ c

/-- `&s[i..j]` of the text with the UTF-8 bytes `s`. -/
def strSlice (s : Bytes) (i j : ℕ) : Result Bytes :=
  if i ≤ j ∧ isCharBoundary s i ∧ isCharBoundary s j then .ok ((s.drop i).take (j - i))
  else .error .charBoundary

/-- The value of a hexadecimal digit of either case. -/
def hexDigit (c : UInt8) : Option ℕ :=
  if 48 ≤ c ∧ c ≤ 57 then some (c.toNat - 48)
  else if 97 ≤ c ∧ c ≤ 102 then some (c.toNat - 87)
  else if 65 ≤ c ∧ c ≤ 70 then some (c.toNat - 55)
  else none

/-- The value of a run of digits, continuing from `acc`, while it fits in a byte. -/
def hexDigits : ℕ → Bytes → Option ℕ
  | acc, [] => some acc
  | acc, c :: cs =>
    match hexDigit c with
    | none => none
    | some d => if acc * 16 + d < 256 then hexDigits (acc * 16 + d) cs else none

/-- `u8::from_str_radix(src, 16)`: an optional `+`, then at least one digit. -/
def fromStrRadix16 : Bytes → Option UInt8
  | [] => none
  | 43 :: c :: cs => (hexDigits 0 (c :: cs)).map UInt8.ofNat
  | cs => (hexDigits 0 cs).map UInt8.ofNat

/-- `str::to_lowercase`. Texts of ASCII characters are mapped character by character; on the
others the Unicode tables decide, which `unicode` stands for. -/
def toLowercase (unicode : String → String) (s : String) : String :=
  if s.toList.all (·.toNat < 128) then String.ofList (s.toList.map Char.toLower) else unicode s

/-- Removes `suffix` from the end of `s` as often as it stands there, at most `fuel` times. Both
are given in reverse. -/
def stripReversed (suffix : List Char) : ℕ → List Char → List Char
  | 0, s => s
  | fuel + 1, s =>
    if suffix.isPrefixOf s then stripReversed suffix fuel (s.drop suffix.length) else s

/-- `str::trim_end_matches`. -/
def trimEndMatches (s suffix : String) : String :=
  String.ofList (stripReversed suffix.toList.reverse s.toList.length s.toList.reverse).reverse

/-- `str::starts_with`. -/
def startsWith (s pre : String) : Bool := pre.toList.isPrefixOf s.toList

/-- `str::ends_with`. -/
def endsWith (s suffix : String) : Bool := suffix.toList.isSuffixOf s.toList

/-- `str::contains`. -/
def containsText (s pat : String) : Bool := s.toList.tails.any fun t => pat.toList.isPrefixOf t

theorem endsWith_iff {s suffix : String} : endsWith s suffix ↔ ∃ t, s = t ++ suffix := by
  rw [endsWith, List.isSuffixOf_iff_suffix]
  constructor
  · rintro ⟨t, ht⟩
    exact ⟨String.ofList t, String.toList_inj.mp (by simp [ht])⟩
  · rintro ⟨t, rfl⟩
    exact ⟨t.toList, by simp⟩

/-- A text is cut before a suffix that starts with an ASCII character. -/
theorem strSlice_append {t suffix : String} {c : UInt8} {cs : Bytes}
    (hc : asBytes suffix = c :: cs) (hlt : c < 128) :
    strSlice (asBytes (t ++ suffix)) 0 t.utf8ByteSize = .ok (asBytes t) := by
  have hget : (asBytes (t ++ suffix))[t.utf8ByteSize]? = some c := by
    rw [asBytes_append, ← length_asBytes, List.getElem?_append_right le_rfl, Nat.sub_self, hc]
    rfl
  have hstart : isCharBoundary (asBytes (t ++ suffix)) 0 := by simp [isCharBoundary]
  have hstop : isCharBoundary (asBytes (t ++ suffix)) t.utf8ByteSize := by
    rw [isCharBoundary, hget, Option.any_some, decide_eq_true hlt, Bool.true_or, Bool.or_true]
  rw [strSlice, if_pos ⟨Nat.zero_le _, hstart, hstop⟩, Nat.sub_zero, List.drop_zero, asBytes_append,
    ← length_asBytes, List.take_left]

/-- `Path::extension` of a file name: what follows its last dot, unless the name starts there. -/
def extension (name : String) : Option String :=
  let rev := name.toList.reverse
  let ext := rev.takeWhile (· ≠ '.')
  if ext.length + 1 < rev.length then some (String.ofList ext.reverse) else none

/-- A name with a dot has what follows the last one as its extension. -/
theorem extension_append {s : String} {cs : List Char} (hs : s ≠ "") (hcs : '.' ∉ cs) :
    extension (s ++ String.ofList ('.' :: cs)) = some (String.ofList cs) := by
  have hrev : (s ++ String.ofList ('.' :: cs)).toList.reverse =
      cs.reverse ++ '.' :: s.toList.reverse := by simp
  have htake : (cs.reverse ++ '.' :: s.toList.reverse).takeWhile (· ≠ '.') = cs.reverse := by
    rw [List.takeWhile_append_of_pos, List.takeWhile_cons_of_neg (by simp), List.append_nil]
    intro c hc
    have : c ≠ '.' := fun h => hcs (h ▸ List.mem_reverse.mp hc)
    simpa using this
  have hpos : 0 < s.toList.length := by
    rw [List.length_pos_iff]
    exact fun h => hs (String.toList_inj.mp (by simpa using h))
  rw [extension, hrev, htake]
  simp only [List.length_append, List.length_reverse, List.length_cons]
  rw [if_pos (by omega), List.reverse_reverse]

theorem extension_eq_some {name e : String} (h : extension name = some e) :
    ∃ s, s ≠ "" ∧ name = s ++ String.ofList ('.' :: e.toList) := by
  unfold extension at h
  simp only at h
  split at h
  · rename_i hlen
    cases h
    -- the name from its end: the extension, the dot, and what comes before
    have hsplit := List.takeWhile_append_dropWhile (p := (· ≠ '.')) (l := name.toList.reverse)
    rcases hd : name.toList.reverse.dropWhile (· ≠ '.') with _ | ⟨c, rest⟩
    · rw [hd, List.append_nil] at hsplit
      rw [hsplit] at hlen
      omega
    · have hc : c = '.' := by
        have := List.head?_dropWhile_not (· ≠ '.') name.toList.reverse
        rw [hd] at this
        simpa using this
      subst hc
      rw [hd] at hsplit
      generalize name.toList.reverse.takeWhile (· ≠ '.') = ext at hsplit hlen
      refine ⟨String.ofList rest.reverse, fun hs => ?_, String.toList_inj.mp ?_⟩
      · have hrest : rest = [] := by simpa using congrArg String.toList hs
        have hl := congrArg List.length hsplit
        rw [hrest] at hl
        simp only [List.length_append, List.length_cons, List.length_nil] at hl
        omega
      · have hrev := congrArg List.reverse hsplit
        rw [List.reverse_reverse] at hrev
        rw [← hrev]
        simp only [List.reverse_append, List.reverse_cons, String.toList_append,
          String.toList_ofList, List.append_assoc, List.singleton_append]
  · cases h

/-- A suffix that starts with a dot is trimmed once, if no dot comes before it. -/
theorem trimEndMatches_append {s suffix : String} {c : Char} {cs : List Char}
    (hsuf : suffix.toList = c :: cs) (hs : c ∉ s.toList) :
    trimEndMatches (s ++ suffix) suffix = s := by
  have hrev : (s ++ suffix).toList.reverse = suffix.toList.reverse ++ s.toList.reverse := by simp
  have hlen : (s ++ suffix).toList.length = (s.toList.length + cs.length) + 1 := by
    simp [hsuf]
    omega
  have hnot : suffix.toList.reverse.isPrefixOf s.toList.reverse = false := by
    rw [← Bool.not_eq_true, List.isPrefixOf_iff_prefix]
    intro h
    have hc : c ∈ suffix.toList.reverse := by simp [hsuf]
    exact hs (List.mem_reverse.mp (h.subset hc))
  have hstop (fuel : ℕ) : stripReversed suffix.toList.reverse fuel s.toList.reverse =
      s.toList.reverse := by
    cases fuel with
    | zero => rfl
    | succ fuel => rw [stripReversed, hnot, if_neg Bool.false_ne_true]
  rw [trimEndMatches, hrev, hlen, stripReversed, if_pos (by simp), List.drop_left, hstop,
    List.reverse_reverse, String.ofList_toList]
end Text
