import Mathlib.Data.List.DropRight
import Mathlib.Data.List.TakeWhile
import SporePeer.Library.Text

/-!
# Lines of a text

A text file is read line by line. A line ends at a line feed, or at a carriage return and a line
feed; white space at its ends is trimmed.

## Main definitions

* `isWhitespace`: the characters of white space
* `lines`, `trim`: the lines of a text, and a text without the white space at its ends
* `rsplitOnce`: a text split at the last occurrence of a character
* `parseU16`, `parseUnsigned`: the decimal parsers, which accept a leading `+`

## Main results

* `linesFrom_line`: a line that is written is read back
* `trim_trim`: what is trimmed stays as it is
* `parseUnsigned_toString`: a number that is written is read back
-/

namespace Text

/-- `char::is_whitespace`: the Unicode property `White_Space`. -/
def isWhitespace (c : Char) : Bool :=
  (9 ≤ c.toNat && c.toNat ≤ 13) || (0x2000 ≤ c.toNat && c.toNat ≤ 0x200A) ||
    c.toNat ∈ [0x20, 0x85, 0xA0, 0x1680, 0x2028, 0x2029, 0x202F, 0x205F, 0x3000]

/-! ## Trimming -/

/-- `str::trim`. -/
def trim (s : String) : String :=
  String.ofList ((s.toList.dropWhile isWhitespace).rdropWhile isWhitespace)

/-- No white space at the ends. -/
def Trimmed (cs : List Char) : Prop :=
  ∀ c, cs.head? = some c ∨ cs.getLast? = some c → isWhitespace c = false

theorem trim_of_trimmed {s : String} (h : Trimmed s.toList) : trim s = s := by
  have hfront : s.toList.dropWhile isWhitespace = s.toList := by
    rw [List.dropWhile_eq_self_iff]
    intro hpos
    have := h s.toList[0] (.inl (List.head?_eq_getElem? ▸ List.getElem?_eq_getElem hpos))
    simpa using this
  have hback : s.toList.rdropWhile isWhitespace = s.toList := by
    rw [List.rdropWhile_eq_self_iff]
    intro hne
    have := h (s.toList.getLast hne) (.inr (List.getLast?_eq_some_getLast hne))
    simpa using this
  rw [trim, hfront, hback, String.ofList_toList]

theorem trimmed_trim (s : String) : Trimmed (trim s).toList := by
  rw [trim, String.toList_ofList]
  set front := s.toList.dropWhile isWhitespace with hfront
  rintro c (hc | hc)
  · -- the first character is left of the white space that is cut off at the end
    obtain ⟨rest, hrest⟩ := front.rdropWhile_prefix isWhitespace
    have hhead : front.head? = some c := by
      rw [← hrest, List.head?_append, hc]
      rfl
    have := List.head?_dropWhile_not isWhitespace s.toList
    rw [← hfront, hhead] at this
    exact this
  · have hne : front.rdropWhile isWhitespace ≠ [] := by
      intro hnil
      rw [hnil] at hc
      cases hc
    have := List.rdropWhile_last_not isWhitespace front hne
    rw [List.getLast?_eq_some_getLast hne] at hc
    rw [← Option.some.inj hc]
    simpa using this

/-- What is trimmed stays as it is. -/
@[simp] theorem trim_trim (s : String) : trim (trim s) = trim s := trim_of_trimmed (trimmed_trim s)

/-- Trimming adds no characters. -/
theorem mem_of_mem_trim {s : String} {c : Char} (h : c ∈ (trim s).toList) : c ∈ s.toList := by
  rw [trim, String.toList_ofList] at h
  exact (List.dropWhile_sublist _).subset ((List.rdropWhile_prefix _ _).subset h)

/-! ## Lines -/

/-- A line without the carriage return at its end. -/
def stripCr (line : List Char) : List Char :=
  if line.getLast? = some '\r' then line.dropLast else line

/-- The lines of the characters, the first of which continues `acc`. -/
def linesFrom (acc : List Char) : List Char → List (List Char)
  | [] => if acc = [] then [] else [acc]
  | c :: cs => if c = '\n' then stripCr acc :: linesFrom [] cs else linesFrom (acc ++ [c]) cs

/-- `str::lines`. -/
def lines (s : String) : List String := (linesFrom [] s.toList).map String.ofList

theorem stripCr_of_trimmed {line : List Char} (h : Trimmed line) : stripCr line = line := by
  refine if_neg fun hlast => ?_
  have := h '\r' (.inr hlast)
  revert this
  decide

theorem stripCr_subset (line : List Char) : stripCr line ⊆ line := by
  rw [stripCr]
  split
  · exact List.dropLast_subset line
  · exact List.Subset.refl line

/-- A line that is written is read back, up to a carriage return at its end. By induction on it. -/
theorem linesFrom_line {line : List Char} (h : '\n' ∉ line) (acc rest : List Char) :
    linesFrom acc (line ++ '\n' :: rest) = stripCr (acc ++ line) :: linesFrom [] rest := by
  induction line generalizing acc with
  | nil => rw [List.nil_append, linesFrom, if_pos rfl, List.append_nil]
  | cons c line ih =>
    rw [List.mem_cons, not_or] at h
    rw [List.cons_append, linesFrom, if_neg (Ne.symm h.1), ih h.2, List.append_assoc]
    rfl

theorem newline_not_mem_linesFrom {acc : List Char} (hacc : '\n' ∉ acc) (cs : List Char) :
    ∀ line ∈ linesFrom acc cs, '\n' ∉ line := by
  induction cs generalizing acc with
  | nil =>
    intro line hline
    rw [linesFrom] at hline
    split at hline
    · cases hline
    · rw [List.mem_singleton.mp hline]
      exact hacc
  | cons c cs ih =>
    rw [linesFrom]
    split
    · rw [List.forall_mem_cons]
      exact ⟨fun hmem => hacc (stripCr_subset acc hmem), ih List.not_mem_nil⟩
    · refine ih fun hmem => ?_
      rcases List.mem_append.mp hmem with hmem | hmem
      · exact hacc hmem
      · exact ‹¬ c = '\n'› (List.mem_singleton.mp hmem).symm

/-- A line has no line feed. -/
theorem newline_not_mem_lines {s line : String} (h : line ∈ lines s) : '\n' ∉ line.toList := by
  obtain ⟨cs, hcs, rfl⟩ := List.mem_map.mp h
  rw [String.toList_ofList]
  exact newline_not_mem_linesFrom List.not_mem_nil s.toList cs hcs

/-! ## Splitting and numbers -/

/-- `str::rsplit_once`. -/
def rsplitOnce (s : String) (c : Char) : Option (String × String) :=
  let rev := s.toList.reverse
  match rev.dropWhile (· ≠ c) with
  | [] => none
  | _ :: front =>
    some (String.ofList front.reverse, String.ofList (rev.takeWhile (· ≠ c)).reverse)

/-- The value of a run of decimal digits, continuing from `acc`, while it is below `bound`. -/
def decimalDigits (bound : ℕ) : ℕ → List Char → Option ℕ
  | acc, [] => some acc
  | acc, c :: cs =>
    if c.isDigit ∧ acc * 10 + (c.toNat - 48) < bound then
      decimalDigits bound (acc * 10 + (c.toNat - 48)) cs
    else none

/-- `str::parse` for the unsigned integers below `bound`: an optional `+`, then at least one digit. -/
def parseUnsigned (bound : ℕ) (s : String) : Option ℕ :=
  match s.toList with
  | [] => none
  | '+' :: c :: cs => decimalDigits bound 0 (c :: cs)
  | cs => decimalDigits bound 0 cs

/-- `str::parse::<u16>`. -/
def parseU16 (s : String) : Option ℕ := parseUnsigned (2 ^ 16) s

theorem decimalDigits_lt {bound acc n : ℕ} {cs : List Char} (hacc : acc < bound)
    (h : decimalDigits bound acc cs = some n) : n < bound := by
  induction cs generalizing acc with
  | nil =>
    obtain rfl := Option.some.inj h
    exact hacc
  | cons c cs ih =>
    rw [decimalDigits] at h
    split at h
    · rename_i hnext
      exact ih hnext.2 h
    · cases h

theorem parseUnsigned_lt {bound n : ℕ} {s : String} (hbound : 0 < bound)
    (h : parseUnsigned bound s = some n) : n < bound := by
  rw [parseUnsigned] at h
  split at h
  · cases h
  · exact decimalDigits_lt hbound h
  · exact decimalDigits_lt hbound h

theorem decimalDigits_ofDigitChars {bound acc : ℕ} {cs : List Char} (hdigits : ∀ c ∈ cs, c.isDigit)
    (h : Nat.ofDigitChars 10 cs acc < bound) :
    decimalDigits bound acc cs = some (Nat.ofDigitChars 10 cs acc) := by
  induction cs generalizing acc with
  | nil => simp [decimalDigits]
  | cons c cs ih =>
    obtain ⟨hc, hcs⟩ := List.forall_mem_cons.mp hdigits
    rw [Nat.ofDigitChars_cons] at h ⊢
    have hvalue : 10 * acc + (c.toNat - '0'.toNat) = acc * 10 + (c.toNat - 48) := by
      rw [Nat.mul_comm]
      rfl
    rw [hvalue] at h ⊢
    -- the value so far is at most the value in the end
    have hle : acc * 10 + (c.toNat - 48) ≤ Nat.ofDigitChars 10 cs (acc * 10 + (c.toNat - 48)) := by
      rw [Nat.ofDigitChars_eq_ofDigitChars_zero]
      have hpow : 1 ≤ 10 ^ cs.length := Nat.one_le_pow _ _ (by decide)
      calc acc * 10 + (c.toNat - 48) = 1 * (acc * 10 + (c.toNat - 48)) := (Nat.one_mul _).symm
        _ ≤ 10 ^ cs.length * (acc * 10 + (c.toNat - 48)) := Nat.mul_le_mul_right _ hpow
        _ ≤ _ := Nat.le_add_right _ _
    rw [decimalDigits, if_pos ⟨hc, hle.trans_lt h⟩]
    exact ih hcs h

/-- A number that is written is read back. -/
theorem parseUnsigned_toString {bound n : ℕ} (h : n < bound) :
    parseUnsigned bound (toString n) = some n := by
  have hdigits : ∀ c ∈ Nat.toDigits 10 n, c.isDigit := fun c hc =>
    Nat.isDigit_of_mem_toDigits (by decide) (by decide) hc
  have hvalue : decimalDigits bound 0 (Nat.toDigits 10 n) = some n := by
    rw [decimalDigits_ofDigitChars hdigits (by rwa [Nat.ofDigitChars_ten_toDigits]),
      Nat.ofDigitChars_ten_toDigits]
  have hlist : (toString n).toList = Nat.toDigits 10 n := by
    rw [Nat.toString_eq_ofList_toDigits, String.toList_ofList]
  rw [parseUnsigned, hlist]
  split
  · exact absurd ‹_› Nat.toDigits_ne_nil
  · -- a digit is no plus
    rename_i heq
    have hplus := hdigits '+' (heq ▸ List.mem_cons_self)
    exact absurd hplus (by decide)
  · exact hvalue

end Text
