import SporePeer.Library.Grammar
import SporePeer.Wire.Boundaries

/-!
# Where the decoder drifts

On well-formed items the decoder finds the ends that the grammar has, with one exception: it reads
the head of a tag and leaves the tagged item behind, for what follows. `skip` says so of a stream
of items, without bytes: a tag stands for one item and gives way to another. The decoder does to
the bytes of a stream what `skip` does to the stream, so it finds the end of an item that it does
not reject exactly if the item has no tag in it.

## Main definitions

* `skip`: what is left of a stream of items when one of them is read
* `Leaves`: a decode that leaves the bytes of what is left of the stream

## Main results

* `passes_skip`: every tag in the way leaves one more item behind
* `follows`: the decoder reads a stream as `skip` does
* `boundary_iff`: when it finds the end of an item
-/

namespace SporePeer

open Effects Bytes Text Grammar

/-! ## Streams of items -/

/-- Items that the decoder does not reject for themselves: negative integers that fit, and text in
UTF-8. -/
def readable : Item → Bool
  | .nint _ n => n < 2 ^ 63
  | .text _ b => (fromUtf8 b).isSome
  | _ => true

/-- How many items the decoder reads inside an item. The tagged item is not among them. -/
def due : Item → ℕ
  | .tag .. => 0
  | x => x.parts.length

/-- What is left of a stream when `n` items are read. -/
def skips (skip : List Item → Option (List Item)) : ℕ → List Item → Option (List Item)
  | 0, s => some s
  | n + 1, s => (skip s).bind (skips skip n)

/-- What is left of a stream when one item is read, unless it is rejected. Items nested `gas` deep
are. -/
def skip : ℕ → List Item → Option (List Item)
  | 0, _ => none
  | _ + 1, [] => none
  | gas + 1, x :: s => if readable x then skips (skip gas) (due x) (x.parts ++ s) else none

section

variable {gas n : ℕ} {s s' : List Item}

theorem due_add_tags (x : Item) : due x + x.tags = x.parts.length + Item.tagsAll x.parts := by
  cases x with
  | uint | nint | bytes | text | simple => rfl
  | array w items =>
    rw [Item.tags]
    rfl
  | map w pairs =>
    rw [Item.tags, Item.tagsPairs_eq]
    rfl
  | tag w n x =>
    rw [due, Item.tags, Item.parts, List.length_singleton, Item.tagsAll, Item.tagsAll]
    omega

theorem due_le (x : Item) : due x ≤ x.parts.length := by
  cases x with
  | tag => exact Nat.zero_le _
  | _ => exact le_rfl

/-- A stream `s'` left of `s` when `n` items are read: every tag in the way leaves one more item
behind. -/
structure Passes (n : ℕ) (s s' : List Item) : Prop where
  count : s'.length + n + Item.tagsAll s' = s.length + Item.tagsAll s
  tags : Item.tagsAll s' ≤ Item.tagsAll s
  wellFormed : (∀ x ∈ s, x.WellFormed) → ∀ x ∈ s', x.WellFormed

theorem Passes.trans {m : ℕ} {t : List Item} (h : Passes m s t) (h' : Passes n t s') :
    Passes (n + m) s s' where
  count := by
    have hc := h.count
    have hc' := h'.count
    omega
  tags := h'.tags.trans h.tags
  wellFormed hs := h'.wellFormed (h.wellFormed hs)

theorem passes_skips {skip : List Item → Option (List Item)}
    (hskip : ∀ s s', skip s = some s' → Passes 1 s s') (h : skips skip n s = some s') :
    Passes n s s' := by
  induction n generalizing s with
  | zero =>
    obtain rfl := Option.some.inj h
    exact ⟨rfl, le_rfl, id⟩
  | succ n ih =>
    obtain ⟨t, ht, hrest⟩ := Option.bind_eq_some_iff.mp h
    exact (hskip s t ht).trans (ih hrest)

theorem skip_succ (h : skip (gas + 1) s = some s') :
    ∃ x t, x :: t = s ∧ readable x = true ∧
      skips (skip gas) (due x) (x.parts ++ t) = some s' := by
  cases s with
  | nil => cases h
  | cons x t =>
    rw [skip] at h
    split at h
    · rename_i hread
      exact ⟨x, t, rfl, hread, h⟩
    · cases h

theorem passes_skip (h : skip gas s = some s') : Passes 1 s s' := by
  induction gas generalizing s s' with
  | zero => cases h
  | succ gas ih =>
    obtain ⟨x, t, rfl, -, hskips⟩ := skip_succ h
    have hpass := passes_skips (fun _ _ => ih) hskips
    have hx := due_add_tags x
    have hcount := hpass.count
    have htags := hpass.tags
    have hle := due_le x
    rw [Item.tagsAll_append] at hcount htags
    rw [List.length_append] at hcount
    refine ⟨?_, ?_, fun hs => hpass.wellFormed ?_⟩
    · rw [List.length_cons, Item.tagsAll]
      omega
    · rw [Item.tagsAll]
      omega
    · rw [List.forall_mem_cons] at hs
      rw [List.forall_mem_append]
      exact ⟨hs.1.parts, hs.2⟩

end

/-! ## The decoder -/

/-- A head reads back, in whatever width its argument stands. -/
theorem decodeHead_wide {major n : ℕ} {w : Width} (hm : major < 8) (hn : n < w.bound)
    (tail : Bytes) :
    decodeHead (Grammar.head major w n ++ tail) =
      some ⟨major, w.info n, n, (Grammar.head major w n).length⟩ := by
  have wide (info v pos : ℕ) (hv : n < 256 ^ v)
      (ha : ∀ rest, decodeArgument info rest = (getRange rest 0 v).map fun b => (ofBe b, pos)) :
      decodeArgument info (toBe v n ++ tail) = some (n, pos) := by
    rw [ha, getRange_toBe, Option.map_some, ofBe_toBe hv]
  have hargument : decodeArgument (w.info n) (toBe w.bytes n ++ tail) = some (n, w.bytes + 1) := by
    cases w with
    | immediate => exact if_pos (Nat.lt_succ_iff.mp hn)
    | one => exact wide 24 1 2 hn fun _ => rfl
    | two => exact wide 25 2 3 hn fun _ => rfl
    | four => exact wide 26 4 5 hn fun _ => rfl
    | eight => exact wide 27 8 9 hn fun _ => rfl
  obtain ⟨hmajor, hinfo⟩ := toNat_initial hm (Width.info_lt hn)
  rw [length_head, Grammar.head, List.cons_append, decodeHead, hmajor, hinfo, hargument]
  rfl

/-- The decode, after `pre`, of items `s` of which `s'` are left: it ends where they begin, and is
rejected if there are none. -/
def Leaves {α : Type} (m : Decode (α × ℕ)) (pre : Bytes) (s : List Item) :
    Option (List Item) → Prop
  | none => m = failure
  | some s' => ∃ a bs, bs ++ Item.encodeAll s' = Item.encodeAll s ∧ m = pure (a, (pre ++ bs).length)

section

variable {α β : Type} {m : Decode (α × ℕ)} {pre bs : Bytes} {s t : List Item}
  {o : Option (List Item)}

/-- Items that are read after others. -/
theorem Leaves.after (ht : bs ++ Item.encodeAll t = Item.encodeAll s) (h : Leaves m (pre ++ bs) t o) :
    Leaves m pre s o := by
  cases o with
  | none => exact h
  | some s' =>
    obtain ⟨a, bs', hbs, rfl⟩ := h
    refine ⟨a, bs ++ bs', ?_, ?_⟩
    · rw [← ht, ← hbs, List.append_assoc]
    · rw [List.append_assoc]

theorem leaves_here {a : α} (h : m = pure (a, pre.length)) : Leaves m pre s (some s) :=
  ⟨a, [], rfl, by rw [h, List.append_nil]⟩

theorem Leaves.map {f : α → β} (h : Leaves m pre s o) :
    Leaves (m >>= fun a => pure (f a.1, a.2)) pre s o := by
  cases o with
  | none =>
    obtain rfl : m = failure := h
    rfl
  | some s' =>
    obtain ⟨a, bs, hbs, rfl⟩ := h
    exact ⟨f a, bs, hbs, rfl⟩

/-- A stream is read as `skip` says, with anything behind it. -/
def Follows (gas : ℕ) : Prop :=
  ∀ s tail, s ≠ [] → (∀ x ∈ s, x.WellFormed) → (Item.encodeAll s ++ tail).length < 2 ^ 63 →
    Leaves (decodeGas gas (Item.encodeAll s ++ tail)) [] s (skip gas s)

variable {gas : ℕ}

/-- One item of a stream, and then what follows it. -/
theorem Follows.child (hf : Follows gas) {f : Value × ℕ → Decode (α × ℕ)}
    {next : List Item → Option (List Item)} (hs : s ≠ []) (hwf : ∀ x ∈ s, x.WellFormed)
    (pre tail : Bytes) (hlen : (pre ++ Item.encodeAll s ++ tail).length < 2 ^ 63)
    (hnext : ∀ v bs t, pre ++ Item.encodeAll s = pre ++ bs ++ Item.encodeAll t → Passes 1 s t →
      Leaves (f (v, (pre ++ bs).length)) (pre ++ bs) t (next t)) :
    Leaves (decodeChild (decodeGas gas) (pre ++ Item.encodeAll s ++ tail) pre.length >>= f) pre s
      ((skip gas s).bind next) := by
  rw [List.append_assoc, List.length_append] at hlen
  have h := hf s tail hs hwf (by omega)
  have hsound := sound_decodeGas gas (Item.encodeAll s ++ tail)
  rw [decodeChild, List.append_assoc, sliceFrom_ok (by simp), List.drop_left, lift_ok_bind]
  generalize decodeGas gas (Item.encodeAll s ++ tail) = m at h hsound
  cases hskip : skip gas s with
  | none =>
    rw [hskip] at h
    obtain rfl : m = failure := h
    rfl
  | some t =>
    rw [hskip] at h
    obtain ⟨v, bs, hbs, rfl⟩ := h
    -- an item takes a byte at least, and no more than there are
    obtain ⟨hpos, hle, -⟩ := hsound.of_returns (a := (v, bs.length)) rfl
    have hadd : checkedAdd pre.length bs.length = some (pre ++ bs).length := by
      rw [List.length_append]
      exact if_pos (by omega)
    have hv := hnext v bs t (by rw [← hbs, List.append_assoc]) (passes_skip hskip)
    rw [pure_bind]
    simp only [List.nil_append, if_neg hpos.ne', hadd, orReject_some_bind, pure_bind]
    exact hv.after hbs

/-- Items one after another. -/
theorem Follows.items (hf : Follows gas) {n : ℕ} (hn : n ≤ s.length)
    (hwf : ∀ x ∈ s, x.WellFormed) (pre tail : Bytes) (out : List Value)
    (hlen : (pre ++ Item.encodeAll s ++ tail).length < 2 ^ 63) :
    Leaves (decodeItems (decodeGas gas) (pre ++ Item.encodeAll s ++ tail) n pre.length out) pre s
      (skips (skip gas) n s) := by
  induction n generalizing s pre out with
  | zero => exact ⟨out, [], rfl, by rw [List.append_nil]; rfl⟩
  | succ n ih =>
    rw [decodeItems, skips]
    refine hf.child (List.ne_nil_of_length_pos (by omega)) hwf pre tail hlen ?_
    intro v bs t hbytes hpass
    have hcount := hpass.count
    have htags := hpass.tags
    rw [hbytes] at hlen ⊢
    exact ih (by omega) (hpass.wellFormed hwf) (pre ++ bs) (out ++ [v]) hlen

/-- Pairs one after another. -/
theorem Follows.fields (hf : Follows gas) {n : ℕ} (hn : 2 * n ≤ s.length)
    (hwf : ∀ x ∈ s, x.WellFormed) (pre tail : Bytes) (m : List (String × Value))
    (hlen : (pre ++ Item.encodeAll s ++ tail).length < 2 ^ 63) :
    Leaves (decodeFields (decodeGas gas) (pre ++ Item.encodeAll s ++ tail) n pre.length m) pre s
      (skips (skip gas) (2 * n) s) := by
  induction n generalizing s pre m with
  | zero => exact ⟨m, [], rfl, by rw [List.append_nil]; rfl⟩
  | succ n ih =>
    rw [decodeFields, Nat.mul_succ, skips]
    refine hf.child (List.ne_nil_of_length_pos (by omega)) hwf pre tail hlen ?_
    intro k bs t hbytes hpass
    have hcount := hpass.count
    have htags := hpass.tags
    rw [hbytes] at hlen ⊢
    have hwf' := hpass.wellFormed hwf
    refine hf.child (List.ne_nil_of_length_pos (by omega)) hwf' (pre ++ bs) tail hlen ?_
    intro v bs' t' hbytes' hpass'
    have hcount' := hpass'.count
    have htags' := hpass'.tags
    rw [hbytes'] at hlen ⊢
    exact ih (by omega) (hpass'.wellFormed hwf') (pre ++ bs ++ bs') _ hlen

/-- The decoder reads a stream as `skip` says. -/
theorem follows (gas : ℕ) : Follows gas := by
  induction gas with
  | zero => exact fun s tail _ _ _ => rfl
  | succ gas ih =>
    intro s tail hs hwf hlen
    obtain ⟨x, t, rfl⟩ := List.exists_cons_of_ne_nil hs
    rw [List.forall_mem_cons] at hwf
    obtain ⟨hx, ht⟩ := hwf
    have hparts : ∀ y ∈ x.parts ++ t, y.WellFormed := List.forall_mem_append.mpr ⟨hx.parts, ht⟩
    have hfront : x.front ++ Item.encodeAll (x.parts ++ t) = Item.encodeAll (x :: t) := by
      rw [Item.encodeAll, Item.encode_eq, Item.encodeAll_append, List.append_assoc]
    -- the front is read here, and the parts like items behind it
    suffices h : Leaves (decodeGas (gas + 1) (x.front ++ (Item.encodeAll (x.parts ++ t) ++ tail)))
        x.front (x.parts ++ t) (skip (gas + 1) (x :: t)) by
      rw [← hfront, List.append_assoc]
      exact h.after hfront
    rw [← hfront, List.append_assoc] at hlen
    rw [skip, decodeGas]
    cases hx with
    | @uint w n hn =>
      rw [Item.front, decodeHead_wide (by omega) hn]
      exact leaves_here rfl
    | @nint w n hn =>
      rw [Item.front, decodeHead_wide (by omega) hn, orReject_some_bind]
      show Leaves (if -1 - (n : ℤ) < -2 ^ 63 then failure else pure (_, _)) _ _
        (if decide (n < 2 ^ 63) then some t else none)
      -- the number is rejected if it is below the range of an `i64`
      by_cases hread : n < 2 ^ 63
      · rw [if_neg (by omega), if_pos (decide_eq_true hread)]
        exact leaves_here rfl
      · rw [if_pos (by omega), if_neg (by rw [decide_eq_true_eq]; exact hread)]
        rfl
    | @bytes w b hn =>
      rw [Item.front, List.length_append, List.length_append] at hlen
      have hspan := decodeSpan_append (Grammar.head 2 w b.length) b (Item.encodeAll t ++ tail)
        (by omega)
      rw [Item.front, List.append_assoc, decodeHead_wide (by omega) hn, orReject_some_bind,
        ← List.append_assoc]
      show Leaves (orReject (decodeSpan _ _ _) >>= _) _ t (some t)
      rw [show Item.parts (.bytes w b) ++ t = t from rfl, hspan]
      exact leaves_here (by rw [List.length_append]; rfl)
    | @text w b hn =>
      rw [Item.front, List.length_append, List.length_append] at hlen
      have hspan := decodeSpan_append (Grammar.head 3 w b.length) b (Item.encodeAll t ++ tail)
        (by omega)
      rw [Item.front, List.append_assoc, decodeHead_wide (by omega) hn, orReject_some_bind,
        ← List.append_assoc]
      show Leaves (orReject (decodeSpan _ _ _) >>= _) _ t
        (if (fromUtf8 b).isSome then some t else none)
      rw [show Item.parts (.text w b) ++ t = t from rfl, hspan, orReject_some_bind]
      -- the text is rejected if its bytes are no UTF-8
      cases hutf : fromUtf8 b with
      | none =>
        simp only [hutf]
        rfl
      | some text =>
        simp only [hutf]
        exact leaves_here (by rw [List.length_append]; rfl)
    | @array w items hn h =>
      -- every item of the array, by the induction hypothesis
      rw [Item.front, decodeHead_wide (by omega) hn, orReject_some_bind, ← List.append_assoc]
      rw [Item.front, ← List.append_assoc] at hlen
      have hle : items.length ≤ (items ++ t).length := by
        rw [List.length_append]
        omega
      exact (ih.items hle hparts (Grammar.head 4 w items.length) tail [] hlen).map
    | @map w pairs hn hk hv =>
      -- keys and values in turn
      rw [Item.front, decodeHead_wide (by omega) hn, orReject_some_bind, ← List.append_assoc]
      rw [Item.front, ← List.append_assoc] at hlen
      have hle : 2 * pairs.length ≤ (inTurn pairs ++ t).length := by
        rw [List.length_append, length_inTurn]
        omega
      have h := (ih.fields hle hparts (Grammar.head 5 w pairs.length) tail [] hlen).map
        (f := Value.object)
      rw [← length_inTurn] at h
      exact h
    | @tag w n y hn h =>
      -- the tag is taken for an item, and what it tags is left behind
      rw [Item.front, decodeHead_wide (by omega) hn]
      exact leaves_here rfl
    | @simple w n hn hone =>
      rw [Item.front, decodeHead_wide (by omega) hn, orReject_some_bind]
      show Leaves (if _ then _ else if _ then _ else _) _ t (some t)
      split
      · exact leaves_here rfl
      · split
        · exact leaves_here rfl
        · exact leaves_here rfl

/-- **The decoder drifts at tags, and nowhere else.** It rejects a well-formed item or finds its
end, exactly if the item has no tag in it, or one of the items that are read, each in the place to
which the tags before it have moved it, is rejected for itself or for its nesting. -/
theorem boundary_iff {x : Item} (hx : x.WellFormed) (tail : Bytes) (depth : ℕ)
    (hlen : (x.encode ++ tail).length < 2 ^ 63) :
    ((decodeValue (x.encode ++ tail) depth).run = .ok none ∨
        ∃ v, Returns (decodeValue (x.encode ++ tail) depth) (v, x.encode.length)) ↔
      x.tags = 0 ∨ skip (maxDepth + 1 - depth) [x] = none := by
  have hone : Item.encodeAll [x] = x.encode := List.append_nil _
  have h := follows (maxDepth + 1 - depth) [x] tail (List.cons_ne_nil _ _)
    (List.forall_mem_singleton.mpr hx) (by rw [hone]; exact hlen)
  rw [hone] at h
  rw [decodeValue]
  cases hskip : skip (maxDepth + 1 - depth) [x] with
  | none =>
    rw [hskip] at h
    exact iff_of_true (.inl (congrArg OptionT.run h)) (.inr rfl)
  | some rest =>
    rw [hskip] at h
    obtain ⟨v, bs, hbs, hv⟩ := h
    have hpass := passes_skip hskip
    have hcount : rest.length + 1 + Item.tagsAll rest = 1 + (x.tags + 0) := hpass.count
    rw [hone] at hbs
    rw [hv]
    constructor
    · rintro (hrun | ⟨v', hrun⟩)
      · cases hrun
      · -- nothing is left, so no tag was in the way
        have hends : x.encode.length = bs.length := (congrArg Prod.snd (returns_pure.mp hrun)).symm
        have hnil : Item.encodeAll rest = [] := by
          rw [← hbs, List.length_append] at hends
          exact List.eq_nil_of_length_eq_zero (by omega)
        obtain rfl := Item.encodeAll_eq_nil hnil
        have hzero : 0 + 1 + 0 = 1 + (x.tags + 0) := hcount
        left
        omega
    · rintro (hnone | hno)
      · have hnil : rest = [] := List.eq_nil_of_length_eq_zero (by omega)
        rw [hnil, Item.encodeAll, List.append_nil] at hbs
        exact .inr ⟨v, returns_pure.mpr (by rw [← hbs]; rfl)⟩
      · cases hno

/-- Tag 1 of the number 0 is read as null, and the number is left behind. -/
theorem tag_left_behind :
    let x : Item := .tag .immediate 1 (.uint .immediate 0)
    x.WellFormed ∧ x.encode = [0xc1, 0x00] ∧
      Returns (decodeValue (x.encode ++ []) 0) (.null, 1) ∧
      ¬ ((decodeValue (x.encode ++ []) 0).run = .ok none ∨
        ∃ v, Returns (decodeValue (x.encode ++ []) 0) (v, x.encode.length)) := by
  intro x
  have hbytes : x.encode = [0xc1, 0x00] := rfl
  have hread : Returns (decodeValue (x.encode ++ []) 0) (.null, 1) := rfl
  refine ⟨.tag (by decide) (.uint (by decide)), hbytes, hread, ?_⟩
  rintro (hrun | ⟨v, hrun⟩)
  · exact hread.not_rejected hrun
  · have hboth := hread.symm.trans hrun
    cases hboth

/-- An array of a text and a float is read to its end. -/
theorem boundary_iff_array :
    let x : Item := .array .one [.text .immediate [0x68], .simple .eight (2 ^ 62)]
    (decodeValue (x.encode ++ [0xff]) 0).run = .ok none ∨
      ∃ v, Returns (decodeValue (x.encode ++ [0xff]) 0) (v, x.encode.length) := by
  intro x
  have hx : x.WellFormed := by
    refine .array (by decide) ?_
    rw [List.forall_mem_cons, List.forall_mem_singleton]
    exact ⟨.text (by decide), .simple (by decide) nofun⟩
  exact (boundary_iff hx [0xff] 0 (by decide)).mpr (.inl rfl)

end

end SporePeer
