import SporePeer.Wire.RoundTrip

/-!
# Where an item ends

The decoder reads an item and nothing after it: what it returns is settled by the bytes it reports
as consumed, and no strict prefix of these decodes. So a frame that carries a payload reads the
same whatever follows it, and a cut inside it is noticed, but for one right after the header.

## Main definitions

* `Returns`: a decode that succeeds
* `Local`: a decoder that reads no further than the item it returns

## Main results

* `local_decodeGas`: the decoder is local
* `decodeValue_delimits`: items delimit themselves
* `decoding_delimits`: so do messages
-/

namespace SporePeer

open Effects Bytes Text

/-! ## Decodes that succeed -/

/-- The decode succeeds with `a`. -/
def Returns {α : Type} (m : Decode α) (a : α) : Prop := m.run = .ok (some a)

section

variable {α β : Type} {m : Decode α} {f : α → Decode β} {a : α} {b : β}

theorem returns_pure {a' : α} : Returns (pure a) a' ↔ a = a' := by
  show Except.ok (some a) = Except.ok (some a') ↔ _
  simp

theorem returns_failure : ¬ Returns (failure : Decode α) a := nofun

theorem returns_orReject {x : Option α} : Returns (orReject x) a ↔ x = some a := by
  show Except.ok x = Except.ok (some a) ↔ _
  simp

theorem returns_bind : Returns (m >>= f) b ↔ ∃ a, Returns m a ∧ Returns (f a) b := by
  have hb : (m >>= f).run = m.run >>= fun o => o.elim (pure none) fun a => (f a).run := by
    rw [OptionT.run_bind]
    congr
  unfold Returns
  rw [hb]
  constructor
  · intro h
    rcases hm : m.run with p | _ | a
    · rw [hm] at h
      cases h
    · rw [hm] at h
      cases h
    · rw [hm] at h
      exact ⟨a, rfl, h⟩
  · rintro ⟨a, hm, hf⟩
    rw [hm]
    exact hf

theorem returns_sliceFrom {buf r : Bytes} {n : ℕ} :
    Returns (OptionT.lift (sliceFrom buf n)) r ↔ n ≤ buf.length ∧ buf.drop n = r := by
  unfold sliceFrom
  split
  · rename_i hn
    rw [and_iff_right hn]
    exact returns_pure
  · rename_i hn
    exact iff_of_false nofun fun h => hn h.1

theorem Returns.not_rejected (h : Returns m a) : m.run ≠ .ok none := by
  rw [h]
  nofun

/-- A decode that does not unwind and returns nothing is rejected. -/
theorem Holds.rejects {Q : α → Prop} (hm : Holds m Q) (hno : ∀ a, ¬ Returns m a) :
    m.run = .ok none := by
  obtain ⟨r, hr, -⟩ := hm
  cases r with
  | none => exact hr
  | some a => exact absurd hr (hno a)

theorem Holds.of_returns {Q : α → Prop} (hm : Holds m Q) (h : Returns m a) : Q a := by
  obtain ⟨r, hr, hQ⟩ := hm
  rw [Returns, hr, Except.ok.injEq] at h
  exact hQ a h

end

/-! ## The parts of an item -/

section

variable {a b : Bytes}

theorem take_eq_of_le {k m : ℕ} (h : a.take m = b.take m) (hk : k ≤ m) : a.take k = b.take k := by
  have ht := congrArg (List.take k) h
  rwa [List.take_take, List.take_take, min_eq_left hk] at ht

theorem drop_take_eq {k m : ℕ} (h : a.take m = b.take m) :
    (a.drop k).take (m - k) = (b.drop k).take (m - k) := by
  rw [← List.drop_take, ← List.drop_take, h]

theorem le_length_of_take {m : ℕ} (h : a.take m = b.take m) (hm : m ≤ a.length) :
    m ≤ b.length := by
  have hl := congrArg List.length h
  rw [List.length_take, List.length_take] at hl
  omega

theorem getRange_local {i j : ℕ} {r : Bytes} (h : getRange a i j = some r)
    (hab : a.take j = b.take j) : getRange b i j = some r := by
  unfold getRange at h ⊢
  split at h
  · rename_i hij
    rw [if_pos ⟨hij.1, le_length_of_take hab hij.2⟩, ← drop_take_eq hab]
    exact h
  · cases h

theorem decodeArgument_local {info n pos : ℕ} (h : decodeArgument info a = some (n, pos))
    (hab : a.take (pos - 1) = b.take (pos - 1)) : decodeArgument info b = some (n, pos) := by
  -- an argument of `w` bytes after the head
  have wide (w p : ℕ) (hp : p = w + 1)
      (hw : ((getRange a 0 w).map fun b => (ofBe b, p)) = some (n, pos)) :
      ((getRange b 0 w).map fun b => (ofBe b, p)) = some (n, pos) := by
    obtain ⟨r, hr, he⟩ := Option.map_eq_some_iff.mp hw
    have hw' : pos - 1 = w := by
      rw [← (Prod.mk.inj he).2, hp]
      rfl
    rw [hw'] at hab
    rw [getRange_local hr hab, Option.map_some, he]
  unfold decodeArgument at h ⊢
  by_cases h23 : info ≤ 23
  · rw [if_pos h23] at h ⊢
    exact h
  rw [if_neg h23] at h ⊢
  by_cases h24 : info = 24
  · rw [if_pos h24] at h ⊢
    exact wide 1 2 rfl h
  rw [if_neg h24] at h ⊢
  by_cases h25 : info = 25
  · rw [if_pos h25] at h ⊢
    exact wide 2 3 rfl h
  rw [if_neg h25] at h ⊢
  by_cases h26 : info = 26
  · rw [if_pos h26] at h ⊢
    exact wide 4 5 rfl h
  rw [if_neg h26] at h ⊢
  by_cases h27 : info = 27
  · rw [if_pos h27] at h ⊢
    exact wide 8 9 rfl h
  · rw [if_neg h27] at h
    cases h

theorem decodeHead_local {hd : Head} (h : decodeHead a = some hd)
    (hab : a.take hd.pos = b.take hd.pos) : decodeHead b = some hd := by
  obtain ⟨⟨hpos, hle⟩, ib, rest, rfl, -⟩ := decodeHead_pos h
  obtain ⟨⟨n, pos⟩, harg, rfl⟩ := Option.map_eq_some_iff.mp h
  dsimp only at hab hpos hle
  obtain ⟨k, rfl⟩ : ∃ k, pos = k + 1 := ⟨pos - 1, by omega⟩
  cases b with
  | nil => simp at hab
  | cons ib' rest' =>
    rw [List.take_succ_cons, List.take_succ_cons, List.cons.injEq] at hab
    obtain ⟨rfl, hrest⟩ := hab
    rw [decodeHead, decodeArgument_local harg hrest]
    rfl

theorem decodeSpan_local {r : Bytes} {pos n stop : ℕ} (h : decodeSpan a pos n = some (r, stop))
    (hab : a.take stop = b.take stop) : decodeSpan b pos n = some (r, stop) := by
  simp only [decodeSpan, Option.bind_eq_bind, Option.bind_eq_some_iff, Option.pure_def,
    Option.some.injEq, Prod.mk.injEq] at h ⊢
  obtain ⟨stop', hs, r', hr, rfl, rfl⟩ := h
  exact ⟨stop', hs, r', getRange_local hr hab, rfl, rfl⟩

end

/-! ## Items -/

/-- A decoder that reads no further than the item it returns. -/
def Local (decode : Bytes → Decode (Value × ℕ)) : Prop :=
  ∀ a b v n, Returns (decode a) (v, n) → a.take n = b.take n → Returns (decode b) (v, n)

section

variable {decode : Bytes → Decode (Value × ℕ)} {a b : Bytes}

theorem Local.decodeChild (hl : Local decode) {pos stop : ℕ} {v : Value}
    (h : Returns (decodeChild decode a pos) (v, stop)) (hab : a.take stop = b.take stop) :
    Returns (decodeChild decode b pos) (v, stop) := by
  unfold SporePeer.decodeChild at h ⊢
  obtain ⟨rest, hrest, h⟩ := returns_bind.mp h
  obtain ⟨hpos, rfl⟩ := returns_sliceFrom.mp hrest
  obtain ⟨⟨v', used⟩, hv, h⟩ := returns_bind.mp h
  dsimp only at h
  split at h
  · exact absurd h returns_failure
  rename_i hused
  obtain ⟨stop', hstop, h⟩ := returns_bind.mp h
  obtain ⟨rfl, rfl⟩ := Prod.mk.inj (returns_pure.mp h)
  have hadd : stop' = pos + used := by
    have hs := returns_orReject.mp hstop
    unfold checkedAdd at hs
    split at hs
    · exact (Option.some.inj hs).symm
    · cases hs
  -- the child lies within what the two buffers share
  have hchild : (a.drop pos).take used = (b.drop pos).take used := by
    have hd := drop_take_eq (k := pos) hab
    rwa [hadd, Nat.add_sub_cancel_left] at hd
  refine returns_bind.mpr ⟨b.drop pos, returns_sliceFrom.mpr ⟨?_, rfl⟩, ?_⟩
  · exact le_length_of_take (take_eq_of_le hab (by omega)) hpos
  refine returns_bind.mpr ⟨(v', used), hl _ _ _ _ hv hchild, ?_⟩
  dsimp only
  rw [if_neg hused]
  exact returns_bind.mpr ⟨stop', hstop, returns_pure.mpr rfl⟩

/-- An item ends behind its start, within the input. -/
theorem Sound.child_bounds (hd : Sound decode) {pos stop : ℕ} {v : Value}
    (h : Returns (SporePeer.decodeChild decode a pos) (v, stop)) :
    pos < stop ∧ stop ≤ a.length := by
  have hpos : pos ≤ a.length := by
    obtain ⟨rest, hrest, -⟩ := returns_bind.mp h
    exact (returns_sliceFrom.mp hrest).1
  exact (hd.decodeChild hpos).of_returns h

theorem Local.decodeItems (hd : Sound decode) (hl : Local decode) {n pos stop : ℕ}
    {out items : List Value} (h : Returns (decodeItems decode a n pos out) (items, stop))
    (hab : a.take stop = b.take stop) :
    Returns (decodeItems decode b n pos out) (items, stop) := by
  induction n generalizing pos out with
  | zero => exact h
  | succ n ih =>
    obtain ⟨⟨v, mid⟩, hchild, h⟩ := returns_bind.mp h
    have hbounds := hd.child_bounds hchild
    have hmid : mid ≤ stop := ((hd.decodeItems n hbounds.2 _).of_returns h).1
    exact returns_bind.mpr ⟨(v, mid), hl.decodeChild hchild (take_eq_of_le hab hmid), ih h⟩

theorem Local.decodeFields (hd : Sound decode) (hl : Local decode) {n pos stop : ℕ}
    {m fields : List (String × Value)} (h : Returns (decodeFields decode a n pos m) (fields, stop))
    (hab : a.take stop = b.take stop) :
    Returns (decodeFields decode b n pos m) (fields, stop) := by
  induction n generalizing pos m with
  | zero => exact h
  | succ n ih =>
    obtain ⟨⟨k, mid⟩, hkey, h⟩ := returns_bind.mp h
    obtain ⟨⟨v, mid'⟩, hval, h⟩ := returns_bind.mp h
    have hkb := hd.child_bounds hkey
    have hvb := hd.child_bounds hval
    have hmid : mid' ≤ stop := ((hd.decodeFields n hvb.2 _).of_returns h).1
    refine returns_bind.mpr ⟨(k, mid), ?_, returns_bind.mpr ⟨(v, mid'), ?_, ih h⟩⟩
    · exact hl.decodeChild hkey (take_eq_of_le hab (by omega))
    · exact hl.decodeChild hval (take_eq_of_le hab hmid)

end

/-- **The decoder is local.** By induction on the depth it may still descend. -/
theorem local_decodeGas (gas : ℕ) : Local (decodeGas gas) := by
  induction gas with
  | zero => exact fun a b v n h => absurd h returns_failure
  | succ gas ih =>
    intro a b v n h hab
    have hd := sound_decodeGas gas
    rw [decodeGas] at h ⊢
    obtain ⟨⟨major, info, arg, pos⟩, hhead, h⟩ := returns_bind.mp h
    have hhead := returns_orReject.mp hhead
    have hpos : pos ≤ a.length := (decodeHead_pos hhead).1.2
    -- the head is a part of the item, whatever the item is
    have hsame (hle : pos ≤ n) : Returns (orReject (decodeHead b)) ⟨major, info, arg, pos⟩ :=
      returns_orReject.mpr (decodeHead_local hhead (take_eq_of_le hab hle))
    have hplain {x : Value} (hx : Returns (pure (x, pos)) (v, n)) : pos ≤ n :=
      (Prod.mk.inj (returns_pure.mp hx)).2.le
    dsimp only at h
    rcases major with _ | _ | _ | _ | _ | _ | major
    · -- an unsigned integer is its head
      exact returns_bind.mpr ⟨_, hsame (hplain h), h⟩
    · -- a negative integer too, unless it does not fit
      change Returns (if -1 - (arg : ℤ) < -2 ^ 63 then failure
        else pure (.number (.negInt (Int64.ofInt (-1 - arg))), pos)) (v, n) at h
      have hle : pos ≤ n := by
        split at h
        · exact absurd h returns_failure
        · exact hplain h
      exact returns_bind.mpr ⟨_, hsame hle, h⟩
    · -- a byte string, and then a text: the span ends where the item does
      obtain ⟨⟨r, stop⟩, hspan, h⟩ := returns_bind.mp h
      obtain ⟨rfl, rfl⟩ := Prod.mk.inj (returns_pure.mp h)
      have hspan := returns_orReject.mp hspan
      have hle : pos ≤ stop := by
        have := decodeSpan_bounds hspan
        omega
      exact returns_bind.mpr ⟨_, hsame hle, returns_bind.mpr
        ⟨(r, stop), returns_orReject.mpr (decodeSpan_local hspan hab), h⟩⟩
    · obtain ⟨⟨r, stop⟩, hspan, h⟩ := returns_bind.mp h
      obtain ⟨t, htext, h⟩ := returns_bind.mp h
      obtain ⟨rfl, rfl⟩ := Prod.mk.inj (returns_pure.mp h)
      have hspan := returns_orReject.mp hspan
      have hle : pos ≤ stop := by
        have := decodeSpan_bounds hspan
        omega
      exact returns_bind.mpr ⟨_, hsame hle, returns_bind.mpr ⟨(r, stop),
        returns_orReject.mpr (decodeSpan_local hspan hab), returns_bind.mpr ⟨t, htext, h⟩⟩⟩
    · -- an array: the induction, at each of its items
      obtain ⟨⟨items, stop⟩, hitems, h⟩ := returns_bind.mp h
      obtain ⟨rfl, rfl⟩ := Prod.mk.inj (returns_pure.mp h)
      have hle : pos ≤ stop := ((hd.decodeItems arg hpos []).of_returns hitems).1
      exact returns_bind.mpr ⟨_, hsame hle, returns_bind.mpr
        ⟨(items, stop), ih.decodeItems hd hitems hab, h⟩⟩
    · -- a map: the induction, at each key and value
      obtain ⟨⟨fields, stop⟩, hfields, h⟩ := returns_bind.mp h
      obtain ⟨rfl, rfl⟩ := Prod.mk.inj (returns_pure.mp h)
      have hle : pos ≤ stop := ((hd.decodeFields arg hpos []).of_returns hfields).1
      exact returns_bind.mpr ⟨_, hsame hle, returns_bind.mpr
        ⟨(fields, stop), ih.decodeFields hd hfields hab, h⟩⟩
    · -- a simple value; every tag and float reads as null
      change Returns (if major + 6 = 7 ∧ info = 20 then pure (.bool false, pos)
        else if major + 6 = 7 ∧ info = 21 then pure (.bool true, pos)
        else pure (.null, pos)) (v, n) at h
      have hle : pos ≤ n := by
        split at h
        · exact hplain h
        · split at h <;> exact hplain h
      exact returns_bind.mpr ⟨_, hsame hle, h⟩

/-- A local decoder rejects what is cut off inside an item. -/
theorem Local.rejects_prefix {decode : Bytes → Decode (Value × ℕ)} (hl : Local decode)
    (hd : Sound decode) {a b : Bytes} {v : Value} {n : ℕ} (h : Returns (decode a) (v, n))
    (hab : a.take b.length = b) (hlt : b.length < n) : (decode b).run = .ok none := by
  apply (hd b).rejects
  rintro ⟨v', n'⟩ h'
  have hle : n' ≤ b.length := ((hd b).of_returns h').2.1
  -- what the cut part returns, the whole returns too
  have hwhole : Returns (decode a) (v', n') := by
    refine hl b a v' n' h' ?_
    rw [← hab, List.take_take, min_eq_left hle]
  have hsame : (v, n) = (v', n') := Option.some.inj (Except.ok.inj (h.symm.trans hwhole))
  have hn : n = n' := (Prod.mk.inj hsame).2
  omega

/-- **Items delimit themselves.** -/
theorem decodeValue_delimits {buf : Bytes} {d n : ℕ} {v : Value}
    (h : (decodeValue buf d).run = .ok (some (v, n))) :
    (1 ≤ n ∧ n ≤ buf.length) ∧
      (∀ tail, (decodeValue (buf.take n ++ tail) d).run = .ok (some (v, n))) ∧
      ∀ k < n, (decodeValue (buf.take k) d).run = .ok none := by
  have hl := local_decodeGas (maxDepth + 1 - d)
  have hd := sound_decodeGas (maxDepth + 1 - d)
  obtain ⟨hpos, hle, -⟩ := (hd buf).of_returns h
  refine ⟨⟨hpos, hle⟩, fun tail => hl buf _ v n h ?_, fun k hk => hl.rejects_prefix hd h ?_ ?_⟩
  · rw [List.take_append_of_le_length (by rw [List.length_take]; omega), List.take_take,
      min_self]
  · rw [List.length_take, min_eq_left (by omega)]
  · rw [List.length_take]
    omega

/-! ## Messages -/

theorem returns_decodeMessage {buf : Bytes} {msg : Rpc2Message} :
    Returns (decodeMessage buf) msg ↔ decoded buf = some msg := by
  rw [Returns, run_decodeMessage, Except.ok.injEq]

/-- The message of a header and its payload. -/
def messageOf (fields : List (String × Value)) (payload : Value) : Rpc2Message where
  method := ((Value.field "M" fields).bind Value.asStr).getD ""
  seq := ((Value.field "S" fields).bind Value.asU64).getD 0
  error := ((Value.field "E" fields).bind Value.asStr).getD ""
  payload := payload

/-- A message is a header that is a map, and a payload. -/
theorem decoded_iff {buf : Bytes} {msg : Rpc2Message} : decoded buf = some msg ↔
    ∃ headV used fields payload, Returns (decodeValue buf 0) (headV, used) ∧
      headV.asObject = some fields ∧ Returns (decodePayload buf used) payload ∧
      msg = messageOf fields payload := by
  rw [← returns_decodeMessage, decodeMessage, returns_bind]
  constructor
  · rintro ⟨⟨headV, used⟩, hhead, h⟩
    obtain ⟨fields, hfields, h⟩ := returns_bind.mp h
    obtain ⟨payload, hpayload, h⟩ := returns_bind.mp h
    exact ⟨headV, used, fields, payload, hhead, returns_orReject.mp hfields, hpayload,
      (returns_pure.mp h).symm⟩
  · rintro ⟨headV, used, fields, payload, hhead, hfields, hpayload, rfl⟩
    exact ⟨(headV, used), hhead, returns_bind.mpr ⟨fields, returns_orReject.mpr hfields,
      returns_bind.mpr ⟨payload, hpayload, returns_pure.mpr rfl⟩⟩⟩

/-- Behind a header there is one item, or nothing. -/
theorem returns_decodePayload {buf : Bytes} {used : ℕ} {payload : Value} :
    Returns (decodePayload buf used) payload ↔
      (used < buf.length ∧ ∃ n, Returns (decodeValue (buf.drop used) 0) (payload, n)) ∨
        (buf.length ≤ used ∧ payload = .null) := by
  unfold decodePayload
  by_cases hlt : used < buf.length
  · rw [if_pos hlt, returns_bind, and_iff_right hlt]
    constructor
    · rintro ⟨rest, hrest, h⟩
      obtain ⟨-, rfl⟩ := returns_sliceFrom.mp hrest
      obtain ⟨⟨v, n⟩, hv, h⟩ := returns_bind.mp h
      dsimp only at h
      split at h
      · exact absurd h returns_failure
      · obtain rfl := returns_pure.mp h
        exact .inl ⟨n, hv⟩
    · rintro (⟨n, hv⟩ | ⟨hle, -⟩)
      · -- an item takes at least a byte, so the loop goes on
        have hpos : 0 < n := ((sound_decodeGas _ _).of_returns hv).1
        refine ⟨_, returns_sliceFrom.mpr ⟨hlt.le, rfl⟩, returns_bind.mpr ⟨_, hv, ?_⟩⟩
        dsimp only
        rw [if_neg hpos.ne']
        exact returns_pure.mpr rfl
      · omega
  · rw [if_neg hlt, returns_pure]
    constructor
    · rintro rfl
      exact .inr ⟨not_lt.mp hlt, rfl⟩
    · rintro (⟨h, -⟩ | ⟨-, rfl⟩)
      · exact absurd h hlt
      · rfl

section

variable {frame : Bytes} {msg : Rpc2Message} {headV : Value} {used : ℕ}

/-- What follows a frame with a payload is not read. -/
theorem decoded_append (h : decoded frame = some msg)
    (hhead : Returns (decodeValue frame 0) (headV, used)) (hlt : used < frame.length)
    (tail : Bytes) : decoded (frame ++ tail) = some msg := by
  obtain ⟨headV', used', fields, payload, hhead', hfields, hpayload, rfl⟩ := decoded_iff.mp h
  obtain ⟨rfl, rfl⟩ := Prod.mk.inj (Option.some.inj (Except.ok.inj (hhead.symm.trans hhead')))
  have hl := local_decodeGas (maxDepth + 1 - 0)
  refine decoded_iff.mpr ⟨headV, used, fields, payload, ?_, hfields, ?_, rfl⟩
  · refine hl frame _ headV used hhead ?_
    rw [List.take_append_of_le_length hlt.le]
  · rcases returns_decodePayload.mp hpayload with ⟨-, n, hv⟩ | ⟨hle, -⟩
    · refine returns_decodePayload.mpr (.inl ⟨?_, n, ?_⟩)
      · rw [List.length_append]
        omega
      · have hn : n ≤ (frame.drop used).length := ((sound_decodeGas _ _).of_returns hv).2.1
        refine hl _ _ payload n hv ?_
        rw [List.drop_append_of_le_length hlt.le, List.take_append_of_le_length hn]
    · omega

/-- Cut inside its header or its payload, a message is no message. -/
theorem decoded_take_iff (h : decoded frame = some msg)
    (hhead : Returns (decodeValue frame 0) (headV, used)) {v : Value} {n : ℕ}
    (hv : Returns (decodeValue (frame.drop used) 0) (v, n)) {k : ℕ} (hk : k < used + n) :
    (decoded (frame.take k)).isSome ↔ k = used := by
  have hl := local_decodeGas (maxDepth + 1 - 0)
  have hd := sound_decodeGas (maxDepth + 1 - 0)
  obtain ⟨-, hused, -⟩ := (hd frame).of_returns hhead
  have hn : n ≤ frame.length - used := by
    have hn := ((hd _).of_returns hv).2.1
    rwa [List.length_drop] at hn
  have hlen : (frame.take k).length = k := by
    rw [List.length_take, min_eq_left (by omega)]
  have hself : frame.take (frame.take k).length = frame.take k := by rw [hlen]
  -- cut behind the header, the header is as before
  have hheadk (hle : used ≤ k) : Returns (decodeValue (frame.take k) 0) (headV, used) := by
    refine hl frame _ headV used hhead ?_
    rw [List.take_take, min_eq_left hle]
  constructor
  · intro hsome
    obtain ⟨m, hm⟩ := Option.isSome_iff_exists.mp hsome
    obtain ⟨headV', used', fields, payload, hhead', -, hpayload, -⟩ := decoded_iff.mp hm
    by_cases hle : used ≤ k
    · obtain ⟨rfl, rfl⟩ := Prod.mk.inj
        (Option.some.inj (Except.ok.inj ((hheadk hle).symm.trans hhead')))
      by_contra hne
      rcases returns_decodePayload.mp hpayload with ⟨-, n', hv'⟩ | ⟨hle', -⟩
      · -- the payload is cut
        have hcut : ((frame.take k).drop used).length = k - used := by
          rw [List.length_drop, hlen]
        refine hv'.not_rejected (hl.rejects_prefix hd hv ?_ ?_)
        · rw [hcut, List.drop_take]
        · omega
      · omega
    · exact absurd (hl.rejects_prefix hd hhead hself (by omega)) hhead'.not_rejected
  · rintro rfl
    obtain ⟨headV', used', fields, payload, hhead', hfields, -, -⟩ := decoded_iff.mp h
    obtain ⟨rfl, rfl⟩ := Prod.mk.inj (Option.some.inj (Except.ok.inj (hhead.symm.trans hhead')))
    have hnull : Returns (decodePayload (frame.take k) k) .null :=
      returns_decodePayload.mpr (.inr ⟨hlen.le, rfl⟩)
    rw [decoded_iff.mpr ⟨headV, k, fields, .null, hheadk le_rfl, hfields, hnull, rfl⟩]
    rfl

end

/-- **Decoding is local and self-delimiting.** Items are, and so are messages that carry a payload:
what follows is not read, and of the strict prefixes of a header and a payload only the header
itself is a message. -/
theorem decoding_delimits :
    (∀ (buf : Bytes) (d : ℕ) (v : Value) (n : ℕ), (decodeValue buf d).run = .ok (some (v, n)) →
      (1 ≤ n ∧ n ≤ buf.length) ∧
        (∀ tail, (decodeValue (buf.take n ++ tail) d).run = .ok (some (v, n))) ∧
        ∀ k < n, (decodeValue (buf.take k) d).run = .ok none) ∧
    ∀ (frame : Bytes) (msg : Rpc2Message) (headV : Value) (used : ℕ),
      (decodeMessage frame).run = .ok (some msg) →
      (decodeValue frame 0).run = .ok (some (headV, used)) → used < frame.length →
        (∀ tail, (decodeMessage (frame ++ tail)).run = .ok (some msg)) ∧
        ∃ v n, (decodeValue (frame.drop used) 0).run = .ok (some (v, n)) ∧ msg.payload = v ∧
          ∀ k < used + n, (∃ m, (decodeMessage (frame.take k)).run = .ok (some m)) ↔ k = used := by
  refine ⟨fun buf d v n h => decodeValue_delimits h, fun frame msg headV used h hhead hlt => ?_⟩
  have hmsg : decoded frame = some msg := returns_decodeMessage.mp h
  refine ⟨fun tail => returns_decodeMessage.mpr (decoded_append hmsg hhead hlt tail), ?_⟩
  obtain ⟨headV', used', fields, payload, hhead', -, hpayload, rfl⟩ := decoded_iff.mp hmsg
  obtain ⟨rfl, rfl⟩ := Prod.mk.inj (Option.some.inj (Except.ok.inj (hhead.symm.trans hhead')))
  rcases returns_decodePayload.mp hpayload with ⟨-, n, hv⟩ | ⟨hle, -⟩
  · refine ⟨payload, n, hv, rfl, fun k hk => ?_⟩
    rw [← decoded_take_iff hmsg hhead hv hk, Option.isSome_iff_exists]
    exact exists_congr fun m => returns_decodeMessage
  · omega

/-- A chain request, with a byte behind it and cut off. -/
theorem decoding_delimits_chainRequest :
    let frame := Cbor.message "Peer.Chain" 2 "" (chainRequest 0 5000)
    ∃ msg headV used, used < frame.length ∧
      (∀ tail, (decodeMessage (frame ++ tail)).run = .ok (some msg)) ∧
      (∀ k < used, (decodeValue (frame.take k) 0).run = .ok none) ∧
      (decodeValue (frame.take used ++ [0xff]) 0).run = .ok (some (headV, used)) ∧
      ∃ v n, (decodeValue (frame.drop used) 0).run = .ok (some (v, n)) ∧ msg.payload = v ∧
        ∀ k < used + n, (∃ m, (decodeMessage (frame.take k)).run = .ok (some m)) ↔ k = used := by
  intro frame
  have hlen : "Peer.Chain".utf8ByteSize + "".utf8ByteSize + 100 < 2 ^ 64 := by decide
  have hmsg := congrArg OptionT.run (@decodeMessage_message _ _ 2 _ _ hlen
    (encodesPayload_chainRequest 0 5000))
  have hhead := congrArg OptionT.run ((encodes_header 2 hlen).2 (chainRequest 0 5000))
  have hlt : (Cbor.header "Peer.Chain" 2 "").length < frame.length := by decide
  obtain ⟨happend, hcut⟩ := decoding_delimits.2 frame _ _ _ hmsg hhead hlt
  obtain ⟨-, htail, hprefix⟩ := decoding_delimits.1 frame 0 _ _ hhead
  exact ⟨_, _, _, hlt, happend, hprefix, htail [0xff], hcut⟩

end SporePeer
