import SporePeer.Wire.Boundaries

/-!
# The size of what is decoded

A value is no larger than the bytes it was decoded from: every node of it has taken a byte at
least, and every byte of a text has taken one, or half a byte where a byte string is written in
hexadecimal. So a short frame cannot fill the memory of a node, whatever lengths it declares.

## Main definitions

* `Value.height`: how many containers the deepest node sits inside
* `Value.weight`: the nodes and texts of a value, weighed
* `Value.nodes`, `Value.textBytes`: their number, and the bytes of all texts

## Main results

* `bounded_decodeGas`: the decoder bounds the weight and the height of a value
* `decoder_bounded`: the bounds on a whole frame
-/

namespace SporePeer

open Effects Bytes Text

namespace Value

mutual

/-- How many containers the deepest item of a value sits inside. -/
def height : Value → ℕ
  | .array items => itemsHeight items
  | .object fields => fieldsHeight fields
  | _ => 0

def itemsHeight : List Value → ℕ
  | [] => 0
  | v :: rest => max (height v + 1) (itemsHeight rest)

def fieldsHeight : List (String × Value) → ℕ
  | [] => 0
  | (_, v) :: rest => max (height v + 1) (fieldsHeight rest)

end

section

variable (node : ℕ) (text : String → ℕ)

mutual

/-- The nodes of a value, weighed: texts and keys by `text`, the others by `node` each. -/
def weight : Value → ℕ
  | .string s => text s
  | .array items => node + itemsWeight items
  | .object fields => node + fieldsWeight fields
  | _ => node

def itemsWeight : List Value → ℕ
  | [] => 0
  | v :: rest => weight v + itemsWeight rest

def fieldsWeight : List (String × Value) → ℕ
  | [] => 0
  | (k, v) :: rest => text k + weight v + fieldsWeight rest

end

end

/-- The number of nodes: scalars, arrays, objects and keys. -/
def nodes : Value → ℕ := weight 1 fun _ => 1

/-- The bytes of all texts and keys together. -/
def textBytes : Value → ℕ := weight 0 String.utf8ByteSize

section

variable {items : List Value} {fields : List (String × Value)} {n : ℕ}

theorem itemsHeight_le : itemsHeight items ≤ n ↔ ∀ v ∈ items, v.height + 1 ≤ n := by
  induction items with
  | nil => simp [itemsHeight]
  | cons v rest ih => rw [itemsHeight, max_le_iff, ih, List.forall_mem_cons]

theorem fieldsHeight_le : fieldsHeight fields ≤ n ↔ ∀ f ∈ fields, f.2.height + 1 ≤ n := by
  induction fields with
  | nil => simp [fieldsHeight]
  | cons f rest ih => rw [fieldsHeight, max_le_iff, ih, List.forall_mem_cons]

theorem height_array_le : (Value.array items).height ≤ n ↔ ∀ v ∈ items, v.height + 1 ≤ n := by
  rw [height, itemsHeight_le]

theorem height_object_le :
    (Value.object fields).height ≤ n ↔ ∀ f ∈ fields, f.2.height + 1 ≤ n := by
  rw [height, fieldsHeight_le]

/-- A field that is set replaces another, or is added. -/
theorem mem_insertField {k : String} {v : Value} {f : String × Value}
    (h : f ∈ insertField k v fields) : f = (k, v) ∨ f ∈ fields := by
  induction fields with
  | nil => exact .inl (List.mem_singleton.mp h)
  | cons g rest ih =>
    rw [insertField] at h
    split at h
    · exact List.mem_cons.mp h
    · split at h
      · exact (List.mem_cons.mp h).imp_right (List.mem_cons_of_mem g)
      · rcases List.mem_cons.mp h with rfl | hrest
        · exact .inr List.mem_cons_self
        · exact (ih hrest).imp_right (List.mem_cons_of_mem g)

section

variable (node : ℕ) (text : String → ℕ)

theorem itemsWeight_append (a b : List Value) :
    itemsWeight node text (a ++ b) = itemsWeight node text a + itemsWeight node text b := by
  induction a with
  | nil => exact (Nat.zero_add _).symm
  | cons v rest ih => rw [List.cons_append, itemsWeight, itemsWeight, ih, Nat.add_assoc]

theorem fieldsWeight_insertField (k : String) (v : Value) (fields : List (String × Value)) :
    fieldsWeight node text (insertField k v fields) ≤
      text k + weight node text v + fieldsWeight node text fields := by
  induction fields with
  | nil => exact le_rfl
  | cons f rest ih =>
    rw [insertField]
    split
    · exact le_rfl
    · split
      · rw [fieldsWeight, fieldsWeight]
        omega
      · rw [fieldsWeight, fieldsWeight]
        omega

end

end

end Value

/-! ## Decoded values -/

theorem Holds.and {α : Type} {m : Decode α} {Q R : α → Prop} (hQ : Holds m Q) (hR : Holds m R) :
    Holds m fun a => Q a ∧ R a := by
  obtain ⟨r, hr, hr'⟩ := hQ
  exact ⟨r, hr, fun a ha => ⟨hr' a ha, hR.of_returns (by rw [Returns, hr, Option.mem_def.mp ha])⟩⟩

section

variable {node c : ℕ} {text : String → ℕ} {gas : ℕ} {decode : Bytes → Decode (Value × ℕ)}
  {buf : Bytes} {pos : ℕ}

/-- A decoder of values nested less than `k` deep that weigh at most `c` for each byte consumed. -/
def Bounded (node c : ℕ) (text : String → ℕ) (k : ℕ) (decode : Bytes → Decode (Value × ℕ)) : Prop :=
  ∀ buf, Holds (decode buf) fun (v, n) => v.weight node text ≤ c * n ∧ v.height < k

/-- What is read from `pos` on weighs at most `c` for each byte. -/
theorem Bounded.child {k : ℕ} (hs : Sound decode) (hb : Bounded node c text k decode)
    (hpos : pos ≤ buf.length) :
    Holds (decodeChild decode buf pos) fun (v, stop) =>
      (v.weight node text + c * pos ≤ c * stop ∧ v.height < k) ∧ stop ≤ buf.length := by
  refine (holds_sliceFrom (Q := fun rest => rest.length = buf.length - pos) hpos
    (by simp)).bind fun rest hrest => ((hs rest).and (hb rest)).bind ?_
  rintro ⟨v, used⟩ ⟨⟨h0, hle, -⟩, hweight, hheight⟩
  simp only [if_neg h0.ne']
  refine (holds_orReject (Q := fun stop => stop = pos + used) ?_).bind ?_
  · intro stop hstop
    unfold checkedAdd at hstop
    split at hstop <;> cases hstop
    rfl
  · rintro _ rfl
    refine holds_pure ⟨⟨?_, hheight⟩, by omega⟩
    dsimp only at hweight ⊢
    rw [Nat.mul_add]
    omega

theorem Bounded.items {k : ℕ} (hs : Sound decode) (hb : Bounded node c text k decode) (n : ℕ)
    (hpos : pos ≤ buf.length) {out : List Value} (hout : ∀ v ∈ out, v.height < k) :
    Holds (decodeItems decode buf n pos out) fun (items, stop) =>
      Value.itemsWeight node text items + c * pos ≤ Value.itemsWeight node text out + c * stop ∧
        ∀ v ∈ items, v.height < k := by
  induction n generalizing pos out with
  | zero => exact holds_pure ⟨le_rfl, hout⟩
  | succ n ih =>
    refine (hb.child hs hpos).bind ?_
    rintro ⟨v, mid⟩ ⟨⟨hweight, hheight⟩, hmid⟩
    have hout' : ∀ x ∈ out ++ [v], x.height < k := by
      rw [List.forall_mem_append, List.forall_mem_singleton]
      exact ⟨hout, hheight⟩
    refine (ih hmid hout').mono ?_
    rintro ⟨items, stop⟩ ⟨hitems, hheights⟩
    refine ⟨?_, hheights⟩
    rw [Value.itemsWeight_append, Value.itemsWeight, Value.itemsWeight] at hitems
    omega

theorem Bounded.fields {k : ℕ} (hs : Sound decode) (hb : Bounded node c text k decode) (n : ℕ)
    (hpos : pos ≤ buf.length) {m : List (String × Value)} (hm : ∀ f ∈ m, f.2.height < k) :
    Holds (decodeFields decode buf n pos m) fun (fields, stop) =>
      Value.fieldsWeight node text fields + c * pos ≤ Value.fieldsWeight node text m + c * stop ∧
        ∀ f ∈ fields, f.2.height < k := by
  induction n generalizing pos m with
  | zero => exact holds_pure ⟨le_rfl, hm⟩
  | succ n ih =>
    refine (hb.child hs hpos).bind ?_
    rintro ⟨key, mid⟩ ⟨⟨hkey, -⟩, hmid⟩
    refine (hb.child hs hmid).bind ?_
    rintro ⟨v, stop⟩ ⟨⟨hweight, hheight⟩, hstop⟩
    dsimp only at hkey hweight hheight hstop ⊢
    cases hks : key.asStr with
    | none =>
      -- a key that is no text drops the pair, the bytes of which are consumed all the same
      refine (ih hstop hm).mono ?_
      rintro ⟨fields, stop'⟩ ⟨hfields, hheights⟩
      refine ⟨?_, hheights⟩
      dsimp only at hfields ⊢
      omega
    | some ks =>
      obtain rfl : key = .string ks := by
        cases key with
        | string s => rw [Option.some.inj hks]
        | _ => cases hks
      have hset := Value.fieldsWeight_insertField node text ks v m
      have hm' : ∀ f ∈ Value.insertField ks v m, f.2.height < k := by
        intro f hf
        rcases Value.mem_insertField hf with rfl | hf
        · exact hheight
        · exact hm f hf
      refine (ih hstop hm').mono ?_
      rintro ⟨fields, stop'⟩ ⟨hfields, hheights⟩
      refine ⟨?_, hheights⟩
      rw [Value.weight] at hkey
      dsimp only at hfields ⊢
      omega

/-- **A value weighs at most `c` for each byte**, where a node weighs at most `c`, and a text half
as much for each byte of it and `c` besides. By induction on the depth the decoder may descend. -/
theorem bounded_decodeGas (hnode : node ≤ c) (htext : ∀ s, 2 * text s ≤ c * (s.utf8ByteSize + 2))
    (gas : ℕ) : Bounded node c text gas (decodeGas gas) := by
  induction gas with
  | zero => exact fun buf => holds_failure
  | succ gas ih =>
    intro buf
    have hs := sound_decodeGas gas
    rw [decodeGas]
    refine (holds_orReject fun hd hh => decodeHead_pos hh).bind ?_
    rintro ⟨major, info, n, pos⟩ ⟨⟨h0, hle⟩, hib⟩
    dsimp only at h0 hle ⊢
    -- one byte pays for a node, and the bytes of a text for the text
    have hscalar : node ≤ c * pos := hnode.trans (Nat.le_mul_of_pos_right c h0)
    have hstring {s : String} {m : ℕ} (hm : s.utf8ByteSize ≤ 2 * m) : text s ≤ c * (pos + m) := by
      have hpay : c * (s.utf8ByteSize + 2) ≤ c * (2 * (pos + m)) := Nat.mul_le_mul_left c (by omega)
      have hdouble : c * (2 * (pos + m)) = 2 * (c * (pos + m)) := Nat.mul_left_comm ..
      have h := htext s
      omega
    split
    · exact holds_pure ⟨hscalar, Nat.succ_pos _⟩
    · -- a negative integer that does not fit is refused
      split
      · exact holds_failure
      · exact holds_pure ⟨hscalar, Nat.succ_pos _⟩
    · -- a byte string becomes a text of twice its length
      refine (holds_orReject fun _ hs => hs).bind ?_
      rintro ⟨b, stop⟩ hspan
      obtain ⟨rfl, -, rfl⟩ := decodeSpan_bounds hspan
      exact holds_pure ⟨hstring (Hex.utf8ByteSize_encode b).le, Nat.succ_pos _⟩
    · -- a text keeps its length
      refine (holds_orReject fun _ hs => hs).bind ?_
      rintro ⟨b, stop⟩ hspan
      obtain ⟨rfl, -, rfl⟩ := decodeSpan_bounds hspan
      refine (holds_orReject fun _ hu => hu).bind fun s hu => ?_
      have hsize : s.utf8ByteSize = b.length := by
        have hb : asBytes s = b := fromUtf8_eq_some.mp hu
        rw [← hb, length_asBytes]
      exact holds_pure ⟨hstring (by omega), Nat.succ_pos _⟩
    · -- an array: a node for itself over what its items weigh
      refine (ih.items hs n hle (List.forall_mem_nil _)).bind ?_
      rintro ⟨items, stop⟩ ⟨hweight, hheights⟩
      refine holds_pure ⟨?_, Nat.lt_succ_of_le (Value.height_array_le.mpr hheights)⟩
      show node + Value.itemsWeight node text items ≤ c * stop
      rw [Value.itemsWeight] at hweight
      omega
    · -- a map: a node for itself over what its fields weigh
      refine (ih.fields hs n hle (List.forall_mem_nil _)).bind ?_
      rintro ⟨fields, stop⟩ ⟨hweight, hheights⟩
      refine holds_pure ⟨?_, Nat.lt_succ_of_le (Value.height_object_le.mpr hheights)⟩
      show node + Value.fieldsWeight node text fields ≤ c * stop
      rw [Value.fieldsWeight] at hweight
      omega
    · split
      · exact holds_pure ⟨hscalar, Nat.succ_pos _⟩
      · split
        · exact holds_pure ⟨hscalar, Nat.succ_pos _⟩
        · exact holds_pure ⟨hscalar, Nat.succ_pos _⟩

/-- **The decoder is total, and what it returns is bounded by what it reads.** On every frame it
ends without unwinding; a value has at most as many nodes as bytes were consumed, at most twice as
many bytes of text, and no node inside more than 64 containers. -/
theorem decoder_bounded (buf : Bytes) :
    (∃ r, (decodeMessage buf).run = .ok r) ∧
      ∀ v n, Returns (decodeValue buf 0) (v, n) →
        n ≤ buf.length ∧ v.nodes ≤ n ∧ v.textBytes ≤ 2 * n ∧ v.height ≤ 64 := by
  refine ⟨⟨_, run_decodeMessage buf⟩, fun v n h => ?_⟩
  have hle := ((sound_decodeGas _ buf).of_returns h).2.1
  have hnodes : Bounded 1 1 (fun _ => 1) (maxDepth + 1) (decodeGas (maxDepth + 1)) :=
    bounded_decodeGas le_rfl (fun s => by omega) _
  have htexts : Bounded 0 2 String.utf8ByteSize (maxDepth + 1) (decodeGas (maxDepth + 1)) :=
    bounded_decodeGas (Nat.zero_le _) (fun s => by omega) _
  obtain ⟨hcount, hheight⟩ := (hnodes buf).of_returns h
  obtain ⟨hbytes, -⟩ := (htexts buf).of_returns h
  refine ⟨hle, ?_, hbytes, Nat.le_of_lt_succ hheight⟩
  rw [Nat.one_mul] at hcount
  exact hcount

end

end SporePeer
