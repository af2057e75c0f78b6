import Mathlib.Algebra.Order.BigOperators.Group.List
import SporePeer.Wire.Codec

/-!
# Round trip and totality of the codec

What the encoder writes, the decoder reads back, whatever follows it; and on every input the
decoder ends without unwinding, having consumed at least one byte and no more than there are.

## Main definitions

* `Encodes gas bs v`: the bytes `bs` decode to `v`, with anything behind them
* `Sound decode`: a decoder never unwinds, and measures what it consumes

## Main results

* `encodes_uint`, `encodes_text`, `encodes_bytes`, `encodes_array`, `encodes_map`: the encoder
* `decodeMessage_message`: a message reads back
* `sound_decodeGas`, `decodeMessage_ok`: the decoder is total
-/

namespace SporePeer

open Effects Bytes Text

/-! ## Heads -/

/-- The additional information of the head written for `n`. -/
def headInfo (n : ℕ) : ℕ :=
  if n < 24 then n
  else if n ≤ 0xff then 24
  else if n ≤ 0xffff then 25
  else if n ≤ 0xffffffff then 26
  else 27

theorem getRange_toBe (w n : ℕ) (tail : Bytes) :
    getRange (toBe w n ++ tail) 0 w = some (toBe w n) := by
  have h := getRange_append [] (toBe w n) tail
  simpa using h

theorem toNat_initial {major n : ℕ} (hm : major < 8) (hn : n < 32) :
    (UInt8.ofNat (major * 32 + n)).toNat / 32 = major ∧
      (UInt8.ofNat (major * 32 + n)).toNat % 32 = n := by
  rw [UInt8.toNat_ofNat', Nat.mod_eq_of_lt (by omega)]
  omega

/-- A head reads back; an argument of more than 64 bits is cut off. -/
theorem decodeHead_head_mod {major : ℕ} (hm : major < 8) (n : ℕ) (tail : Bytes) :
    decodeHead (Cbor.head major n ++ tail) =
      some ⟨major, headInfo n, n % 2 ^ 64, (Cbor.head major n).length⟩ := by
  have wide (info w pos : ℕ) (hi : info < 32) (hw : n % 256 ^ w = n % 2 ^ 64)
      (ha : ∀ rest, decodeArgument info rest = (getRange rest 0 w).map fun b => (ofBe b, pos)) :
      decodeHead (UInt8.ofNat (major * 32 + info) :: (toBe w n ++ tail)) =
        some ⟨major, info, n % 2 ^ 64, pos⟩ := by
    obtain ⟨hmajor, hinfo⟩ := toNat_initial hm hi
    rw [decodeHead, hmajor, hinfo, ha, getRange_toBe, Option.map_some, Option.map_some,
      ofBe_toBe_mod, hw]
  unfold Cbor.head headInfo
  split
  · obtain ⟨hmajor, hinfo⟩ := toNat_initial hm (show n < 32 by omega)
    have hmod : n % 2 ^ 64 = n := Nat.mod_eq_of_lt (by omega)
    rw [List.singleton_append, decodeHead, hmajor, hinfo, decodeArgument, if_pos (by omega), hmod]
    rfl
  · split
    · exact wide 24 1 2 (by omega) (by omega) fun _ => rfl
    · split
      · exact wide 25 2 3 (by omega) (by omega) fun _ => rfl
      · split
        · exact wide 26 4 5 (by omega) (by omega) fun _ => rfl
        · exact wide 27 8 9 (by omega) (by omega) fun _ => rfl

theorem decodeHead_head {major n : ℕ} (hm : major < 8) (hn : n < 2 ^ 64) (tail : Bytes) :
    decodeHead (Cbor.head major n ++ tail) =
      some ⟨major, headInfo n, n, (Cbor.head major n).length⟩ := by
  have h := decodeHead_head_mod hm n tail
  rwa [Nat.mod_eq_of_lt hn] at h

theorem length_head_pos (major n : ℕ) : 0 < (Cbor.head major n).length := by
  unfold Cbor.head
  repeat' split
  all_goals simp

theorem length_head_le (major n : ℕ) : (Cbor.head major n).length ≤ 9 := by
  unfold Cbor.head
  repeat' split
  all_goals simp

/-! ## Items -/

/-- The bytes `bs` decode to `v`, all of them and nothing that follows. -/
def Encodes (gas : ℕ) (bs : Bytes) (v : Value) : Prop :=
  0 < bs.length ∧ ∀ tail, decodeGas gas (bs ++ tail) = pure (v, bs.length)

theorem encodes_uint {gas : ℕ} (n : ℕ) : Encodes (gas + 1) (Cbor.uint n) (.uint n) := by
  refine ⟨length_head_pos 0 n, fun tail => ?_⟩
  have hv : Value.uint (n % 2 ^ 64) = Value.uint n := by
    rw [Value.uint, Value.uint, UInt64.ofNat_mod_size]
  rw [Cbor.uint, decodeGas, decodeHead_head_mod (by omega), orReject_some_bind]
  exact congrArg (fun v => pure (v, _)) hv

theorem decodeSpan_append (pre b tail : Bytes) (h : pre.length + b.length < 2 ^ 64) :
    decodeSpan (pre ++ b ++ tail) pre.length b.length = some (b, pre.length + b.length) := by
  rw [decodeSpan, checkedAdd, if_pos h, List.append_assoc]
  simp only [Option.bind_eq_bind, Option.bind_some, getRange_append]
  rfl

theorem encodes_bytes {gas : ℕ} {b : Bytes} (hb : b.length + 9 < 2 ^ 64) :
    Encodes (gas + 1) (Cbor.bytes b) (.string (Hex.encode b)) := by
  have hl := length_head_le 2 b.length
  have hp := length_head_pos 2 b.length
  refine ⟨by simp only [Cbor.bytes, List.length_append]; omega, fun tail => ?_⟩
  have hs := decodeSpan_append (Cbor.head 2 b.length) b tail (by omega)
  rw [Cbor.bytes, decodeGas, List.append_assoc, decodeHead_head (by omega) (by omega),
    ← List.append_assoc, List.length_append]
  simp only [orReject_some_bind, hs]

theorem encodes_text {gas : ℕ} {s : String} (hs : s.utf8ByteSize + 9 < 2 ^ 64) :
    Encodes (gas + 1) (Cbor.text s) (.string s) := by
  have hl := length_head_le 3 s.utf8ByteSize
  have hp := length_head_pos 3 s.utf8ByteSize
  refine ⟨by simp only [Cbor.text, List.length_append]; omega, fun tail => ?_⟩
  have hd := decodeSpan_append (Cbor.head 3 s.utf8ByteSize) (asBytes s) tail
    (by rw [length_asBytes]; omega)
  rw [length_asBytes] at hd
  rw [Cbor.text, decodeGas, List.append_assoc, decodeHead_head (by omega) (by omega),
    ← List.append_assoc, List.length_append, length_asBytes]
  simp only [orReject_some_bind, hd, fromUtf8_asBytes]

section Children

variable {gas : ℕ}

theorem decodeChild_append (pre tail : Bytes) {bs : Bytes} {v : Value} (h : Encodes gas bs v)
    (hlen : pre.length + bs.length < 2 ^ 64) :
    decodeChild (decodeGas gas) (pre ++ bs ++ tail) pre.length =
      pure (v, (pre ++ bs).length) := by
  rw [decodeChild, List.append_assoc, sliceFrom_ok (by simp), List.drop_left, lift_ok_bind, h.2,
    pure_bind, List.length_append]
  simp only [if_neg h.1.ne', checkedAdd, if_pos hlen, orReject_some_bind]

/-- Items one after another decode to their values. -/
theorem decodeItems_append {items : List (Bytes × Value)} (h : ∀ x ∈ items, Encodes gas x.1 x.2)
    (pre tail : Bytes) (out : List Value)
    (hlen : (pre ++ items.flatMap Prod.fst).length < 2 ^ 64) :
    decodeItems (decodeGas gas) (pre ++ items.flatMap Prod.fst ++ tail) items.length pre.length out =
      pure (out ++ items.map Prod.snd, (pre ++ items.flatMap Prod.fst).length) := by
  induction items generalizing pre out with
  | nil => simp [decodeItems]
  | cons x items ih =>
    simp only [List.flatMap_cons, List.length_append] at hlen
    have ih' := ih (fun y hy => h y (List.mem_cons_of_mem _ hy)) (pre ++ x.1) (out ++ [x.2])
      (by simp only [List.length_append]; omega)
    simp only [List.append_assoc] at ih'
    have hc := decodeChild_append pre (items.flatMap Prod.fst ++ tail)
      (h x List.mem_cons_self) (by omega)
    simp only [List.append_assoc] at hc
    simp only [List.length_cons, List.flatMap_cons, List.append_assoc, decodeItems, hc, pure_bind,
      ih', List.map_cons, List.singleton_append]

/-- The fields that key-value pairs set, one after another. -/
def insertFields (m : List (String × Value)) (fields : List (String × Bytes × Value)) :
    List (String × Value) :=
  fields.foldl (fun m f => Value.insertField f.1 f.2.2 m) m

/-- The bytes of key-value pairs, one after another. -/
def encodeFields (fields : List (String × Bytes × Value)) : Bytes :=
  fields.flatMap fun f => Cbor.kv f.1 f.2.1

/-- Pairs one after another decode to their fields. -/
theorem decodeFields_append {fields : List (String × Bytes × Value)}
    (h : ∀ f ∈ fields, f.1.utf8ByteSize + 9 < 2 ^ 64 ∧ Encodes (gas + 1) f.2.1 f.2.2)
    (pre tail : Bytes) (m : List (String × Value))
    (hlen : (pre ++ encodeFields fields).length < 2 ^ 64) :
    decodeFields (decodeGas (gas + 1)) (pre ++ encodeFields fields ++ tail) fields.length pre.length m
      = pure (insertFields m fields, (pre ++ encodeFields fields).length) := by
  induction fields generalizing pre m with
  | nil => simp [decodeFields, encodeFields, insertFields]
  | cons f fields ih =>
    simp only [encodeFields, List.flatMap_cons, Cbor.kv, List.length_append] at hlen
    obtain ⟨hk, hv⟩ := h f List.mem_cons_self
    have ih' := ih (fun y hy => h y (List.mem_cons_of_mem _ hy))
      (pre ++ (Cbor.text f.1 ++ f.2.1)) (Value.insertField f.1 f.2.2 m)
      (by simp only [List.length_append, encodeFields, Cbor.kv]; omega)
    have htext : Encodes (gas + 1) (Cbor.text f.1) (.string f.1) := encodes_text hk
    have hck := decodeChild_append pre (f.2.1 ++ (encodeFields fields ++ tail)) htext (by omega)
    have hcv := decodeChild_append (pre ++ Cbor.text f.1) (encodeFields fields ++ tail) hv
      (by simp only [List.length_append]; omega)
    simp only [encodeFields, Cbor.kv, List.append_assoc] at ih' hck hcv
    simp only [List.length_cons, encodeFields, Cbor.kv, List.flatMap_cons, List.append_assoc,
      decodeFields, hck, hcv, pure_bind, Value.asStr_string, ih', insertFields, List.foldl_cons]

end Children

theorem encodes_array {gas : ℕ} {items : List (Bytes × Value)}
    (h : ∀ x ∈ items, Encodes gas x.1 x.2)
    (hlen : (Cbor.array items.length ++ items.flatMap Prod.fst).length < 2 ^ 64)
    (hn : items.length < 2 ^ 64) :
    Encodes (gas + 1) (Cbor.array items.length ++ items.flatMap Prod.fst)
      (.array (items.map Prod.snd)) := by
  refine ⟨by have := length_head_pos 4 items.length; simp only [Cbor.array, List.length_append]; omega,
    fun tail => ?_⟩
  have hi := decodeItems_append h (Cbor.array items.length) tail [] hlen
  rw [decodeGas, List.append_assoc, Cbor.array, decodeHead_head (by omega) hn, ← List.append_assoc]
  simp only [Cbor.array, List.nil_append] at hi ⊢
  simp only [orReject_some_bind, hi, pure_bind]

theorem encodes_map {gas : ℕ} (fields : List (String × Bytes × Value))
    (h : ∀ f ∈ fields, f.1.utf8ByteSize + 9 < 2 ^ 64 ∧ Encodes (gas + 1) f.2.1 f.2.2)
    (hlen : (Cbor.map fields.length ++ encodeFields fields).length < 2 ^ 64)
    (hn : fields.length < 2 ^ 64) :
    Encodes (gas + 2) (Cbor.map fields.length ++ encodeFields fields)
      (.object (insertFields [] fields)) := by
  refine ⟨by have := length_head_pos 5 fields.length; simp only [Cbor.map, List.length_append]; omega,
    fun tail => ?_⟩
  have hi := decodeFields_append h (Cbor.map fields.length) tail [] hlen
  rw [decodeGas, List.append_assoc, Cbor.map, decodeHead_head (by omega) hn, ← List.append_assoc]
  simp only [Cbor.map] at hi ⊢
  simp only [orReject_some_bind, hi, pure_bind]

/-! ## Messages -/

/-- The bytes of an optional payload item: none for a message without payload. -/
def EncodesPayload (body : Bytes) (v : Value) : Prop :=
  body = [] ∧ v = .null ∨ Encodes (maxDepth + 1) body v

theorem encodes_header {method err : String} (seq : ℕ)
    (hlen : method.utf8ByteSize + err.utf8ByteSize + 100 < 2 ^ 64) :
    Encodes (maxDepth + 1) (Cbor.header method seq err)
      (.object (insertFields [] [("M", Cbor.text method, .string method),
        ("S", Cbor.uint seq, .uint seq), ("E", Cbor.text err, .string err)])) := by
  have hm := length_head_le 3 method.utf8ByteSize
  have he := length_head_le 3 err.utf8ByteSize
  have hs := length_head_le 0 seq
  have hkey (k : String) (hk : k.utf8ByteSize = 1) : (Cbor.text k).length ≤ 10 := by
    have := length_head_le 3 k.utf8ByteSize
    simp only [Cbor.text, List.length_append, length_asBytes]
    omega
  -- each of the three keys is one letter
  have hM := hkey "M" rfl
  have hS := hkey "S" rfl
  have hE := hkey "E" rfl
  have h3 := length_head_le 5 3
  have h : Encodes (63 + 2) _ _ := encodes_map [("M", Cbor.text method, .string method),
    ("S", Cbor.uint seq, .uint seq), ("E", Cbor.text err, .string err)]
    (by
      simp only [List.forall_mem_cons, List.not_mem_nil, false_implies, implies_true, and_true]
      exact ⟨⟨by decide, encodes_text (by omega)⟩, ⟨by decide, encodes_uint seq⟩,
        by decide, encodes_text (by omega)⟩)
    (by
      simp only [encodeFields, List.flatMap_cons, List.flatMap_nil, List.length_append, Cbor.kv,
        Cbor.map, Cbor.uint, List.length_cons, List.length_nil, zero_add, Nat.reduceAdd]
      simp only [Cbor.text, List.length_append, length_asBytes] at hM hS hE ⊢
      omega)
    (by simp)
  simpa only [Cbor.header, encodeFields, List.flatMap_cons, List.flatMap_nil, List.append_nil,
    List.append_assoc, List.length_cons, List.length_nil, maxDepth, zero_add, Nat.reduceAdd] using h

/-- A message reads back: its method, its sequence number, its error text and its payload. -/
theorem decodeMessage_message {method err : String} {seq : UInt64} {body : Bytes} {v : Value}
    (hlen : method.utf8ByteSize + err.utf8ByteSize + 100 < 2 ^ 64) (hb : EncodesPayload body v) :
    decodeMessage (Cbor.message method seq.toNat err body) =
      pure { method := method, seq := seq, error := err, payload := v } := by
  have hh := encodes_header seq.toNat hlen
  have hp : decodePayload (Cbor.header method seq.toNat err ++ body)
      (Cbor.header method seq.toNat err).length = pure v := by
    rcases hb with ⟨rfl, rfl⟩ | ⟨hpos, hd⟩
    · rw [decodePayload, if_neg (by simp)]
    · have hd' : decodeValue body 0 = pure (v, body.length) := by
        have := hd []
        rwa [List.append_nil] at this
      rw [decodePayload, if_pos (by simpa using hpos), sliceFrom_ok (by simp), List.drop_left,
        lift_ok_bind, hd', pure_bind]
      simp only [if_neg hpos.ne']
  have hv : decodeValue (Cbor.header method seq.toNat err ++ body) 0 = _ := hh.2 body
  rw [decodeMessage, Cbor.message, hv, pure_bind]
  simp only [Value.asObject_object, orReject_some_bind, hp, pure_bind, insertFields,
    List.foldl_cons, List.foldl_nil, Value.field_insertField, Value.field]
  simp [Value.asU64_uint]

/-! ## Payloads -/

theorem length_flatMap_le {α : Type} {items : List α} {f : α → Bytes} {bound : ℕ}
    (h : ∀ x ∈ items, (f x).length ≤ bound) :
    (items.flatMap f).length ≤ items.length * bound := by
  rw [List.length_flatMap]
  refine (List.sum_le_card_nsmul _ bound fun n hn => ?_).trans (by simp)
  obtain ⟨x, hx, rfl⟩ := List.mem_map.mp hn
  exact h x hx

theorem length_uint_le (n : ℕ) : (Cbor.uint n).length ≤ 9 := length_head_le 0 n

theorem length_text_le (s : String) : (Cbor.text s).length ≤ s.utf8ByteSize + 9 := by
  have := length_head_le 3 s.utf8ByteSize
  simp only [Cbor.text, List.length_append, length_asBytes]
  omega

theorem length_hash32_le (h : U8Array 32) : (Cbor.hash32 h).length ≤ 41 := by
  have := length_head_le 2 h.toList.length
  simp only [Cbor.hash32, Cbor.bytes, List.length_append, List.Vector.toList_length] at this ⊢
  omega

theorem encodes_hash32 {gas : ℕ} (h : U8Array 32) :
    Encodes (gas + 1) (Cbor.hash32 h) (.string (Hex.encode h.toList)) :=
  encodes_bytes (by rw [List.Vector.toList_length]; omega)

/-- The object that a map of key-value pairs decodes to. -/
def fieldsObject (fields : List (String × Bytes × Value)) : Value :=
  .object (insertFields [] fields)

theorem get_fieldsObject (fields : List (String × Bytes × Value)) (k : String) :
    (fieldsObject fields).get k = Value.field k (insertFields [] fields) := rfl

/-- A map with short keys and short values reads back. -/
theorem encodesPayload_map {body : Bytes} (fields : List (String × Bytes × Value)) (bound : ℕ)
    (hbody : body = Cbor.map fields.length ++ encodeFields fields)
    (h : ∀ f ∈ fields, f.1.utf8ByteSize ≤ 20 ∧ f.2.1.length ≤ bound ∧
      Encodes (63 + 1) f.2.1 f.2.2) (hn : fields.length ≤ 100) (hb : bound < 2 ^ 32) :
    EncodesPayload body (fieldsObject fields) := by
  subst hbody
  have hsum : (encodeFields fields).length ≤ fields.length * (bound + 29) := by
    refine length_flatMap_le fun f hf => ?_
    obtain ⟨hk, hv, -⟩ := h f hf
    have ht := length_text_le f.1
    simp only [Cbor.kv, List.length_append]
    omega
  have hm := length_head_le 5 fields.length
  have hbound : fields.length * (bound + 29) ≤ 100 * (bound + 29) := Nat.mul_le_mul_right _ hn
  refine .inr (encodes_map fields (fun f hf => ?_) ?_ (by omega))
  · obtain ⟨hk, -, hv⟩ := h f hf
    exact ⟨by omega, hv⟩
  · rw [List.length_append, Cbor.map]
    omega

theorem encodesPayload_handshakeRequest (version : ℕ) :
    EncodesPayload (handshakeRequest version)
      (fieldsObject [("N", Cbor.uint version, .uint version)]) := by
  refine encodesPayload_map _ 9 (by simp [handshakeRequest, encodeFields]) ?_ (by simp) (by omega)
  simp only [List.forall_mem_cons, List.not_mem_nil, false_implies, implies_true, and_true]
  exact ⟨by decide, length_uint_le _, encodes_uint _⟩

theorem encodesPayload_handshakeResponse (height version : ℕ) :
    EncodesPayload (handshakeResponse height version)
      (fieldsObject [("H", Cbor.uint height, .uint height),
        ("N", Cbor.uint version, .uint version)]) := by
  refine encodesPayload_map _ 9 (by simp [handshakeResponse, encodeFields]) ?_ (by simp) (by omega)
  simp only [List.forall_mem_cons, List.not_mem_nil, false_implies, implies_true, and_true]
  exact ⟨⟨by decide, length_uint_le _, encodes_uint _⟩, by decide, length_uint_le _,
    encodes_uint _⟩

theorem encodesPayload_chainRequest (top n : ℕ) :
    EncodesPayload (chainRequest top n)
      (fieldsObject [("TOP", Cbor.uint top, .uint top), ("N", Cbor.uint n, .uint n)]) := by
  refine encodesPayload_map _ 9 (by simp [chainRequest, encodeFields]) ?_ (by simp) (by omega)
  simp only [List.forall_mem_cons, List.not_mem_nil, false_implies, implies_true, and_true]
  exact ⟨⟨by decide, length_uint_le _, encodes_uint _⟩, by decide, length_uint_le _,
    encodes_uint _⟩

theorem encodesPayload_getobjectRequest (blid : U8Array 32) :
    EncodesPayload (getobjectRequest blid)
      (fieldsObject [("BLID", Cbor.hash32 blid, .string (Hex.encode blid.toList))]) := by
  refine encodesPayload_map _ 41 (by simp [getobjectRequest, encodeFields]) ?_ (by simp) (by omega)
  simp only [List.forall_mem_cons, List.not_mem_nil, false_implies, implies_true, and_true]
  exact ⟨by decide, length_hash32_le _, encodes_hash32 _⟩

theorem encodesPayload_putobjectResponse (blid : U8Array 32) :
    EncodesPayload (putobjectResponse blid)
      (fieldsObject [("BLID", Cbor.hash32 blid, .string (Hex.encode blid.toList))]) :=
  encodesPayload_getobjectRequest blid

/-- The fields of a push: the token is left out if it is empty. -/
def putFields (blid : U8Array 32) (body : Bytes) (token : String) : List (String × Bytes × Value) :=
  [("BLID", Cbor.hash32 blid, .string (Hex.encode blid.toList)),
    ("BODY", Cbor.bytes body, .string (Hex.encode body))] ++
  if token.isEmpty then [] else [("TOKEN", Cbor.text token, .string token)]

theorem get_putFields (blid : U8Array 32) (body : Bytes) (token : String) :
    (fieldsObject (putFields blid body token)).get "BLID" = some (.string (Hex.encode blid.toList)) ∧
    (fieldsObject (putFields blid body token)).get "BODY" = some (.string (Hex.encode body)) ∧
    (fieldsObject (putFields blid body token)).get "TOKEN" =
      if token = "" then none else some (.string token) := by
  by_cases htoken : token = ""
  · subst htoken
    refine ⟨?_, ?_, ?_⟩ <;> simp [get_fieldsObject, putFields, insertFields, Value.field]
  · have hempty : ¬ token.isEmpty := by simpa using htoken
    refine ⟨?_, ?_, ?_⟩ <;> simp [get_fieldsObject, putFields, insertFields, hempty, htoken]

theorem putobjectRequest_eq (blid : U8Array 32) (body : Bytes) (token : String) :
    putobjectRequest blid body token =
      Cbor.map (putFields blid body token).length ++ encodeFields (putFields blid body token) := by
  rw [putobjectRequest, putFields, encodeFields]
  by_cases htoken : token.isEmpty
  · rw [if_pos htoken, if_pos htoken, if_pos htoken]
    simp
  · rw [if_neg htoken, if_neg htoken, if_neg htoken]
    simp

theorem encodesPayload_putobjectRequest {blid : U8Array 32} {body : Bytes} {token : String}
    (h : (putobjectRequest blid body token).length < 2 ^ 64 - 9) :
    EncodesPayload (putobjectRequest blid body token) (fieldsObject (putFields blid body token)) := by
  have hbody : body.length ≤ (putobjectRequest blid body token).length := by
    simp only [putobjectRequest, Cbor.kv, Cbor.bytes, List.length_append]
    omega
  rw [putobjectRequest_eq] at h hbody ⊢
  have hlen : (putFields blid body token).length ≤ 3 := by
    rw [putFields]
    split <;> simp
  refine .inr (encodes_map _ (fun f hf => ?_) (by omega) (by omega))
  rw [putFields, List.mem_append] at hf
  rcases hf with hf | hf
  · rcases List.mem_pair.mp hf with rfl | rfl
    · exact ⟨(by decide : "BLID".utf8ByteSize + 9 < 2 ^ 64), encodes_hash32 _⟩
    · exact ⟨(by decide : "BODY".utf8ByteSize + 9 < 2 ^ 64), encodes_bytes (by omega)⟩
  · -- the third field is the token, which is not empty
    have htoken : ¬ token.isEmpty := by
      intro he
      rw [if_pos he] at hf
      cases hf
    have hsize : token.utf8ByteSize ≤ (encodeFields (putFields blid body token)).length := by
      rw [putFields, if_neg htoken]
      simp only [encodeFields, Cbor.kv, Cbor.text, List.flatMap_append, List.flatMap_cons,
        List.flatMap_nil, List.length_append, length_asBytes]
      omega
    rw [if_neg htoken] at hf
    obtain rfl := List.mem_singleton.mp hf
    rw [List.length_append] at h
    exact ⟨(by decide : "TOKEN".utf8ByteSize + 9 < 2 ^ 64), encodes_text (by omega)⟩

theorem encodesPayload_getobjectResponse {body : Bytes} (h : body.length + 9 < 2 ^ 64) :
    EncodesPayload (getobjectResponse body) (.string (Hex.encode body)) :=
  .inr (encodes_bytes h)

/-- The value of a chain entry. -/
def chainValue (e : ℕ × U8Array 32) : Value :=
  .array [.uint e.1, .string (Hex.encode e.2.toList)]

/-- The bytes of a chain entry. -/
def chainEntryBytes (e : ℕ × U8Array 32) : Bytes :=
  Cbor.array 2 ++ Cbor.uint e.1 ++ Cbor.hash32 e.2

theorem length_chainEntryBytes_le (e : ℕ × U8Array 32) : (chainEntryBytes e).length ≤ 59 := by
  have h2 := length_head_le 4 2
  have hu := length_uint_le e.1
  have hh := length_hash32_le e.2
  simp only [chainEntryBytes, List.length_append, Cbor.array]
  omega

theorem encodes_chainEntry {gas : ℕ} (e : ℕ × U8Array 32) :
    Encodes (gas + 2) (chainEntryBytes e) (chainValue e) := by
  have hlen := length_chainEntryBytes_le e
  have hitems : ∀ x ∈ [(Cbor.uint e.1, Value.uint e.1),
      (Cbor.hash32 e.2, Value.string (Hex.encode e.2.toList))], Encodes (gas + 1) x.1 x.2 := by
    simp only [List.forall_mem_cons, List.not_mem_nil, false_implies, implies_true, and_true]
    exact ⟨encodes_uint _, encodes_hash32 _⟩
  have hbytes : chainEntryBytes e = Cbor.array 2 ++ ([(Cbor.uint e.1, Value.uint e.1),
      (Cbor.hash32 e.2, Value.string (Hex.encode e.2.toList))].flatMap Prod.fst) := by
    simp [chainEntryBytes]
  rw [hbytes] at hlen ⊢
  exact encodes_array hitems (by
    simp only [List.length_cons, List.length_nil, Nat.zero_add, Nat.reduceAdd]
    omega) (by simp)

theorem length_chainResponse_le (pairs : List (ℕ × U8Array 32)) :
    (chainResponse pairs).length ≤ 9 + pairs.length * 59 := by
  have hhead := length_head_le 4 pairs.length
  have hsum : (pairs.flatMap chainEntryBytes).length ≤ pairs.length * 59 :=
    length_flatMap_le fun e _ => length_chainEntryBytes_le e
  have hc : chainResponse pairs = Cbor.array pairs.length ++ pairs.flatMap chainEntryBytes := rfl
  rw [hc, List.length_append, Cbor.array]
  omega

theorem length_lt_chainResponse (pairs : List (ℕ × U8Array 32)) :
    pairs.length < (chainResponse pairs).length := by
  have hsum : pairs.length ≤ (pairs.flatMap chainEntryBytes).length := by
    induction pairs with
    | nil => simp
    | cons e pairs ih =>
      have he := length_head_pos 4 2
      simp only [List.flatMap_cons, List.length_append, List.length_cons, chainEntryBytes,
        Cbor.array] at ih ⊢
      omega
  have hhead := length_head_pos 4 pairs.length
  have hc : chainResponse pairs = Cbor.array pairs.length ++ pairs.flatMap chainEntryBytes := rfl
  rw [hc, List.length_append, Cbor.array]
  omega

theorem encodesPayload_chainResponse {pairs : List (ℕ × U8Array 32)}
    (h : (chainResponse pairs).length < 2 ^ 64) :
    EncodesPayload (chainResponse pairs) (.array (pairs.map chainValue)) := by
  have hcount := length_lt_chainResponse pairs
  have hc : chainResponse pairs = Cbor.array (pairs.map fun e =>
      (chainEntryBytes e, chainValue e)).length ++
        (pairs.map fun e => (chainEntryBytes e, chainValue e)).flatMap Prod.fst := by
    rw [List.length_map, List.flatMap_map]
    rfl
  have hv : pairs.map chainValue =
      (pairs.map fun e => (chainEntryBytes e, chainValue e)).map Prod.snd := by
    rw [List.map_map]
    rfl
  rw [hc] at h hcount ⊢
  rw [hv]
  refine .inr (encodes_array ?_ h (by rw [List.length_map]; omega))
  intro x hx
  obtain ⟨e, -, rfl⟩ := List.mem_map.mp hx
  exact encodes_chainEntry e

/-! ## Totality -/

/-- The decode does not unwind, and a value it returns satisfies `Q`. -/
def Holds {α : Type} (m : Decode α) (Q : α → Prop) : Prop :=
  ∃ r, m.run = .ok r ∧ ∀ a ∈ r, Q a

section Holds

variable {α β : Type} {Q R : α → Prop} {T : β → Prop}

theorem holds_pure {a : α} (h : Q a) : Holds (pure a) Q :=
  ⟨some a, rfl, by simpa using h⟩

theorem holds_failure : Holds (failure : Decode α) Q := ⟨none, rfl, by simp⟩

theorem holds_orReject {x : Option α} (h : ∀ a, x = some a → Q a) : Holds (orReject x) Q :=
  ⟨x, rfl, h⟩

theorem holds_sliceFrom {buf : Bytes} {n : ℕ} {Q : Bytes → Prop} (hn : n ≤ buf.length)
    (h : Q (buf.drop n)) : Holds (OptionT.lift (sliceFrom buf n)) Q := by
  rw [sliceFrom_ok hn]
  exact holds_pure h

theorem Holds.bind {m : Decode α} {f : α → Decode β} (hm : Holds m Q)
    (hf : ∀ a, Q a → Holds (f a) T) : Holds (m >>= f) T := by
  obtain ⟨r, hr, hQ⟩ := hm
  have hb : (m >>= f).run = m.run >>= fun o => o.elim (pure none) fun a => (f a).run := by
    rw [OptionT.run_bind]
    congr
  cases r with
  | none => exact ⟨none, by rw [hb, hr]; rfl, by simp⟩
  | some a =>
    obtain ⟨r', hr', hT⟩ := hf a (hQ a rfl)
    exact ⟨r', by rw [hb, hr]; exact hr', hT⟩

theorem Holds.mono {m : Decode α} (hm : Holds m Q) (h : ∀ a, Q a → R a) : Holds m R := by
  obtain ⟨r, hr, hQ⟩ := hm
  exact ⟨r, hr, fun a ha => h a (hQ a ha)⟩

end Holds

/-- The first byte of `buf` announces a map, if `v` is an object. -/
def AnnouncesMap (buf : Bytes) (v : Value) : Prop :=
  v.asObject.isSome → ∃ ib rest, buf = ib :: rest ∧ ib.toNat / 32 = 5

/-- A decoder that never unwinds and consumes some of its input; an object comes from a map. -/
def Sound (decode : Bytes → Decode (Value × ℕ)) : Prop :=
  ∀ buf, Holds (decode buf) fun (v, n) => 0 < n ∧ n ≤ buf.length ∧ AnnouncesMap buf v

theorem decodeArgument_pos {info : ℕ} {rest : Bytes} {n pos : ℕ}
    (h : decodeArgument info rest = some (n, pos)) : 0 < pos ∧ pos ≤ rest.length + 1 := by
  have wide (w p : ℕ) (hp : p = w + 1)
      (hw : ((getRange rest 0 w).map fun b => (ofBe b, p)) = some (n, pos)) :
      0 < pos ∧ pos ≤ rest.length + 1 := by
    obtain ⟨b, hb, he⟩ := Option.map_eq_some_iff.mp hw
    obtain ⟨_, rfl⟩ := Prod.mk.inj he
    have := length_of_getRange hb
    omega
  unfold decodeArgument at h
  repeat' split at h
  · obtain ⟨_, rfl⟩ := Prod.mk.inj (Option.some.inj h)
    omega
  · exact wide 1 2 rfl h
  · exact wide 2 3 rfl h
  · exact wide 4 5 rfl h
  · exact wide 8 9 rfl h
  · cases h

theorem decodeHead_pos {buf : Bytes} {hd : Head} (h : decodeHead buf = some hd) :
    (0 < hd.pos ∧ hd.pos ≤ buf.length) ∧
      ∃ ib rest, buf = ib :: rest ∧ ib.toNat / 32 = hd.major := by
  cases buf with
  | nil => cases h
  | cons ib rest =>
    obtain ⟨⟨n, pos⟩, ha, rfl⟩ := Option.map_eq_some_iff.mp h
    exact ⟨decodeArgument_pos ha, ib, rest, rfl, rfl⟩

theorem decodeSpan_bounds {buf b : Bytes} {pos n stop : ℕ}
    (h : decodeSpan buf pos n = some (b, stop)) :
    stop = pos + n ∧ stop ≤ buf.length ∧ b.length = n := by
  simp only [decodeSpan, Option.bind_eq_bind, Option.bind_eq_some_iff, Option.pure_def,
    Option.some.injEq, Prod.mk.injEq] at h
  obtain ⟨stop', hs, b', hb, rfl, rfl⟩ := h
  unfold checkedAdd at hs
  split at hs
  · cases hs
    have := length_of_getRange hb
    omega
  · cases hs

section Children

variable {decode : Bytes → Decode (Value × ℕ)} {buf : Bytes}

theorem Sound.decodeChild (hd : Sound decode) {pos : ℕ} (hpos : pos ≤ buf.length) :
    Holds (decodeChild decode buf pos) fun (_, stop) => pos < stop ∧ stop ≤ buf.length := by
  refine (holds_sliceFrom (Q := fun rest => rest.length = buf.length - pos) hpos
    (by simp)).bind fun rest hrest => (hd rest).bind ?_
  rintro ⟨v, used⟩ ⟨h0, hle, -⟩
  simp only [if_neg h0.ne']
  refine (holds_orReject (Q := fun stop => stop = pos + used) ?_).bind ?_
  · intro stop hs
    unfold checkedAdd at hs
    split at hs <;> cases hs
    rfl
  · rintro _ rfl
    exact holds_pure ⟨by omega, by omega⟩

theorem Sound.decodeItems (hd : Sound decode) (n : ℕ) {pos : ℕ} (hpos : pos ≤ buf.length)
    (out : List Value) :
    Holds (decodeItems decode buf n pos out) fun (_, stop) => pos ≤ stop ∧ stop ≤ buf.length := by
  induction n generalizing pos out with
  | zero => exact holds_pure ⟨le_rfl, hpos⟩
  | succ n ih =>
    refine (hd.decodeChild hpos).bind ?_
    rintro ⟨v, stop⟩ ⟨hlt, hle⟩
    exact (ih hle _).mono fun _ h => ⟨hlt.le.trans h.1, h.2⟩

theorem Sound.decodeFields (hd : Sound decode) (n : ℕ) {pos : ℕ} (hpos : pos ≤ buf.length)
    (m : List (String × Value)) :
    Holds (decodeFields decode buf n pos m) fun (_, stop) => pos ≤ stop ∧ stop ≤ buf.length := by
  induction n generalizing pos m with
  | zero => exact holds_pure ⟨le_rfl, hpos⟩
  | succ n ih =>
    refine (hd.decodeChild hpos).bind ?_
    rintro ⟨k, mid⟩ ⟨hlt, hle⟩
    refine (hd.decodeChild hle).bind ?_
    rintro ⟨v, stop⟩ ⟨hlt', hle'⟩
    exact (ih hle' _).mono fun _ h => ⟨by omega, h.2⟩

end Children

/-- The decoder never unwinds, and measures what it consumes. -/
theorem sound_decodeGas (gas : ℕ) : Sound (decodeGas gas) := by
  induction gas with
  | zero => exact fun buf => holds_failure
  | succ gas ih =>
    intro buf
    rw [decodeGas]
    refine (holds_orReject fun hd hh => decodeHead_pos hh).bind ?_
    rintro ⟨major, info, n, pos⟩ ⟨⟨h0, hle⟩, hib⟩
    dsimp only at h0 hle hib ⊢
    -- only a map yields an object, so that every other kind announces vacuously
    split
    · exact holds_pure ⟨h0, hle, nofun⟩
    · split
      · exact holds_failure
      · exact holds_pure ⟨h0, hle, nofun⟩
    · refine (holds_orReject fun _ hs => hs).bind ?_
      rintro ⟨b, stop⟩ hs
      obtain ⟨rfl, hstop, -⟩ := decodeSpan_bounds hs
      exact holds_pure ⟨by omega, hstop, nofun⟩
    · refine (holds_orReject fun _ hs => hs).bind ?_
      rintro ⟨b, stop⟩ hs
      obtain ⟨rfl, hstop, -⟩ := decodeSpan_bounds hs
      refine (holds_orReject fun _ hu => hu).bind fun s hu => ?_
      exact holds_pure ⟨by omega, hstop, nofun⟩
    · refine (ih.decodeItems n hle []).bind ?_
      rintro ⟨items, stop⟩ ⟨hlt, hstop⟩
      exact holds_pure ⟨by omega, hstop, nofun⟩
    · refine (ih.decodeFields n hle []).bind ?_
      rintro ⟨fields, stop⟩ ⟨hlt, hstop⟩
      exact holds_pure ⟨by omega, hstop, fun _ => hib⟩
    · split
      · exact holds_pure ⟨h0, hle, nofun⟩
      · split <;> exact holds_pure ⟨h0, hle, nofun⟩

/-- The decoder of messages never unwinds, and accepts only frames that start with a map. -/
theorem decodeMessage_ok (buf : Bytes) :
    Holds (decodeMessage buf) fun _ => ∃ ib rest, buf = ib :: rest ∧ ib.toNat / 32 = 5 := by
  refine (sound_decodeGas _ buf).bind ?_
  rintro ⟨headV, used⟩ ⟨h0, hle, hmap⟩
  refine (holds_orReject fun _ ho => ho).bind fun obj ho => ?_
  have hpay : Holds (decodePayload buf used) fun _ => True := by
    unfold decodePayload
    split
    · refine (holds_sliceFrom (Q := fun _ => True) hle trivial).bind fun rest _ => ?_
      refine (sound_decodeGas _ rest).bind ?_
      rintro ⟨v, used2⟩ ⟨h2, -, -⟩
      simp only [if_neg h2.ne']
      exact holds_pure trivial
    · exact holds_pure trivial
  exact hpay.bind fun payload _ => holds_pure (hmap (ho ▸ rfl))

/-- The message of a frame. -/
def decoded (buf : Bytes) : Option Rpc2Message := (decodeMessage buf).run.toOption.join

theorem run_decodeMessage (buf : Bytes) : (decodeMessage buf).run = .ok (decoded buf) := by
  obtain ⟨r, hr, -⟩ := decodeMessage_ok buf
  rw [decoded, hr]
  rfl

/-- A message starts with the head of a map. -/
theorem map_of_decoded {buf : Bytes} {msg : Rpc2Message} (h : decoded buf = some msg) :
    ∃ ib rest, buf = ib :: rest ∧ ib.toNat / 32 = 5 := by
  obtain ⟨r, hr, hQ⟩ := decodeMessage_ok buf
  have hd := run_decodeMessage buf
  rw [hr, Except.ok.injEq] at hd
  exact hQ msg (hd ▸ h)

theorem decoded_message {method err : String} {seq : UInt64} {body : Bytes} {v : Value}
    (hlen : method.utf8ByteSize + err.utf8ByteSize + 100 < 2 ^ 64) (hb : EncodesPayload body v) :
    decoded (Cbor.message method seq.toNat err body) =
      some { method := method, seq := seq, error := err, payload := v } := by
  rw [decoded, decodeMessage_message hlen hb]
  rfl

end SporePeer
