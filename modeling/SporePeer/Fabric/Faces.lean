import SporePeer.Fabric.Runs
import SporePeer.Wire.Size

/-!
# The two faces of a verb

The verbs answer in JSON and in CBOR. The payload of an answer is one value, and the CBOR face
encodes it for the decoder of the client. Booleans do not survive: `true` is written as the simple
value 20, which reads as `false`, and `false` as 19, which reads as null. Everything else does.

## Main definitions

* `Value.Plain`: the values of objects, arrays, texts, natural numbers, booleans and null
* `Value.hasBool`, `Value.misread`: the booleans in a value, and the value that is read back

## Main results

* `encodes_jsonToCbor`: what is read back
* `faces_agree_iff`: when it is what was written
-/

namespace SporePeer

open Effects Text

namespace Value

/-- Values without negative numbers and floats, whose objects keep their keys in order. -/
inductive Plain : Value → Prop
  | null : Plain .null
  | bool (b : Bool) : Plain (.bool b)
  | number (n : UInt64) : Plain (.number (.posInt n))
  | string (s : String) : Plain (.string s)
  | array {items : List Value} (h : ∀ v ∈ items, Plain v) : Plain (.array items)
  | object {fields : List (String × Value)} (hkeys : (fields.map Prod.fst).Pairwise (· < ·))
      (h : ∀ f ∈ fields, Plain f.2) : Plain (.object fields)

mutual

/-- Whether a value contains a boolean. -/
def hasBool : Value → Bool
  | .bool _ => true
  | .array items => itemsHaveBool items
  | .object fields => fieldsHaveBool fields
  | _ => false

def itemsHaveBool : List Value → Bool
  | [] => false
  | v :: rest => hasBool v || itemsHaveBool rest

def fieldsHaveBool : List (String × Value) → Bool
  | [] => false
  | (_, v) :: rest => hasBool v || fieldsHaveBool rest

end

mutual

/-- What is read back for a value. -/
def misread : Value → Value
  | .bool true => .bool false
  | .bool false => .null
  | .array items => .array (misreadItems items)
  | .object fields => .object (misreadFields fields)
  | v => v

def misreadItems : List Value → List Value
  | [] => []
  | v :: rest => misread v :: misreadItems rest

def misreadFields : List (String × Value) → List (String × Value)
  | [] => []
  | (k, v) :: rest => (k, misread v) :: misreadFields rest

end

section

variable {items : List Value} {fields : List (String × Value)} {n : ℕ}

theorem hasBool_array : (Value.array items).hasBool = false ↔ ∀ v ∈ items, v.hasBool = false := by
  rw [hasBool]
  induction items with
  | nil => simp [itemsHaveBool]
  | cons v rest ih => rw [itemsHaveBool, Bool.or_eq_false_iff, ih, List.forall_mem_cons]

theorem hasBool_object :
    (Value.object fields).hasBool = false ↔ ∀ f ∈ fields, f.2.hasBool = false := by
  rw [hasBool]
  induction fields with
  | nil => simp [fieldsHaveBool]
  | cons f rest ih => rw [fieldsHaveBool, Bool.or_eq_false_iff, ih, List.forall_mem_cons]

theorem misread_array : (Value.array items).misread = .array (items.map misread) := by
  have h (items : List Value) : misreadItems items = items.map misread := by
    induction items with
    | nil => rfl
    | cons v rest ih => rw [misreadItems, ih, List.map_cons]
  rw [misread, h]

theorem misread_object :
    (Value.object fields).misread = .object (fields.map fun f => (f.1, f.2.misread)) := by
  have h (fields : List (String × Value)) :
      misreadFields fields = fields.map fun f => (f.1, f.2.misread) := by
    induction fields with
    | nil => rfl
    | cons f rest ih => rw [misreadFields, ih, List.map_cons]
  rw [misread, h]

end

theorem map_eq_self_iff {α : Type} {f : α → α} {l : List α} :
    l.map f = l ↔ ∀ x ∈ l, f x = x := by
  induction l with
  | nil => simp
  | cons x l ih => rw [List.map_cons, List.cons.injEq, ih, List.forall_mem_cons]

/-- A value is read back as it is exactly if it contains no boolean. -/
theorem Plain.misread_eq_iff {v : Value} (h : v.Plain) : v.misread = v ↔ v.hasBool = false := by
  induction h with
  | null => exact iff_of_true rfl rfl
  | bool b => cases b <;> exact iff_of_false nofun nofun
  | number n => exact iff_of_true rfl rfl
  | string s => exact iff_of_true rfl rfl
  | array _ ih =>
    rw [misread_array, array.injEq, map_eq_self_iff, hasBool_array]
    exact forall₂_congr ih
  | object _ _ ih =>
    rw [misread_object, object.injEq, map_eq_self_iff, hasBool_object]
    refine forall₂_congr fun f hf => ?_
    rw [← ih f hf, Prod.ext_iff, and_iff_right rfl]

end Value

/-! ## Encodings -/

section

variable {items : List Value} {fields : List (String × Value)} {v : Value} {gas : ℕ}

theorem itemsToCbor_eq (items : List Value) : itemsToCbor items = items.flatMap jsonToCbor := by
  induction items with
  | nil => rfl
  | cons v rest ih => rw [itemsToCbor, ih, List.flatMap_cons]

theorem fieldsToCbor_eq (fields : List (String × Value)) :
    fieldsToCbor fields = fields.flatMap fun f => Cbor.kv f.1 (jsonToCbor f.2) := by
  induction fields with
  | nil => rfl
  | cons f rest ih => rw [fieldsToCbor, ih, List.flatMap_cons]

theorem length_jsonToCbor_pos (v : Value) : 0 < (jsonToCbor v).length := by
  have hpos := length_head_pos
  cases v with
  | null => exact hpos 7 22
  | bool b =>
    rw [jsonToCbor]
    split
    · exact hpos 7 20
    · exact hpos 7 19
  | number n => exact hpos 0 _
  | string s =>
    rw [jsonToCbor, Cbor.text, List.length_append]
    exact Nat.add_pos_left (hpos 3 _) _
  | array items =>
    rw [jsonToCbor, Cbor.array, List.length_append]
    exact Nat.add_pos_left (hpos 4 _) _
  | object fields =>
    rw [jsonToCbor, Cbor.map, List.length_append]
    exact Nat.add_pos_left (hpos 5 _) _

theorem length_le_flatMap {α : Type} {l : List α} (f : α → Bytes) {x : α} (hx : x ∈ l) :
    (f x).length ≤ (l.flatMap f).length := by
  rw [List.length_flatMap]
  exact List.single_le_sum (fun _ _ => Nat.zero_le _) _ (List.mem_map_of_mem hx)

theorem card_le_flatMap {α : Type} {l : List α} {f : α → Bytes} (h : ∀ x ∈ l, 0 < (f x).length) :
    l.length ≤ (l.flatMap f).length := by
  induction l with
  | nil => exact Nat.zero_le _
  | cons x l ih =>
    rw [List.forall_mem_cons] at h
    rw [List.flatMap_cons, List.length_append, List.length_cons]
    have := ih h.2
    omega

/-- Fields in the order of their keys are set one behind the other. -/
theorem insertField_last {k : String} (h : ∀ f ∈ fields, f.1 < k) :
    Value.insertField k v fields = fields ++ [(k, v)] := by
  induction fields with
  | nil => rfl
  | cons f rest ih =>
    rw [List.forall_mem_cons] at h
    have hne : k ≠ f.1 := fun he => String.lt_irrefl k (he ▸ h.1)
    rw [Value.insertField, if_neg (String.lt_asymm h.1), if_neg hne, ih h.2, List.cons_append]

theorem insertFields_sorted {pairs : List (String × Bytes × Value)} {m : List (String × Value)}
    (h : ((m.map Prod.fst) ++ pairs.map Prod.fst).Pairwise (· < ·)) :
    insertFields m pairs = m ++ pairs.map fun f => (f.1, f.2.2) := by
  induction pairs generalizing m with
  | nil => exact (List.append_nil m).symm
  | cons f rest ih =>
    have hlast : ∀ g ∈ m, g.1 < f.1 := by
      intro g hg
      refine (List.pairwise_append.mp h).2.2 _ (List.mem_map_of_mem hg) _ ?_
      exact List.mem_cons_self
    have hrest : (((m ++ [(f.1, f.2.2)]).map Prod.fst) ++ rest.map Prod.fst).Pairwise (· < ·) := by
      rw [List.map_append, List.append_assoc]
      exact h
    show insertFields (Value.insertField f.1 f.2.2 m) rest = _
    rw [insertField_last hlast, ih hrest, List.append_assoc]
    rfl

/-- The empty object needs no room below it. -/
theorem encodes_map_nil (gas : ℕ) : Encodes (gas + 1) (Cbor.map 0) (.object []) := by
  refine ⟨length_head_pos 5 0, fun tail => ?_⟩
  rw [decodeGas, Cbor.map, decodeHead_head (by omega) (by omega), orReject_some_bind]
  rfl

theorem encodes_null (gas : ℕ) : Encodes (gas + 1) (jsonToCbor .null) .null := by
  refine ⟨length_head_pos 7 22, fun tail => ?_⟩
  rw [jsonToCbor, decodeGas, decodeHead_head (by omega) (by omega), orReject_some_bind]
  rfl

/-- A boolean is not read back as it was. -/
theorem encodes_bool (gas : ℕ) (b : Bool) :
    Encodes (gas + 1) (jsonToCbor (.bool b)) (Value.misread (.bool b)) := by
  refine ⟨length_jsonToCbor_pos _, fun tail => ?_⟩
  cases b with
  | true =>
    show decodeGas (gas + 1) (Cbor.head 7 20 ++ tail) = _
    rw [decodeGas, decodeHead_head (by omega) (by omega), orReject_some_bind]
    rfl
  | false =>
    show decodeGas (gas + 1) (Cbor.head 7 19 ++ tail) = _
    rw [decodeGas, decodeHead_head (by omega) (by omega), orReject_some_bind]
    rfl

/-- **What is read back for an encoded value.** By induction on the value. -/
theorem encodes_jsonToCbor (h : v.Plain) (hgas : v.height ≤ gas)
    (hlen : (jsonToCbor v).length + 9 < 2 ^ 64) : Encodes (gas + 1) (jsonToCbor v) v.misread := by
  induction h generalizing gas with
  | null => exact encodes_null gas
  | bool b => exact encodes_bool gas b
  | number n =>
    have hnum : Value.number (.posInt n) = .uint n.toNat := by rw [Value.uint, UInt64.ofNat_toNat]
    show Encodes (gas + 1) (Cbor.uint n.toNat) (.number (.posInt n))
    rw [hnum]
    exact encodes_uint n.toNat
  | string s =>
    have hsize : s.utf8ByteSize ≤ (jsonToCbor (.string s)).length := by
      rw [jsonToCbor, Cbor.text, List.length_append, length_asBytes]
      exact Nat.le_add_left _ _
    exact encodes_text (by omega)
  | @array items hplain ih =>
    -- an item is shorter than the array, and less high by one
    rw [Value.height_array_le] at hgas
    rw [jsonToCbor, itemsToCbor_eq] at hlen ⊢
    rw [List.length_append] at hlen
    have hcount := card_le_flatMap fun v (_ : v ∈ items) => length_jsonToCbor_pos v
    have hitems := @encodes_array gas (items.map fun v => (jsonToCbor v, v.misread)) (fun x hx => ?_)
      ?_ ?_
    · rw [Value.misread_array]
      rwa [List.length_map, List.flatMap_map, List.map_map] at hitems
    · obtain ⟨v, hv, rfl⟩ := List.mem_map.mp hx
      have hle := length_le_flatMap jsonToCbor hv
      have hroom := hgas v hv
      obtain ⟨gas, rfl⟩ : ∃ g, gas = g + 1 := ⟨gas - 1, by omega⟩
      exact ih v hv (Nat.le_of_succ_le_succ hroom) (by omega)
    · rw [List.length_map, List.flatMap_map, List.length_append]
      show (Cbor.array items.length).length + (items.flatMap jsonToCbor).length < 2 ^ 64
      omega
    · rw [List.length_map]
      omega
  | @object fields hkeys hplain ih =>
    rw [Value.height_object_le] at hgas
    rw [Value.misread_object]
    rcases fields with _ | ⟨f₀, rest⟩
    · exact encodes_map_nil gas
    -- a field sits inside the object
    have hroom₀ := hgas f₀ List.mem_cons_self
    obtain ⟨gas, rfl⟩ : ∃ g, gas = g + 1 := ⟨gas - 1, by omega⟩
    generalize f₀ :: rest = fields at *
    rw [jsonToCbor, fieldsToCbor_eq] at hlen ⊢
    rw [List.length_append] at hlen
    let pairs := fields.map fun f => (f.1, jsonToCbor f.2, f.2.misread)
    have hbytes : encodeFields pairs = fields.flatMap fun f => Cbor.kv f.1 (jsonToCbor f.2) :=
      List.flatMap_map ..
    have hkeysPairs : ((([] : List (String × Value)).map Prod.fst) ++
        pairs.map Prod.fst).Pairwise (· < ·) := by
      rw [List.map_nil, List.nil_append, List.map_map]
      exact hkeys
    have hcount := card_le_flatMap (l := fields) (f := fun f => Cbor.kv f.1 (jsonToCbor f.2))
      fun f _ => by
        rw [Cbor.kv, List.length_append]
        exact Nat.add_pos_right _ (length_jsonToCbor_pos _)
    have hmap := @encodes_map gas pairs (fun f hf => ?_) ?_ ?_
    · rw [insertFields_sorted hkeysPairs, List.nil_append, List.map_map, List.length_map, hbytes]
        at hmap
      exact hmap
    · obtain ⟨g, hg, rfl⟩ := List.mem_map.mp hf
      have hle := length_le_flatMap (fun f => Cbor.kv f.1 (jsonToCbor f.2)) hg
      rw [Cbor.kv, Cbor.text, List.length_append, List.length_append, length_asBytes] at hle
      refine ⟨?_, ih g hg (Nat.le_of_succ_le_succ (hgas g hg)) (by omega)⟩
      show g.1.utf8ByteSize + 9 < 2 ^ 64
      omega
    · rw [List.length_append, hbytes, List.length_map]
      omega
    · rw [List.length_map]
      omega

end

/-! ## Answers -/

section

variable {v : Value}

/-- The payload of an answer has pairs of a key and a value. -/
theorem length_object_le {fields : List (String × Value)} {bound : ℕ}
    (h : ∀ f ∈ fields, f.1.utf8ByteSize + (jsonToCbor f.2).length ≤ bound) :
    (jsonToCbor (.object fields)).length ≤ fields.length * (bound + 9) + 9 := by
  have hsum : (fields.flatMap fun f => Cbor.kv f.1 (jsonToCbor f.2)).length ≤
      fields.length * (bound + 9) := by
    refine length_flatMap_le fun f hf => ?_
    have htext := length_text_le f.1
    have hf := h f hf
    rw [Cbor.kv, List.length_append]
    omega
  have hhead := length_head_le 5 fields.length
  rw [jsonToCbor, fieldsToCbor_eq, List.length_append, Cbor.map]
  omega

theorem length_uint_json (n : ℕ) : (jsonToCbor (.uint n)).length ≤ 9 := length_uint_le _

/-- The payload of a registration. -/
theorem plain_freg {expires : ℕ} {token : String} (htoken : token.utf8ByteSize ≤ 128) :
    let v : Value := .object [("expires", .uint expires), ("token", .string token)]
    v.Plain ∧ v.height ≤ maxDepth ∧ (jsonToCbor v).length < 2 ^ 63 ∧ v.hasBool = false := by
  intro v
  have hkeys : ["expires", "token"].Pairwise (· < ·) := by
    refine List.pairwise_pair.mpr ?_
    decide
  refine ⟨.object hkeys ?_, ?_, ?_, rfl⟩
  · rw [List.forall_mem_cons, List.forall_mem_singleton]
    exact ⟨.number _, .string token⟩
  · show max 1 (max 1 0) ≤ 64
    omega
  · have hlen : (jsonToCbor v).length ≤ 2 * (144 + 9) + 9 := by
      refine length_object_le ?_
      rw [List.forall_mem_cons, List.forall_mem_singleton]
      have huint := length_uint_json expires
      have htext : (jsonToCbor (.string token)).length ≤ token.utf8ByteSize + 9 :=
        length_text_le token
      have hkeys : "expires".utf8ByteSize = 7 ∧ "token".utf8ByteSize = 5 := ⟨rfl, rfl⟩
      dsimp only
      omega
    omega

/-- The payload of a drain. -/
theorem plain_fpop {out : List Pointer} (hout : out.length ≤ 64) :
    let v := pointersResponse out
    v.Plain ∧ v.height ≤ maxDepth ∧ (jsonToCbor v).length < 2 ^ 63 ∧ v.hasBool = false := by
  intro v
  let items := out.map fun p : Pointer => Value.string (Hex.encode p.toList)
  have hstring : ∀ x ∈ items, ∃ p : Pointer, .string (Hex.encode p.toList) = x := by
    intro x hx
    obtain ⟨p, -, hp⟩ := List.mem_map.mp hx
    exact ⟨p, hp⟩
  refine ⟨.object (List.pairwise_singleton _ _) ?_, ?_, ?_, ?_⟩
  · rw [List.forall_mem_singleton]
    refine .array fun x hx => ?_
    obtain ⟨p, rfl⟩ := hstring x hx
    exact .string _
  · rw [show v = .object [("pointers", .array items)] from rfl, Value.height_object_le,
      List.forall_mem_singleton]
    have hitems : (Value.array items).height ≤ 1 := by
      rw [Value.height_array_le]
      intro x hx
      obtain ⟨p, rfl⟩ := hstring x hx
      exact le_rfl
    show (Value.array items).height + 1 ≤ 64
    omega
  · -- each pointer is a text of 148 bytes under its head, and there are at most 64
    have hitems : (jsonToCbor (.array items)).length ≤ 64 * 157 + 9 := by
      have hsum : (items.flatMap jsonToCbor).length ≤ items.length * 157 := by
        refine length_flatMap_le fun x hx => ?_
        obtain ⟨p, rfl⟩ := hstring x hx
        have hsize : (Hex.encode p.toList).utf8ByteSize = 148 := by
          rw [Hex.utf8ByteSize_encode, List.Vector.toList_length]
          rfl
        have htext := length_text_le (Hex.encode p.toList)
        exact htext.trans (by omega)
      have hhead := length_head_le 4 items.length
      have hcount : items.length = out.length := List.length_map ..
      rw [jsonToCbor, itemsToCbor_eq, List.length_append, Cbor.array]
      omega
    have hlen : (jsonToCbor v).length ≤ 1 * ((8 + (64 * 157 + 9)) + 9) + 9 := by
      refine length_object_le ?_
      rw [List.forall_mem_singleton]
      exact Nat.add_le_add_left hitems 8
    omega
  · rw [show v = .object [("pointers", .array items)] from rfl, Value.hasBool_object,
      List.forall_mem_singleton, Value.hasBool_array]
    intro x hx
    obtain ⟨p, rfl⟩ := hstring x hx
    rfl

/-- The payload of an answer contains a boolean exactly if it answers a put. -/
theorem plain_verb {σ : Type} {env : Env σ} {build : Build} {cfg : FabricConfig} {w : World σ}
    {verb : Verb} {body : Value}
    (h : (exec env.handle (verb.run build cfg) w).2 = .ok (.ok body)) :
    body.Plain ∧ body.height ≤ maxDepth ∧ (jsonToCbor body).length < 2 ^ 63 ∧
      (body.hasBool = false ↔ ¬ ∃ req ip, verb = .fput req ip) := by
  cases verb with
  | freg req =>
    obtain ⟨expires, token, htoken, rfl⟩ := exec_runFreg_ok h
    obtain ⟨hplain, hheight, hlen, hbool⟩ := @plain_freg expires token htoken
    exact ⟨hplain, hheight, hlen, iff_of_true hbool nofun⟩
  | fput req ip =>
    obtain rfl := exec_runFput_ok h
    refine ⟨.object (List.pairwise_singleton _ _) ?_, ?_, ?_,
      iff_of_false nofun (not_not.mpr ⟨req, ip, rfl⟩)⟩
    · rw [List.forall_mem_singleton]
      exact .bool true
    · show max 1 0 ≤ 64
      omega
    · show 9 < 2 ^ 63
      omega
  | fpop req ip =>
    obtain ⟨out, hout, rfl⟩ := exec_runFpop_ok h
    obtain ⟨hplain, hheight, hlen, hbool⟩ := plain_fpop (hout.trans (min_le_right _ _))
    exact ⟨hplain, hheight, hlen, iff_of_true hbool nofun⟩

/-- **The faces agree on what contains no boolean.** An encoded value decodes to itself, whatever
follows it, exactly if it contains none. So the payload that a client reads from the answer to a
verb is the one that the other face returns, exactly if the verb is not a put. -/
theorem faces_agree_iff {σ : Type} (env : Env σ) (build : Build) (cfg : FabricConfig) :
    (∀ v : Value, v.Plain → v.height ≤ 64 → (jsonToCbor v).length < 2 ^ 63 → ∀ tail,
      decodeValue (jsonToCbor v ++ tail) 0 = pure (v, (jsonToCbor v).length) ↔
        v.hasBool = false) ∧
    ∀ (w : World σ) (verb : Verb) (body : Value) (seq : UInt64),
      (exec env.handle (verb.run build cfg) w).2 = .ok (.ok body) →
      ((decoded (Cbor.message "" seq.toNat "" (jsonToCbor body))).map Rpc2Message.payload =
        some body ↔ ¬ ∃ req ip, verb = .fput req ip) := by
  have hread {v : Value} (hplain : v.Plain) (hheight : v.height ≤ maxDepth)
      (hlen : (jsonToCbor v).length < 2 ^ 63) :
      Encodes (maxDepth + 1) (jsonToCbor v) v.misread :=
    encodes_jsonToCbor hplain hheight (by omega)
  constructor
  · intro v hplain hheight hlen tail
    have hdecode : decodeValue (jsonToCbor v ++ tail) 0 = pure (v.misread, (jsonToCbor v).length) :=
      (hread hplain hheight hlen).2 tail
    rw [hdecode, ← hplain.misread_eq_iff]
    constructor
    · intro heq
      have hrun := Option.some.inj (Except.ok.inj (congrArg OptionT.run heq))
      exact congrArg Prod.fst hrun
    · intro heq
      rw [heq]
  · intro w verb body seq hbody
    obtain ⟨hplain, hheight, hlen, hbool⟩ := plain_verb hbody
    have hmessage : decoded (Cbor.message "" seq.toNat "" (jsonToCbor body)) = _ :=
      decoded_message (by decide) (.inr (hread hplain hheight hlen))
    rw [hmessage, ← hbool, ← hplain.misread_eq_iff, Option.map_some, Option.some.injEq]

/-- The answer to a put tells the client that nothing was queued. -/
theorem put_answer_misread :
    let v : Value := .object [("queued", .bool true)]
    v.Plain ∧ v.height ≤ 64 ∧ (jsonToCbor v).length < 2 ^ 63 ∧
      decodeValue (jsonToCbor v ++ []) 0 =
        pure (.object [("queued", .bool false)], (jsonToCbor v).length) ∧
      ¬ decodeValue (jsonToCbor v ++ []) 0 = pure (v, (jsonToCbor v).length) := by
  intro v
  have hplain : v.Plain := .object (List.pairwise_singleton _ _) (by
    rw [List.forall_mem_singleton]
    exact .bool true)
  have hlen : (jsonToCbor v).length + 9 < 2 ^ 64 := by
    show 9 + 9 < 2 ^ 64
    omega
  have hread := (@encodes_jsonToCbor v maxDepth hplain (by decide) hlen).2 []
  have hbound : (jsonToCbor v).length < 2 ^ 63 := by
    show 9 < 2 ^ 63
    omega
  refine ⟨hplain, by decide, hbound, hread, fun heq => ?_⟩
  have hrun := Option.some.inj (Except.ok.inj (congrArg OptionT.run (hread.symm.trans heq)))
  exact absurd (congrArg Prod.fst hrun) nofun

end

end SporePeer
