import SporePeer.Wire.RoundTrip

/-!
# The payloads of messages

A message of any builder reads back: its header, and from its payload exactly the arguments of the
builder, byte strings in lower-case hexadecimal.

## Main definitions

* `Payload`: the payload builders with their arguments
* `Payload.Gives`: what the readers find in a payload

## Main results

* `Payload.encodes`: every builder encodes a payload that gives its arguments
* `message_reads_back`: so every message reads back
-/

namespace SporePeer

open Text

/-- The payload builders, with their arguments. -/
inductive Payload
  | none
  | handshakeRequest (version : UInt64)
  | handshakeResponse (height version : UInt64)
  | chainRequest (top n : UInt64)
  | chainResponse (pairs : List (UInt64 × U8Array 32))
  | getobjectRequest (blid : U8Array 32)
  | getobjectResponse (body : Bytes)
  | putobjectRequest (blid : U8Array 32) (body : Bytes) (token : String)
  | putobjectResponse (blid : U8Array 32)

namespace Payload

/-- What the builder writes. -/
def bytes : Payload → Bytes
  | none => []
  | handshakeRequest version => SporePeer.handshakeRequest version.toNat
  | handshakeResponse height version => SporePeer.handshakeResponse height.toNat version.toNat
  | chainRequest top n => SporePeer.chainRequest top.toNat n.toNat
  | chainResponse pairs => SporePeer.chainResponse (pairs.map fun e => (e.1.toNat, e.2))
  | getobjectRequest blid => SporePeer.getobjectRequest blid
  | getobjectResponse body => SporePeer.getobjectResponse body
  | putobjectRequest blid body token => SporePeer.putobjectRequest blid body token
  | putobjectResponse blid => SporePeer.putobjectResponse blid

/-- A field is a number. -/
def HasU64 (v : Value) (key : String) (n : UInt64) : Prop := (v.get key).bind Value.asU64 = some n

/-- A field is the lower-case spelling of some bytes. -/
def HasHex (v : Value) (key : String) (b : Bytes) : Prop :=
  (v.get key).bind Value.asStr = some (Hex.encode b)

/-- What the handlers and the clients read in a payload. -/
def Gives (v : Value) : Payload → Prop
  | none => v = .null
  | handshakeRequest version => HasU64 v "N" version
  | handshakeResponse height version => HasU64 v "H" height ∧ HasU64 v "N" version
  | chainRequest top n => HasU64 v "TOP" top ∧ HasU64 v "N" n
  | chainResponse pairs => v.asArray = some (pairs.map fun e =>
      .array [.number (.posInt e.1), .string (Hex.encode e.2.toList)])
  | getobjectRequest blid => HasHex v "BLID" blid.toList
  | getobjectResponse body => v.asStr = some (Hex.encode body)
  | putobjectRequest blid body token => HasHex v "BLID" blid.toList ∧ HasHex v "BODY" body ∧
      (v.get "TOKEN").bind Value.asStr = (if token = "" then .none else some token) ∧
      (token = "" → v.get "TOKEN" = .none)
  | putobjectResponse blid => HasHex v "BLID" blid.toList

/-- **Every builder** encodes a payload that gives its arguments. -/
theorem encodes (p : Payload) (hlen : p.bytes.length < 2 ^ 63) :
    ∃ v, EncodesPayload p.bytes v ∧ Gives v p := by
  cases p with
  | none => exact ⟨.null, .inl ⟨rfl, rfl⟩, rfl⟩
  | handshakeRequest version =>
    refine ⟨_, encodesPayload_handshakeRequest _, ?_⟩
    simp [Gives, HasU64, get_fieldsObject, insertFields]
  | handshakeResponse height version =>
    refine ⟨_, encodesPayload_handshakeResponse _ _, ?_, ?_⟩ <;>
      simp [HasU64, get_fieldsObject, insertFields]
  | chainRequest top n =>
    refine ⟨_, encodesPayload_chainRequest _ _, ?_, ?_⟩ <;>
      simp [HasU64, get_fieldsObject, insertFields]
  | chainResponse pairs =>
    -- a height is read back as the same 64-bit word
    refine ⟨_, encodesPayload_chainResponse (hlen.trans (by decide)), ?_⟩
    rw [Gives, Value.asArray_array, List.map_map]
    refine congrArg some (List.map_congr_left fun e _ => ?_)
    rw [Function.comp_apply, chainValue, Value.uint, UInt64.ofNat_toNat]
  | getobjectRequest blid =>
    refine ⟨_, encodesPayload_getobjectRequest blid, ?_⟩
    simp [Gives, HasHex, get_fieldsObject, insertFields]
  | getobjectResponse body =>
    have hbody : body.length ≤ (SporePeer.getobjectResponse body).length := by
      rw [SporePeer.getobjectResponse, Cbor.bytes, List.length_append]
      exact Nat.le_add_left _ _
    have hlen' : (SporePeer.getobjectResponse body).length < 2 ^ 63 := hlen
    exact ⟨_, encodesPayload_getobjectResponse (by omega), rfl⟩
  | putobjectRequest blid body token =>
    -- the token is a field only if it is not empty
    have hlen' : (SporePeer.putobjectRequest blid body token).length < 2 ^ 63 := hlen
    obtain ⟨hblid, hbody, hget⟩ := get_putFields blid body token
    refine ⟨_, encodesPayload_putobjectRequest (by omega), ?_, ?_, ?_, fun h => ?_⟩
    · rw [HasHex, hblid]
      rfl
    · rw [HasHex, hbody]
      rfl
    · rw [hget]
      split <;> rfl
    · rw [hget, if_pos h]
  | putobjectResponse blid =>
    refine ⟨_, encodesPayload_putobjectResponse blid, ?_⟩
    simp [Gives, HasHex, get_fieldsObject, insertFields]

end Payload

/-- **A message reads back**: its header, and the arguments of its payload. No vector is longer than
`isize::MAX` bytes. -/
theorem message_reads_back (method err : String) (seq : UInt64) (p : Payload)
    (hlen : (Cbor.message method seq.toNat err p.bytes).length < 2 ^ 63) :
    ∃ v, (decodeMessage (Cbor.message method seq.toNat err p.bytes)).run =
        .ok (some { method := method, seq := seq, error := err, payload := v }) ∧ p.Gives v := by
  have hsum : method.utf8ByteSize + err.utf8ByteSize + p.bytes.length ≤
      (Cbor.message method seq.toNat err p.bytes).length := by
    simp only [Cbor.message, Cbor.header, Cbor.kv, Cbor.text, List.length_append, length_asBytes]
    omega
  obtain ⟨v, hv, hgives⟩ := p.encodes (by omega)
  refine ⟨v, ?_, hgives⟩
  rw [decodeMessage_message (by omega) hv]
  rfl

/-- The push of an empty body without a token. -/
theorem message_reads_back_push :
    let p := Payload.putobjectRequest (.replicate 32 0xab) [] ""
    ∃ v, (decodeMessage (Cbor.message "Peer.PutObject" 7 "" p.bytes)).run =
        .ok (some { method := "Peer.PutObject", seq := 7, error := "", payload := v }) ∧
      (v.get "BODY").bind Value.asStr = some "" ∧ v.get "TOKEN" = none := by
  intro p
  obtain ⟨v, hv, hgives⟩ := message_reads_back "Peer.PutObject" "" 7 p (by decide)
  exact ⟨v, hv, hgives.2.1, hgives.2.2.2 rfl⟩

end SporePeer
