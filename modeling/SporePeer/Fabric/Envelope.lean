import SporePeer.Library.Hex
import SporePeer.Library.Table

/-!
# Envelopes and queues

A relay holds 74-byte pointers for handles of 32 bytes. On disk every queued pointer is an
envelope of 115 bytes, a file named by the hash of its bytes; in memory it is an entry of the
queue of its handle.

## Main definitions

* `Envelope`, `marshalEnvelope`, `parseEnvelope`: the file format
* `Registration`, `Queued`, `FabricConfig`: the relay's state and its knobs

## Main results

* `parseEnvelope_marshalEnvelope`, `marshalEnvelope_of_parse`: the format loses nothing
-/

namespace SporePeer

open Bytes

def envelopeV1 : UInt8 := 1

def pointerLen : ℕ := 74

def envelopeLen : ℕ := 1 + 32 + pointerLen + 8

/-- A pointer, verbatim: its content hash and its burn deadline are inside. -/
abbrev Pointer := U8Array pointerLen

/-- The burn deadline of a pointer: its last eight bytes, little-endian. -/
def Pointer.deadline (p : Pointer) : ℕ := ofLe ((p.toList.drop 66).take 8)

/-- The header of a version 1 pointer. -/
def Pointer.HasHeader (p : Pointer) : Prop := p.toList[0]? = some 1 ∧ p.toList[1]? = some 0

instance (p : Pointer) : Decidable p.HasHeader := inferInstanceAs (Decidable (_ ∧ _))

@[ext] structure Envelope where
  handle : U8Array 32
  pointer : Pointer
  receivedAt : ℕ

/-- version | handle 32 | pointer 74 | receivedAt, little-endian. -/
def marshalEnvelope (e : Envelope) : Bytes :=
  envelopeV1 :: (e.handle.toList ++ e.pointer.toList ++ toLe 8 e.receivedAt)

/-- The fields of an envelope file of the right length. -/
def readEnvelope (b : Bytes) (h : b.length = envelopeLen) : Envelope where
  handle := ⟨(b.drop 1).take 32, by
    simp only [List.length_take, List.length_drop, h, envelopeLen, pointerLen]; omega⟩
  pointer := ⟨(b.drop 33).take pointerLen, by
    simp only [List.length_take, List.length_drop, h, envelopeLen, pointerLen]; omega⟩
  receivedAt := ofLe (b.drop (33 + pointerLen))

/-- Checks the shape of an envelope, and nothing of what its pointer means. -/
def parseEnvelope (b : Bytes) : Except String Envelope :=
  if h : b.length = envelopeLen then
    if b[0]? ≠ some envelopeV1 then .error s!"400 bad envelope version {(b[0]?.getD 0).toNat}"
    else if ¬ (readEnvelope b h).pointer.HasHeader then .error "400 bad pointer payload header"
    else .ok (readEnvelope b h)
  else .error s!"400 bad envelope length {b.length} != {envelopeLen}"

/-- The possession token of a handle, and the second its lease ends. -/
structure Registration where
  token : String
  expires : ℕ
  deriving DecidableEq

/-- A queued pointer, and the name of its envelope. -/
structure Queued where
  pointer : Pointer
  envCidHex : String
  deadline : ℕ
  receivedAt : ℕ

/-- The knobs of a relay. -/
structure FabricConfig where
  maxPerHandle : ℕ := 32
  maxLeaseSec : ℕ := 7 * 24 * 3600
  fputRate : ℕ := 60
  maxRegs : ℕ := 50000
  maxDeadlineHorizonSec : ℕ := 7 * 24 * 3600
  deriving DecidableEq

/-- The queues of a relay, by handle, oldest first. -/
abbrev Queues := Table String (List Queued)

/-- The queue of a handle; a handle without a queue has an empty one. -/
def Queues.of (q : Queues) (h : String) : List Queued := (q.lookup h).getD []

theorem Queues.of_insert (q : Queues) (h h' : String) (l : List Queued) :
    Queues.of (q.insert h l) h' = if h' = h then l else Queues.of q h' := by
  rw [Queues.of, Table.lookup_insert_eq]
  split <;> rfl

/-! ## The file format -/

@[simp] theorem length_marshalEnvelope (e : Envelope) :
    (marshalEnvelope e).length = envelopeLen := by
  have hh := e.handle.2
  have hp := e.pointer.2
  simp only [marshalEnvelope, List.length_cons, List.length_append, List.Vector.toList_length,
    length_toLe, envelopeLen]
  omega

theorem marshalEnvelope_parts (e : Envelope) :
    (marshalEnvelope e).drop 1 = e.handle.toList ++ (e.pointer.toList ++ toLe 8 e.receivedAt) ∧
      (marshalEnvelope e).drop 33 = e.pointer.toList ++ toLe 8 e.receivedAt ∧
      (marshalEnvelope e).drop (33 + pointerLen) = toLe 8 e.receivedAt := by
  have h1 : (marshalEnvelope e).drop 1 =
      e.handle.toList ++ (e.pointer.toList ++ toLe 8 e.receivedAt) := by
    rw [marshalEnvelope, List.append_assoc]
    rfl
  have h33 : (marshalEnvelope e).drop 33 = e.pointer.toList ++ toLe 8 e.receivedAt := by
    rw [show 33 = 1 + 32 from rfl, ← List.drop_drop, h1]
    exact List.drop_left' e.handle.toList_length
  refine ⟨h1, h33, ?_⟩
  rw [← List.drop_drop, h33]
  exact List.drop_left' e.pointer.toList_length

theorem parseEnvelope_eq_ok {b : Bytes} {e : Envelope} :
    parseEnvelope b = .ok e ↔ ∃ h : b.length = envelopeLen,
      b[0]? = some envelopeV1 ∧ (readEnvelope b h).pointer.HasHeader ∧ readEnvelope b h = e := by
  unfold parseEnvelope
  split
  · rename_i h
    simp only [h, exists_true_left]
    split
    · simp_all
    · split <;> simp_all
  · simp_all

/-- An envelope with a version 1 pointer reads back. -/
theorem parseEnvelope_marshalEnvelope {e : Envelope} (hp : e.pointer.HasHeader)
    (hr : e.receivedAt < 2 ^ 64) : parseEnvelope (marshalEnvelope e) = .ok e := by
  obtain ⟨h1, h33, h107⟩ := marshalEnvelope_parts e
  have hread : readEnvelope (marshalEnvelope e) (length_marshalEnvelope e) = e := by
    refine Envelope.ext (Subtype.ext ?_) (Subtype.ext ?_) ?_
    · change ((marshalEnvelope e).drop 1).take 32 = e.handle.toList
      rw [h1]
      exact List.take_left' e.handle.toList_length
    · change ((marshalEnvelope e).drop 33).take pointerLen = e.pointer.toList
      rw [h33]
      exact List.take_left' e.pointer.toList_length
    · change ofLe ((marshalEnvelope e).drop (33 + pointerLen)) = e.receivedAt
      rw [h107, ofLe_toLe (by omega)]
  exact parseEnvelope_eq_ok.mpr ⟨length_marshalEnvelope e, rfl, by rwa [hread], hread⟩

/-- What parses is what would be written for the envelope it parses to. -/
theorem marshalEnvelope_of_parse {b : Bytes} {e : Envelope} (h : parseEnvelope b = .ok e) :
    marshalEnvelope e = b ∧ e.pointer.HasHeader ∧ e.receivedAt < 2 ^ 64 := by
  obtain ⟨hlen, hver, hptr, rfl⟩ := parseEnvelope_eq_ok.mp h
  have hl8 : (b.drop (33 + pointerLen)).length = 8 := by
    simp [hlen, envelopeLen, pointerLen]
  have h8 := toLe_ofLe (b.drop (33 + pointerLen))
  have hlt := ofLe_lt (b.drop (33 + pointerLen))
  rw [hl8] at h8 hlt
  refine ⟨?_, hptr, hlt⟩
  obtain ⟨rest, rfl⟩ : ∃ rest, b = envelopeV1 :: rest := by
    cases b with
    | nil => cases hver
    | cons c rest => exact ⟨rest, by rw [Option.some.inj hver]⟩
  simp only [marshalEnvelope, readEnvelope, List.Vector.toList_mk, h8, List.cons.injEq, true_and]
  change rest.take 32 ++ (rest.drop 32).take 74 ++ rest.drop (32 + 74) = rest
  rw [← List.drop_drop, List.append_assoc, List.take_append_drop, List.take_append_drop]

end SporePeer
