import SporePeer.Library.Hex
import SporePeer.Wire.Value

/-!
# The rpc2 codec

The subset of CBOR that peers speak. A message is a header map `{M, S, E}` followed by at most one
payload item; a frame is a message behind its length. The decoder follows at most 64 nested
containers, and measures what it consumes.

## Main definitions

* `Cbor.head`, `text`, `uint`, `bytes`, `array`, `map`, `kv`, `message`: the encoder
* `decodeValue`, `decodeMessage`: the decoder
* `chainResponse`, `getobjectRequest` and the other payloads
-/

namespace SporePeer

open Effects Bytes Text

/-! ## Encoder -/

namespace Cbor

/-- The head of an item: its major type in three bits, and its argument in as few bytes as it
needs. -/
def head (major n : ℕ) : Bytes :=
  if n < 24 then [UInt8.ofNat (major * 32 + n)]
  else if n ≤ 0xff then UInt8.ofNat (major * 32 + 24) :: toBe 1 n
  else if n ≤ 0xffff then UInt8.ofNat (major * 32 + 25) :: toBe 2 n
  else if n ≤ 0xffffffff then UInt8.ofNat (major * 32 + 26) :: toBe 4 n
  else UInt8.ofNat (major * 32 + 27) :: toBe 8 n

def text (s : String) : Bytes := head 3 s.utf8ByteSize ++ asBytes s

def uint (n : ℕ) : Bytes := head 0 n

def bytes (b : Bytes) : Bytes := head 2 b.length ++ b

def array (n : ℕ) : Bytes := head 4 n

def map (n : ℕ) : Bytes := head 5 n

/-- A key and its encoded value. -/
def kv (key : String) (val : Bytes) : Bytes := text key ++ val

/-- A hash, as a byte string. -/
def hash32 (h : U8Array 32) : Bytes := bytes h.toList

/-- The header map. All three fields are always written. -/
def header (method : String) (seq : ℕ) (err : String) : Bytes :=
  map 3 ++ kv "M" (text method) ++ kv "S" (uint seq) ++ kv "E" (text err)

def message (method : String) (seq : ℕ) (err : String) (body : Bytes) : Bytes :=
  header method seq err ++ body

end Cbor

/-! ## Decoder -/

/-- A decode: a value, unless the input is rejected or the decoder unwinds. -/
abbrev Decode (α : Type) := OptionT Result α

/-- An optional value, rejecting the input where it is missing. -/
def orReject {α : Type} (x : Option α) : Decode α := OptionT.mk (pure x)

@[simp] theorem orReject_some_bind {α β : Type} (a : α) (f : α → Decode β) :
    (orReject (some a) >>= f) = f a := rfl

@[simp] theorem orReject_none_bind {α β : Type} (f : α → Decode β) :
    (orReject none >>= f) = failure := rfl

@[simp] theorem lift_ok_bind {α β : Type} (a : α) (f : α → Decode β) :
    ((OptionT.lift (.ok a) : Decode α) >>= f) = f a := rfl

/-- The argument of a head with the additional information `info`, and the length of the head. -/
def decodeArgument (info : ℕ) (rest : Bytes) : Option (ℕ × ℕ) :=
  if info ≤ 23 then some (info, 1)
  else if info = 24 then (getRange rest 0 1).map fun b => (ofBe b, 2)
  else if info = 25 then (getRange rest 0 2).map fun b => (ofBe b, 3)
  else if info = 26 then (getRange rest 0 4).map fun b => (ofBe b, 5)
  else if info = 27 then (getRange rest 0 8).map fun b => (ofBe b, 9)
  else none

/-- The head of an item. -/
structure Head where
  major : ℕ
  info : ℕ
  arg : ℕ
  pos : ℕ

def decodeHead : Bytes → Option Head
  | [] => none
  | ib :: rest =>
    (decodeArgument (ib.toNat % 32) rest).map fun (n, pos) =>
      { major := ib.toNat / 32, info := ib.toNat % 32, arg := n, pos := pos }

/-- The `n` bytes of a string after its head, and where they end. -/
def decodeSpan (buf : Bytes) (pos n : ℕ) : Option (Bytes × ℕ) := do
  let stop ← checkedAdd pos n
  let b ← getRange buf pos stop
  return (b, stop)

section Children

variable (decode : Bytes → Decode (Value × ℕ)) (buf : Bytes)

/-- The item at `buf[pos..]`, and where it ends. -/
def decodeChild (pos : ℕ) : Decode (Value × ℕ) := do
  let rest ← OptionT.lift (sliceFrom buf pos)
  let (v, used) ← decode rest
  if used = 0 then failure else
  let stop ← orReject (checkedAdd pos used)
  return (v, stop)

/-- The next `n` items from `pos` on. -/
def decodeItems : ℕ → ℕ → List Value → Decode (List Value × ℕ)
  | 0, pos, out => return (out, pos)
  | n + 1, pos, out => do
    let (v, pos) ← decodeChild decode buf pos
    decodeItems n pos (out ++ [v])

/-- The next `n` pairs from `pos` on. Pairs whose key is no text are dropped. -/
def decodeFields : ℕ → ℕ → List (String × Value) → Decode (List (String × Value) × ℕ)
  | 0, pos, m => return (m, pos)
  | n + 1, pos, m => do
    let (k, pos) ← decodeChild decode buf pos
    let (v, pos) ← decodeChild decode buf pos
    decodeFields n pos (match k.asStr with
      | some ks => Value.insertField ks v m
      | none => m)

end Children

/-- The item at the start of `buf`, and its length. Items nested `gas` deep are rejected. -/
def decodeGas : ℕ → Bytes → Decode (Value × ℕ)
  | 0, _ => failure
  | gas + 1, buf => do
    let h ← orReject (decodeHead buf)
    match h.major with
    | 0 => return (.uint h.arg, h.pos)
    | 1 =>
      if -1 - (h.arg : ℤ) < -2 ^ 63 then failure
      else return (.number (.negInt (Int64.ofInt (-1 - h.arg))), h.pos)
    | 2 => do
      let (b, stop) ← orReject (decodeSpan buf h.pos h.arg)
      return (.string (Hex.encode b), stop)
    | 3 => do
      let (b, stop) ← orReject (decodeSpan buf h.pos h.arg)
      let s ← orReject (fromUtf8 b)
      return (.string s, stop)
    | 4 => do
      let (items, stop) ← decodeItems (decodeGas gas) buf h.arg h.pos []
      return (.array items, stop)
    | 5 => do
      let (fields, stop) ← decodeFields (decodeGas gas) buf h.arg h.pos []
      return (.object fields, stop)
    | _ =>
      if h.major = 7 ∧ h.info = 20 then return (.bool false, h.pos)
      else if h.major = 7 ∧ h.info = 21 then return (.bool true, h.pos)
      else return (.null, h.pos)

/-- The deepest nesting the decoder follows. -/
def maxDepth : ℕ := 64

/-- The item at the start of `buf`, found at nesting depth `depth`, and its length. -/
def decodeValue (buf : Bytes) (depth : ℕ) : Decode (Value × ℕ) :=
  decodeGas (maxDepth + 1 - depth) buf

/-- A decoded message. The method of a response is empty. -/
structure Rpc2Message where
  method : String
  seq : UInt64
  error : String
  payload : Value

/-- The payload after a header of `used` bytes. -/
def decodePayload (buf : Bytes) (used : ℕ) : Decode Value :=
  if used < buf.length then do
    let rest ← OptionT.lift (sliceFrom buf used)
    let (v, used2) ← decodeValue rest 0
    if used2 = 0 then failure else return v
  else return .null

def decodeMessage (buf : Bytes) : Decode Rpc2Message := do
  let (headV, used) ← decodeValue buf 0
  let obj ← orReject headV.asObject
  let payload ← decodePayload buf used
  return {
    method := ((Value.field "M" obj).bind Value.asStr).getD ""
    seq := ((Value.field "S" obj).bind Value.asU64).getD 0
    error := ((Value.field "E" obj).bind Value.asStr).getD ""
    payload := payload }

/-! ## Payloads -/

def handshakeRequest (version : ℕ) : Bytes := Cbor.map 1 ++ Cbor.kv "N" (Cbor.uint version)

def handshakeResponse (height version : ℕ) : Bytes :=
  Cbor.map 2 ++ Cbor.kv "H" (Cbor.uint height) ++ Cbor.kv "N" (Cbor.uint version)

def chainRequest (top n : ℕ) : Bytes :=
  Cbor.map 2 ++ Cbor.kv "TOP" (Cbor.uint top) ++ Cbor.kv "N" (Cbor.uint n)

/-- `[topoheight, blid]` pairs, newest first. -/
def chainResponse (pairs : List (ℕ × U8Array 32)) : Bytes :=
  Cbor.array pairs.length ++
    pairs.flatMap fun (h, blid) => Cbor.array 2 ++ Cbor.uint h ++ Cbor.hash32 blid

def getobjectRequest (blid : U8Array 32) : Bytes :=
  Cbor.map 1 ++ Cbor.kv "BLID" (Cbor.hash32 blid)

def getobjectResponse (body : Bytes) : Bytes := Cbor.bytes body

def putobjectRequest (blid : U8Array 32) (body : Bytes) (token : String) : Bytes :=
  Cbor.map (if token.isEmpty then 2 else 3) ++ Cbor.kv "BLID" (Cbor.hash32 blid) ++
    Cbor.kv "BODY" (Cbor.bytes body) ++
    if token.isEmpty then [] else Cbor.kv "TOKEN" (Cbor.text token)

def putobjectResponse (blid : U8Array 32) : Bytes :=
  Cbor.map 1 ++ Cbor.kv "BLID" (Cbor.hash32 blid)

/-- A refusal: no method, the sequence number of the request, and a text. -/
def errorResponse (seq : ℕ) (msg : String) : Bytes := Cbor.message "" seq msg []

end SporePeer
