import Mathlib.Data.Finset.Card
import SporePeer.Node.Server
import SporePeer.Node.Sync

/-!
# The push client

A push pass asks a peer for its chain and sends it the local bodies that the chain does not name,
in the order of their modification times.

## Main definitions

* `peerHas`: the names in a chain
* `pushObject`, `pushEntries`: one local body, and the loop over them
* `pushStream`: a pass

## Main results

* `exec_pushEntries_has`, `exec_pushEntries_sent`: how the loop goes on
-/

namespace SporePeer

open Effects Text

/-- The names in the entries of a chain, and those in `has`. -/
def peerHas : List Value → Finset String → Except String (Finset String)
  | [], has => .ok has
  | entry :: rest, has => do
    let (_, blidHex) ← chainPair entry
    peerHas rest (insert blidHex has)

section

/- `readError` is the text of the error of a failed read. -/
variable (build : Build) (dir token : String) (readError : String → String)

/-- Sends a local body; `attempted` counts it already. A file that does not hash to its name is
skipped, and so is a body that the peer refuses for another reason than the token. -/
def pushObject (attempted topo : ℕ) (cid : U8Array 32) : Fallible Op Bool := do
  let cidHex := Hex.encode cid.toList
  let read ← ask (.read (bodyFile cidHex))
  match read with
  | none => throw s!"read {dir}/{bodyFile cidHex}: {readError (bodyFile cidHex)}"
  | some body =>
    if build.sha256 body ≠ cid then return false
    else do
      let resp ← rpc2Call "Peer.PutObject" (200 + attempted) (putobjectRequest cid body token)
      if resp.error ≠ "" then
        if containsText resp.error "401" then
          throw s!"push: write token rejected by peer: {resp.error}"
        else return false
      else
        let stored := payloadText resp "BLID"
        if stored ≠ cidHex then throw s!"topo {topo}: peer stored different hash ({stored})"
        else return true

/-- The local bodies that the peer lacks; counts those it tries to send and those that are sent. -/
def pushEntries (has : Finset String) : List (ℕ × U8Array 32) → ℕ → ℕ → Fallible Op ℕ
  | [], _, pushed => return pushed
  | (topo, cid) :: rest, attempted, pushed =>
    if Hex.encode cid.toList ∈ has then pushEntries has rest attempted pushed
    else if syncCap ≤ attempted then return pushed
    else do
      let sent ← pushObject build dir token readError (attempted + 1) topo cid
      pushEntries has rest (attempted + 1) (if sent then pushed + 1 else pushed)

/-- `push_stream`: the peer's height, the bodies pushed and the bodies the peer had. -/
def pushStream : Fallible Op (ℕ × ℕ × ℕ) := do
  let hs ← rpc2Call "Peer.Handshake" 1 (handshakeRequest 1)
  refuseIf (hs.error ≠ "") s!"handshake: {hs.error}"
  let height := ((hs.payload.get "H").bind Value.asU64).elim 0 UInt64.toNat
  let chain ← rpc2Call "Peer.Chain" 2 (chainRequest 0 5000)
  refuseIf (chain.error ≠ "") s!"chain: {chain.error}"
  let has ← orFail (peerHas (chain.payload.asArray.getD []) ∅)
  let view ← chainView
  let pushed ← pushEntries build dir token readError has view 0 0
  return (height, pushed, has.card)

end

section

variable {σ : Type} {env : Env σ} {build : Build} {dir token : String}
  {readError : String → String} {w w₁ : World σ}

/-- A body that the peer has is passed over. -/
theorem exec_pushEntries_has {has : Finset String} {topo : ℕ} {cid : U8Array 32}
    (hcid : Hex.encode cid.toList ∈ has) (rest : List (ℕ × U8Array 32)) (attempted pushed : ℕ) :
    exec env.handle (pushEntries build dir token readError has ((topo, cid) :: rest) attempted
        pushed) w =
      exec env.handle (pushEntries build dir token readError has rest attempted pushed) w := by
  rw [pushEntries, if_pos hcid]

/-- Below the cap, a body that the peer lacks is sent. -/
theorem exec_pushEntries_sent {has : Finset String} {topo : ℕ} {cid : U8Array 32}
    (hcid : Hex.encode cid.toList ∉ has) {attempted : ℕ} (hcap : attempted < syncCap)
    (hsent : exec env.handle (pushObject build dir token readError (attempted + 1) topo cid) w =
      (w₁, .ok (.ok true))) (rest : List (ℕ × U8Array 32)) (pushed : ℕ) :
    exec env.handle (pushEntries build dir token readError has ((topo, cid) :: rest) attempted
        pushed) w =
      exec env.handle (pushEntries build dir token readError has rest (attempted + 1)
        (pushed + 1)) w₁ := by
  rw [pushEntries, if_neg hcid, if_neg (not_le.mpr hcap), exec_bind_ok hsent]
  rfl

end

end SporePeer
