import SporePeer.Node.Fetch
import SporePeer.Node.Server
import SporePeer.Node.Sync

/-!
# The names of bodies

A push stores a body under the hash it computed, a sync pass under the text the peer sent. The
reader of names accepts more than one text for the same 32 bytes, so the second writer keeps the
names right exactly as long as the peer spells them in lower case.

## Main definitions

* `Named`: every body is named by its hash
* `StoreEvent`, `runStore`: runs that mix requests and sync passes
* `Misspells`: a peer that serves a body under another spelling of its name

## Main results

* `named_handleRpc2`: requests keep the names
* `named_syncStream`: a pass against a peer that does not misspell keeps them
* `named_runStore`: so do runs
-/

namespace SporePeer

open Effects Text

/-! ## Requests -/

/-- The calls that name files by hashes: a body is written to the incoming file of its name, and
an incoming file becomes the body file of that name. -/
def NamesByHash (build : Build) : (β : Type) → Op β → Prop
  | _, .write name content => name = incomingFile (cidOf build content)
  | _, .rename src dst => ∃ c, src = incomingFile c ∧ dst = bodyFile c
  | _, _ => True

/-- Every body, complete or incoming, is named by its hash. -/
structure Named (build : Build) (dir : Table String FileData) : Prop where
  body : ∀ name d, dir.lookup (bodyFile name) = some d → name = cidOf build d.content
  incoming : ∀ name d, dir.lookup (incomingFile name) = some d → name = cidOf build d.content

section

variable {build : Build} {dir : Table String FileData}

theorem named_empty : Named build ∅ :=
  ⟨fun _ _ h => (Option.some_ne_none _ h.symm).elim, fun _ _ h => (Option.some_ne_none _ h.symm).elim⟩

theorem Named.erase (h : Named build dir) (name : String) : Named build (dir.erase name) := by
  constructor <;> intro c d hd <;> rw [Table.lookup_erase_eq] at hd <;> split at hd
  · cases hd
  · exact h.body c d hd
  · cases hd
  · exact h.incoming c d hd

theorem Named.insert_incoming (h : Named build dir) (d : FileData) :
    Named build (dir.insert (incomingFile (cidOf build d.content)) d) := by
  constructor <;> intro c d' hd <;> rw [Table.lookup_insert_eq] at hd <;> split at hd
  · exact absurd ‹_› (bodyFile_ne_incomingFile _ _)
  · exact h.body c d' hd
  · rename_i hc
    cases hd
    exact incomingFile_inj.mp hc
  · exact h.incoming c d' hd

theorem Named.insert_body (h : Named build dir) {name : String} {d : FileData}
    (hn : name = cidOf build d.content) : Named build (dir.insert (bodyFile name) d) := by
  constructor <;> intro c d' hd <;> rw [Table.lookup_insert_eq] at hd <;> split at hd
  · rename_i hc
    cases hd
    exact (bodyFile_inj.mp hc).trans hn
  · exact h.body c d' hd
  · rename_i hc
    exact absurd hc.symm (bodyFile_ne_incomingFile _ _)
  · exact h.incoming c d' hd

/-- The calls that name files by hashes keep the names. -/
theorem Named.handle {σ : Type} {env : Env σ} (hcalm : env.Calm) {β : Type} {e : Op β}
    {w : World σ} (he : NamesByHash build β e) (h : Named build w.dir) :
    Named build (env.handle β e w).1.dir := by
  cases e with
  | write name content =>
    simp only [NamesByHash] at he
    simp only [Env.handle, Env.write, hcalm w.tick, World.next, he]
    exact h.insert_incoming ⟨content, _⟩
  | rename src dst =>
    obtain ⟨c, rfl, rfl⟩ := he
    simp only [Env.handle, Env.rename, hcalm w.tick]
    cases hl : w.dir.lookup (incomingFile c) with
    | none => exact h
    | some d => exact (h.erase _).insert_body (h.incoming c d hl)
  | removeFile name =>
    simp only [Env.handle, Env.removeFile, hcalm w.tick]
    exact h.erase name
  | setWins l x => cases l <;> exact h
  | _ => exact h

end

section

variable {build : Build}

/-- The calls of the sync subset name files by hashes. -/
theorem namesByHash_of_serveOp {β : Type} {e : Op β} (h : ServeOp build β e) :
    NamesByHash build β e := by
  cases e with
  | write name content => exact h
  | rename src dst => exact h
  | _ => trivial

/-- **Requests keep the names** of the bodies. -/
theorem named_handleRpc2 {σ : Type} {env : Env σ} (hcalm : env.Calm) (cfg : ServeConfig)
    (dir ip : String) (msg : Rpc2Message) {w : World σ} (h : Named build w.dir) :
    Named build (exec env.handle (handleRpc2 build cfg dir ip msg) w).1.dir :=
  (only_handleRpc2 cfg dir ip msg).invariant (I := fun w : World σ => Named build w.dir)
    (fun _ _ _ he hw => hw.handle hcalm (namesByHash_of_serveOp he)) h

end

/-! ## Passes -/

/-- The entries of the peer's chain. -/
def Peer.ListsEntry (p : Peer) (i : ℕ) (top : ℕ) (text : String) : Prop :=
  ∃ hs chain entry, p.call "Peer.Handshake" 1 (handshakeRequest 1) = .ok hs ∧ hs.error = "" ∧
    p.call "Peer.Chain" 2 (chainRequest 0 5000) = .ok chain ∧ chain.error = "" ∧
    (chain.payload.asArray.getD [])[i]? = some entry ∧ chainPair entry = .ok (top, text)

/-- The peer lists, within the cap of a pass, a text that reads as 32 bytes without being their
lower-case spelling, and answers the request for the object with a body that hashes to them. -/
def Misspells (build : Build) (p : Peer) : Prop :=
  ∃ i top text blid obj body, i < syncCap ∧ p.ListsEntry i top text ∧
    readBlid text = .ok (some blid) ∧ text ≠ Hex.encode blid.toList ∧
    p.call "Peer.GetObject" (100 + i) (getobjectRequest blid) = .ok obj ∧ obj.error = "" ∧
    verifiedBody build obj.payload top blid.toList = .ok body

theorem sha256_of_verifiedBody {build : Build} {payload : Value} {top : ℕ} {expected body : Bytes}
    (h : verifiedBody build payload top expected = .ok body) :
    (build.sha256 body).toList = expected := by
  unfold verifiedBody at h
  split at h
  · split at h
    · split at h
      · cases h
      · cases h
        exact not_not.mp ‹_›
    · cases h
  · cases h

section

variable {env : Env Peer} {build : Build} {dir : String} {w : World Peer}

/-- An entry that is not misspelled keeps the names. -/
theorem named_syncEntry (hcalm : env.Calm) (hnet : env.net = peerNet) {i : ℕ} {entry : Value}
    (hentry : ∀ top text, chainPair entry = .ok (top, text) → w.peer.ListsEntry i top text)
    (hm : ¬ Misspells build w.peer) (h : Named build w.dir) :
    Named build (exec env.handle (syncEntry build dir i entry) w).1.dir := by
  rw [exec_syncEntry]
  split
  · exact h
  rename_i top text hpair
  split
  · exact h
  · exact h
  rename_i blid hread
  split
  · exact h
  split
  · exact h
  rename_i hcap
  -- nothing is written before the peer has answered for this entry
  have hobj : objectAnswer env w.next i blid =
      (w.next.next, w.peer.call "Peer.GetObject" (100 + i) (getobjectRequest blid)) := by
    simp only [objectAnswer, exchange_peer hnet, Peer.call, World.next]
  rw [exec_fetchObject, hobj]
  split
  · rename_i hx
    obtain ⟨rfl, -⟩ := Prod.mk.inj hx
    exact h
  rename_i w' obj hx
  obtain ⟨rfl, hcall⟩ := Prod.mk.inj hx
  split
  · exact h
  rename_i herr
  split
  · exact h
  rename_i body hbody
  simp only [Env.write, hcalm _, World.next]
  -- the name that is written is the one the entry spells
  refine h.insert_body ?_
  by_contra hne
  have hsha := sha256_of_verifiedBody hbody
  exact hm ⟨i, top, text, blid, obj, body, not_le.mp hcap, hentry top text hpair, hread,
    fun ht => hne (by rw [ht, cidOf, hsha]), hcall, not_not.mp herr, hbody⟩

/-- **A pass keeps the names** of the bodies when the peer does not misspell. -/
theorem named_syncStream (hcalm : env.Calm) (hnet : env.net = peerNet)
    (hm : ¬ Misspells build w.peer) (h : Named build w.dir) :
    Named build (exec env.handle (syncStream build dir) w).1.dir := by
  rw [exec_syncStream]
  simp only [exchange_peer hnet]
  split
  · exact h
  rename_i hs hhs
  split
  · exact h
  rename_i hserr
  split
  · exact h
  rename_i chain hchain
  split
  · exact h
  rename_i chainerr
  -- neither question touches the store
  have hstart : w.next.next.peer = w.peer ∧ Named build w.next.next.dir := ⟨rfl, h⟩
  refine (syncEntries_invariant (I := fun v : World Peer => v.peer = w.peer ∧ Named build v.dir)
    ?_ 0 0 hstart).2
  rintro k entry v hk ⟨hp, hv⟩
  rw [Nat.zero_add]
  refine ⟨?_, named_syncEntry hcalm hnet (fun top text hpair => ?_) (hp ▸ hm) hv⟩
  · rw [exec_peer hnet, hp]
  · rw [hp]
    exact ⟨hs, chain, entry, hhs, not_not.mp hserr, hchain, not_not.mp chainerr, hk, hpair⟩

end

/-! ## Runs -/

/-- What can happen to a store: a request, or a pass against a peer. -/
inductive StoreEvent
  | request (cfg : ServeConfig) (ip : String) (msg : Rpc2Message)
  | pass (peer : Peer)

def StoreEvent.run (env : Env Peer) (build : Build) (dir : String) (w : World Peer) :
    StoreEvent → World Peer
  | .request cfg ip msg => (exec env.handle (handleRpc2 build cfg dir ip msg) w).1
  | .pass peer => (exec env.handle (syncStream build dir) { w with peer := peer }).1

/-- The store after a run. -/
def runStore (env : Env Peer) (build : Build) (dir : String) (events : List StoreEvent)
    (w : World Peer) : World Peer :=
  events.foldl (fun w e => e.run env build dir w) w

/-- **The names of bodies**: in a run from an empty directory whose peers do not misspell, every
body is named by its hash, and no body has two names. -/
theorem named_runStore {env : Env Peer} (hcalm : env.Calm) (hnet : env.net = peerNet)
    (build : Build) (dir : String) (events : List StoreEvent)
    (hm : ∀ peer, StoreEvent.pass peer ∈ events → ¬ Misspells build peer)
    (w₀ : World Peer) (hempty : w₀.dir = ∅) :
    let w := runStore env build dir events w₀
    (∀ name d, w.dir.lookup (bodyFile name) = some d →
      name = Hex.encode (build.sha256 d.content).toList) ∧
    ∀ name name' d d', w.dir.lookup (bodyFile name) = some d →
      w.dir.lookup (bodyFile name') = some d' → d.content = d'.content → name = name' := by
  have hnamed : Named build (runStore env build dir events w₀).dir := by
    have hw : Named build w₀.dir := hempty ▸ named_empty
    clear hempty
    induction events generalizing w₀ with
    | nil => exact hw
    | cons e events ih =>
      refine ih (fun peer hp => hm peer (List.mem_cons_of_mem _ hp)) _ ?_
      cases e with
      | request cfg ip msg => exact named_handleRpc2 hcalm cfg dir ip msg hw
      | pass peer =>
        exact named_syncStream hcalm hnet (w := { w₀ with peer := peer })
          (hm peer List.mem_cons_self) hw
  refine ⟨hnamed.body, fun name name' d d' h h' hd => ?_⟩
  rw [hnamed.body name d h, hnamed.body name' d' h', hd]

/-- A peer that lists one body, and serves it whatever it is asked for. -/
def oneBody (build : Build) (body : Bytes) : Peer := fun frame =>
  if frame = Cbor.message "Peer.Handshake" 1 "" (handshakeRequest 1) then
    .ok (Cbor.message "" 1 "" (handshakeResponse 1 1))
  else if frame = Cbor.message "Peer.Chain" 2 "" (chainRequest 0 5000) then
    .ok (Cbor.message "" 2 "" (chainResponse [(0, build.sha256 body)]))
  else .ok (Cbor.message "" 100 "" (getobjectResponse body))

/-- What is listed stands in the peer's answer. -/
theorem Peer.ListsEntry.getElem {p : Peer} {i top : ℕ} {text : String}
    (h : p.ListsEntry i top text) {l : List (Option (ℕ × String))}
    (hl : (p.call "Peer.Chain" 2 (chainRequest 0 5000)).toOption.map (fun chain =>
      (chain.payload.asArray.getD []).map fun e => (chainPair e).toOption) = some l) :
    l[i]? = some (some (top, text)) := by
  obtain ⟨hs, chain, entry, -, -, hchain, -, hentry, hpair⟩ := h
  rw [hchain] at hl
  obtain rfl := Option.some.inj hl
  rw [List.getElem?_map, hentry, Option.map_some, hpair]
  rfl

/-- The peer with the body `[2]` lists it under its hash. -/
theorem listsEntry_oneBody {i top : ℕ} {text : String}
    (h : (oneBody .leading [2]).ListsEntry i top text) :
    i = 0 ∧ top = 0 ∧ text = cidOf .leading [2] := by
  have hget := h.getElem (l := [some (0, cidOf .leading [2])]) (by decide +kernel)
  rcases i with _ | i
  · simp only [List.getElem?_cons_zero, Option.some.injEq, Prod.mk.injEq] at hget
    exact ⟨rfl, hget.1.symm, hget.2.symm⟩
  · cases hget

/-- A push, and a pass against a peer that has another body. -/
theorem named_runStore_push :
    let w := runStore (.still peerNet 0) .leading "" [
      .request {} "" ⟨"Peer.PutObject", 7, "", .object [("BLID", .string (cidOf .leading [1])),
        ("BODY", .string "01")]⟩,
      .pass (oneBody .leading [2])] (.fresh (oneBody .leading [2]))
    ((w.dir.lookup (bodyFile (cidOf .leading [1]))).isSome ∧
      (w.dir.lookup (bodyFile (cidOf .leading [2]))).isSome) ∧
    (∀ name d, w.dir.lookup (bodyFile name) = some d →
      name = Hex.encode (Build.leading.sha256 d.content).toList) ∧
    ∀ name name' d d', w.dir.lookup (bodyFile name) = some d →
      w.dir.lookup (bodyFile name') = some d' → d.content = d'.content → name = name' := by
  refine ⟨by decide +kernel, named_runStore (Env.still_calm _ _) rfl _ _ _ (fun peer hp => ?_) _ rfl⟩
  obtain rfl : peer = oneBody .leading [2] := by
    simpa using hp
  -- the one entry is spelled as the hash is
  rintro ⟨i, top, text, blid, obj, body, -, hlists, hread, hne, -⟩
  obtain ⟨-, -, rfl⟩ := listsEntry_oneBody hlists
  rw [cidOf, readBlid_encode] at hread
  cases hread
  exact hne rfl

/-- A peer that lists a body under the upper-case and the lower-case spelling of its hash, and
serves it. -/
def twoSpellings (upper lower : String) : Peer := fun frame =>
  if frame = Cbor.message "Peer.Handshake" 1 "" (handshakeRequest 1) then
    .ok (Cbor.message "" 1 "" (handshakeResponse 1 1))
  else if frame = Cbor.message "Peer.Chain" 2 "" (chainRequest 0 5000) then
    .ok (Cbor.message "" 2 "" (Cbor.array 2 ++
      (Cbor.array 2 ++ Cbor.uint 1 ++ Cbor.text upper) ++
      (Cbor.array 2 ++ Cbor.uint 0 ++ Cbor.text lower)))
  else .ok (Cbor.message "" 100 "" (getobjectResponse [1]))

/-- The body of that peer is stored twice, once under a name that is not its hash. -/
theorem twoSpellings_misnames :
    let build := Build.const (.replicate 32 0xaa)
    let upper := String.ofList (List.replicate 64 'A')
    let lower := String.ofList (List.replicate 64 'a')
    let peer := twoSpellings upper lower
    let w := runStore (.still peerNet 0) build "" [.pass peer] (.fresh peer)
    (w.dir.lookup (bodyFile upper)).map (·.content) = some [1] ∧
    (w.dir.lookup (bodyFile lower)).map (·.content) = some [1] ∧
    upper ≠ Hex.encode (build.sha256 [1]).toList ∧ upper ≠ lower := by
  decide +kernel

end SporePeer
