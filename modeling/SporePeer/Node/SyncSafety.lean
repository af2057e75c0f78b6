import SporePeer.Node.Spelling
import SporePeer.Node.Sync

/-!
# Passes that unwind

Nothing a peer sends unwinds the client, except one thing: a chain entry whose text has a pair of
bytes in the middle of a character. It does so on every local store that gets as far as the entry.
A text that is no 64 hexadecimal digits is skipped, except for such a text, and for a text of 64
bytes that the integer parser reads with a sign: that one is looked up and asked for.

## Main definitions

* `chainOf`: the entries of a chain response
* `NamesBody`: 64 hexadecimal digits
* `NoCut`, `NoSign`: no entry that the loop can get to cuts a character, or is read with a sign
* `Survives`, `SkipsMalformed`: what the client promises for a chain response

## Main results

* `survives_iff`: the entries for which it keeps the two promises
-/

namespace SporePeer

open Effects Text

/-- The frame of the chain request. -/
def chainFrame : Bytes := Cbor.message "Peer.Chain" 2 "" (chainRequest 0 5000)

/-- The entries that a pass reads from the answer to the chain request. -/
def chainOf (answer : Except String Bytes) : List Value :=
  match callResult (answer >>= readFrame) with
  | .ok chain => if chain.error = "" then chain.payload.asArray.getD [] else []
  | .error _ => []

/-- The entry is an array of two. -/
def IsPair (entry : Value) : Prop := ∃ p, chainPair entry = .ok p

/-- No entry that comes after pairs only has a text that cuts a character. -/
def NoCut (entries : List Value) : Prop :=
  ∀ k entry top text, entries[k]? = some entry → (∀ e ∈ entries.take k, IsPair e) →
    chainPair entry = .ok (top, text) → ¬ CutsCharacter (asBytes text)

/-- The text has 64 hexadecimal digits: it is well formed as the name of a body. -/
def NamesBody (text : String) : Prop := Hex.IsHex text ∧ text.length = 64

/-- No entry that comes after pairs only has a text of 64 bytes in which the integer parser reads a
sign. -/
def NoSign (entries : List Value) : Prop :=
  ∀ k entry top text, entries[k]? = some entry → (∀ e ∈ entries.take k, IsPair e) →
    chainPair entry = .ok (top, text) →
    ¬ (SpelledWithSign (asBytes text) ∧ text.utf8ByteSize = 64)

/-- A pass with this answer to the chain request ends with a value or an error, on every store and
system, and whatever else the peer answers. -/
def Survives (answer : Except String Bytes) : Prop :=
  ∀ (env : Env Peer) (build : Build) (dir : String) (w : World Peer), env.net = peerNet →
    w.peer chainFrame = answer → ∃ r, (exec env.handle (syncStream build dir) w).2 = .ok r

/-- An entry whose text is malformed is skipped: nothing is looked up, asked for or written. -/
def SkipsMalformed (entries : List Value) : Prop :=
  ∀ k entry top text, entries[k]? = some entry → (∀ e ∈ entries.take k, IsPair e) →
    chainPair entry = .ok (top, text) → ¬ NamesBody text →
    ∀ (env : Env Peer) (build : Build) (dir : String) (w : World Peer),
      exec env.handle (syncEntry build dir k entry) w = (w, .ok (.ok .skipped))

section

variable (env : Env Peer) (build : Build) (dir : String) (w : World Peer)

theorem fetchObject_ok (i top : ℕ) (text : String) (blid : U8Array 32) :
    ∃ r, (exec env.handle (fetchObject build dir i top text blid.toList) w).2 = .ok r := by
  rw [exec_fetchObject]
  split
  · exact ⟨_, rfl⟩
  split
  · exact ⟨_, rfl⟩
  split
  · exact ⟨_, rfl⟩
  · exact ⟨_, rfl⟩

theorem syncEntry_ok {i : ℕ} {entry : Value}
    (h : ∀ top text, chainPair entry = .ok (top, text) → ¬ CutsCharacter (asBytes text)) :
    ∃ r, (exec env.handle (syncEntry build dir i entry) w).2 = .ok r := by
  rw [exec_syncEntry]
  split
  · exact ⟨_, rfl⟩
  rename_i top text hpair
  split
  · rename_i p hp
    exact absurd (readBlid_unwinds_iff.mp ⟨p, hp⟩) (h top text hpair)
  · exact ⟨_, rfl⟩
  split
  · exact ⟨_, rfl⟩
  split
  · exact ⟨_, rfl⟩
  · exact fetchObject_ok _ _ _ _ _ _ _ _

theorem NoCut.tail {entry : Value} {rest : List Value} (h : NoCut (entry :: rest))
    (hp : IsPair entry) : NoCut rest := by
  intro k e top text hk hprev hpair
  refine h (k + 1) e top text hk ?_ hpair
  intro e' he'
  rw [List.take_succ_cons, List.mem_cons] at he'
  rcases he' with rfl | he'
  · exact hp
  · exact hprev e' he'

/-- A loop over entries none of which cuts a character does not unwind. -/
theorem syncEntries_ok {entries : List Value} (h : NoCut entries) (i fetched had : ℕ) :
    ∃ r, (exec env.handle (syncEntries build dir i entries fetched had) w).2 = .ok r := by
  induction entries generalizing i fetched had w with
  | nil => exact ⟨_, rfl⟩
  | cons entry rest ih =>
    have h0 : ∀ top text, chainPair entry = .ok (top, text) → ¬ CutsCharacter (asBytes text) :=
      fun top text => h 0 entry top text rfl (by simp)
    obtain ⟨r, hr⟩ : ∃ r, (exec env.handle (syncEntry build dir i entry) w).2 = .ok r :=
      syncEntry_ok env build dir w h0
    -- an entry that is no pair ends the loop
    have hstep : ∀ progress, r = .ok progress → IsPair entry := by
      rintro progress rfl
      rw [exec_syncEntry] at hr
      cases hpair : chainPair entry with
      | error e =>
        rw [hpair] at hr
        cases hr
      | ok p => exact ⟨p, hpair⟩
    rw [exec_syncEntries_cons]
    rcases hx : exec env.handle (syncEntry build dir i entry) w with ⟨w', x⟩
    rw [hx] at hr
    obtain rfl : x = .ok r := hr
    cases r with
    | error e => exact ⟨_, rfl⟩
    | ok progress =>
      have hrest := h.tail (hstep progress rfl)
      cases progress with
      | capped => exact ⟨_, rfl⟩
      | _ => exact ih _ hrest _ _ _

/-- A text that reads as a name is looked up: where the store has its file, the entry counts as
held. -/
theorem exec_syncEntry_held {i top : ℕ} {entry : Value} {text : String} {blid : U8Array 32}
    (hcalm : env.Calm) (hpair : chainPair entry = .ok (top, text))
    (hread : readBlid text = .ok (some blid)) (hheld : (w.dir.lookup (bodyFile text)).isSome) :
    exec env.handle (syncEntry build dir i entry) w = (w.next, .ok (.ok .had)) := by
  have hlookup : (env.lookup w (bodyFile text)).isSome := by
    rw [Env.lookup, hcalm]
    exact hheld
  rw [exec_syncEntry, hpair]
  dsimp only
  rw [hread]
  exact if_pos hlookup

/-- A loop unwinds at an entry that cuts a character, or before, when the store holds the names of
the entries before it. -/
theorem syncEntries_unwinds {entries : List Value} {k : ℕ} {entry : Value} {top : ℕ}
    {text : String} (hcalm : env.Calm) (hk : entries[k]? = some entry)
    (hpair : chainPair entry = .ok (top, text)) (hcut : CutsCharacter (asBytes text))
    (hprev : ∀ e ∈ entries.take k, ∃ top text, chainPair e = .ok (top, text) ∧
      (w.dir.lookup (bodyFile text)).isSome) (i fetched had : ℕ) :
    ∃ p, (exec env.handle (syncEntries build dir i entries fetched had) w).2 = .error p := by
  induction entries generalizing i fetched had w k with
  | nil => cases hk
  | cons e rest ih =>
    rw [exec_syncEntries_cons]
    cases k with
    | zero =>
      -- this entry has the name that cannot be sliced
      obtain rfl : e = entry := Option.some.inj hk
      obtain ⟨p, hp⟩ := readBlid_unwinds_iff.mpr hcut
      rw [exec_syncEntry, hpair]
      dsimp only
      rw [hp]
      exact ⟨p, rfl⟩
    | succ k =>
      -- an entry before it is held, so the run goes on
      obtain ⟨top', text', hpair', hheld⟩ := hprev e (by simp)
      have hrest : ∀ e ∈ rest.take k, ∃ top text, chainPair e = .ok (top, text) ∧
          (w.dir.lookup (bodyFile text)).isSome := fun e he => hprev e (by simp [he])
      rcases hread : readBlid text' with p | _ | blid
      · rw [exec_syncEntry, hpair']
        dsimp only
        rw [hread]
        exact ⟨p, rfl⟩
      · rw [exec_syncEntry, hpair']
        dsimp only
        rw [hread]
        exact ih w hk hrest _ _ _
      · rw [exec_syncEntry_held env build dir w hcalm hpair' hread hheld]
        exact ih w.next hk hrest (i + 1) fetched (had + 1)

end

/-! ## The client's promise -/

/-- A store that holds a file for every name in a chain. -/
def holdingAll : List Value → Table String FileData
  | [] => ∅
  | entry :: rest =>
    match chainPair entry with
    | .ok (_, text) => (holdingAll rest).insert (bodyFile text) ⟨[], 0⟩
    | .error _ => holdingAll rest

theorem lookup_holdingAll {entries : List Value} {entry : Value} {top : ℕ} {text : String}
    (he : entry ∈ entries) (hpair : chainPair entry = .ok (top, text)) :
    ((holdingAll entries).lookup (bodyFile text)).isSome := by
  induction entries with
  | nil => cases he
  | cons e rest ih =>
    rw [holdingAll]
    rcases List.mem_cons.mp he with rfl | he
    · rw [hpair]
      simp
    · cases hp : chainPair e with
      | error _ => exact ih he
      | ok p =>
        dsimp only
        rw [Table.lookup_insert_eq]
        split
        · rfl
        · exact ih he

/-- A peer that answers the handshake, and the chain request as given. -/
def chainPeer (answer : Except String Bytes) : Peer := fun frame =>
  if frame = chainFrame then answer else .ok (Cbor.message "" 1 "" (handshakeResponse 1 1))

theorem chainPeer_handshake (answer : Except String Bytes) :
    ∃ hs, callResult (chainPeer answer (Cbor.message "Peer.Handshake" 1 "" (handshakeRequest 1)) >>=
      readFrame) = .ok hs ∧ hs.error = "" := by
  have hne : Cbor.message "Peer.Handshake" 1 "" (handshakeRequest 1) ≠ chainFrame := by decide
  have hd : (decoded (Cbor.message "" 1 "" (handshakeResponse 1 1))).map (·.error) = some "" := by
    decide +kernel
  obtain ⟨hs, hdec, herr⟩ := Option.map_eq_some_iff.mp hd
  refine ⟨hs, ?_, herr⟩
  rw [chainPeer, if_neg hne]
  have hread : readFrame (Cbor.message "" 1 "" (handshakeResponse 1 1)) =
      .ok (Cbor.message "" 1 "" (handshakeResponse 1 1)) := if_neg (by decide)
  simp only [bind, Except.bind, hread, callResult, hdec]

theorem chainOf_eq {answer : Except String Bytes} {chain : Rpc2Message}
    (h : callResult (answer >>= readFrame) = .ok chain) (herr : chain.error = "") :
    chainOf answer = chain.payload.asArray.getD [] := by
  rw [chainOf, h]
  exact if_pos herr

/-- The loop is over the entries of the answer to the chain request. -/
theorem syncStream_unwinds {env : Env Peer} {build : Build} {dir : String} {w : World Peer}
    {answer : Except String Bytes} (hnet : env.net = peerNet) (hw : w.peer chainFrame = answer)
    {p : Panic} (h : (exec env.handle (syncStream build dir) w).2 = .error p) :
    (exec env.handle (syncEntries build dir 0 (chainOf answer) 0 0) w.next.next).2 = .error p := by
  rw [exec_syncStream] at h
  simp only [exchange_peer hnet] at h
  split at h
  · cases h
  split at h
  · cases h
  split at h
  · cases h
  rename_i chain hchain
  split at h
  · cases h
  rename_i herr
  change callResult (w.peer chainFrame >>= readFrame) = .ok chain at hchain
  rw [hw] at hchain
  -- the handshake and the chain request do not unwind, so an entry has
  rw [chainOf_eq hchain (not_not.mp herr)]
  rcases hx : exec env.handle (syncEntries build dir 0 (chain.payload.asArray.getD []) 0 0)
    w.next.next with ⟨w', p' | r⟩
  · rw [hx] at h
    exact congrArg Except.error (Except.error.inj h)
  · rw [hx] at h
    cases h

/-- An entry that cuts a character unwinds the client on a store that holds the names of the entries
before it. -/
theorem not_survives {answer : Except String Bytes} {k : ℕ} {entry : Value} {top : ℕ}
    {text : String} (hk : (chainOf answer)[k]? = some entry)
    (hprev : ∀ e ∈ (chainOf answer).take k, IsPair e) (hpair : chainPair entry = .ok (top, text))
    (hcut : CutsCharacter (asBytes text)) : ¬ Survives answer := by
  intro hs
  obtain ⟨w, hdir, hpeer⟩ : ∃ w : World Peer, w.dir = holdingAll (chainOf answer) ∧
      w.peer = chainPeer answer :=
    ⟨{ World.fresh (chainPeer answer) with dir := holdingAll (chainOf answer) }, rfl, rfl⟩
  have hw : w.peer chainFrame = answer := by rw [hpeer, chainPeer, if_pos rfl]
  have hheld : ∀ e ∈ (chainOf answer).take k, ∃ top text, chainPair e = .ok (top, text) ∧
      (w.next.next.dir.lookup (bodyFile text)).isSome := by
    intro e he
    obtain ⟨⟨top', text'⟩, hp⟩ := hprev e he
    refine ⟨top', text', hp, ?_⟩
    change (w.dir.lookup (bodyFile text')).isSome
    rw [hdir]
    exact lookup_holdingAll (List.mem_of_mem_take he) hp
  obtain ⟨p, hp⟩ := syncEntries_unwinds (.still peerNet 0) (.const (.replicate 32 0)) "" w.next.next
    (Env.still_calm _ _) hk hpair hcut hheld 0 0 0
  -- the answer has entries, so that it is a chain
  obtain ⟨chain, hchain, hcerr⟩ : ∃ chain, callResult (answer >>= readFrame) = .ok chain ∧
      chain.error = "" := by
    unfold chainOf at hk
    split at hk
    · split at hk
      · exact ⟨_, ‹_›, ‹_›⟩
      · cases hk
    · cases hk
  obtain ⟨hello, hhello, herr⟩ := chainPeer_handshake answer
  have hcall : w.peer.call "Peer.Chain" 2 (chainRequest 0 5000) = .ok chain := by
    rw [Peer.call, show w.peer (Cbor.message _ _ _ _) = answer from hw, hchain]
  have hhcall : w.peer.call "Peer.Handshake" 1 (handshakeRequest 1) = .ok hello := by
    rw [Peer.call, hpeer, hhello]
  obtain ⟨r, hr⟩ := hs (.still peerNet 0) (.const (.replicate 32 0)) "" w rfl hw
  rw [exec_syncStream_of_chain rfl _ _ hhcall herr hcall hcerr] at hr
  rw [chainOf_eq hchain hcerr] at hp
  dsimp only at hr
  rw [hp] at hr
  cases hr

/-! ## Malformed names -/

/-- A text reads as a name when it is well formed, or has 64 bytes and is spelled with a sign. -/
theorem readBlid_reads_iff {text : String} :
    (∃ blid, readBlid text = .ok (some blid)) ↔
      NamesBody text ∨ (SpelledWithSign (asBytes text) ∧ text.utf8ByteSize = 64) := by
  rw [NamesBody, ← reads32_iff]
  constructor
  · rintro ⟨⟨raw, hlen⟩, hread⟩
    rw [readBlid] at hread
    rcases hrun : (hexDecode (asBytes text)).run with p | _ | raw'
    · rw [hrun] at hread
      cases hread
    · rw [hrun] at hread
      cases hread
    · rw [hrun] at hread
      simp only [Except.map, Option.bind_some, Except.ok.injEq] at hread
      split at hread
      · exact ⟨raw', rfl, ‹_›⟩
      · cases hread
  · rintro ⟨raw, hrun, hlen⟩
    refine ⟨⟨raw, hlen⟩, ?_⟩
    rw [readBlid, hrun]
    simp [Except.map, hlen]

/-- No text is both. -/
theorem not_namesBody_of_sign {text : String} (h : SpelledWithSign (asBytes text)) :
    ¬ NamesBody text := by
  rintro ⟨hhex, -⟩
  obtain ⟨raw, hraw⟩ := Option.isSome_iff_exists.mp (Hex.isSome_decode_iff.mpr hhex)
  rw [Hex.decode, decodePairs_of_mem h.2] at hraw
  cases hraw

/-- An entry is skipped on every store when its text is malformed in each other way. -/
theorem exec_syncEntry_malformed (env : Env Peer) (build : Build) (dir : String) (w : World Peer)
    {i top : ℕ} {entry : Value} {text : String} (hpair : chainPair entry = .ok (top, text))
    (hmal : ¬ NamesBody text) (hcut : ¬ CutsCharacter (asBytes text))
    (hsign : ¬ (SpelledWithSign (asBytes text) ∧ text.utf8ByteSize = 64)) :
    exec env.handle (syncEntry build dir i entry) w = (w, .ok (.ok .skipped)) := by
  rw [exec_syncEntry, hpair]
  dsimp only
  rcases hr : readBlid text with p | _ | blid
  · exact absurd (readBlid_unwinds_iff.mp ⟨p, hr⟩) hcut
  · rfl
  · rcases readBlid_reads_iff.mp ⟨blid, hr⟩ with h | h
    · exact absurd h hmal
    · exact absurd h hsign

/-- **Survival**: the client survives every pass with a given answer to the chain request exactly
when no entry it can get to cuts a character. It skips the malformed names in it exactly when
besides no entry it can get to is spelled with a sign. -/
theorem survives_iff (answer : Except String Bytes) :
    (Survives answer ↔ NoCut (chainOf answer)) ∧
      (SkipsMalformed (chainOf answer) ↔ NoCut (chainOf answer) ∧ NoSign (chainOf answer)) := by
  refine ⟨⟨fun hs k entry top text hk hprev hpair hcut => ?_, fun hn env build dir w hnet hw => ?_⟩,
    fun hs => ⟨fun k entry top text hk hprev hpair hcut => ?_,
      fun k entry top text hk hprev hpair hsign => ?_⟩,
    fun ⟨hcut, hsign⟩ k entry top text hk hprev hpair hmal env build dir w => ?_⟩
  · -- on a store that holds every name, the loop gets to the entry
    exact absurd hs (not_survives hk hprev hpair hcut)
  · rcases hx : (exec env.handle (syncStream build dir) w).2 with p | r
    · have hloop := syncStream_unwinds hnet hw hx
      obtain ⟨r, hr⟩ := syncEntries_ok env build dir w.next.next hn 0 0 0
      rw [hr] at hloop
      cases hloop
    · exact ⟨r, rfl⟩
  · obtain ⟨p, hp⟩ := readBlid_unwinds_iff.mpr hcut
    have hmal : ¬ NamesBody text := by
      intro h
      obtain ⟨blid, hb⟩ := readBlid_reads_iff.mpr (.inl h)
      rw [hp] at hb
      cases hb
    have hskip := hs k entry top text hk hprev hpair hmal (.still peerNet 0)
      (.const (.replicate 32 0)) "" (.fresh (chainPeer answer))
    rw [exec_syncEntry, hpair] at hskip
    dsimp only at hskip
    rw [hp] at hskip
    cases hskip
  · obtain ⟨blid, hb⟩ := readBlid_reads_iff.mpr (.inr hsign)
    obtain ⟨w, hdir⟩ : ∃ w : World Peer, w.dir = holdingAll [entry] :=
      ⟨{ World.fresh (chainPeer answer) with dir := holdingAll [entry] }, rfl⟩
    have hheld : (w.dir.lookup (bodyFile text)).isSome :=
      hdir ▸ lookup_holdingAll (List.mem_singleton_self entry) hpair
    have hskip := hs k entry top text hk hprev hpair (not_namesBody_of_sign hsign.1)
      (.still peerNet 0) (.const (.replicate 32 0)) "" w
    rw [exec_syncEntry_held _ _ _ _ (Env.still_calm _ _) hpair hb hheld] at hskip
    exact absurd (congrArg Prod.snd hskip) (by simp)
  · exact exec_syncEntry_malformed env build dir w hpair hmal (hcut k entry top text hk hprev hpair)
      (hsign k entry top text hk hprev hpair)

/-- A chain of one entry, whose name is a letter, an accented letter and a letter: the client
unwinds on an empty store instead of skipping it. -/
theorem accented_name_unwinds :
    let chain := Cbor.array 1 ++ (Cbor.array 2 ++ Cbor.uint 0 ++ Cbor.text "aéa")
    let peer := chainPeer (.ok (Cbor.message "" 2 "" chain))
    (exec (Env.still peerNet 0).handle (syncStream (.const (.replicate 32 0)) "")
      (.fresh peer)).2.toOption.isNone ∧
    CutsCharacter (asBytes "aéa") := by
  decide +kernel

end SporePeer
