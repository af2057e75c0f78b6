import SporePeer.Node.Serving

/-!
# Progress of repeated passes

Passes against an honest server bring the bodies on its list into the local store, up to the cap.
The cap is on the position in the list: an entry at position 2000 or later is never fetched, however
few bodies the pass has fetched before it and however often the pass is repeated.

## Main definitions

* `Valid`, `Held`: local stores whose bodies are sound, and the bodies they hold
* `passes`, `Complete`: the store after some passes, and the aim
* `Progresses`: what a pass achieves

## Main results

* `exec_syncEntries_honest`: the loop fetches what is missing below the cap
* `held_pass`: so does a pass
* `progress_iff`: when repeated passes reach every body on the list
-/

namespace SporePeer

open Effects Text

/-- Every body hashes to its name. -/
def Valid (build : Build) (dir : Table String FileData) : Prop :=
  ∀ name d, dir.lookup (bodyFile name) = some d → name = cidOf build d.content

/-- The store holds the body with the hash `blid`. -/
def Held (build : Build) (dir : Table String FileData) (blid : U8Array 32) : Prop :=
  ∃ d, dir.lookup (bodyFile (Hex.encode blid.toList)) = some d ∧ build.sha256 d.content = blid

section

variable {build : Build} {dir : Table String FileData}

/-- In a sound store, a body is held exactly when its file is there. -/
theorem Valid.held_iff (h : Valid build dir) (blid : U8Array 32) :
    Held build dir blid ↔ (dir.lookup (bodyFile (Hex.encode blid.toList))).isSome := by
  constructor
  · rintro ⟨d, hd, -⟩
    rw [hd]
    rfl
  · intro hs
    obtain ⟨d, hd⟩ := Option.isSome_iff_exists.mp hs
    have hname : Hex.encode blid.toList = Hex.encode (build.sha256 d.content).toList := h _ d hd
    exact ⟨d, hd, (List.Vector.toList_injective (Hex.encode_injective hname)).symm⟩

/-- Storing a body under its hash keeps the store sound, and adds exactly that body. -/
theorem Valid.insert (h : Valid build dir) {blid : U8Array 32} {d : FileData}
    (hd : build.sha256 d.content = blid) :
    Valid build (dir.insert (bodyFile (Hex.encode blid.toList)) d) := by
  intro name d' hl
  rw [Table.lookup_insert_eq] at hl
  split at hl
  · rename_i hname
    obtain rfl : d = d' := by simpa using hl
    rw [bodyFile_inj.mp hname, cidOf, hd]
  · exact h name d' hl

theorem held_insert {blid c : U8Array 32} {d : FileData} (hd : build.sha256 d.content = blid) :
    Held build (dir.insert (bodyFile (Hex.encode blid.toList)) d) c ↔
      Held build dir c ∨ c = blid := by
  unfold Held
  rw [Table.lookup_insert_eq]
  by_cases hc : c = blid
  · subst hc
    simp [hd]
  · have hname : bodyFile (Hex.encode c.toList) ≠ bodyFile (Hex.encode blid.toList) := fun h =>
      hc (List.Vector.toList_injective (Hex.encode_injective (bodyFile_inj.mp h)))
    rw [if_neg hname]
    simp [hc]

end

/-! ## The loop -/

/-- The hash `c` is at a position below the cap, in a list whose first entry has position `i`. -/
def BelowCap (i : ℕ) (entries : List (ℕ × U8Array 32)) (c : U8Array 32) : Prop :=
  ∃ k e, entries[k]? = some e ∧ e.2 = c ∧ i + k < syncCap

theorem belowCap_cons {i : ℕ} {e : ℕ × U8Array 32} {rest : List (ℕ × U8Array 32)}
    {c : U8Array 32} :
    BelowCap i (e :: rest) c ↔ (e.2 = c ∧ i < syncCap) ∨ BelowCap (i + 1) rest c := by
  constructor
  · rintro ⟨_ | k, e', hk, hc, hlt⟩
    · obtain rfl : e = e' := by simpa using hk
      exact .inl ⟨hc, hlt⟩
    · exact .inr ⟨k, e', hk, hc, by omega⟩
  · rintro (⟨hc, hlt⟩ | ⟨k, e', hk, hc, hlt⟩)
    · exact ⟨0, e, rfl, hc, hlt⟩
    · exact ⟨k + 1, e', hk, hc, by omega⟩

theorem not_belowCap {i : ℕ} (h : syncCap ≤ i) (entries : List (ℕ × U8Array 32))
    (c : U8Array 32) : ¬ BelowCap i entries c := by
  rintro ⟨k, e, -, -, hlt⟩
  omega

section

variable {τ : Type} {senv : Env τ} {env : Env Peer} {build : Build} {cfg : ServeConfig}
  {sdir ip : String} {s : World τ} {w : World Peer} {chain : List (ℕ × U8Array 32)}

theorem chainPair_chainValue (e : ℕ × U8Array 32) :
    ∃ top, chainPair (chainValue e) = .ok (top, Hex.encode e.2.toList) := ⟨_, rfl⟩

theorem verifiedBody_encode {body : Bytes} {blid : U8Array 32} (h : build.sha256 body = blid)
    (top : ℕ) : verifiedBody build (.string (Hex.encode body)) top blid.toList = .ok body := by
  subst h
  simp only [verifiedBody, Value.asStr, Hex.decode_encode, ne_eq, not_true_eq_false, if_false]
  rfl

/-- An entry of an honest server is held already, meets the cap, or is fetched. -/
theorem exec_syncEntry_honest (dir : String) (hcalm : env.Calm) (hnet : env.net = peerNet)
    (hserves : ServesChain senv build s chain) (hpeer : w.peer = answer senv build cfg sdir ip s)
    (hvalid : Valid build w.dir) {e : ℕ × U8Array 32} (he : e ∈ chain) {i : ℕ} (hi : i < 5000) :
    ∃ w' p, exec env.handle (syncEntry build dir i (chainValue e)) w = (w', .ok (.ok p)) ∧
      Valid build w'.dir ∧
      ((p = .had ∧ w'.dir = w.dir ∧ Held build w.dir e.2) ∨
        (p = .capped ∧ w'.dir = w.dir ∧ syncCap ≤ i) ∨
        (p = .fetched ∧ i < syncCap ∧
          ∀ c, Held build w'.dir c ↔ Held build w.dir c ∨ c = e.2)) := by
  obtain ⟨top, hpair⟩ := chainPair_chainValue e
  have hlookup : env.lookup w (bodyFile (Hex.encode e.2.toList)) =
      w.dir.lookup (bodyFile (Hex.encode e.2.toList)) := by
    simp only [Env.lookup, hcalm w.tick]
  rw [exec_syncEntry, hpair]
  dsimp only
  rw [readBlid_encode]
  dsimp only
  rw [hlookup]
  -- three ends: held, over the cap, or fetched from the peer
  by_cases hheld : (w.dir.lookup (bodyFile (Hex.encode e.2.toList))).isSome
  · rw [if_pos hheld]
    exact ⟨_, _, rfl, hvalid, .inl ⟨rfl, rfl, (hvalid.held_iff e.2).mpr hheld⟩⟩
  rw [if_neg hheld]
  by_cases hcap : syncCap ≤ i
  · rw [if_pos hcap]
    exact ⟨_, _, rfl, hvalid, .inr (.inl ⟨rfl, rfl, hcap⟩)⟩
  rw [if_neg hcap]
  obtain ⟨obj, body, hcall, herr, hpay, hsha⟩ :=
    call_getObject cfg sdir ip hserves he (n := 100 + i) (by omega)
  have hobj : objectAnswer env w.next i e.2 = (w.next.next, .ok obj) := by
    rw [objectAnswer, exchange_peer hnet]
    exact Prod.ext rfl ((congrArg (fun p : Peer => p.call "Peer.GetObject" (100 + i)
      (getobjectRequest e.2)) hpeer).trans hcall)
  -- the disk is calm, so the body is stored
  have hwrite : env.write w.next.next (bodyFile (Hex.encode e.2.toList)) body =
      ({ w.next.next.next with
        dir := w.dir.insert (bodyFile (Hex.encode e.2.toList))
          ⟨body, env.stamp w.next.next.tick⟩ }, .ok ()) := by
    simp only [Env.write, hcalm _]
    rfl
  rw [exec_fetchObject, hobj]
  dsimp only
  rw [if_neg (not_not.mpr herr), hpay, verifiedBody_encode hsha]
  dsimp only
  rw [hwrite]
  exact ⟨_, _, rfl, hvalid.insert hsha, .inr (.inr ⟨rfl, by omega, fun c => held_insert hsha⟩)⟩

/-- The loop ends, and afterwards the store holds in addition exactly the entries below the cap. -/
theorem exec_syncEntries_honest (dir : String) (hcalm : env.Calm) (hnet : env.net = peerNet)
    (hserves : ServesChain senv build s chain) (hpeer : w.peer = answer senv build cfg sdir ip s)
    (hvalid : Valid build w.dir) {entries : List (ℕ × U8Array 32)} (hmem : ∀ e ∈ entries, e ∈ chain)
    {i : ℕ} (hi : i + entries.length ≤ 5000) (fetched had : ℕ) :
    ∃ w' r, exec env.handle (syncEntries build dir i (entries.map chainValue) fetched had) w =
        (w', .ok (.ok r)) ∧ Valid build w'.dir ∧
      ∀ c, Held build w'.dir c ↔ Held build w.dir c ∨ BelowCap i entries c := by
  induction entries generalizing i w fetched had with
  | nil =>
    refine ⟨w, (fetched, had), rfl, hvalid, fun c => ?_⟩
    simp [BelowCap]
  | cons e rest ih =>
    rw [List.length_cons] at hi
    obtain ⟨w₁, p, hrun, hvalid₁, hp⟩ := exec_syncEntry_honest dir hcalm hnet hserves hpeer
      hvalid (hmem e List.mem_cons_self) (i := i) (by omega)
    have hpeer₁ : w₁.peer = answer senv build cfg sdir ip s := by
      have := exec_peer (w := w) hnet (syncEntry build dir i (chainValue e))
      rw [hrun] at this
      exact this.trans hpeer
    have hrest := ih hpeer₁ hvalid₁ (fun e he => hmem e (List.mem_cons_of_mem _ he))
      (i := i + 1) (by omega)
    rw [List.map_cons, exec_syncEntries_cons, hrun]
    rcases hp with ⟨rfl, hdir, hheld⟩ | ⟨rfl, hdir, hcap⟩ | ⟨rfl, hcap, hins⟩
    · obtain ⟨w', r, hrun', hvalid', hheld'⟩ := hrest fetched (had + 1)
      refine ⟨w', r, hrun', hvalid', fun c => ?_⟩
      rw [hheld', hdir, belowCap_cons]
      constructor
      · rintro (h | h)
        · exact .inl h
        · exact .inr (.inr h)
      · rintro (h | ⟨rfl, -⟩ | h)
        · exact .inl h
        · exact .inl hheld
        · exact .inr h
    · -- the cap ends the run: nothing further on is below it
      refine ⟨w₁, (fetched, had), rfl, hvalid₁, fun c => ?_⟩
      rw [hdir, or_iff_left (not_belowCap hcap _ _)]
    · obtain ⟨w', r, hrun', hvalid', hheld'⟩ := hrest (fetched + 1) had
      refine ⟨w', r, hrun', hvalid', fun c => ?_⟩
      rw [hheld', hins, belowCap_cons, or_assoc]
      have hc : c = e.2 ↔ e.2 = c ∧ i < syncCap := by
        rw [and_iff_left hcap, eq_comm]
      rw [hc]

/-! ## Passes -/

/-- The client after `n` passes. -/
def passes (env : Env Peer) (build : Build) (dir : String) : ℕ → World Peer → World Peer
  | 0, w => w
  | n + 1, w => passes env build dir n (exec env.handle (syncStream build dir) w).1

/-- No body on the list is missing. -/
def Complete (build : Build) (chain : List (ℕ × U8Array 32)) (dir : Table String FileData) : Prop :=
  ∀ e ∈ listed chain, Held build dir e.2

/-- A pass leaves no body on the list missing, or fetches as many as its cap. -/
def Progresses (env : Env Peer) (build : Build) (dir : String) (chain : List (ℕ × U8Array 32))
    (w : World Peer) : Prop :=
  Complete build chain (exec env.handle (syncStream build dir) w).1.dir ∨
    ∃ height had, (exec env.handle (syncStream build dir) w).2 = .ok (.ok (height, syncCap, had))

/-- After a pass the store holds in addition exactly the bodies listed below the cap. -/
theorem held_pass (dir : String) (hcalm : env.Calm) (hnet : env.net = peerNet)
    (hserves : ServesChain senv build s chain) (hpeer : w.peer = answer senv build cfg sdir ip s)
    (hvalid : Valid build w.dir) :
    Valid build (exec env.handle (syncStream build dir) w).1.dir ∧
      ∀ c, Held build (exec env.handle (syncStream build dir) w).1.dir c ↔
        Held build w.dir c ∨ BelowCap 0 (listed chain) c := by
  obtain ⟨hs, hhs, hserr⟩ := call_handshake cfg sdir ip hserves
  obtain ⟨m, hm, hmerr, hpay⟩ := call_chain cfg sdir ip hserves
  rw [← hpeer] at hhs hm
  have hlen : (listed chain).length ≤ 5000 := by simp [listed]
  have hmem : ∀ e ∈ listed chain, e ∈ chain := fun e he =>
    List.mem_reverse.mp (List.mem_of_mem_take he)
  obtain ⟨w', r, hrun, hvalid', hheld⟩ := exec_syncEntries_honest (w := w.next.next) dir hcalm hnet
    hserves hpeer hvalid hmem (i := 0) (by omega) 0 0
  have hentries : m.payload.asArray.getD [] = (listed chain).map chainValue := by
    rw [hpay]
    rfl
  rw [exec_syncStream_of_chain hnet build dir hhs hserr hm hmerr, hentries]
  dsimp only
  rw [hrun]
  exact ⟨hvalid', hheld⟩

/-- After any number of passes nothing else is held than before them, or is listed below the cap. -/
theorem held_passes (dir : String) (hcalm : env.Calm) (hnet : env.net = peerNet)
    (hserves : ServesChain senv build s chain) (hpeer : w.peer = answer senv build cfg sdir ip s)
    (hvalid : Valid build w.dir) (n : ℕ) {c : U8Array 32}
    (hc : Held build (passes env build dir n w).dir c) :
    Held build w.dir c ∨ BelowCap 0 (listed chain) c := by
  induction n generalizing w with
  | zero => exact .inl hc
  | succ n ih =>
    obtain ⟨hvalid', hheld⟩ := held_pass dir hcalm hnet hserves hpeer hvalid
    have hpeer' := (exec_peer (w := w) hnet (syncStream build dir)).trans hpeer
    rcases ih hpeer' hvalid' hc with h | h
    · exact (hheld c).mp h
    · exact .inr h

/-- What is held stays held. -/
theorem Held.passes (dir : String) (hcalm : env.Calm) (hnet : env.net = peerNet)
    (hserves : ServesChain senv build s chain) (hpeer : w.peer = answer senv build cfg sdir ip s)
    (hvalid : Valid build w.dir) (n : ℕ) {c : U8Array 32} (hc : Held build w.dir c) :
    Held build (passes env build dir n w).dir c := by
  induction n generalizing w with
  | zero => exact hc
  | succ n ih =>
    obtain ⟨hvalid', hheld⟩ := held_pass dir hcalm hnet hserves hpeer hvalid
    exact ih ((exec_peer (w := w) hnet (syncStream build dir)).trans hpeer) hvalid'
      ((hheld c).mpr (.inl hc))

/-- Whether every body listed from the cap on is held or is listed below the cap as well. -/
def TailCovered (build : Build) (chain : List (ℕ × U8Array 32)) (dir : Table String FileData) :
    Prop :=
  ∀ k e, syncCap ≤ k → (listed chain)[k]? = some e →
    Held build dir e.2 ∨ ∃ j e', j < syncCap ∧ (listed chain)[j]? = some e' ∧ e'.2 = e.2

theorem belowCap_zero_iff {entries : List (ℕ × U8Array 32)} {c : U8Array 32} :
    BelowCap 0 entries c ↔ ∃ j e', j < syncCap ∧ entries[j]? = some e' ∧ e'.2 = c := by
  simp only [BelowCap, Nat.zero_add]
  constructor
  · rintro ⟨j, e', hj, he', hlt⟩
    exact ⟨j, e', hlt, hj, he'⟩
  · rintro ⟨j, e', hlt, hj, he'⟩
    exact ⟨j, e', hj, he', hlt⟩

/-- A store that covers the tail is complete after one pass. -/
theorem TailCovered.complete_pass (h : TailCovered build chain w.dir) (dir : String)
    (hcalm : env.Calm) (hnet : env.net = peerNet) (hserves : ServesChain senv build s chain)
    (hpeer : w.peer = answer senv build cfg sdir ip s) (hvalid : Valid build w.dir) :
    Complete build chain (exec env.handle (syncStream build dir) w).1.dir := by
  intro e he
  obtain ⟨k, hk⟩ := List.getElem?_of_mem he
  rw [(held_pass dir hcalm hnet hserves hpeer hvalid).2]
  by_cases hcap : syncCap ≤ k
  · rcases h k e hcap hk with hheld | hlow
    · exact .inl hheld
    · exact .inr (belowCap_zero_iff.mpr hlow)
  · exact .inr ⟨k, e, hk, rfl, by omega⟩

/-- A store that is complete after some passes covers the tail. -/
theorem tailCovered_of_complete (dir : String) (hcalm : env.Calm) (hnet : env.net = peerNet)
    (hserves : ServesChain senv build s chain) (hpeer : w.peer = answer senv build cfg sdir ip s)
    (hvalid : Valid build w.dir) {n : ℕ}
    (h : Complete build chain (passes env build dir n w).dir) : TailCovered build chain w.dir := by
  intro k e _ hk
  rw [← belowCap_zero_iff]
  exact held_passes dir hcalm hnet hserves hpeer hvalid n (h e (List.mem_of_getElem? hk))

theorem TailCovered.pass (h : TailCovered build chain w.dir) (dir : String)
    (hcalm : env.Calm) (hnet : env.net = peerNet) (hserves : ServesChain senv build s chain)
    (hpeer : w.peer = answer senv build cfg sdir ip s) (hvalid : Valid build w.dir) (n : ℕ) :
    TailCovered build chain (passes env build dir n w).dir := by
  intro k e hcap hk
  rcases h k e hcap hk with hheld | hlow
  · exact .inl (hheld.passes dir hcalm hnet hserves hpeer hvalid n)
  · exact .inr hlow

/-- Passes keep the peer and the soundness of the store. -/
theorem valid_passes (dir : String) (hcalm : env.Calm) (hnet : env.net = peerNet)
    (hserves : ServesChain senv build s chain) (hpeer : w.peer = answer senv build cfg sdir ip s)
    (hvalid : Valid build w.dir) (n : ℕ) :
    Valid build (passes env build dir n w).dir ∧
      (passes env build dir n w).peer = answer senv build cfg sdir ip s := by
  induction n generalizing w with
  | zero => exact ⟨hvalid, hpeer⟩
  | succ n ih =>
    exact ih ((exec_peer (w := w) hnet (syncStream build dir)).trans hpeer)
      (held_pass dir hcalm hnet hserves hpeer hvalid).1

/-- **Progress past the cap**: every pass against an honest server completes the local store or
fetches as many bodies as its cap, and some number of passes completes it, exactly when the bodies
listed from the cap on are held already or listed below the cap as well. -/
theorem progress_iff (dir : String) (hcalm : env.Calm) (hnet : env.net = peerNet)
    (hserves : ServesChain senv build s chain) (hpeer : w.peer = answer senv build cfg sdir ip s)
    (hvalid : Valid build w.dir) :
    ((∀ n, Progresses env build dir chain (passes env build dir n w)) ∧
      ∃ n, Complete build chain (passes env build dir n w).dir) ↔
    ∀ k e, syncCap ≤ k → (listed chain)[k]? = some e →
      Held build w.dir e.2 ∨ ∃ j e', j < syncCap ∧ (listed chain)[j]? = some e' ∧ e'.2 = e.2 := by
  constructor
  · rintro ⟨-, n, hn⟩
    exact tailCovered_of_complete dir hcalm hnet hserves hpeer hvalid hn
  · intro h
    have htail : TailCovered build chain w.dir := h
    refine ⟨fun n => .inl ?_, 1, htail.complete_pass dir hcalm hnet hserves hpeer hvalid⟩
    obtain ⟨hvalid', hpeer'⟩ := valid_passes dir hcalm hnet hserves hpeer hvalid n
    exact (htail.pass dir hcalm hnet hserves hpeer hvalid n).complete_pass dir hcalm hnet hserves
      hpeer' hvalid'

end

/-! ## A body past the cap -/

/-- In a list without repetitions, what stands at the cap does not stand below it. -/
theorem not_belowCap_of_nodup {entries : List (ℕ × U8Array 32)}
    (h : (entries.map Prod.snd).Nodup) {e : ℕ × U8Array 32} (he : entries[syncCap]? = some e) :
    ¬ BelowCap 0 entries e.2 := by
  rintro ⟨k, e', hk, hc, hlt⟩
  have hk' : (entries.map Prod.snd)[k]? = some e.2 := by rw [List.getElem?_map, hk, ← hc]; rfl
  have he' : (entries.map Prod.snd)[syncCap]? = some e.2 := by rw [List.getElem?_map, he]; rfl
  have hlen : k < (entries.map Prod.snd).length := (List.getElem?_eq_some_iff.mp hk').1
  have := (List.getElem?_inj hlen h).mp (hk'.trans he'.symm)
  omega

/-- A build whose hash is injective on bodies of 32 bytes. -/
def Build.padding : Build :=
  { Build.const (.replicate 32 0) with
    sha256 := fun b => ⟨(b ++ List.replicate 32 0).take 32, length_take_padded b⟩ }

/-- The body of 32 bytes with the number `k`. -/
def numbered (k : ℕ) : Bytes := Bytes.toBe 32 k

theorem toList_padding_numbered (k : ℕ) :
    (Build.padding.sha256 (numbered k)).toList = numbered k := by
  change (numbered k ++ List.replicate 32 0).take 32 = numbered k
  exact List.take_left' (Bytes.length_toBe 32 k)

theorem nodup_numbered : (((List.range 2001).map numbered).map Build.padding.sha256).Nodup := by
  rw [List.map_map]
  refine List.Nodup.map_on (fun j hj k hk h => ?_) List.nodup_range
  rw [List.mem_range] at hj hk
  have hbytes : numbered j = numbered k := by
    rw [← toList_padding_numbered j, ← toList_padding_numbered k]
    exact congrArg List.Vector.toList h
  have hval := congrArg Bytes.ofBe hbytes
  rwa [numbered, numbered, Bytes.ofBe_toBe (by omega), Bytes.ofBe_toBe (by omega)] at hval

/-- The ledger numbers the hashes of the bodies. -/
theorem map_snd_ledgerOf (build : Build) (bodies : List Bytes) :
    (ledgerOf build bodies).map Prod.snd = bodies.map build.sha256 := by
  rw [ledgerOf, List.map_map]
  exact List.zipIdx_map_fst 0 _

/-- The bodies with the numbers from 0 to 2000. -/
def manyBodies : List Bytes := (List.range 2001).map numbered

theorem servesChain_manyBodies (net : Unit → Bytes → Unit × Except String Bytes) :
    ServesChain (.still net 0) .padding (serverOf .padding manyBodies)
      (ledgerOf .padding manyBodies) :=
  servesChain_serverOf nodup_numbered fun b hb => by
    obtain ⟨k, -, rfl⟩ := List.mem_map.mp hb
    simp [numbered, maxFrame]

theorem length_ledgerOf_manyBodies : (ledgerOf .padding manyBodies).length = 2001 := by
  simp [ledgerOf, manyBodies]

/-- The oldest entry comes last, just over the cap. -/
theorem getElem_listed_manyBodies : (listed (ledgerOf .padding manyBodies))[syncCap]? =
    some (0, Build.padding.sha256 (numbered 0)) := by
  rw [listed, List.getElem?_take, if_pos (by decide),
    List.getElem?_reverse (by rw [length_ledgerOf_manyBodies]; decide), length_ledgerOf_manyBodies]
  simp [ledgerOf, manyBodies, syncCap]

theorem nodup_listed_manyBodies :
    ((listed (ledgerOf .padding manyBodies)).map Prod.snd).Nodup := by
  rw [listed, List.map_take, List.map_reverse, map_snd_ledgerOf]
  exact (List.nodup_reverse.mpr nodup_numbered).sublist (List.take_sublist _ _)

/-- A store that holds the oldest of 2001 bodies gets all the others. -/
theorem progress_iff_oldest :
    let senv : Env Unit := .still (fun p _ => (p, .error "closed")) 0
    let env : Env Peer := .still peerNet 0
    let chain := ledgerOf .padding manyBodies
    let w : World Peer := { World.fresh (answer senv .padding {} "" ""
      (serverOf .padding manyBodies)) with dir := storeOf .padding [numbered 0] }
    (∀ n, Progresses env .padding "" chain (passes env .padding "" n w)) ∧
      ∃ n, Complete .padding chain (passes env .padding "" n w).dir := by
  intro senv env chain w
  have hsingle : (([numbered 0] : List Bytes).map Build.padding.sha256).Nodup := List.nodup_singleton _
  have hvalid : Valid .padding w.dir := by
    intro name d hd
    change (storeOf .padding [numbered 0]).lookup (bodyFile name) = some d at hd
    rw [storeOf, Table.lookup_insert_eq] at hd
    split at hd
    · rename_i hname
      cases hd
      exact bodyFile_inj.mp hname
    · cases hd
  refine (progress_iff "" (Env.still_calm _ _) rfl (servesChain_manyBodies _) rfl hvalid).mpr
    fun k e hk he => .inl ?_
  -- only the oldest is listed from the cap on
  have hlast : k = syncCap := by
    have hlt := (List.getElem?_eq_some_iff.mp he).1
    rw [listed, List.length_take, List.length_reverse, length_ledgerOf_manyBodies] at hlt
    rw [syncCap] at hk ⊢
    omega
  rw [hlast, getElem_listed_manyBodies] at he
  obtain rfl := Option.some.inj he
  exact ⟨_, lookup_storeOf hsingle (List.mem_singleton_self _), rfl⟩

/-- The first of 2001 bodies of one age is listed last, and no number of passes fetches it into an
empty store. -/
theorem first_body_stranded :
    let build := Build.padding
    let bodies := (List.range 2001).map numbered
    let senv : Env Unit := .still (fun p _ => (p, .error "closed")) 0
    let env : Env Peer := .still peerNet 0
    let chain := ledgerOf build bodies
    let w := World.fresh (answer senv build {} "" "" (serverOf build bodies))
    ServesChain senv build (serverOf build bodies) chain ∧ Valid build w.dir ∧
      (0, build.sha256 (numbered 0)) ∈ listed chain ∧
      ∀ n, ¬ Held build (passes env build "" n w).dir (build.sha256 (numbered 0)) := by
  intro build bodies senv env chain w
  have hserves : ServesChain senv build (serverOf build bodies) chain := servesChain_manyBodies _
  have hvalid : Valid build w.dir := by
    intro c d h
    cases h
  have hlast : (listed chain)[syncCap]? = some (0, build.sha256 (numbered 0)) :=
    getElem_listed_manyBodies
  refine ⟨hserves, hvalid, List.mem_of_getElem? hlast, fun n hn => ?_⟩
  rcases held_passes "" (Env.still_calm _ _) rfl hserves rfl hvalid n hn with ⟨d, hd, -⟩ | hlow
  · cases hd
  · exact not_belowCap_of_nodup nodup_listed_manyBodies hlast hlow

end SporePeer
