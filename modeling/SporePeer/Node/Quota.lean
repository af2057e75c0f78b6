import Mathlib.Algebra.Order.BigOperators.Group.Finset
import Mathlib.Order.Lattice.Nat
import SporePeer.Library.Interleaving
import SporePeer.Node.Admission
import SporePeer.Node.BodySizes

/-!
# The quota of concurrent pushes

A push is checked against the bytes of the bodies in the store in one step and stores its body in
another. What a push that has passed its check is going to store is in neither the sum that the
next check takes nor a reservation, so pushes together can take the store over its quota.

## Main definitions

* `PutOp`, `putSteps`: `Peer.PutObject` as a check, a write and an answer
* `pending`: the bodies of the pushes between their check and their write
* `reserved`: the bytes that they are going to take
* `FitsBeside`: an admitted body fits together with the pending ones

## Main results

* `exec_putSteps`: alone, the steps do what the handler does
* `inQuota_step`: what one step keeps
* `total_le_quota`: the store stays in its quota if every admitted body fits beside the pending ones
-/

namespace SporePeer

open Effects Text

/-! ## The size of a store -/

theorem extension_bodyFile {cid : String} (hcid : cid ≠ "") :
    extension (bodyFile cid) = some "body" :=
  extension_append hcid (by decide)

theorem extension_incomingFile (cid : String) : extension (incomingFile cid) ≠ some "body" := by
  have hne : ".incoming-" ++ cid ≠ "" := by
    intro h
    have := congrArg String.utf8ByteSize h
    simp at this
  have hext : extension (incomingFile cid) = some "part" := extension_append hne (by decide)
  rw [hext]
  decide

/-- The sum depends on the body files alone. -/
theorem bodyBytes_congr {dir dir' : Table String FileData}
    (h : ∀ name, extension name = some "body" → dir.lookup name = dir'.lookup name) :
    bodyBytes dir = bodyBytes dir' := by
  refine List.Perm.sum_eq (List.Perm.map _ ?_)
  refine (List.perm_ext_iff_of_nodup (dir.nodupKeys.nodup.filter _)
    (dir'.nodupKeys.nodup.filter _)).mpr fun e => ?_
  simp only [List.mem_filter, decide_eq_true_iff]
  refine and_congr_left fun hext => ?_
  rw [Table.mem_entries_iff, Table.mem_entries_iff, h e.1 hext]

/-- A new body file adds its bytes. -/
theorem bodyBytes_insert {dir : Table String FileData} {name : String}
    (hext : extension name = some "body") (hnew : dir.lookup name = none) (d : FileData) :
    bodyBytes (dir.insert name d) = d.content.length + bodyBytes dir := by
  rw [bodyBytes, AList.entries_insert_of_notMem (AList.lookup_eq_none.mp hnew), List.filter_cons,
    if_pos (decide_eq_true hext)]
  rfl

/-- What `store_body` does to the directory for a new body adds the bytes of the body. -/
theorem bodyBytes_stored {dir : Table String FileData} {cid : String} (hcid : cid ≠ "")
    (hnew : dir.lookup (bodyFile cid) = none) (d : FileData) :
    bodyBytes (((dir.insert (incomingFile cid) d).erase (incomingFile cid)).insert (bodyFile cid) d) =
      d.content.length + bodyBytes dir := by
  have hlook (name : String) (hne : name ≠ incomingFile cid) :
      ((dir.insert (incomingFile cid) d).erase (incomingFile cid)).lookup name =
        dir.lookup name := by
    rw [Table.lookup_erase_eq, if_neg hne, Table.lookup_insert_eq, if_neg hne]
  rw [bodyBytes_insert (extension_bodyFile hcid)]
  · congr 1
    apply bodyBytes_congr
    intro name hext
    apply hlook
    rintro rfl
    exact extension_incomingFile cid hext
  · rw [hlook _ (bodyFile_ne_incomingFile _ _), hnew]

theorem cidOf_ne_empty (build : Build) (body : Bytes) : cidOf build body ≠ "" := by
  intro h
  have := congrArg String.utf8ByteSize h
  rw [cidOf, Hex.utf8ByteSize_encode, List.Vector.toList_length] at this
  cases this

/-! ## Steps -/

/-- The steps of a push: its check, its write, and its answer. -/
inductive PutOp : Type → Type
  | check (ip : String) (bodyLen : ℕ) (payload : Value) : PutOp (Result (Except String Unit))
  | store (body : Bytes) : PutOp (Result (Except String String))
  | writeFrame (frame : Bytes) : PutOp Unit

/-- Each step is the part of the handler of its name. -/
def PutOp.handle {σ : Type} (env : Env σ) (build : Build) (cfg : ServeConfig) (dir : String) :
    Handler PutOp (World σ)
  | _, .check ip bodyLen payload, w => exec env.handle (enforceWritePolicy cfg ip bodyLen payload) w
  | _, .store body, w => exec env.handle (storeBody build dir body) w
  | _, .writeFrame frame, w => env.handle _ (.writeFrame frame) w

section

variable (build : Build) (msg : Rpc2Message)

/-- The answer to a body that was stored. -/
def answerStored : Except String String → Fallible PutOp Unit
  | .ok cidHex => do
    let raw ← orPanic (hexDecode (asBytes cidHex)).run
    let blid ← orPanic (match raw with
      | some b => Bytes.copyFromSlice 32 b
      | none => .ok (List.Vector.replicate 32 0))
    ask (.writeFrame (okFrame msg (putobjectResponse blid)))
  | .error e => ask (.writeFrame (errFrame msg e))

/-- `Peer.PutObject` from the write on. -/
def fromStore (body : Bytes) : Fallible PutOp Unit := do
  let stored ← ask (.store body)
  let stored ← orPanic stored
  answerStored msg stored

/-- `Peer.PutObject` from behind the check on. -/
def afterCheck (body : Bytes) : Except String Unit → Fallible PutOp Unit
  | .error e => ask (.writeFrame (errFrame msg e))
  | .ok () => do
    let digest := (build.sha256 body).toList
    let blid ← orPanic (hexDecode (asBytes (payloadText msg "BLID"))).run
    if (blid.any fun b => b.length = 32 ∧ b = digest) = false then
      ask (.writeFrame (errFrame msg "400 body sha256 != BLID"))
    else fromStore msg body

/-- `Peer.PutObject`, one step at a time. -/
def putSteps (ip : String) : Fallible PutOp Unit :=
  match Hex.decode (payloadText msg "BODY") with
  | none => ask (.writeFrame (errFrame msg "400 body not valid hex"))
  | some body => do
    let policy ← ask (.check ip body.length msg.payload)
    let policy ← orPanic policy
    afterCheck build msg body policy

end

/-- Alone, the steps do what the handler does. -/
theorem exec_putSteps {σ : Type} (env : Env σ) (build : Build) (cfg : ServeConfig) (dir ip : String)
    (msg : Rpc2Message) (w : World σ) :
    exec (PutOp.handle env build cfg dir) (putSteps build msg ip) w =
      exec env.handle (handlePutObject build cfg dir ip msg) w := by
  rw [putSteps, handlePutObject]
  rcases Hex.decode (payloadText msg "BODY") with _ | body
  · rfl
  refine exec_ask_orPanic rfl fun policy w₁ => ?_
  rcases policy with e | ⟨⟩
  · rfl
  refine exec_orPanic_bind_congr _ fun blid => ?_
  split
  · rfl
  refine exec_ask_orPanic rfl fun stored w₂ => ?_
  rcases stored with e | cidHex
  · rfl
  exact exec_orPanic_bind_congr _ fun raw => exec_orPanic_bind_congr _ fun blid => rfl

/-! ## Reservations -/

section

variable (build : Build)

/-- The bytes that `bodies` are going to take in a store. A name takes as many as the longest of the
bodies that have it, and none if it is there. -/
def reserved (dir : Table String FileData) (bodies : Finset Bytes) : ℕ :=
  ∑ cid ∈ bodies.image (cidOf build), if (dir.lookup (bodyFile cid)).isSome then 0 else
    (bodies.filter fun b => cidOf build b = cid).sup List.length

variable {build} {dir dir' : Table String FileData} {bodies bodies' : Finset Bytes}

theorem reserved_mono (h : bodies ⊆ bodies') :
    reserved build dir bodies ≤ reserved build dir bodies' := by
  unfold reserved
  refine (Finset.sum_le_sum fun cid _ => ?_).trans
    (Finset.sum_le_sum_of_subset (Finset.image_subset_image h))
  split
  · exact le_rfl
  · exact Finset.sup_mono (Finset.filter_subset_filter _ h)

/-- A body that is stored needs no reservation any more. -/
theorem reserved_stored {body : Bytes} (hmem : body ∈ bodies)
    (hnew : dir.lookup (bodyFile (cidOf build body)) = none)
    (hlook : ∀ cid, (dir'.lookup (bodyFile cid)).isSome =
      (decide (cid = cidOf build body) || (dir.lookup (bodyFile cid)).isSome)) :
    body.length + reserved build dir' bodies ≤ reserved build dir bodies := by
  have hcid : cidOf build body ∈ bodies.image (cidOf build) := Finset.mem_image_of_mem _ hmem
  unfold reserved
  rw [← Finset.add_sum_erase _ _ hcid, ← Finset.add_sum_erase _ _ hcid]
  rw [if_pos (by rw [hlook]; simp), Nat.zero_add, if_neg (by rw [hnew]; simp)]
  refine Nat.add_le_add ?_ (Finset.sum_le_sum fun cid hc => ?_)
  · exact Finset.le_sup (f := List.length) (Finset.mem_filter.mpr ⟨hmem, rfl⟩)
  · rw [hlook, decide_eq_false (Finset.ne_of_mem_erase hc), Bool.false_or]

theorem isSome_stored (cid : String) (d : FileData) (c : String) :
    ((((dir.insert (incomingFile cid) d).erase (incomingFile cid)).insert
      (bodyFile cid) d).lookup (bodyFile c)).isSome =
        (decide (c = cid) || (dir.lookup (bodyFile c)).isSome) := by
  rw [Table.lookup_insert_eq]
  by_cases hc : c = cid
  · rw [if_pos (bodyFile_inj.mpr hc), decide_eq_true hc]
    rfl
  · rw [if_neg (mt bodyFile_inj.mp hc), decide_eq_false hc, Bool.false_or, Table.lookup_erase_eq,
      if_neg (bodyFile_ne_incomingFile _ _), Table.lookup_insert_eq,
      if_neg (bodyFile_ne_incomingFile _ _)]

end

/-! ## Pushes -/

/-- Concurrent pushes, each from an address. -/
def concurrentPuts {σ : Type} (build : Build) (reqs : List (String × Rpc2Message)) (w : World σ) :
    Pool PutOp (World σ) (Except String Unit) :=
  Pool.start (reqs.map fun x => (putSteps build x.2 x.1).run) w

def IsAnswer : (β : Type) → PutOp β → Prop
  | _, .writeFrame _ => True
  | _, _ => False

def bodyToStore : (Σ β, PutOp β) → Option Bytes
  | ⟨_, .store body⟩ => some body
  | _ => none

/-- The body that a thread stores in its next step. -/
def storesNext {α : Type} (t : Thread PutOp α) : Option Bytes :=
  match t.rest with
  | .call e _ => bodyToStore ⟨_, e⟩
  | _ => none

section

variable {σ : Type}

/-- The bodies of the pushes between their check and their write. -/
def pending (P : Pool PutOp (World σ) (Except String Unit)) : Finset Bytes :=
  (P.threads.filterMap storesNext).toFinset.filter fun b => Fits b

/-- If the next step of the push `i` is its check, and lets the push pass, then its body fits in the
store beside the pending ones. -/
def FitsBeside (env : Env σ) (build : Build) (cfg : ServeConfig)
    (reqs : List (String × Rpc2Message)) (P : Pool PutOp (World σ) (Except String Unit)) (i : ℕ) :
    Prop :=
  ∀ x ∈ reqs[i]?, (P.threads[i]?.any fun t => t.made.isEmpty) = true →
    ∀ body ∈ Hex.decode (payloadText x.2 "BODY"), Admitted env build cfg x.1 x.2 P.state body →
      bodyBytes P.state.dir + reserved build P.state.dir (insert body (pending P)) ≤
        cfg.maxStoreBytes

instance (env : Env σ) (build : Build) (cfg : ServeConfig) (reqs : List (String × Rpc2Message))
    (P : Pool PutOp (World σ) (Except String Unit)) (i : ℕ) :
    Decidable (FitsBeside env build cfg reqs P i) :=
  inferInstanceAs (Decidable (∀ x ∈ reqs[i]?, _ → ∀ body ∈ Hex.decode _, _ → _ ≤ _))

/-- Where a push stands. -/
inductive Stands (build : Build) (x : String × Rpc2Message)
    (t : Thread PutOp (Except String Unit)) : Prop
  | checking (made : t.made = []) (rest : t.rest = (putSteps build x.2 x.1).run)
  | storing (body : Bytes) (rest : t.rest = (fromStore x.2 body).run)
  | answering (rest : t.rest.Calls IsAnswer)

/-- The state of pushes that keep the store in its quota. -/
structure InQuota (build : Build) (cfg : ServeConfig) (reqs : List (String × Rpc2Message))
    (P : Pool PutOp (World σ) (Except String Unit)) : Prop where
  stands : ∀ (i : ℕ) t, P.threads[i]? = some t → ∃ x, reqs[i]? = some x ∧ Stands build x t
  total : bodyBytes P.state.dir + reserved build P.state.dir (pending P) ≤ cfg.maxStoreBytes

variable {env : Env σ} {build : Build} {cfg : ServeConfig} {dir : String}
  {reqs : List (String × Rpc2Message)} {P : Pool PutOp (World σ) (Except String Unit)}

theorem mem_pending {b : Bytes} :
    b ∈ pending P ↔ (∃ (i : ℕ) (t : _), P.threads[i]? = some t ∧ storesNext t = some b) ∧ Fits b := by
  rw [pending, Finset.mem_filter, List.mem_toFinset, List.mem_filterMap]
  refine and_congr_left fun _ => ⟨?_, ?_⟩
  · rintro ⟨t, ht, hb⟩
    obtain ⟨i, hi⟩ := List.mem_iff_getElem?.mp ht
    exact ⟨i, t, hi, hb⟩
  · rintro ⟨i, t, hi, hb⟩
    exact ⟨t, List.mem_iff_getElem?.mpr ⟨i, hi⟩, hb⟩

/-- After a step of a push: the bodies that may be pending, and the bytes that are taken. -/
theorem inQuota_of_step {i : ℕ} {t : Thread PutOp (Except String Unit)} {x : String × Rpc2Message}
    {cs : List (Σ β, PutOp β)} {rest : Program PutOp (Except String Unit)} {w' : World σ}
    {bodies : Finset Bytes} (h : InQuota build cfg reqs P) (ht : P.threads[i]? = some t)
    (hx : reqs[i]? = some x)
    (hstep : Program.advance noSections (PutOp.handle env build cfg dir) t.rest P.state =
      (cs, rest, w'))
    (hstands : Stands build x ⟨t.made ++ cs, rest⟩)
    (hnext : ∀ b, storesNext ⟨t.made ++ cs, rest⟩ = some b → Fits b → b ∈ bodies)
    (hbodies : pending P ⊆ bodies)
    (htotal : bodyBytes w'.dir + reserved build w'.dir bodies ≤ cfg.maxStoreBytes) :
    InQuota build cfg reqs (P.step noSections (PutOp.handle env build cfg dir) i) := by
  have hthread {j : ℕ} {u : Thread PutOp (Except String Unit)}
      (hu : (P.step noSections (PutOp.handle env build cfg dir) i).threads[j]? = some u) :
      j = i ∧ u = ⟨t.made ++ cs, rest⟩ ∨ j ≠ i ∧ P.threads[j]? = some u := by
    have := Pool.threads_step ht hu
    rwa [hstep] at this
  refine ⟨fun j u hu => ?_, ?_⟩
  · rcases hthread hu with ⟨rfl, rfl⟩ | ⟨-, hu⟩
    · exact ⟨x, hx, hstands⟩
    · exact h.stands j u hu
  · -- no body waits to be stored that did not wait before, but those allowed
    have hsub : pending (P.step noSections (PutOp.handle env build cfg dir) i) ⊆ bodies := by
      intro b hb
      obtain ⟨⟨j, u, hu, hnextu⟩, hfits⟩ := mem_pending.mp hb
      rcases hthread hu with ⟨-, rfl⟩ | ⟨-, hu⟩
      · exact hnext b hnextu hfits
      · exact hbodies (mem_pending.mpr ⟨⟨j, u, hu, hnextu⟩, hfits⟩)
    have hstate : (P.step noSections (PutOp.handle env build cfg dir) i).state = w' := by
      rw [Pool.step_eq ht, hstep]
    rw [hstate]
    exact (Nat.add_le_add_left (reserved_mono hsub) _).trans htotal

theorem storesNext_answering {made : List (Σ β, PutOp β)}
    {rest : Program PutOp (Except String Unit)} (h : rest.Calls IsAnswer) :
    storesNext ⟨made, rest⟩ = none := by
  rcases rest with a | p | ⟨e, next⟩
  · rfl
  · rfl
  · cases e with
    | writeFrame frame => rfl
    | check ip bodyLen payload => exact h.1.elim
    | store body => exact h.1.elim

theorem storesNext_putSteps (build : Build) (msg : Rpc2Message) (ip : String) :
    storesNext ⟨[], (putSteps build msg ip).run⟩ = none := by
  rw [putSteps]
  rcases Hex.decode (payloadText msg "BODY") with _ | body <;> rfl

/-- An answer changes no file. -/
theorem advance_answering {p : Program PutOp (Except String Unit)} (hp : p.Calls IsAnswer)
    (w : World σ) :
    ∃ cs rest w', Program.advance noSections (PutOp.handle env build cfg dir) p w = (cs, rest, w') ∧
      rest.Calls IsAnswer ∧ w'.dir = w.dir := by
  rcases p with a | p | ⟨e, next⟩
  · exact ⟨_, _, _, rfl, trivial, rfl⟩
  · exact ⟨_, _, _, rfl, trivial, rfl⟩
  · cases e with
    | writeFrame frame => exact ⟨_, _, _, rfl, hp.2 _, rfl⟩
    | check ip bodyLen payload => exact hp.1.elim
    | store body => exact hp.1.elim

theorem only_answerStored (msg : Rpc2Message) (stored : Except String String) :
    Only IsAnswer (answerStored msg stored) := by
  cases stored with
  | error e => exact only_ask trivial
  | ok cidHex =>
    exact only_bind (only_orPanic _) fun _ => only_bind (only_orPanic _) fun _ => only_ask trivial

/-- Behind a check that was passed, a push answers, or it stores the body of the name it gives. -/
theorem afterCheck_cases (build : Build) (msg : Rpc2Message) (body : Bytes) :
    Only IsAnswer (afterCheck build msg body (.ok ())) ∨
    ((hexDecode (asBytes (payloadText msg "BLID"))).run = .ok (some (build.sha256 body).toList) ∧
      afterCheck build msg body (.ok ()) = fromStore msg body) := by
  rw [afterCheck]
  rcases hblid : (hexDecode (asBytes (payloadText msg "BLID"))).run with p | raw
  · -- the name cuts a character, and the thread unwinds
    exact .inl trivial
  by_cases hname : (raw.any fun b => b.length = 32 ∧ b = (build.sha256 body).toList) = false
  · left
    change Only IsAnswer (if _ then _ else _)
    rw [if_pos hname]
    exact only_ask trivial
  · right
    refine ⟨congrArg _ (names_iff.mp hname), ?_⟩
    change (if _ then _ else _) = _
    rw [if_neg hname]

/-- **One step** keeps the store, with what is pending, in its quota. -/
theorem inQuota_step (hcalm : env.Calm) {i : ℕ} (hfit : FitsBeside env build cfg reqs P i)
    (h : InQuota build cfg reqs P) :
    InQuota build cfg reqs (P.step noSections (PutOp.handle env build cfg dir) i) := by
  rcases ht : P.threads[i]? with _ | t
  · rw [Pool.step, ht]
    exact h
  obtain ⟨x, hx, hstands⟩ := h.stands i t ht
  -- a push that only answers leaves the store as it is
  have hanswering (hans : t.rest.Calls IsAnswer) :
      InQuota build cfg reqs (P.step noSections (PutOp.handle env build cfg dir) i) := by
    obtain ⟨cs, rest, w', hstep, hrest, hdir⟩ := advance_answering hans P.state
    refine inQuota_of_step h ht hx hstep (.answering hrest) ?_ subset_rfl ?_
    · rw [storesNext_answering hrest]
      intro b hb
      cases hb
    · rw [hdir]
      exact h.total
  cases hstands with
  | answering hans => exact hanswering hans
  | storing body hrest =>
    have hstep : Program.advance noSections (PutOp.handle env build cfg dir) t.rest P.state =
        ([⟨_, .store body⟩],
          (orPanic (exec env.handle (storeBody build dir body) P.state).2 >>=
            answerStored x.2 : Fallible PutOp Unit).run,
          (exec env.handle (storeBody build dir body) P.state).1) := by
      rw [hrest]
      exact advance_ask_bind rfl _
    have hans : Only IsAnswer (orPanic (exec env.handle (storeBody build dir body) P.state).2 >>=
        answerStored x.2 : Fallible PutOp Unit) :=
      only_bind (only_orPanic _) fun _ => only_answerStored _ _
    have hnext : ∀ b, storesNext ⟨t.made ++ [⟨_, .store body⟩],
        (orPanic (exec env.handle (storeBody build dir body) P.state).2 >>=
          answerStored x.2 : Fallible PutOp Unit).run⟩ = some b → Fits b → b ∈ pending P := by
      rw [storesNext_answering hans]
      intro b hb
      cases hb
    refine inQuota_of_step h ht hx hstep (.answering hans) hnext subset_rfl ?_
    by_cases hfits : Fits body
    · rcases hlook : P.state.dir.lookup (bodyFile (cidOf build body)) with _ | d
      · -- the bytes that were reserved are taken
        obtain ⟨tick, m, hstore⟩ := exec_storeBody_new hcalm dir hfits hlook
        have hmem : body ∈ pending P :=
          mem_pending.mpr ⟨⟨i, t, ht, by rw [storesNext, hrest]; rfl⟩, hfits⟩
        rw [hstore]
        dsimp only
        rw [bodyBytes_stored (cidOf_ne_empty build body) hlook]
        have hres := reserved_stored hmem hlook (isSome_stored (cidOf build body) ⟨body, m⟩)
        have htotal := h.total
        show body.length + _ + _ ≤ _
        omega
      · -- the body is there already, so nothing is written
        rw [exec_storeBody_present hcalm dir hfits (by rw [hlook]; rfl)]
        exact h.total
    · -- a body of a bad size is refused
      obtain ⟨e, -, hstore⟩ := exec_storeBody_of_size env build dir P.state hfits
      rw [hstore]
      exact h.total
  | checking hmade hrest =>
    rcases hhex : Hex.decode (payloadText x.2 "BODY") with _ | body
    · apply hanswering
      rw [hrest, putSteps, hhex]
      exact only_ask trivial
    obtain ⟨tick, wins, hpolicy⟩ :=
      exec_enforceWritePolicy hcalm cfg x.1 body.length x.2.payload P.state
    have hstep : Program.advance noSections (PutOp.handle env build cfg dir) t.rest P.state =
        ([⟨_, .check x.1 body.length x.2.payload⟩],
          (afterCheck build x.2 body (verdict env cfg x.1 body.length x.2.payload P.state)).run,
          { P.state with tick := tick, putWins := wins }) := by
      rw [hrest, putSteps, hhex]
      refine (advance_ask_bind rfl _).trans ?_
      simp only [PutOp.handle, hpolicy]
      rfl
    rcases verdict_cases env cfg x.1 x.2 body.length P.state with
      ⟨e, -, hverdict⟩ | ⟨hverdict, hrate, htoken, hroom⟩ <;> rw [hverdict] at hstep
    · -- refused
      refine inQuota_of_step h ht hx hstep (.answering (only_ask trivial)) ?_ subset_rfl h.total
      intro b hb
      cases hb
    -- admitted, but the push may still give another name than the hash
    rcases afterCheck_cases build x.2 body with hans | ⟨hblid, hafter⟩
    · refine inQuota_of_step h ht hx hstep (.answering hans) ?_ subset_rfl h.total
      rw [storesNext_answering hans]
      intro b hb
      cases hb
    rw [hafter] at hstep
    by_cases hfits : Fits body
    · -- the push is pending from now on, and its body has been found to fit
      refine inQuota_of_step h ht hx hstep (.storing body rfl) ?_ (Finset.subset_insert body _) ?_
      · intro b hb _
        obtain rfl := Option.some.inj hb
        exact Finset.mem_insert_self _ _
      · refine hfit x hx ?_ body hhex ⟨hhex, hrate, htoken, hroom, hblid, hfits⟩
        rw [ht]
        simp [hmade]
    · -- `store_body` is going to refuse the body
      refine inQuota_of_step h ht hx hstep (.storing body rfl) ?_ subset_rfl h.total
      intro b hb hb'
      obtain rfl := Option.some.inj hb
      exact absurd hb' hfits

/-- **The quota of concurrent pushes.** The store stays in its quota as long as every body that
passes its check fits beside those whose pushes are between their check and their write. -/
theorem total_le_quota (hcalm : env.Calm) (build : Build) (cfg : ServeConfig) (dir : String)
    (reqs : List (String × Rpc2Message)) (w : World σ)
    (hinit : bodyBytes w.dir ≤ cfg.maxStoreBytes) (schedule : List ℕ)
    (hfit : (concurrentPuts build reqs w).Along noSections (PutOp.handle env build cfg dir)
      (FitsBeside env build cfg reqs) schedule) :
    bodyBytes ((concurrentPuts build reqs w).run noSections (PutOp.handle env build cfg dir)
      schedule).state.dir ≤ cfg.maxStoreBytes := by
  have hthread {i : ℕ} {t : Thread PutOp (Except String Unit)}
      (ht : (concurrentPuts build reqs w).threads[i]? = some t) :
      ∃ x, reqs[i]? = some x ∧ t = ⟨[], (putSteps build x.2 x.1).run⟩ := by
    simp only [concurrentPuts, Pool.start, List.map_map, List.getElem?_map,
      Option.map_eq_some_iff] at ht
    obtain ⟨x, hx, rfl⟩ := ht
    exact ⟨x, hx, rfl⟩
  -- at the start no request has got as far as its store
  have hnone : pending (concurrentPuts build reqs w) = ∅ := by
    apply Finset.eq_empty_of_forall_notMem
    intro b hb
    obtain ⟨⟨i, t, ht, hnext⟩, -⟩ := mem_pending.mp hb
    obtain ⟨x, -, rfl⟩ := hthread ht
    rw [storesNext_putSteps] at hnext
    cases hnext
  have hstart : InQuota build cfg reqs (concurrentPuts build reqs w) := by
    refine ⟨fun i t ht => ?_, ?_⟩
    · obtain ⟨x, hx, rfl⟩ := hthread ht
      exact ⟨x, hx, .checking rfl rfl⟩
    · rw [hnone]
      exact hinit
  have hquota := Pool.run_along (fun _ _ => inQuota_step hcalm) hfit hstart
  exact (Nat.le_add_right _ _).trans hquota.total

end

/-- Two pushes of a byte each, one after the other, into a store for two bytes. -/
theorem total_le_quota_two :
    let env : Env Unit := .still (fun p _ => (p, .error "closed")) 60
    let cfg : ServeConfig := { maxStoreBytes := 2 }
    let reqs := [("a", putRequest .leading [7]), ("b", putRequest .leading [8])]
    bodyBytes ((concurrentPuts .leading reqs (.fresh ())).run noSections
      (PutOp.handle env .leading cfg "") [0, 0, 1, 1]).state.dir ≤ cfg.maxStoreBytes := by
  intro env cfg reqs
  have hfit : (concurrentPuts .leading reqs (.fresh ())).Along noSections
      (PutOp.handle env .leading cfg "") (FitsBeside env .leading cfg reqs) [0, 0, 1, 1] := by
    decide +kernel
  have hinit : bodyBytes (World.fresh ()).dir ≤ cfg.maxStoreBytes := by decide
  have hcalm : env.Calm := Env.still_calm _ _
  exact total_le_quota hcalm .leading cfg "" reqs (.fresh ()) hinit _ hfit

/-- Two pushes that are both checked before either is stored take a store for one byte to two. -/
theorem quota_exceeded :
    let env : Env Unit := .still (fun p _ => (p, .error "closed")) 60
    let cfg : ServeConfig := { maxStoreBytes := 1 }
    let reqs := [("a", putRequest .leading [7]), ("b", putRequest .leading [8])]
    bodyBytes ((concurrentPuts .leading reqs (.fresh ())).run noSections
      (PutOp.handle env .leading cfg "") [0, 1, 0, 1]).state.dir = 2 := by
  decide +kernel

end SporePeer
