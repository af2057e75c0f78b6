import SporePeer.Node.Serving
import SporePeer.Node.Unwinding

/-!
# The ledger that a node advertises

The entries of the chain are the files whose names read as a hash; they are found again under the
lower-case spelling of it. A chain request asks for the entries up to a height, newest first, and
for no more than a number of them.

## Main definitions

* `listedCid`: the hash that a file is listed under
* `Addressable`: every entry of the chain has a height and a file of its own
* `Canonical`: every file that is listed has the lower-case spelling of its hash for a name
* `window`: the entries that a chain request asks for
* `AnswersWindow`: the response to a chain request has these entries

## Main results

* `addressable_iff`: when the chain is addressable
* `handleChain_iff`: when a chain request is answered by its window
-/

namespace SporePeer

open Effects Text

/-! ## Names on the list -/

/-- The name of a body without its ending, if it has the length of a hash. -/
def stemOf (name : String) : Option String :=
  if name.utf8ByteSize ≠ 64 + 5 ∨ endsWith name ".body" = false then none
  else fromUtf8 ((asBytes name).take 64)

/-- The hash that a file is listed under; the reader of names may unwind. -/
def listedCid (name : String) : Result (Option (U8Array 32)) :=
  (stemOf name).elim (.ok none) readBlid

/-- The hash that a file is listed under, if it is. -/
def listedAs (name : String) : Option (U8Array 32) := (listedCid name).toOption.join

theorem stemOf_eq_some {name stem : String} :
    stemOf name = some stem ↔ name = bodyFile stem ∧ stem.utf8ByteSize = 64 := by
  have hstem {s : String} (hs : s.utf8ByteSize = 64) : stemOf (bodyFile s) = some s := by
    rw [stemOf, if_neg (isBody_iff.mpr ⟨s, rfl, hs⟩), bodyFile, asBytes_append,
      List.take_append_of_le_length (by rw [length_asBytes, hs]),
      List.take_of_length_le (by rw [length_asBytes, hs]), fromUtf8_asBytes]
  constructor
  · intro h
    by_cases hbody : name.utf8ByteSize ≠ 64 + 5 ∨ endsWith name ".body" = false
    · rw [stemOf, if_pos hbody] at h
      cases h
    · obtain ⟨s, rfl, hs⟩ := isBody_iff.mp hbody
      rw [hstem hs] at h
      obtain rfl := Option.some.inj h
      exact ⟨rfl, hs⟩
  · rintro ⟨rfl, hs⟩
    exact hstem hs

/-- The lower-case spelling of a hash is listed under it. -/
theorem listedCid_encode (cid : U8Array 32) :
    listedCid (bodyFile (Hex.encode cid.toList)) = .ok (some cid) := by
  have hsize : (Hex.encode cid.toList).utf8ByteSize = 64 := by
    rw [Hex.utf8ByteSize_encode, cid.toList_length]
  rw [listedCid, stemOf_eq_some.mpr ⟨rfl, hsize⟩, Option.elim_some, readBlid_encode]

/-- The reader of names unwinds where it cannot slice the stem. -/
theorem listedCid_unwinds_iff {name : String} :
    (∃ p, listedCid name = .error p) ↔ CutsStem name := by
  rcases hstem : stemOf name with _ | stem
  · -- a name that is no body's is not read
    constructor
    · rintro ⟨p, hp⟩
      rw [listedCid, hstem] at hp
      cases hp
    · rintro ⟨stem, hname, hsize, -⟩
      rw [stemOf_eq_some.mpr ⟨hname, hsize⟩] at hstem
      cases hstem
  · obtain ⟨rfl, hsize⟩ := stemOf_eq_some.mp hstem
    rw [listedCid, hstem, Option.elim_some, readBlid_unwinds_iff]
    constructor
    · exact fun hcut => ⟨stem, rfl, hsize, hcut⟩
    · rintro ⟨stem', heq, -, hcut⟩
      rwa [bodyFile_inj.mp heq]

theorem listedCid_read_iff {name : String} :
    (∃ o, listedCid name = .ok o) ↔ ¬ CutsStem name := by
  rw [← listedCid_unwinds_iff]
  cases listedCid name <;> simp

section

variable {σ : Type} {env : Env σ} {w : World σ}

/-- Names that can all be read are listed under their hashes. -/
theorem exec_chainEntries_read {names : List String}
    (h : ∀ name ∈ names, ∃ o, listedCid name = .ok o) (entries : List (ℕ × U8Array 32)) :
    ∃ l, (exec env.handle (chainEntries names entries) w).2 = .ok (.ok (entries ++ l)) ∧
      l.map Prod.snd = names.filterMap listedAs := by
  induction names generalizing entries w with
  | nil => exact ⟨[], by rw [List.append_nil]; rfl, rfl⟩
  | cons name rest ih =>
    rw [List.forall_mem_cons] at h
    obtain ⟨⟨o, ho⟩, hrest⟩ := h
    have hlisted : listedAs name = o := by
      rw [listedAs, ho]
      rfl
    rw [listedCid] at ho
    cases hstem : stemOf name with
    | none =>
      -- not the name of a body
      rw [hstem] at ho
      obtain rfl := Except.ok.inj ho
      have hno : ¬ ∃ stem, name = bodyFile stem ∧ stem.utf8ByteSize = 64 := by
        rintro ⟨stem, hname⟩
        rw [stemOf_eq_some.mpr hname] at hstem
        cases hstem
      rw [chainEntries_of_not_body hno, List.filterMap_cons_none hlisted]
      exact ih hrest entries
    | some stem =>
      obtain ⟨rfl, hsize⟩ := stemOf_eq_some.mp hstem
      rw [hstem, Option.elim_some] at ho
      rw [exec_chainEntries_body hsize, ho]
      cases o with
      | none =>
        rw [List.filterMap_cons_none hlisted]
        exact ih hrest entries
      | some cid =>
        rw [List.filterMap_cons_some hlisted]
        obtain ⟨l, hl, hcids⟩ := @ih w.next hrest (entries ++
          [(((env.lookup w (bodyFile stem)).map (·.modified)).getD 0, cid)])
        refine ⟨(((env.lookup w (bodyFile stem)).map (·.modified)).getD 0, cid) :: l, ?_, ?_⟩
        · rw [List.append_cons]
          exact hl
        · rw [List.map_cons, hcids]

/-- Every entry of the chain has its place for a height, a hash of its own, and a file under the
lower-case spelling of that. -/
def Addressable (env : Env σ) (w : World σ) : Prop :=
  ∃ view, (exec env.handle chainView w).2 = .ok (.ok view) ∧
    view.map Prod.fst = List.range view.length ∧ (view.map Prod.snd).Nodup ∧
    ∀ e ∈ view, bodyFile (Hex.encode e.2.toList) ∈ w.dir

/-- Every file is not listed, or has the lower-case spelling of the hash it is listed under for a
name. -/
def Canonical (dir : Table String FileData) : Prop :=
  ∀ name ∈ dir, listedCid name = .ok none ∨
    ∃ cid : U8Array 32, name = bodyFile (Hex.encode cid.toList)

section

variable {names : List String} (hdir : env.handle _ .readDir w = (w.next, some names))

include hdir

/-- Names that can all be read make a chain of their hashes, numbered. -/
theorem exec_chainView_read (h : ∀ name ∈ names, ∃ o, listedCid name = .ok o) :
    ∃ view, (exec env.handle chainView w).2 = .ok (.ok view) ∧
      view.map Prod.fst = List.range view.length ∧
      (view.map Prod.snd).Perm (names.filterMap listedAs) := by
  obtain ⟨l, hl, hcids⟩ := @exec_chainEntries_read _ env w.next _ h []
  rw [List.nil_append] at hl
  rw [chainView, exec_ask_bind, hdir]
  dsimp only [Option.getD_some]
  rw [exec_bind_ok (Prod.ext rfl hl), exec_pure, ← hcids]
  set sorted := l.insertionSort fun a b => a.1 ≤ b.1
  have hperm : sorted.Perm l := List.perm_insertionSort _ _
  refine ⟨_, rfl, ?_, ?_⟩
  · rw [List.map_map, List.length_map, List.length_zipIdx]
    rw [List.range_eq_range', ← List.zipIdx_map_snd 0 sorted]
    rfl
  · -- numbering the entries leaves their hashes
    have hsnd : sorted.zipIdx.map (fun x => x.1.2) = sorted.map Prod.snd := by
      conv_rhs => rw [← List.zipIdx_map_fst 0 sorted]
      rw [List.map_map]
      rfl
    rw [List.map_map]
    show (sorted.zipIdx.map fun x => x.1.2).Perm _
    rw [hsnd]
    exact hperm.map _

end

/-- A chain that can be listed has no name that unwinds. -/
theorem read_of_chainView (hfault : env.fault w.tick = none) {view : List (ℕ × U8Array 32)}
    (hview : (exec env.handle chainView w).2 = .ok (.ok view)) :
    ∀ name ∈ w.dir, ¬ CutsStem name := by
  intro name hname hcut
  obtain ⟨p, hp⟩ : Unwinds env.handle chainView w :=
    unwinds_chainView_iff.mpr ⟨hfault, name, hname, hcut⟩
  rw [hview] at hp
  cases hp

/-- A directory that cannot be read makes an empty chain. -/
theorem exec_chainView_fault (hfault : env.fault w.tick ≠ none) :
    (exec env.handle chainView w).2 = .ok (.ok []) := by
  obtain ⟨f, hf⟩ := Option.ne_none_iff_exists'.mp hfault
  have hdir : env.handle _ .readDir w = (w.next, none) := by
    simp only [Env.handle, hf]
  rw [chainView, exec_ask_bind, hdir]
  rfl

theorem listedAs_of_listedCid {name : String} {cid : U8Array 32}
    (h : listedCid name = .ok (some cid)) : listedAs name = some cid := by
  rw [listedAs, h]
  rfl

/-- The hashes of a list are distinct if no two names are listed under one. -/
theorem nodup_listed_iff {names : List String} (hnodup : names.Nodup) :
    (names.filterMap listedAs).Nodup ↔ ∀ a ∈ names, ∀ b ∈ names, a ≠ b →
      ∀ c, listedAs a = some c → ∀ c', listedAs b = some c' → c ≠ c' := by
  rw [List.Nodup, List.pairwise_filterMap]
  constructor
  · intro h a ha b hb hab
    have hsymm : Std.Symm fun a a' : String => ∀ c, listedAs a = some c →
        ∀ c', listedAs a' = some c' → c ≠ c' :=
      ⟨fun x y hxy c hc c' hc' => (hxy c' hc' c hc).symm⟩
    exact h.forall ha hb hab
  · intro h
    exact hnodup.pairwise_of_forall_ne h

/-- A file on a list of canonical names has the name of the hash that it is listed under. -/
theorem Canonical.name_eq {dir : Table String FileData} (h : Canonical dir) {name : String}
    (hname : name ∈ dir) {cid : U8Array 32} (hcid : listedAs name = some cid) :
    name = bodyFile (Hex.encode cid.toList) := by
  rcases h name hname with hnone | ⟨cid', rfl⟩
  · rw [listedAs, hnone] at hcid
    cases hcid
  · rw [listedAs_of_listedCid (listedCid_encode cid')] at hcid
    obtain rfl := Option.some.inj hcid
    rfl

/-- **The chain is addressable** exactly if the names of the files that are listed are lower-case
spellings, or the directory cannot be read at all. -/
theorem addressable_iff (env : Env σ) (w : World σ) :
    Addressable env w ↔ env.fault w.tick ≠ none ∨ Canonical w.dir := by
  rcases hfault : env.fault w.tick with _ | f
  · rw [or_iff_right (not_not.mpr rfl)]
    have hdir : env.handle _ .readDir w = (w.next, some (env.listing w.tick w.dir.keys)) := by
      simp only [Env.handle, hfault]
    have hperm := env.listing_perm w.tick w.dir.keys
    have hnodup : (env.listing w.tick w.dir.keys).Nodup := hperm.nodup_iff.mpr w.dir.keys_nodup
    generalize env.listing w.tick w.dir.keys = names at hdir hperm hnodup
    have hmem {name : String} : name ∈ names ↔ name ∈ w.dir := hperm.mem_iff
    have hdistinct := nodup_listed_iff hnodup
    constructor
    · rintro ⟨view, hview, -, hcids, hfiles⟩ name hname
      have hread : ∀ name ∈ names, ∃ o, listedCid name = .ok o := fun name hname =>
        listedCid_read_iff.mpr (read_of_chainView hfault hview name (hmem.mp hname))
      obtain ⟨view', hview', -, hperm'⟩ := exec_chainView_read hdir hread
      obtain rfl := Except.ok.inj (Except.ok.inj (hview'.symm.trans hview))
      obtain ⟨o, ho⟩ := hread name (hmem.mpr hname)
      cases o with
      | none => exact .inl ho
      | some cid =>
        right
        refine ⟨cid, ?_⟩
        have hlisted := listedAs_of_listedCid ho
        have hcid := List.mem_filterMap.mpr ⟨name, hmem.mpr hname, hlisted⟩
        obtain ⟨e, he, rfl⟩ := List.mem_map.mp (hperm'.mem_iff.mpr hcid)
        -- the file of the entry is listed under the same hash, so it is this one
        by_contra hne
        exact hdistinct.mp (hperm'.nodup_iff.mp hcids) name (hmem.mpr hname) _
          (hmem.mpr (hfiles e he)) hne e.2 hlisted e.2
          (listedAs_of_listedCid (listedCid_encode e.2)) rfl
    · intro hcanonical
      have hread : ∀ name ∈ names, ∃ o, listedCid name = .ok o := by
        intro name hname
        rcases hcanonical name (hmem.mp hname) with hnone | ⟨cid, rfl⟩
        · exact ⟨none, hnone⟩
        · exact ⟨some cid, listedCid_encode cid⟩
      obtain ⟨view, hview, hheights, hperm'⟩ := exec_chainView_read hdir hread
      refine ⟨view, hview, hheights, hperm'.nodup_iff.mpr (hdistinct.mpr ?_), ?_⟩
      · rintro a ha b hb hab c hc _ hc' rfl
        exact hab ((hcanonical.name_eq (hmem.mp ha) hc).trans
          (hcanonical.name_eq (hmem.mp hb) hc').symm)
      · intro e he
        have hcid := hperm'.mem_iff.mp (List.mem_map_of_mem he)
        obtain ⟨name, hn, hcid⟩ := List.mem_filterMap.mp hcid
        rw [← hcanonical.name_eq (hmem.mp hn) hcid]
        exact hmem.mp hn
  · -- an unreadable directory has no entries
    have hview : (exec env.handle chainView w).2 = .ok (.ok []) :=
      exec_chainView_fault (hfault ▸ Option.some_ne_none f)
    exact iff_of_true ⟨[], hview, rfl, List.nodup_nil, List.forall_mem_nil _⟩
      (.inl (Option.some_ne_none f))

end

/-- A file with an upper-case name is listed, and cannot be found under the hash that is listed. -/
theorem upper_case_not_addressable :
    let env : Env Unit := .still (fun p _ => (p, .error "closed")) 60
    let name := bodyFile (String.ofList (List.replicate 64 'A'))
    ¬ Addressable env { World.fresh () with dir := (∅ : Table _ _).insert name ⟨[7], 0⟩ } := by
  rintro env name ⟨view, hview, -, -, hfiles⟩
  have hlist : (exec env.handle chainView
      { World.fresh () with dir := (∅ : Table _ _).insert name ⟨[7], 0⟩ }).2 =
      .ok (.ok [(0, .replicate 32 0xaa)]) := by
    decide +kernel
  obtain rfl := Except.ok.inj (Except.ok.inj (hlist.symm.trans hview))
  exact absurd (hfiles _ List.mem_cons_self) (by decide +kernel)

/-! ## Chain requests -/

/-- The height a chain request asks for, 0 without one. -/
def requestedTop (msg : Rpc2Message) : ℕ :=
  ((msg.payload.get "TOP").bind Value.asU64).elim 0 UInt64.toNat

/-- The number of entries a chain request asks for, 128 without one. -/
def requestedCount (msg : Rpc2Message) : ℕ :=
  ((msg.payload.get "N").bind Value.asU64).elim 128 UInt64.toNat

/-- The newest `n` entries at most as high as `top`, newest first, and no more than 5000. -/
def window (top n : ℕ) (chain : List (ℕ × U8Array 32)) : List (ℕ × U8Array 32) :=
  (chain.reverse.filter (Below top)).take (min n 5000)

section

variable {top n : ℕ} {l selected : List (ℕ × U8Array 32)}

/-- With `n` entries selected, it goes past `n` and does not stop. -/
theorem selectChain_of_le (h : n ≤ selected.length) :
    selectChain top n l selected = selected ++ l.filter (Below top) := by
  induction l generalizing selected with
  | nil => rw [selectChain, List.filter_nil, List.append_nil]
  | cons e rest ih =>
    by_cases he : Below top e = true
    · have hlen : (selected ++ [e]).length = selected.length + 1 := List.length_append
      rw [selectChain_cons_below he, List.filter_cons_of_pos he,
        List.append_cons selected e (rest.filter _), if_neg (by omega)]
      exact ih (by omega)
    · rw [selectChain_cons_above he, List.filter_cons_of_neg he]
      exact ih h

end

section

variable {σ : Type} {env : Env σ} {msg : Rpc2Message} {w : World σ}

/-- The response to a chain request has the entries that it asks for, and no more than it asks
for. -/
def AnswersWindow (env : Env σ) (msg : Rpc2Message) (w : World σ) : Prop :=
  ∃ view, (exec env.handle chainView w).2 = .ok (.ok view) ∧
    let asked := window (requestedTop msg) (requestedCount msg) view
    (exec env.handle (handleChain msg) w).1.sent =
        w.sent ++ [okFrame msg (chainResponse asked)] ∧
      asked.length ≤ min (requestedCount msg) 5000

/-- What is sent are the entries that the loop selects. -/
theorem sent_handleChain {view : List (ℕ × U8Array 32)}
    (hview : (exec env.handle chainView w).2 = .ok (.ok view)) :
    (exec env.handle (handleChain msg) w).1.sent = w.sent ++ [okFrame msg (chainResponse
      (selectChain (requestedTop msg) (min (requestedCount msg) 5000) view.reverse []))] :=
  (Responds.bind only_chainView_sends hview (responds_respond _)).sent

/-- Of a chain that can be listed, a request for no entries is sent all, and another its window. -/
theorem answersWindow_iff {view : List (ℕ × U8Array 32)}
    (hview : (exec env.handle chainView w).2 = .ok (.ok view))
    (hheights : view.map Prod.fst = List.range view.length) :
    AnswersWindow env msg w ↔ requestedCount msg ≠ 0 ∨ view = [] := by
  have hsent := @sent_handleChain _ _ msg _ _ hview
  by_cases hzero : requestedCount msg = 0
  · -- no length is 0 after a push, so that everything is selected
    rw [hzero, Nat.zero_min, selectChain_of_le (Nat.zero_le _), List.nil_append] at hsent
    rw [or_iff_right (not_not.mpr hzero)]
    constructor
    · rintro ⟨view', hview', hasked, -⟩
      obtain rfl := Except.ok.inj (Except.ok.inj (hview'.symm.trans hview))
      rw [hsent, hzero, window, Nat.zero_min, List.take_zero] at hasked
      have hframe := (List.cons.inj (List.append_cancel_left hasked)).1
      have hbody : chainResponse _ = chainResponse [] := List.append_cancel_left hframe
      have hlen := congrArg List.length hbody
      rcases view' with _ | ⟨e, rest⟩
      · rfl
      -- the oldest entry is as low as any height
      have hfirst : e.1 = 0 := by
        rw [List.map_cons, List.length_cons, List.range_succ_eq_map] at hheights
        exact (List.cons.inj hheights).1
      have hmem : e ∈ (e :: rest).reverse.filter (Below (requestedTop msg)) := by
        rw [List.mem_filter, List.mem_reverse]
        exact ⟨List.mem_cons_self, below_iff.mpr (by omega)⟩
      have hpos := List.length_pos_of_mem hmem
      have hlong := length_lt_chainResponse
        ((e :: rest).reverse.filter (Below (requestedTop msg)))
      have hnone : (chainResponse []).length = 1 := rfl
      omega
    · rintro rfl
      refine ⟨[], hview, ?_, List.length_take_le _ _⟩
      rw [hsent, window, List.reverse_nil, List.filter_nil, List.take_nil]
  · have hpos : ([] : List (ℕ × U8Array 32)).length < min (requestedCount msg) 5000 := by
      rw [List.length_nil]
      omega
    rw [selectChain_of_lt hpos, List.nil_append] at hsent
    exact iff_of_true ⟨view, hview, hsent, List.length_take_le _ _⟩ (.inl hzero)

/-- **A chain request is answered by its window** exactly if the directory cannot be read, or no
name in it unwinds its reader, and the request is for some entry or there is none. -/
theorem handleChain_iff (env : Env σ) (msg : Rpc2Message) (w : World σ) :
    AnswersWindow env msg w ↔ env.fault w.tick ≠ none ∨
      (∀ name ∈ w.dir, ¬ CutsStem name) ∧
        (requestedCount msg ≠ 0 ∨ ∀ name ∈ w.dir, listedAs name = none) := by
  by_cases hfault : env.fault w.tick = none
  swap
  · exact iff_of_true ((answersWindow_iff (exec_chainView_fault hfault) rfl).mpr (.inr rfl))
      (.inl hfault)
  rw [or_iff_right (not_not.mpr hfault)]
  by_cases hread : ∀ name ∈ w.dir, ¬ CutsStem name
  swap
  · -- the list unwinds, and nothing is sent
    refine iff_of_false ?_ fun h => hread h.1
    rintro ⟨view, hview, -⟩
    exact hread (read_of_chainView hfault hview)
  have hdir : env.handle _ .readDir w = (w.next, some (env.listing w.tick w.dir.keys)) := by
    simp only [Env.handle, hfault]
  have hmem {name : String} : name ∈ env.listing w.tick w.dir.keys ↔ name ∈ w.dir :=
    (env.listing_perm w.tick w.dir.keys).mem_iff
  obtain ⟨view, hview, hheights, hperm⟩ := exec_chainView_read hdir fun name hname =>
    listedCid_read_iff.mpr (hread name (hmem.mp hname))
  have hempty : view = [] ↔ ∀ name ∈ w.dir, listedAs name = none := by
    rw [← List.map_eq_nil_iff (f := Prod.snd), ← List.perm_nil, hperm.congr_left, List.perm_nil,
      List.filterMap_eq_nil_iff]
    exact ⟨fun h name hn => h name (hmem.mpr hn), fun h name hn => h name (hmem.mp hn)⟩
  rw [answersWindow_iff hview hheights, hempty, and_iff_right hread]

end

/-- A chain request for `n` entries up to the height `top`. -/
def chainMessage (top n : ℕ) : Rpc2Message :=
  ⟨"Peer.Chain", 2, "", .object [("N", .uint n), ("TOP", .uint top)]⟩

/-- A server of the body `[7]` has a chain of one entry. -/
theorem chainView_seven :
    (exec (Env.still (fun p _ => (p, .error "closed")) 60).handle chainView
      (serverOf .leading [[7]])).2 = .ok (.ok [(0, Build.leading.sha256 [7])]) := by
  have hnodup : ([[7]].map Build.leading.sha256).Nodup := List.nodup_singleton _
  exact (servesChain_serverOf hnodup (by decide)).view

/-- A request for no entries is answered by all of them. -/
theorem none_requested_all_sent :
    let env : Env Unit := .still (fun p _ => (p, .error "closed")) 60
    let msg := chainMessage 0 0
    requestedCount msg = 0 ∧
      (exec env.handle (handleChain msg) (serverOf .leading [[7]])).1.sent =
        [okFrame msg (chainResponse [(0, Build.leading.sha256 [7])])] ∧
      ¬ AnswersWindow env msg (serverOf .leading [[7]]) := by
  intro env msg
  have hview : (exec env.handle chainView (serverOf .leading [[7]])).2 =
      .ok (.ok [(0, Build.leading.sha256 [7])]) := chainView_seven
  have hsent := @sent_handleChain _ _ msg _ _ hview
  have hall : selectChain (requestedTop msg) (min (requestedCount msg) 5000)
      [(0, Build.leading.sha256 [7])].reverse [] = [(0, Build.leading.sha256 [7])] :=
    selectChain_of_le (Nat.zero_le _)
  have hnothing : (serverOf .leading [[7]]).sent = [] := rfl
  rw [hall, hnothing, List.nil_append] at hsent
  refine ⟨rfl, hsent, fun h => ?_⟩
  rcases (answersWindow_iff hview rfl).mp h with hsome | hnone
  · exact hsome rfl
  · cases hnone

end SporePeer
