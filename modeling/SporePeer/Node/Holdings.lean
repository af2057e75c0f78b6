import SporePeer.Node.Exchange
import SporePeer.Node.Retention

/-!
# A store as a set of bodies

The files of a store that matter to other nodes are its bodies, each under its hash. Besides them a
directory may hold a peer list, envelopes and parts of files. A sync pass adds what the server
holds, and a push pass adds to the server what the client holds; where no two bodies have one hash,
they put two sets together.

## Main definitions

* `HoldsBodies`: the bodies of a directory, as a set
* `Besides`: two directories have the same files besides bodies and their parts
* `Gains`: a directory with the bodies of names that it had none of
* `missingFrom`: the bodies that a directory lacks

## Main results

* `chainView_holds`: the chain of a directory lists its bodies
* `exec_syncEntries_gains`, `exec_pushEntries_gains`: the two loops
* `exec_syncStream_gains`, `exec_pushStream_gains`: the two passes
* `exec_syncStream_holds`, `exec_pushStream_holds`: the passes in terms of sets
-/

namespace SporePeer

open Effects Text

/-- The bodies of `dir` are those of `bodies`, each of them under its hash. -/
structure HoldsBodies (build : Build) (dir : Table String FileData) (bodies : Finset Bytes) :
    Prop where
  held : ∀ cid b, bodiesOf dir cid = some b ↔ b ∈ bodies ∧ cidOf build b = cid
  fits : ∀ b ∈ bodies, Fits b

/-- The two directories have the same files besides bodies and their parts. -/
def Besides (dir dir' : Table String FileData) : Prop :=
  ∀ name, ¬ IsBodyFile name → (∀ cid, name ≠ incomingFile cid) →
    dir'.lookup name = dir.lookup name

/-- The directory has gained the bodies of `new` under the names that it had none of. Parts of
bodies may be gone. -/
structure Gains (new : String → Option Bytes) (dir dir' : Table String FileData) : Prop where
  bodies : ∀ cid, bodiesOf dir' cid = (bodiesOf dir cid).or (new cid)
  besides : Besides dir dir'
  parts : ∀ cid, dir.lookup (incomingFile cid) = none → dir'.lookup (incomingFile cid) = none

/-- The first of the bodies that hashes to `cid`. -/
def firstOf (build : Build) (bs : List Bytes) (cid : String) : Option Bytes :=
  bs.find? fun b => cidOf build b = cid

/-- The directory has no body of the hash of `b`. -/
def lacks (build : Build) (dir : Table String FileData) (b : Bytes) : Bool :=
  (bodiesOf dir (cidOf build b)).isNone

/-- Those of the bodies of whose hashes the directory has none. -/
def missingFrom (build : Build) (dir : Table String FileData) (bodies : Finset Bytes) :
    Finset Bytes :=
  bodies.filter fun b => lacks build dir b

section

variable {build : Build} {dir dir' dir'' : Table String FileData} {mine : Finset Bytes} {b : Bytes}

theorem Besides.refl (dir : Table String FileData) : Besides dir dir := fun _ _ _ => rfl

theorem Besides.trans (h : Besides dir dir') (h' : Besides dir' dir'') : Besides dir dir'' :=
  fun name hbody hpart => (h' name hbody hpart).trans (h name hbody hpart)

theorem peersIn_of_besides (h : Besides dir dir') : peersIn dir' = peersIn dir := by
  have hpart (cid : String) : peersFile ≠ incomingFile cid := by
    intro heq
    have hhead := congrArg (fun s : String => s.toList.head?) heq
    simp [peersFile, incomingFile] at hhead
  rw [peersIn, peersIn, h peersFile not_isBodyFile_peersFile hpart]

/-! ## Gains -/

section

variable {bs : List Bytes} {cid : String}

theorem lacks_iff : lacks build dir b ↔ bodiesOf dir (cidOf build b) = none :=
  Option.isNone_iff_eq_none

theorem firstOf_cons : firstOf build (b :: bs) cid =
    if cidOf build b = cid then some b else firstOf build bs cid := by
  rw [firstOf, List.find?_cons]
  by_cases h : cidOf build b = cid
  · simp [h]
  · simp [h, firstOf]

theorem gains_nil : Gains (firstOf build []) dir dir :=
  ⟨fun _ => (Option.or_none).symm, .refl dir, fun _ h => h⟩

/-- One more body that has been gained. -/
theorem Gains.cons (h : Gains (firstOf build [b]) dir dir')
    (h' : Gains (firstOf build bs) dir' dir'') : Gains (firstOf build (b :: bs)) dir dir'' := by
  refine ⟨fun cid => ?_, h.besides.trans h'.besides,
    fun cid hnone => h'.parts cid (h.parts cid hnone)⟩
  rw [h'.bodies, h.bodies, Option.or_assoc, firstOf_cons, firstOf_cons]
  split
  · rfl
  · rfl

/-- A body of another hash is there if it was. -/
theorem Gains.of_ne (h : Gains (firstOf build [b]) dir dir') (hne : cidOf build b ≠ cid) :
    bodiesOf dir' cid = bodiesOf dir cid := by
  rw [h.bodies, firstOf_cons, if_neg hne]
  exact Option.or_none

/-- Nothing is gained where a body of the hash is there. -/
theorem gains_of_held (h : (bodiesOf dir (cidOf build b)).isSome) :
    Gains (firstOf build [b]) dir dir := by
  refine ⟨fun cid => ?_, .refl dir, fun _ h => h⟩
  rw [firstOf_cons]
  split
  · rename_i hcid
    rw [← hcid, Option.or_of_isSome h]
  · exact (Option.or_none).symm

theorem or_firstOf_of_none (hnone : bodiesOf dir (cidOf build b) = none) (cid : String) :
    (bodiesOf dir cid).or (firstOf build [b] cid) =
      Function.update (bodiesOf dir) (cidOf build b) (some b) cid := by
  rw [firstOf_cons, Function.update_apply]
  by_cases hcid : cidOf build b = cid
  · rw [if_pos hcid, if_pos hcid.symm, ← hcid, hnone]
    rfl
  · rw [if_neg hcid, if_neg (Ne.symm hcid)]
    exact Option.or_none

/-- A file that is written under its hash. -/
theorem gains_insert (hnone : bodiesOf dir (cidOf build b) = none) (m : ℕ) :
    Gains (firstOf build [b]) dir (dir.insert (bodyFile (cidOf build b)) ⟨b, m⟩) := by
  refine ⟨fun cid => ?_, fun name hbody _ => ?_, fun cid hpart => ?_⟩
  · rw [or_firstOf_of_none hnone, bodiesOf, Table.lookup_insert_eq, Function.update_apply]
    by_cases hcid : cid = cidOf build b
    · rw [if_pos (congrArg bodyFile hcid), if_pos hcid]
      rfl
    · rw [if_neg (mt bodyFile_inj.mp hcid), if_neg hcid]
      rfl
  · rw [Table.lookup_insert_eq, if_neg fun heq => hbody ⟨_, heq⟩]
  · rw [Table.lookup_insert_eq, if_neg (bodyFile_ne_incomingFile _ _).symm]
    exact hpart

/-- A file that is written to its part and renamed. -/
theorem gains_stored (hnone : bodiesOf dir (cidOf build b) = none) (m : ℕ) :
    Gains (firstOf build [b]) dir
      (((dir.insert (incomingFile (cidOf build b)) ⟨b, m⟩).erase
        (incomingFile (cidOf build b))).insert (bodyFile (cidOf build b)) ⟨b, m⟩) := by
  refine ⟨fun cid => ?_, fun name hbody hpart => ?_, fun cid hpart => ?_⟩
  · rw [or_firstOf_of_none hnone, bodiesOf_stored]
  · rw [Table.lookup_insert_eq, if_neg fun heq => hbody ⟨_, heq⟩, Table.lookup_erase_eq,
      if_neg (hpart _), Table.lookup_insert_eq, if_neg (hpart _)]
  · rw [Table.lookup_insert_eq, if_neg (bodyFile_ne_incomingFile _ _).symm, Table.lookup_erase_eq]
    split
    · rfl
    · rw [Table.lookup_insert_eq, if_neg ‹_›]
      exact hpart

end

/-! ## Sets of bodies -/

namespace HoldsBodies

theorem bodiesOf_cidOf (h : HoldsBodies build dir mine) (hb : b ∈ mine) :
    bodiesOf dir (cidOf build b) = some b := (h.held _ _).mpr ⟨hb, rfl⟩

theorem exists_file (h : HoldsBodies build dir mine) (hb : b ∈ mine) :
    ∃ d, dir.lookup (bodyFile (cidOf build b)) = some d ∧ d.content = b :=
  Option.map_eq_some_iff.mp (h.bodiesOf_cidOf hb)

/-- Directories have the same bodies if they have the same set of them. -/
theorem bodiesOf_eq_iff {theirs : Finset Bytes} (h : HoldsBodies build dir mine)
    (h' : HoldsBodies build dir' theirs) : bodiesOf dir = bodiesOf dir' ↔ mine = theirs := by
  constructor
  · intro heq
    ext b
    have hmine := h.held (cidOf build b) b
    have htheirs := h'.held (cidOf build b) b
    rw [heq] at hmine
    simp only [and_true] at hmine htheirs
    exact hmine.symm.trans htheirs
  · rintro rfl
    funext cid
    exact Option.ext fun b => (h.held cid b).trans (h'.held cid b).symm

/-- A body is held if a body of its hash is. -/
theorem isSome_iff {all : Finset Bytes} (h : HoldsBodies build dir mine) (hmine : mine ⊆ all)
    (hinj : Set.InjOn (cidOf build) all) (hb : b ∈ all) :
    (dir.lookup (bodyFile (cidOf build b))).isSome ↔ b ∈ mine := by
  constructor
  · intro hsome
    obtain ⟨d, hd⟩ := Option.isSome_iff_exists.mp hsome
    have hbody : bodiesOf dir (cidOf build b) = some d.content := by rw [bodiesOf, hd]; rfl
    obtain ⟨hmem, hcid⟩ := (h.held _ _).mp hbody
    rwa [← hinj (hmine hmem) hb hcid]
  · intro hmem
    obtain ⟨d, hd, -⟩ := h.exists_file hmem
    rw [hd]
    rfl

/-- What a directory lacks of what another one holds. -/
theorem missingFrom_eq {all theirs : Finset Bytes} (h : HoldsBodies build dir mine)
    (hmine : mine ⊆ all) (hinj : Set.InjOn (cidOf build) all) (hsub : theirs ⊆ all) :
    missingFrom build dir theirs = theirs \ mine := by
  ext b
  rw [missingFrom, Finset.mem_filter, lacks_iff, Finset.mem_sdiff]
  refine and_congr_right fun hb => ?_
  rw [← h.isSome_iff hmine hinj (hsub hb), ← Option.not_isSome_iff_eq_none, bodiesOf,
    Option.isSome_map]

/-- No two bodies of a directory have one hash. -/
theorem injOn (h : HoldsBodies build dir mine) : Set.InjOn (cidOf build) mine := by
  intro b hb c hc heq
  have hcid : bodiesOf dir (cidOf build b) = some c := heq ▸ h.bodiesOf_cidOf hc
  exact Option.some.inj ((h.bodiesOf_cidOf hb).symm.trans hcid)

/-- The bodies of a directory by their hashes, in any order. -/
theorem firstOf_eq (h : HoldsBodies build dir mine) {bs : List Bytes} (hbs : bs.toFinset = mine) :
    firstOf build bs = bodiesOf dir := by
  funext cid
  ext b
  have hmem (c : Bytes) : c ∈ bs ↔ c ∈ mine := by rw [← hbs, List.mem_toFinset]
  constructor
  · intro hfirst
    have hcid : cidOf build b = cid := by simpa using List.find?_some hfirst
    exact (h.held cid b).mpr ⟨(hmem b).mp (List.mem_of_find?_eq_some hfirst), hcid⟩
  · intro hbody
    obtain ⟨hb, rfl⟩ := (h.held cid b).mp hbody
    rcases hfirst : firstOf build bs (cidOf build b) with _ | c
    · have hnone := List.find?_eq_none.mp hfirst b ((hmem b).mpr hb)
      simp at hnone
    · have hcid : cidOf build c = cidOf build b := by simpa using List.find?_some hfirst
      have hc : c ∈ mine := (hmem c).mp (List.mem_of_find?_eq_some hfirst)
      rw [h.injOn hc hb hcid]

theorem nodup_cids (h : HoldsBodies build dir mine) {bs : List Bytes} (hnodup : bs.Nodup)
    (hbs : bs.toFinset = mine) : (bs.map (cidOf build)).Nodup := by
  refine hnodup.map_on fun b hb c hc heq => h.injOn ?_ ?_ heq
  · exact hbs ▸ List.mem_toFinset.mpr hb
  · exact hbs ▸ List.mem_toFinset.mpr hc

/-- The bodies of another directory are added. -/
theorem gains {all theirs : Finset Bytes} (h : HoldsBodies build dir mine)
    (h' : HoldsBodies build dir'' theirs) (hmine : mine ⊆ all) (htheirs : theirs ⊆ all)
    (hinj : Set.InjOn (cidOf build) all) (hgains : Gains (bodiesOf dir'') dir dir') :
    HoldsBodies build dir' (mine ∪ theirs) := by
  refine ⟨fun cid b => ?_, fun b hb => ?_⟩
  · rw [hgains.bodies, Option.or_eq_some_iff, h.held, h'.held, Finset.mem_union]
    constructor
    · rintro (⟨hb, hcid⟩ | ⟨-, hb, hcid⟩)
      · exact ⟨.inl hb, hcid⟩
      · exact ⟨.inr hb, hcid⟩
    · rintro ⟨hb, rfl⟩
      rcases hdir : bodiesOf dir (cidOf build b) with _ | c
      · rcases hb with hb | hb
        · exact .inl ⟨hb, rfl⟩
        · exact .inr ⟨rfl, hb, rfl⟩
      · -- a body of the hash is there, so it is this one
        obtain ⟨hc, hcid⟩ := (h.held _ _).mp hdir
        have hball : b ∈ all := hb.elim (hmine ·) (htheirs ·)
        exact .inl ⟨hinj (hmine hc) hball hcid ▸ hc, rfl⟩
  · exact (Finset.mem_union.mp hb).elim (h.fits b) (h'.fits b)

/-- A body is added. -/
theorem insert_body {all : Finset Bytes} (h : HoldsBodies build dir mine) (hmine : mine ⊆ all)
    (hinj : Set.InjOn (cidOf build) all) (hb : b ∈ all) (hfits : Fits b)
    (hbodies : bodiesOf dir' = Function.update (bodiesOf dir) (cidOf build b) (some b)) :
    HoldsBodies build dir' (insert b mine) := by
  refine ⟨fun cid b' => ?_, fun b' hb' => ?_⟩
  · rw [hbodies, Function.update_apply, Finset.mem_insert]
    split
    · rename_i hcid
      subst hcid
      constructor
      · rintro ⟨⟩
        exact ⟨.inl rfl, rfl⟩
      · rintro ⟨hb', hcid⟩
        rcases hb' with rfl | hb'
        · rfl
        · rw [hinj (hmine hb') hb hcid]
    · rename_i hcid
      rw [h.held]
      constructor
      · rintro ⟨hb', hcid'⟩
        exact ⟨.inr hb', hcid'⟩
      · rintro ⟨rfl | hb', hcid'⟩
        · exact absurd hcid'.symm hcid
        · exact ⟨hb', hcid'⟩
  · rcases Finset.mem_insert.mp hb' with rfl | hb'
    · exact hfits
    · exact h.fits b' hb'

/-- A file that is no body does not count. -/
theorem insert_other (h : HoldsBodies build dir mine) {name : String} (hname : ¬ IsBodyFile name)
    (d : FileData) : HoldsBodies build (dir.insert name d) mine := by
  have hbodies : bodiesOf (dir.insert name d) = bodiesOf dir := by
    funext cid
    rw [bodiesOf, Table.lookup_insert_eq, if_neg fun heq => hname ⟨cid, heq.symm⟩]
    rfl
  exact ⟨fun cid b => hbodies ▸ h.held cid b, h.fits⟩

/-- A directory of given bodies. -/
theorem of_storeOf {bs : List Bytes} (hfits : ∀ b ∈ bs, Fits b)
    (hinj : Set.InjOn (cidOf build) (bs.toFinset : Finset Bytes)) :
    HoldsBodies build (storeOf build bs) bs.toFinset := by
  induction bs with
  | nil =>
    refine ⟨fun cid b => iff_of_false ?_ ?_, fun b hb => ?_⟩
    · exact Option.some_ne_none b ∘ Eq.symm
    · rintro ⟨hb, -⟩
      exact List.not_mem_nil (List.mem_toFinset.mp hb)
    · exact (List.not_mem_nil (List.mem_toFinset.mp hb)).elim
  | cons b rest ih =>
    obtain ⟨hb, hrest⟩ := List.forall_mem_cons.mp hfits
    have hsub : rest.toFinset ⊆ (b :: rest).toFinset := by
      rw [List.toFinset_cons]
      exact Finset.subset_insert _ _
    rw [List.toFinset_cons]
    refine (ih hrest (hinj.mono hsub)).insert_body hsub hinj
      (List.mem_toFinset.mpr List.mem_cons_self) hb (funext fun cid => ?_)
    rw [bodiesOf, storeOf, Table.lookup_insert_eq, Function.update_apply]
    by_cases hcid : cid = cidOf build b
    · rw [if_pos (congrArg bodyFile hcid), if_pos hcid]
      rfl
    · rw [if_neg (mt bodyFile_inj.mp hcid), if_neg hcid]
      rfl

/-- The content of a file, if it is a body under its hash. -/
def bodyUnder (build : Build) (dir : Table String FileData) (name : String) : Option Bytes :=
  (dir.lookup name).bind fun d =>
    if name = bodyFile (cidOf build d.content) then some d.content else none

theorem bodyUnder_eq_some {name : String} (hname : bodyUnder build dir name = some b) :
    name = bodyFile (cidOf build b) ∧ bodiesOf dir (cidOf build b) = some b := by
  obtain ⟨d, hd, hif⟩ := Option.bind_eq_some_iff.mp hname
  split at hif
  · rename_i hfile
    obtain rfl := Option.some.inj hif
    refine ⟨hfile, ?_⟩
    rw [bodiesOf, ← hfile, hd]
    rfl
  · cases hif

/-- Every file of the directory is read as what the chain makes of it. -/
theorem listedCid_eq (h : HoldsBodies build dir mine) {name : String} {d : FileData}
    (hd : dir.lookup name = some d) :
    listedCid name = .ok ((bodyUnder build dir name).map build.sha256) := by
  by_cases hbody : IsBodyFile name
  · obtain ⟨stem, rfl⟩ := hbody
    have hstem : bodiesOf dir stem = some d.content := by rw [bodiesOf, hd]; rfl
    obtain ⟨-, rfl⟩ := (h.held _ _).mp hstem
    rw [bodyUnder, hd, Option.bind_some, if_pos rfl]
    exact listedCid_encode (build.sha256 d.content)
  · have hnone : bodyUnder build dir name = none := by
      rw [bodyUnder, hd, Option.bind_some, if_neg fun hfile => hbody ⟨_, hfile⟩]
    have hstem : stemOf name = none := by
      rcases hs : stemOf name with _ | stem
      · rfl
      · exact absurd ⟨stem, (stemOf_eq_some.mp hs).1⟩ hbody
    rw [hnone, listedCid, hstem]
    rfl

/-- The files of a directory that are bodies, in any order of its files. -/
theorem exists_bodies (h : HoldsBodies build dir mine) {names : List String}
    (hperm : names.Perm dir.keys) : ∃ bs : List Bytes, bs.Nodup ∧ bs.toFinset = mine ∧
      names.filterMap listedAs = bs.map build.sha256 := by
  refine ⟨names.filterMap (bodyUnder build dir), ?_, ?_, ?_⟩
  · have hnodup : names.Nodup := hperm.nodup_iff.mpr dir.keys_nodup
    refine hnodup.filterMap fun name name' b hb hb' => ?_
    exact (bodyUnder_eq_some hb).1.trans (bodyUnder_eq_some hb').1.symm
  · ext b
    rw [List.mem_toFinset, List.mem_filterMap]
    constructor
    · rintro ⟨name, -, hname⟩
      exact ((h.held _ _).mp (bodyUnder_eq_some hname).2).1
    · intro hb
      obtain ⟨d, hd, rfl⟩ := h.exists_file hb
      refine ⟨_, hperm.mem_iff.mpr (Table.mem_of_lookup hd), ?_⟩
      rw [bodyUnder, hd, Option.bind_some, if_pos rfl]
  · rw [List.map_filterMap]
    refine List.filterMap_congr fun name hname => ?_
    obtain ⟨d, hd⟩ := Option.isSome_iff_exists.mp (AList.lookup_isSome.mpr (hperm.mem_iff.mp hname))
    rw [listedAs, h.listedCid_eq hd]
    rfl

end HoldsBodies

end

/-! ## The chain -/

section

variable {σ : Type} {env : Env σ} {build : Build} {w : World σ} {mine : Finset Bytes}

/-- **The chain of a directory** lists its bodies, each of them once. -/
theorem chainView_holds (hcalm : env.Calm) (h : HoldsBodies build w.dir mine) :
    ∃ view, ∃ bs : List Bytes, (exec env.handle chainView w).2 = .ok (.ok view) ∧ bs.Nodup ∧
      bs.toFinset = mine ∧ view.map Prod.snd = bs.map build.sha256 := by
  have hperm := env.listing_perm w.tick w.dir.keys
  have hdir : env.handle _ .readDir w = (w.next, some (env.listing w.tick w.dir.keys)) := by
    simp only [Env.handle, hcalm w.tick]
  obtain ⟨view, hview, -, hcids⟩ := exec_chainView_read hdir fun name hname => by
    obtain ⟨d, hd⟩ := Option.isSome_iff_exists.mp (AList.lookup_isSome.mpr (hperm.mem_iff.mp hname))
    exact ⟨_, h.listedCid_eq hd⟩
  obtain ⟨bs, hnodup, hmine, hlisted⟩ := h.exists_bodies hperm
  rw [hlisted] at hcids
  -- the hash tells which body an entry stands for
  let body (cid : U8Array 32) : Bytes := (bodiesOf w.dir (Hex.encode cid.toList)).getD []
  have hbody : ∀ b ∈ mine, body (build.sha256 b) = b := by
    intro b hb
    have hheld := h.bodiesOf_cidOf hb
    rw [cidOf] at hheld
    simp only [body, hheld, Option.getD_some]
  have hbs : (bs.map build.sha256).map body = bs := by
    rw [List.map_map]
    conv_rhs => rw [← List.map_id bs]
    exact List.map_congr_left fun b hb => hbody b (hmine ▸ List.mem_toFinset.mpr hb)
  have hviewPerm : ((view.map Prod.snd).map body).Perm bs := by
    have := hcids.map body
    rwa [hbs] at this
  refine ⟨view, (view.map Prod.snd).map body, hview, hviewPerm.nodup_iff.mpr hnodup,
    (List.toFinset_eq_of_perm _ _ hviewPerm).trans hmine, ?_⟩
  rw [List.map_map]
  conv_lhs => rw [← List.map_id (view.map Prod.snd)]
  refine List.map_congr_left fun cid hcid => ?_
  obtain ⟨b, hb, rfl⟩ := List.mem_map.mp (hcids.mem_iff.mp hcid)
  exact (congrArg build.sha256 (hbody b (hmine ▸ List.mem_toFinset.mpr hb))).symm

end

/-! ## The calls of the client -/

section

variable {τ : Type} {senv : Env τ} {env : Env (World τ)} {build : Build} {sdir ip : String}
  {w : World (World τ)} {theirs : Finset Bytes}

variable (hnet : env.net = serverNet senv build {} sdir ip) (hscalm : senv.Calm)
  (htheirs : HoldsBodies build w.peer.dir theirs) (hcard : theirs.card ≤ 5000)

include hnet hscalm htheirs hcard

/-- The handshake tells the number of bodies. -/
theorem handshake_holds :
    ∃ s' hs, exec env.handle (rpc2Call "Peer.Handshake" 1 (handshakeRequest 1)) w =
        ({ w.next with peer := s' }, .ok (.ok hs)) ∧ s'.dir = w.peer.dir ∧ hs.error = "" ∧
      ((hs.payload.get "H").bind Value.asU64).elim 0 UInt64.toNat = theirs.card := by
  obtain ⟨view, bs, hview, hnodup, hbs, hcids⟩ := chainView_holds hscalm htheirs
  have hcount : view.length = theirs.card := by
    rw [← hbs, List.toFinset_card_of_nodup hnodup, ← List.length_map (f := Prod.snd), hcids,
      List.length_map]
  obtain ⟨s', hs, hcall, hdir, herr, hheight⟩ := handshake_served hnet hview
  refine ⟨s', hs, hcall, hdir, herr, ?_⟩
  rw [hheight, hcount, Nat.mod_eq_of_lt (by omega)]

/-- The chain lists every body once. -/
theorem chain_holds :
    ∃ s' m, ∃ es : List (ℕ × U8Array 32), ∃ bs : List Bytes,
      exec env.handle (rpc2Call "Peer.Chain" 2 (chainRequest 0 5000)) w =
        ({ w.next with peer := s' }, .ok (.ok m)) ∧ s'.dir = w.peer.dir ∧ m.error = "" ∧
      m.payload.asArray.getD [] = es.map chainValue ∧ bs.Nodup ∧ bs.toFinset = theirs ∧
      es.map Prod.snd = bs.map build.sha256 := by
  obtain ⟨view, bs, hview, hnodup, hbs, hcids⟩ := chainView_holds hscalm htheirs
  have hcount : view.length ≤ 5000 := by
    have hlen : view.length = bs.length := by
      rw [← List.length_map (f := Prod.snd), hcids, List.length_map]
    rw [hlen, ← List.toFinset_card_of_nodup hnodup, hbs]
    exact hcard
  obtain ⟨s', m, hcall, hdir, herr, hentries⟩ := chain_served hnet hview hcount
  refine ⟨s', m, view.reverse, bs.reverse, hcall, hdir, herr, hentries,
    List.nodup_reverse.mpr hnodup, ?_, ?_⟩
  · rw [List.toFinset_reverse, hbs]
  · rw [List.map_reverse, List.map_reverse, hcids]

end

/-! ## The loops -/

section

variable {τ : Type} {senv : Env τ} {env : Env (World τ)} {build : Build} {sdir ip : String}
  {w : World (World τ)}

variable (hnet : env.net = serverNet senv build {} sdir ip) (hscalm : senv.Calm)
  (hcalm : env.Calm) (dir : String)

include hnet hscalm hcalm

/-- **The loop of a sync pass** fetches the bodies that are missing, by induction on the bodies that
are listed: the hashes further on are not those fetched before. -/
theorem exec_syncEntries_gains {bs : List Bytes} (hnodup : (bs.map (cidOf build)).Nodup)
    (hserved : ∀ b ∈ bs, Fits b ∧ bodiesOf w.peer.dir (cidOf build b) = some b)
    {es : List (ℕ × U8Array 32)} (hes : es.map Prod.snd = bs.map build.sha256) {i : ℕ}
    (hcap : ∀ k b, bs[k]? = some b → lacks build w.dir b → i + k < syncCap) (fetched had : ℕ) :
    ∃ w', exec env.handle (syncEntries build dir i (es.map chainValue) fetched had) w =
        (w', .ok (.ok (fetched + bs.countP (lacks build w.dir),
          had + bs.countP fun b => !lacks build w.dir b))) ∧
      Gains (firstOf build bs) w.dir w'.dir ∧ w'.peer.dir = w.peer.dir := by
  induction bs generalizing es i w fetched had with
  | nil =>
    rw [List.map_nil, List.map_eq_nil_iff] at hes
    subst hes
    exact ⟨w, rfl, gains_nil, rfl⟩
  | cons b bs ih =>
    obtain ⟨e, rest, rfl, he, hrest⟩ := List.map_eq_cons_iff.mp hes
    rw [List.map_cons, List.nodup_cons] at hnodup
    obtain ⟨hnew, hnodup⟩ := hnodup
    obtain ⟨⟨hfits, hb⟩, hserved⟩ := List.forall_mem_cons.mp hserved
    have hroom : bodiesOf w.dir (cidOf build b) = none → i < syncCap :=
      fun hnone => hcap 0 b rfl (lacks_iff.mpr hnone)
    rw [List.map_cons, exec_syncEntries_cons]
    -- the rest of the loop, from a directory that has gained at most this body
    have hgo (w₁ : World (World τ)) (hgains : Gains (firstOf build [b]) w.dir w₁.dir)
        (hpeer : w₁.peer.dir = w.peer.dir) (fetched had : ℕ) :
        ∃ w', exec env.handle (syncEntries build dir (i + 1) (rest.map chainValue) fetched had) w₁ =
            (w', .ok (.ok (fetched + bs.countP (lacks build w.dir),
              had + bs.countP fun b => !lacks build w.dir b))) ∧
          Gains (firstOf build (b :: bs)) w.dir w'.dir ∧ w'.peer.dir = w.peer.dir := by
      have hsame : ∀ c ∈ bs, lacks build w₁.dir c = lacks build w.dir c := by
        intro c hc
        have hne : cidOf build b ≠ cidOf build c := by
          intro heq
          exact hnew (heq ▸ List.mem_map_of_mem hc)
        rw [lacks, lacks, hgains.of_ne hne]
      obtain ⟨w', hrun, hgains', hpeer'⟩ := ih (w := w₁) hnodup (hpeer ▸ hserved) hrest (i := i + 1)
        (fun k c hk hlack => by
          rw [hsame c (List.mem_of_getElem? hk)] at hlack
          have := hcap (k + 1) c hk hlack
          omega) fetched had
      refine ⟨w', ?_, hgains.cons hgains', hpeer'.trans hpeer⟩
      rw [hrun, List.countP_congr fun c hc => by rw [hsame c hc],
        List.countP_congr (p := fun c => !lacks build w₁.dir c) fun c hc => by rw [hsame c hc]]
    rcases exec_syncEntry_served hnet hscalm hfits hcalm dir hb he hroom with
      ⟨hheld, hrun⟩ | ⟨hnone, w₁, t, hrun, hdir₁, hpeer₁⟩
    · have hlack : ¬ lacks build w.dir b := by
        rw [lacks_iff, ← Option.not_isSome_iff_eq_none, not_not]
        exact hheld
      obtain ⟨w', hrun', hgains, hpeer⟩ := hgo w.next (gains_of_held hheld) rfl fetched (had + 1)
      refine ⟨w', ?_, hgains, hpeer⟩
      rw [hrun]
      dsimp only
      rw [hrun', List.countP_cons_of_neg hlack, List.countP_cons_of_pos (by simpa using hlack),
        Nat.add_right_comm had, Nat.add_assoc had]
    · have hgains₁ : Gains (firstOf build [b]) w.dir w₁.dir := hdir₁ ▸ gains_insert hnone t
      have hlack : lacks build w.dir b := lacks_iff.mpr hnone
      obtain ⟨w', hrun', hgains, hpeer⟩ := hgo w₁ hgains₁ hpeer₁ (fetched + 1) had
      refine ⟨w', ?_, hgains, hpeer⟩
      rw [hrun]
      dsimp only
      rw [hrun', List.countP_cons_of_pos hlack, List.countP_cons_of_neg (by simpa using hlack),
        Nat.add_right_comm fetched, Nat.add_assoc fetched]

variable {token : String} (htoken : maxBodyBytes + token.utf8ByteSize + 500 ≤ maxFrame)
  (readError : String → String)

include htoken

/-- **The loop of a push pass** sends the bodies that the server lacks, by induction on the bodies
that are listed here. -/
theorem exec_pushEntries_gains {bs : List Bytes} (hnodup : (bs.map (cidOf build)).Nodup)
    (hheld : ∀ b ∈ bs, Fits b ∧ bodiesOf w.dir (cidOf build b) = some b) {has : Finset String}
    (hhas : ∀ b ∈ bs, cidOf build b ∈ has ↔ ¬ lacks build w.peer.dir b)
    {view : List (ℕ × U8Array 32)} (hview : view.map Prod.snd = bs.map build.sha256)
    {attempted : ℕ} (hcap : attempted + bs.countP (lacks build w.peer.dir) ≤ syncCap)
    (pushed : ℕ) :
    ∃ w', exec env.handle (pushEntries build dir token readError has view attempted pushed) w =
        (w', .ok (.ok (pushed + bs.countP (lacks build w.peer.dir)))) ∧ w'.dir = w.dir ∧
      Gains (firstOf build bs) w.peer.dir w'.peer.dir := by
  induction bs generalizing view w attempted pushed with
  | nil =>
    rw [List.map_nil, List.map_eq_nil_iff] at hview
    subst hview
    exact ⟨w, rfl, rfl, gains_nil⟩
  | cons b bs ih =>
    obtain ⟨⟨topo, cid⟩, rest, rfl, rfl, hrest⟩ := List.map_eq_cons_iff.mp hview
    rw [List.map_cons, List.nodup_cons] at hnodup
    obtain ⟨hnew, hnodup⟩ := hnodup
    obtain ⟨⟨hfits, hb⟩, hheld⟩ := List.forall_mem_cons.mp hheld
    obtain ⟨hhead, hhas⟩ := List.forall_mem_cons.mp hhas
    by_cases hlack : lacks build w.peer.dir b
    · -- one request, which counts against the cap
      rw [List.countP_cons_of_pos hlack] at hcap ⊢
      have hnone : bodiesOf w.peer.dir (cidOf build b) = none := lacks_iff.mp hlack
      have hsync : syncCap = 2000 := rfl
      obtain ⟨w₁, t, hrun, hdir₁, hpeer₁⟩ := exec_pushObject_served hnet hscalm hfits hcalm dir
        htoken readError hb hnone (show 200 + (attempted + 1) < 2 ^ 64 by omega) topo
      have hgains₁ : Gains (firstOf build [b]) w.peer.dir w₁.peer.dir :=
        hpeer₁ ▸ gains_stored hnone t
      -- the hashes further on are not the one just sent
      have hsame : ∀ c ∈ bs, lacks build w₁.peer.dir c = lacks build w.peer.dir c := by
        intro c hc
        have hne : cidOf build b ≠ cidOf build c := by
          intro heq
          exact hnew (heq ▸ List.mem_map_of_mem hc)
        rw [lacks, lacks, hgains₁.of_ne hne]
      have hcount : bs.countP (lacks build w₁.peer.dir) = bs.countP (lacks build w.peer.dir) :=
        List.countP_congr fun c hc => by rw [hsame c hc]
      have hcap₁ : attempted + 1 + bs.countP (lacks build w₁.peer.dir) ≤ syncCap := by
        rw [hcount]
        omega
      obtain ⟨w', hrun', hdir, hgains⟩ := ih (w := w₁) hnodup (hdir₁ ▸ hheld)
        (fun c hc => by rw [hsame c hc]; exact hhas c hc) hrest hcap₁ (pushed + 1)
      refine ⟨w', ?_, hdir.trans hdir₁, hgains₁.cons hgains⟩
      rw [exec_pushEntries_sent (fun hin => hhead.mp hin hlack) (by omega) hrun, hrun', hcount,
        Nat.add_assoc, Nat.add_comm 1]
    · -- listed by the peer: nothing is sent
      rw [List.countP_cons_of_neg hlack] at hcap ⊢
      have hsome : (bodiesOf w.peer.dir (cidOf build b)).isSome := by
        rwa [lacks_iff, ← Option.not_isSome_iff_eq_none, not_not] at hlack
      obtain ⟨w', hrun, hdir, hgains⟩ := ih hnodup hheld hhas hrest hcap pushed
      refine ⟨w', ?_, hdir, (gains_of_held hsome).cons hgains⟩
      rw [exec_pushEntries_has (hhead.mpr hlack), hrun]

end

/-! ## The passes -/

/-- Operations that look at the directory. -/
def LooksUp : (β : Type) → Op β → Prop
  | _, .readDir => True
  | _, .modified _ => True
  | _, _ => False

/-- To list the chain changes neither the files nor the peer. -/
theorem kept_chainView {σ : Type} (env : Env σ) (w : World σ) :
    (exec env.handle chainView w).1.dir = w.dir ∧
      (exec env.handle chainView w).1.peer = w.peer := by
  have honly : Only LooksUp chainView := only_chainView trivial fun _ => trivial
  refine honly.invariant (I := fun v : World σ => v.dir = w.dir ∧ v.peer = w.peer)
    (fun γ e v he hv => ?_) ⟨rfl, rfl⟩
  cases e with
  | readDir => exact hv
  | modified name => exact hv
  | _ => exact he.elim

/-- The names in a chain are the hashes of the bodies that it lists. -/
theorem peerHas_chain {build : Build} {es : List (ℕ × U8Array 32)} {bs : List Bytes}
    (hes : es.map Prod.snd = bs.map build.sha256) (has : Finset String) :
    peerHas (es.map chainValue) has = .ok (has ∪ (bs.map (cidOf build)).toFinset) := by
  induction bs generalizing es has with
  | nil =>
    rw [List.map_nil, List.map_eq_nil_iff] at hes
    subst hes
    simp [peerHas]
  | cons b bs ih =>
    obtain ⟨e, rest, rfl, he, hrest⟩ := List.map_eq_cons_iff.mp hes
    obtain ⟨top, hpair⟩ := chainPair_chainValue e
    rw [List.map_cons, peerHas, hpair]
    refine (ih hrest _).trans ?_
    rw [List.map_cons, List.toFinset_cons, Finset.insert_union, Finset.union_insert, cidOf, he]

theorem countP_eq_card_missingFrom {build : Build} {dir : Table String FileData} {bs : List Bytes}
    (hnodup : bs.Nodup) :
    bs.countP (lacks build dir) = (missingFrom build dir bs.toFinset).card := by
  rw [List.countP_eq_length_filter, missingFrom, ← List.toFinset_filter,
    List.toFinset_card_of_nodup (hnodup.filter _)]

section

variable {τ : Type} {senv : Env τ} {env : Env (World τ)} {build : Build} {sdir ip : String}
  {w : World (World τ)} {mine theirs all : Finset Bytes}

variable (hnet : env.net = serverNet senv build {} sdir ip) (hscalm : senv.Calm)
  (hcalm : env.Calm) (dir : String)

include hnet hscalm hcalm

/-- **A sync pass** fetches what is missing. -/
theorem exec_syncStream_gains (htheirs : HoldsBodies build w.peer.dir theirs)
    (hcard : theirs.card ≤ 5000)
    (hcap : theirs.card ≤ syncCap ∨ missingFrom build w.dir theirs = ∅) :
    ∃ w' had, exec env.handle (syncStream build dir) w =
        (w', .ok (.ok (theirs.card, (missingFrom build w.dir theirs).card, had))) ∧
      (missingFrom build w.dir theirs).card + had = theirs.card ∧
      Gains (bodiesOf w.peer.dir) w.dir w'.dir ∧ w'.peer.dir = w.peer.dir := by
  -- the two questions leave the directories as they are
  obtain ⟨s₁, hs, hcall₁, hdir₁, herr₁, hheight⟩ := handshake_holds hnet hscalm htheirs hcard
  set w₁ : World (World τ) := { w.next with peer := s₁ } with hw₁
  have hpeer₁ : w₁.peer.dir = w.peer.dir := hdir₁
  obtain ⟨s₂, chain, es, bs, hcall₂, hdir₂, herr₂, hentries, hnodup, hbs, hes⟩ :=
    chain_holds (w := w₁) hnet hscalm (hpeer₁ ▸ htheirs) hcard
  set w₂ : World (World τ) := { w₁.next with peer := s₂ } with hw₂
  have hpeer₂ : w₂.peer.dir = w.peer.dir := hdir₂.trans hpeer₁
  have hlen : bs.length = theirs.card := by rw [← hbs, List.toFinset_card_of_nodup hnodup]
  have hmem : ∀ b ∈ bs, b ∈ theirs := fun b hb => hbs ▸ List.mem_toFinset.mpr hb
  have hserved : ∀ b ∈ bs, Fits b ∧ bodiesOf w₂.peer.dir (cidOf build b) = some b := by
    intro b hb
    rw [hpeer₂]
    exact ⟨htheirs.fits b (hmem b hb), htheirs.bodiesOf_cidOf (hmem b hb)⟩
  -- a missing body is below the cap: the list is short, or nothing is missing
  have hpos : ∀ k b, bs[k]? = some b → lacks build w₂.dir b → 0 + k < syncCap := by
    intro k b hk hlack
    rcases hcap with hsmall | hnothing
    · have := (List.getElem?_eq_some_iff.mp hk).1
      omega
    · have hin : b ∈ missingFrom build w.dir theirs :=
        Finset.mem_filter.mpr ⟨hmem b (List.mem_of_getElem? hk), hlack⟩
      rw [hnothing] at hin
      exact absurd hin (Finset.notMem_empty b)
  obtain ⟨w', hrun, hgains, hpeer'⟩ := exec_syncEntries_gains (w := w₂) hnet hscalm hcalm dir
    (htheirs.nodup_cids hnodup hbs) hserved hes hpos 0 0
  rw [htheirs.firstOf_eq hbs] at hgains
  have hcount : bs.countP (lacks build w.dir) = (missingFrom build w.dir theirs).card := by
    rw [countP_eq_card_missingFrom hnodup, hbs]
  refine ⟨w', bs.countP fun b => !lacks build w.dir b, ?_, ?_, hgains, hpeer'.trans hpeer₂⟩
  · rw [syncStream, exec_bind_ok hcall₁, exec_refuseIf_bind, if_neg (not_not.mpr herr₁),
      exec_bind_ok hcall₂, exec_refuseIf_bind, if_neg (not_not.mpr herr₂), hentries,
      exec_bind_ok hrun, hheight, ← hcount, Nat.zero_add, Nat.zero_add]
    rfl
  · rw [← hcount, ← hlen, List.length_eq_countP_add_countP (lacks build w.dir) (l := bs)]
    simp only [Bool.not_eq_true, Bool.decide_eq_false]

variable {token : String} (htoken : maxBodyBytes + token.utf8ByteSize + 500 ≤ maxFrame)
  (readError : String → String)

include htoken in
/-- **A push pass** sends what the server lacks. -/
theorem exec_pushStream_gains (hmine : HoldsBodies build w.dir mine)
    (htheirs : HoldsBodies build w.peer.dir theirs) (hcard : theirs.card ≤ 5000)
    (hcap : (missingFrom build w.peer.dir mine).card ≤ syncCap) :
    ∃ w', exec env.handle (pushStream build dir token readError) w =
        (w', .ok (.ok (theirs.card, (missingFrom build w.peer.dir mine).card, theirs.card))) ∧
      w'.dir = w.dir ∧ Gains (bodiesOf w.dir) w.peer.dir w'.peer.dir := by
  -- the two questions leave the directories as they are
  obtain ⟨s₁, hs, hcall₁, hdir₁, herr₁, hheight⟩ := handshake_holds hnet hscalm htheirs hcard
  set w₁ : World (World τ) := { w.next with peer := s₁ } with hw₁
  have hpeer₁ : w₁.peer.dir = w.peer.dir := hdir₁
  obtain ⟨s₂, chain, es, bs, hcall₂, hdir₂, herr₂, hentries, hnodup, hbs, hes⟩ :=
    chain_holds (w := w₁) hnet hscalm (hpeer₁ ▸ htheirs) hcard
  set w₂ : World (World τ) := { w₁.next with peer := s₂ } with hw₂
  have hpeer₂ : w₂.peer.dir = w.peer.dir := hdir₂.trans hpeer₁
  have hhas : peerHas (chain.payload.asArray.getD []) ∅ = .ok (bs.map (cidOf build)).toFinset := by
    rw [hentries, peerHas_chain hes, Finset.empty_union]
  have hsize : (bs.map (cidOf build)).toFinset.card = theirs.card := by
    rw [List.toFinset_card_of_nodup (htheirs.nodup_cids hnodup hbs), List.length_map, ← hbs,
      List.toFinset_card_of_nodup hnodup]
  obtain ⟨view, bs', hview, hnodup', hbs', hcids'⟩ := chainView_holds (w := w₂) hcalm hmine
  obtain ⟨hdir₃, hpeer₃⟩ := kept_chainView env w₂
  set w₃ := (exec env.handle chainView w₂).1 with hw₃
  have hviewRun : exec env.handle chainView w₂ = (w₃, .ok (.ok view)) := Prod.ext rfl hview
  have hpeer : w₃.peer.dir = w.peer.dir := (congrArg World.dir hpeer₃).trans hpeer₂
  -- the peer lists the hashes of which it has a body
  have hknown : ∀ b ∈ bs', cidOf build b ∈ (bs.map (cidOf build)).toFinset ↔
      ¬ lacks build w₃.peer.dir b := by
    intro b _
    rw [hpeer, lacks_iff, List.mem_toFinset, List.mem_map]
    constructor
    · rintro ⟨c, hc, heq⟩
      rw [← heq, htheirs.bodiesOf_cidOf (hbs ▸ List.mem_toFinset.mpr hc)]
      exact nofun
    · intro hsome
      obtain ⟨c, hc⟩ := Option.ne_none_iff_exists'.mp hsome
      obtain ⟨hmem, hcid⟩ := (htheirs.held _ _).mp hc
      rw [← hbs, List.mem_toFinset] at hmem
      exact ⟨c, hmem, hcid⟩
  have hheld : ∀ b ∈ bs', Fits b ∧ bodiesOf w₃.dir (cidOf build b) = some b := by
    intro b hb
    have hmem : b ∈ mine := hbs' ▸ List.mem_toFinset.mpr hb
    rw [hdir₃]
    exact ⟨hmine.fits b hmem, hmine.bodiesOf_cidOf hmem⟩
  have hcount :
      bs'.countP (lacks build w₃.peer.dir) = (missingFrom build w.peer.dir mine).card := by
    rw [countP_eq_card_missingFrom hnodup', hbs', hpeer]
  obtain ⟨w', hrun, hdir, hgains⟩ := exec_pushEntries_gains (w := w₃) hnet hscalm hcalm dir htoken
    readError (hmine.nodup_cids hnodup' hbs') hheld hknown hcids'
    (by rwa [hcount, Nat.zero_add]) 0
  rw [HoldsBodies.firstOf_eq hmine hbs', hpeer] at hgains
  refine ⟨w', ?_, hdir.trans hdir₃, hgains⟩
  rw [pushStream, exec_bind_ok hcall₁, exec_refuseIf_bind, if_neg (not_not.mpr herr₁),
    exec_bind_ok hcall₂, exec_refuseIf_bind, if_neg (not_not.mpr herr₂), hhas,
    exec_orFail_ok_bind, exec_bind_ok hviewRun, exec_bind_ok hrun, hheight, hsize, hcount,
    Nat.zero_add]
  rfl

/-! ## Where no two bodies have one hash -/

variable (hinj : Set.InjOn (cidOf build) all) (hcard : all.card ≤ 2000)
  (hmine : HoldsBodies build w.dir mine) (htheirs : HoldsBodies build w.peer.dir theirs)
  (hsub : mine ⊆ all) (hsub' : theirs ⊆ all)

include hinj hcard hmine htheirs hsub hsub'

/-- A sync pass adds the bodies of the server to those of the client. -/
theorem exec_syncStream_holds :
    ∃ w' height had, exec env.handle (syncStream build dir) w =
        (w', .ok (.ok (height, (theirs \ mine).card, had))) ∧
      HoldsBodies build w'.dir (mine ∪ theirs) ∧ w'.peer.dir = w.peer.dir ∧
      Besides w.dir w'.dir := by
  have hcount : theirs.card ≤ 2000 := (Finset.card_le_card hsub').trans hcard
  obtain ⟨w', had, hrun, -, hgains, hpeer⟩ := exec_syncStream_gains hnet hscalm hcalm dir htheirs
    (by omega) (.inl hcount)
  rw [hmine.missingFrom_eq hsub hinj hsub'] at hrun
  exact ⟨w', theirs.card, had, hrun, hmine.gains htheirs hsub hsub' hinj hgains, hpeer,
    hgains.besides⟩

include htoken in
/-- A push pass adds the bodies of the client to those of the server. -/
theorem exec_pushStream_holds :
    ∃ w' height had, exec env.handle (pushStream build dir token readError) w =
        (w', .ok (.ok (height, (mine \ theirs).card, had))) ∧ w'.dir = w.dir ∧
      HoldsBodies build w'.peer.dir (theirs ∪ mine) ∧ Besides w.peer.dir w'.peer.dir := by
  have hcount : theirs.card ≤ 2000 := (Finset.card_le_card hsub').trans hcard
  have hlack := htheirs.missingFrom_eq hsub' hinj hsub
  have hcap : (missingFrom build w.peer.dir mine).card ≤ syncCap := by
    rw [hlack]
    exact (Finset.card_le_card (Finset.sdiff_subset.trans hsub)).trans hcard
  obtain ⟨w', hrun, hdir, hgains⟩ := exec_pushStream_gains hnet hscalm hcalm dir htoken readError
    hmine htheirs (by omega) hcap
  rw [hlack] at hrun
  exact ⟨w', theirs.card, theirs.card, hrun, hdir, htheirs.gains hmine hsub' hsub hinj hgains,
    hgains.besides⟩

end

end SporePeer
