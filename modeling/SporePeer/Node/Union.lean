import SporePeer.Node.Holdings

/-!
# A pass in both directions

Two nodes, each with a store of bodies under their hashes, exchange what the other one lacks: the
client fetches in a sync pass and sends in a push pass. The server handles the requests one after
another, so its store grows while the client pushes.

## Main definitions

* `Proper`, `cids`: stores of accepted bodies under their hashes, and these hashes
* `bothWays`, `ReachesUnion`: a pass in both directions, and what two of them achieve

## Main results

* `Proper.exists_holds`, `Proper.gains`: a store is a set of bodies, and stays a store
* `exec_syncStream_linked`, `exec_pushStream_linked`, `exec_bothWays_linked`: the passes
* `passes_union`: a pass in both directions leaves both nodes with the union
-/

namespace SporePeer

open Effects Text

/-! ## Stores of bodies -/

/-- Every file is a body of an accepted size under its hash. -/
structure Proper (build : Build) (dir : Table String FileData) : Prop where
  named : ∀ name d, dir.lookup name = some d → name = bodyFile (cidOf build d.content)
  fits : ∀ name d, dir.lookup name = some d → Fits d.content

/-- The hashes of the bodies in a store, in hexadecimal. -/
def cids (build : Build) (dir : Table String FileData) : Finset String :=
  (dir.entries.map fun e => cidOf build e.2.content).toFinset

section

variable {build : Build} {dir dir' dir'' : Table String FileData} {cid : String}

theorem mem_cids :
    cid ∈ cids build dir ↔ ∃ name d, dir.lookup name = some d ∧ cidOf build d.content = cid := by
  rw [cids, List.mem_toFinset, List.mem_map]
  constructor
  · rintro ⟨⟨name, d⟩, he, rfl⟩
    exact ⟨name, d, Table.mem_entries_iff.mp he, rfl⟩
  · rintro ⟨name, d, hd, rfl⟩
    exact ⟨⟨name, d⟩, Table.mem_entries_iff.mpr hd, rfl⟩

/-- A file holds a body that hashes to its name. -/
theorem Proper.cidOf_eq (h : Proper build dir) {d : FileData}
    (hd : dir.lookup (bodyFile cid) = some d) : cidOf build d.content = cid :=
  (bodyFile_inj.mp (h.named _ d hd)).symm

theorem Proper.mem_cids (h : Proper build dir) :
    cid ∈ cids build dir ↔ (dir.lookup (bodyFile cid)).isSome := by
  rw [SporePeer.mem_cids, Option.isSome_iff_exists]
  constructor
  · rintro ⟨name, d, hd, rfl⟩
    exact ⟨d, h.named name d hd ▸ hd⟩
  · rintro ⟨d, hd⟩
    exact ⟨_, d, hd, h.cidOf_eq hd⟩

theorem Proper.mem_cids_iff_bodiesOf (h : Proper build dir) :
    cid ∈ cids build dir ↔ (bodiesOf dir cid).isSome := by
  rw [h.mem_cids, bodiesOf, Option.isSome_map]

/-- A body is added under its hash. -/
theorem Proper.insert_body (h : Proper build dir) {b : Bytes} (hfits : Fits b) (m : ℕ) :
    Proper build (dir.insert (bodyFile (cidOf build b)) ⟨b, m⟩) := by
  refine ⟨fun name d hd => ?_, fun name d hd => ?_⟩
  · rw [Table.lookup_insert_eq] at hd
    split at hd
    · obtain rfl := Option.some.inj hd
      assumption
    · exact h.named name d hd
  · rw [Table.lookup_insert_eq] at hd
    split at hd
    · obtain rfl := Option.some.inj hd
      exact hfits
    · exact h.fits name d hd

/-- A store is a set of bodies. -/
theorem Proper.exists_holds (h : Proper build dir) : ∃ mine, HoldsBodies build dir mine := by
  refine ⟨(dir.entries.map fun e => e.2.content).toFinset, fun cid b => ?_, fun b hb => ?_⟩
  · rw [List.mem_toFinset, List.mem_map]
    constructor
    · intro hbody
      obtain ⟨d, hd, rfl⟩ := Option.map_eq_some_iff.mp hbody
      exact ⟨⟨⟨_, d⟩, Table.mem_entries_iff.mpr hd, rfl⟩, h.cidOf_eq hd⟩
    · rintro ⟨⟨⟨name, d⟩, hd, rfl⟩, rfl⟩
      have hlook := Table.mem_entries_iff.mp hd
      rw [h.named name d hlook] at hlook
      exact congrArg _ hlook
  · obtain ⟨⟨name, d⟩, hd, rfl⟩ := List.mem_map.mp (List.mem_toFinset.mp hb)
    exact h.fits name d (Table.mem_entries_iff.mp hd)

/-- The names of a store are the hashes of its bodies. -/
theorem Proper.cids_eq (h : Proper build dir) {mine : Finset Bytes}
    (hmine : HoldsBodies build dir mine) : cids build dir = mine.image (cidOf build) := by
  ext cid
  rw [h.mem_cids_iff_bodiesOf, Option.isSome_iff_exists, Finset.mem_image]
  exact exists_congr fun b => hmine.held cid b

theorem Proper.card_cids (h : Proper build dir) {mine : Finset Bytes}
    (hmine : HoldsBodies build dir mine) : (cids build dir).card = mine.card := by
  rw [h.cids_eq hmine, Finset.card_image_of_injOn hmine.injOn]

/-- What one store lacks of another one, by names and by bodies. -/
theorem Proper.card_missingFrom (h : Proper build dir) (h' : Proper build dir')
    {mine : Finset Bytes} (hmine : HoldsBodies build dir mine) :
    (missingFrom build dir' mine).card = (cids build dir \ cids build dir').card := by
  rw [← Finset.card_image_of_injOn (hmine.injOn.mono (Finset.coe_subset.mpr
    (Finset.filter_subset _ _)) : Set.InjOn (cidOf build) (missingFrom build dir' mine))]
  congr 1
  ext cid
  rw [Finset.mem_image, Finset.mem_sdiff, h'.mem_cids_iff_bodiesOf, h.cids_eq hmine,
    Finset.mem_image, Option.not_isSome_iff_eq_none]
  constructor
  · rintro ⟨b, hb, rfl⟩
    obtain ⟨hb, hlack⟩ := Finset.mem_filter.mp hb
    exact ⟨⟨b, hb, rfl⟩, lacks_iff.mp hlack⟩
  · rintro ⟨⟨b, hb, rfl⟩, hnone⟩
    exact ⟨b, Finset.mem_filter.mpr ⟨hb, lacks_iff.mpr hnone⟩, rfl⟩

/-- A store that gains the bodies of another one is a store. -/
theorem Proper.gains (h : Proper build dir) (h' : Proper build dir'')
    (hgains : Gains (bodiesOf dir'') dir dir') : Proper build dir' := by
  have hfile (name : String) (d : FileData) (hd : dir'.lookup name = some d) :
      name = bodyFile (cidOf build d.content) ∧ Fits d.content := by
    by_cases hbody : IsBodyFile name
    · -- the content is that of a file of one of the stores
      obtain ⟨cid, rfl⟩ := hbody
      have hcontent : bodiesOf dir' cid = some d.content := congrArg _ hd
      rw [hgains.bodies, Option.or_eq_some_iff] at hcontent
      rcases hcontent with hcontent | ⟨-, hcontent⟩
      · obtain ⟨d₀, hd₀, heq⟩ := Option.map_eq_some_iff.mp hcontent
        exact heq ▸ ⟨h.named _ d₀ hd₀, h.fits _ d₀ hd₀⟩
      · obtain ⟨d₀, hd₀, heq⟩ := Option.map_eq_some_iff.mp hcontent
        exact heq ▸ ⟨h'.named _ d₀ hd₀, h'.fits _ d₀ hd₀⟩
    · -- a store has no other files, and none has come
      have hnone : dir.lookup name = none := by
        rcases hlook : dir.lookup name with _ | d₀
        · rfl
        · exact absurd ⟨_, h.named name d₀ hlook⟩ hbody
      have hgone : dir'.lookup name = none := by
        by_cases hpart : ∃ cid, name = incomingFile cid
        · obtain ⟨cid, rfl⟩ := hpart
          exact hgains.parts cid hnone
        · rw [hgains.besides name hbody fun cid heq => hpart ⟨cid, heq⟩]
          exact hnone
      rw [hgone] at hd
      cases hd
  exact ⟨fun name d hd => (hfile name d hd).1, fun name d hd => (hfile name d hd).2⟩

/-- The names of a store that holds what two stores hold. -/
theorem Proper.cids_union {dir₁ dir₂ : Table String FileData} (h : Proper build dir)
    (h₁ : Proper build dir₁) (h₂ : Proper build dir₂)
    (hb : bodiesOf dir = fun cid => (bodiesOf dir₁ cid).or (bodiesOf dir₂ cid)) :
    cids build dir = cids build dir₁ ∪ cids build dir₂ := by
  ext cid
  rw [Finset.mem_union, h.mem_cids_iff_bodiesOf, h₁.mem_cids_iff_bodiesOf,
    h₂.mem_cids_iff_bodiesOf, hb, Option.isSome_or, Bool.or_eq_true]

end

/-! ## Passes -/

/-- A pass in both directions: fetched first, then sent. -/
def bothWays (build : Build) (dir token : String) (readError : String → String) :
    Fallible Op ((ℕ × ℕ × ℕ) × (ℕ × ℕ × ℕ)) := do
  let synced ← syncStream build dir
  let pushed ← pushStream build dir token readError
  return (synced, pushed)

section

variable {τ : Type} {senv : Env τ} {env : Env (World τ)} {build : Build} {sdir ip : String}
  {w : World (World τ)}

variable (hnet : env.net = serverNet senv build {} sdir ip) (hscalm : senv.Calm)
  (hcalm : env.Calm) (dir : String)

include hnet hscalm hcalm

/-- A sync pass fetches what is missing. -/
theorem exec_syncStream_linked (hmine : Proper build w.dir) (htheirs : Proper build w.peer.dir)
    (hcard : (cids build w.peer.dir).card ≤ 5000)
    (hcap : (cids build w.peer.dir).card ≤ syncCap ∨ cids build w.peer.dir ⊆ cids build w.dir) :
    ∃ w', exec env.handle (syncStream build dir) w =
        (w', .ok (.ok ((cids build w.peer.dir).card,
          (cids build w.peer.dir \ cids build w.dir).card,
          (cids build w.peer.dir ∩ cids build w.dir).card))) ∧
      Proper build w'.dir ∧ w'.peer.dir = w.peer.dir ∧
      bodiesOf w'.dir = fun cid => (bodiesOf w.dir cid).or (bodiesOf w.peer.dir cid) := by
  obtain ⟨theirs, hheld⟩ := htheirs.exists_holds
  have hsize := htheirs.card_cids hheld
  have hlack := htheirs.card_missingFrom hmine hheld
  have hcap' : theirs.card ≤ syncCap ∨ missingFrom build w.dir theirs = ∅ := by
    refine hcap.imp (fun hsmall => hsize ▸ hsmall) fun hsub => ?_
    rw [← Finset.card_eq_zero, hlack, Finset.sdiff_eq_empty_iff_subset.mpr hsub, Finset.card_empty]
  obtain ⟨w', had, hrun, hsum, hgains, hpeer⟩ := exec_syncStream_gains hnet hscalm hcalm dir hheld
    (hsize ▸ hcard) hcap'
  have hhad : had = (cids build w.peer.dir ∩ cids build w.dir).card := by
    have := Finset.card_sdiff_add_card_inter (cids build w.peer.dir) (cids build w.dir)
    omega
  refine ⟨w', ?_, hmine.gains htheirs hgains, hpeer, funext hgains.bodies⟩
  rw [hrun, hlack, hsize, hhad]

variable {token : String} (htoken : maxBodyBytes + token.utf8ByteSize + 500 ≤ maxFrame)
  (readError : String → String)

include htoken

/-- A push pass sends what the server lacks. -/
theorem exec_pushStream_linked (hmine : Proper build w.dir) (htheirs : Proper build w.peer.dir)
    (hcard : (cids build w.peer.dir).card ≤ 5000)
    (hcap : (cids build w.dir \ cids build w.peer.dir).card ≤ syncCap) :
    ∃ w', exec env.handle (pushStream build dir token readError) w =
        (w', .ok (.ok ((cids build w.peer.dir).card,
          (cids build w.dir \ cids build w.peer.dir).card, (cids build w.peer.dir).card))) ∧
      w'.dir = w.dir ∧ Proper build w'.peer.dir ∧
      bodiesOf w'.peer.dir = fun cid => (bodiesOf w.peer.dir cid).or (bodiesOf w.dir cid) := by
  obtain ⟨mine, hheld⟩ := hmine.exists_holds
  obtain ⟨theirs, hheld'⟩ := htheirs.exists_holds
  have hsize := htheirs.card_cids hheld'
  have hlack := hmine.card_missingFrom htheirs hheld
  obtain ⟨w', hrun, hdir, hgains⟩ := exec_pushStream_gains hnet hscalm hcalm dir htoken readError
    hheld hheld' (hsize ▸ hcard) (hlack ▸ hcap)
  refine ⟨w', ?_, hdir, htheirs.gains hmine hgains, funext hgains.bodies⟩
  rw [hrun, hlack, hsize]

/-- A pass in both directions, for stores of which the caps leave nothing out. -/
theorem exec_bothWays_linked (hmine : Proper build w.dir) (htheirs : Proper build w.peer.dir)
    (hcard : (cids build w.peer.dir).card ≤ 5000)
    (hcap : (cids build w.peer.dir).card ≤ syncCap ∨ cids build w.peer.dir ⊆ cids build w.dir)
    (hcap' : (cids build w.dir \ cids build w.peer.dir).card ≤ syncCap) :
    ∃ w', exec env.handle (bothWays build dir token readError) w =
        (w', .ok (.ok (((cids build w.peer.dir).card,
            (cids build w.peer.dir \ cids build w.dir).card,
            (cids build w.peer.dir ∩ cids build w.dir).card),
          ((cids build w.peer.dir).card,
            (cids build w.dir \ cids build w.peer.dir).card, (cids build w.peer.dir).card)))) ∧
      Proper build w'.dir ∧ Proper build w'.peer.dir ∧
      bodiesOf w'.dir = (fun cid => (bodiesOf w.dir cid).or (bodiesOf w.peer.dir cid)) ∧
      bodiesOf w'.peer.dir = fun cid => (bodiesOf w.peer.dir cid).or (bodiesOf w.dir cid) := by
  obtain ⟨w₁, hsync, hmine₁, hpeer₁, hbodies₁⟩ :=
    exec_syncStream_linked hnet hscalm hcalm dir hmine htheirs hcard hcap
  have hcids₁ : cids build w₁.dir = cids build w.dir ∪ cids build w.peer.dir :=
    hmine₁.cids_union hmine htheirs hbodies₁
  have hsent : cids build w₁.dir \ cids build w₁.peer.dir =
      cids build w.dir \ cids build w.peer.dir := by
    rw [hcids₁, hpeer₁, Finset.union_sdiff_right]
  obtain ⟨w', hpush, hdir, htheirs', hbodies'⟩ := exec_pushStream_linked (w := w₁) hnet hscalm hcalm
    dir htoken readError hmine₁ (hpeer₁ ▸ htheirs) (hpeer₁ ▸ hcard) (by rw [hsent]; exact hcap')
  refine ⟨w', ?_, hdir ▸ hmine₁, htheirs', hdir ▸ hbodies₁, ?_⟩
  · rw [bothWays, exec_bind_ok hsync, exec_bind_ok hpush, hsent, hpeer₁]
    rfl
  · -- what was fetched is what the server has
    rw [hbodies', hbodies₁, hpeer₁]
    funext cid
    dsimp only
    rcases bodiesOf w.peer.dir cid with _ | body
    · rw [Option.or_none]
    · rfl

end

/-! ## The union -/

/-- Two passes from `w` over `w₁` to `w₂`: the first leaves both nodes with the union of what they
hold, and the second has nothing to do. -/
structure ReachesUnion {τ : Type} (env : Env (World τ)) (build : Build) (dir token : String)
    (readError : String → String) (w w₁ w₂ : World (World τ)) : Prop where
  first : exec env.handle (bothWays build dir token readError) w =
    (w₁, .ok (.ok (((cids build w.peer.dir).card,
        (cids build w.peer.dir \ cids build w.dir).card,
        (cids build w.peer.dir ∩ cids build w.dir).card),
      ((cids build w.peer.dir).card,
        (cids build w.dir \ cids build w.peer.dir).card, (cids build w.peer.dir).card))))
  proper : Proper build w₁.dir ∧ Proper build w₁.peer.dir
  mine : bodiesOf w₁.dir = fun cid => (bodiesOf w.dir cid).or (bodiesOf w.peer.dir cid)
  theirs : bodiesOf w₁.peer.dir = fun cid => (bodiesOf w.peer.dir cid).or (bodiesOf w.dir cid)
  /-- Where no two bodies have one hash, the union is one store. -/
  same : (∀ cid b b', bodiesOf w.dir cid = some b → bodiesOf w.peer.dir cid = some b' → b = b') →
    bodiesOf w₁.dir = bodiesOf w₁.peer.dir
  second : exec env.handle (bothWays build dir token readError) w₁ =
    (w₂, .ok (.ok (((cids build w.dir ∪ cids build w.peer.dir).card, 0,
        (cids build w.dir ∪ cids build w.peer.dir).card),
      ((cids build w.dir ∪ cids build w.peer.dir).card, 0,
        (cids build w.dir ∪ cids build w.peer.dir).card))))
  kept : bodiesOf w₂.dir = bodiesOf w₁.dir ∧ bodiesOf w₂.peer.dir = bodiesOf w₁.peer.dir

theorem or_comm_of_agree {α : Type} {a b : Option α}
    (h : ∀ x y, a = some x → b = some y → x = y) : a.or b = b.or a := by
  rcases a with _ | x
  · rw [Option.or_none, Option.none_or]
  · rcases b with _ | y
    · rfl
    · rw [Option.some_or, Option.some_or, h x y rfl rfl]

/-- What is added where something is held already does not count. -/
theorem or_eq_left {a b : String → Option Bytes} (h : ∀ cid, (b cid).isSome → (a cid).isSome) :
    (fun cid => (a cid).or (b cid)) = a := by
  funext cid
  rcases ha : a cid with _ | x
  · rcases hb : b cid with _ | y
    · rfl
    · have := h cid (by rw [hb]; rfl)
      rw [ha] at this
      cases this
  · rfl

/-- **A pass in both directions reaches the union**: it fetches what the client lacks, sends what
the server lacks, and a second pass fetches and sends nothing. -/
theorem passes_union {τ : Type} {senv : Env τ} {env : Env (World τ)} {build : Build}
    {sdir ip : String} {w : World (World τ)} (hnet : env.net = serverNet senv build {} sdir ip)
    (hscalm : senv.Calm) (hcalm : env.Calm) (dir : String) {token : String}
    (htoken : maxBodyBytes + token.utf8ByteSize + 500 ≤ maxFrame) (readError : String → String)
    (hmine : Proper build w.dir) (htheirs : Proper build w.peer.dir)
    (hcard : (cids build w.peer.dir).card ≤ 2000)
    (hcard' : (cids build w.dir \ cids build w.peer.dir).card ≤ 2000) :
    ∃ w₁ w₂, ReachesUnion env build dir token readError w w₁ w₂ := by
  obtain ⟨w₁, hfirst, hmine₁, htheirs₁, hbodies₁, hbodies₁'⟩ := exec_bothWays_linked hnet hscalm
    hcalm dir htoken readError hmine htheirs (by omega) (.inl hcard) hcard'
  have hcids₁ : cids build w₁.dir = cids build w.dir ∪ cids build w.peer.dir :=
    hmine₁.cids_union hmine htheirs hbodies₁
  have hcids₁' : cids build w₁.peer.dir = cids build w.dir ∪ cids build w.peer.dir := by
    rw [Finset.union_comm]
    exact htheirs₁.cids_union htheirs hmine hbodies₁'
  -- both have the same names now, so that the caps leave nothing out
  have hsize : (cids build w.dir ∪ cids build w.peer.dir).card ≤ 5000 := by
    rw [← Finset.card_sdiff_add_card]
    omega
  obtain ⟨w₂, hsecond, -, -, hbodies₂, hbodies₂'⟩ := exec_bothWays_linked (w := w₁) hnet hscalm
    hcalm dir htoken readError hmine₁ htheirs₁ (hcids₁' ▸ hsize)
    (.inr (by rw [hcids₁, hcids₁'])) (by rw [hcids₁, hcids₁', Finset.sdiff_self]; exact Nat.zero_le _)
  have hheld (cid : String) : (bodiesOf w₁.peer.dir cid).isSome ↔ (bodiesOf w₁.dir cid).isSome := by
    rw [← hmine₁.mem_cids_iff_bodiesOf, ← htheirs₁.mem_cids_iff_bodiesOf, hcids₁, hcids₁']
  refine ⟨w₁, w₂, hfirst, ⟨hmine₁, htheirs₁⟩, hbodies₁, hbodies₁', fun hagree => ?_, ?_, ?_, ?_⟩
  · rw [hbodies₁, hbodies₁']
    exact funext fun cid => or_comm_of_agree (hagree cid)
  · rw [hsecond, hcids₁, hcids₁', Finset.sdiff_self, Finset.inter_self, Finset.card_empty]
  · rw [hbodies₂]
    exact or_eq_left fun cid => (hheld cid).mp
  · rw [hbodies₂']
    exact or_eq_left fun cid => (hheld cid).mpr

/-- A directory of given bodies is a proper store. -/
theorem proper_storeOf {build : Build} {bs : List Bytes} (h : ∀ b ∈ bs, Fits b) :
    Proper build (storeOf build bs) := by
  induction bs with
  | nil => exact ⟨nofun, nofun⟩
  | cons b rest ih =>
    exact (ih fun b hb => h b (List.mem_cons_of_mem _ hb)).insert_body (h b List.mem_cons_self) _

/-- Nodes with one body each. -/
theorem passes_union_one :
    let build := Build.padding
    let senv : Env Unit := .still (fun p _ => (p, .error "closed")) 0
    let env : Env (World Unit) := .still (serverNet senv build {} "" "") 0
    let w : World (World Unit) :=
      { World.fresh (serverOf build [[2]]) with dir := storeOf build [[1]] }
    ∃ w₁ w₂, ReachesUnion env build "" "" id w w₁ w₂ := by
  intro build senv env w
  have hmine : Proper build w.dir := proper_storeOf (by decide)
  have htheirs : Proper build w.peer.dir := proper_storeOf (by decide)
  have hone : ∀ b : Bytes, (cids build (storeOf build [b])).card ≤ 1 :=
    fun b => List.toFinset_card_le _
  refine passes_union rfl (Env.still_calm _ _) (Env.still_calm _ _) "" (by decide) id hmine htheirs
    ((hone [2]).trans (by decide)) ?_
  exact (Finset.card_le_card Finset.sdiff_subset).trans ((hone [1]).trans (by decide))

end SporePeer
