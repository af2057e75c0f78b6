import Mathlib.Algebra.Order.BigOperators.Group.Finset
import SporePeer.Fabric.Crashes
import SporePeer.Fabric.Delivery
import SporePeer.Fabric.Footprint

/-!
# The budget of a relay

A registry has room for so many handles, a queue for so many pointers. The two budgets bound what a
relay holds as long as no more handles have queued pointers than the registry has room for; but a
queue outlives its registration, and the slot of a registration that has lapsed is given to another
handle.

## Main definitions

* `occupied`, `totalQueued`, `envelopeFiles`: what a relay holds
* `Verb.Crowds`: a put that opens a queue while the budget of handles is used up

## Main results

* `totalQueued_le`: the budget in terms of queues
* `card_envelopeFiles_le`: there are no more envelope files than entries
* `budget_run`: where no put crowds, the two budgets bound what a relay holds
-/

namespace SporePeer

open Effects Text Bytes

/-- The handles with queued pointers. -/
def occupied (q : Queues) : Finset String := q.keys.toFinset.filter fun h => Queues.of q h ≠ []

/-- How many pointers are queued. -/
def totalQueued (q : Queues) : ℕ := ∑ h ∈ occupied q, (Queues.of q h).length

/-- The envelope files of a directory. -/
def envelopeFiles (dir : Table String FileData) : Finset String :=
  dir.keys.toFinset.filter fun name => extension name = some "fenv"

theorem mem_occupied {q : Queues} {h : String} : h ∈ occupied q ↔ Queues.of q h ≠ [] := by
  rw [occupied, Finset.mem_filter, List.mem_toFinset]
  refine and_iff_right_of_imp fun hne => ?_
  rcases hl : q.lookup h with _ | l
  · rw [Queues.of, hl] at hne
    exact absurd rfl hne
  · exact Table.mem_of_lookup hl

/-- So many queues of at most so many pointers. -/
theorem totalQueued_le {q : Queues} {cap budget : ℕ} (hcap : ∀ h, (Queues.of q h).length ≤ cap)
    (hbudget : (occupied q).card ≤ budget) : totalQueued q ≤ cap * budget := by
  calc totalQueued q ≤ (occupied q).card * cap :=
        Finset.sum_le_card_nsmul _ _ _ fun h _ => hcap h
    _ ≤ cap * budget := by
        rw [Nat.mul_comm]
        exact Nat.mul_le_mul_left cap hbudget

/-- A request on the queue of `h` opens no other queue. -/
theorem occupied_subset {q q' : Queues} {h : String}
    (hother : ∀ k ≠ h, Queues.of q' k = Queues.of q k) : occupied q' ⊆ insert h (occupied q) := by
  intro k hk
  by_cases hkh : k = h
  · exact Finset.mem_insert.mpr (.inl hkh)
  · rw [mem_occupied, hother k hkh, ← mem_occupied] at hk
    exact Finset.mem_insert_of_mem hk

section

variable {σ : Type} {env : Env σ} {build : Build} {cfg : FabricConfig} {w : World σ}
  {written : Bytes → Prop}

/-- Where every envelope file belongs to an entry, there are no more of them than entries. -/
theorem card_envelopeFiles_le (hfiles : FilesRecorded build written w.dir) (hind : Indexed w) :
    (envelopeFiles w.dir).card ≤ totalQueued w.queues := by
  let names (h : String) : Finset String :=
    ((Queues.of w.queues h).map fun x => fenvFile x.envCidHex).toFinset
  have hsub : envelopeFiles w.dir ⊆ (occupied w.queues).biUnion names := by
    intro name hname
    obtain ⟨hkey, hext⟩ := Finset.mem_filter.mp hname
    obtain ⟨c, rfl⟩ := fenvFile_of_extension hext
    rw [List.mem_toFinset] at hkey
    obtain ⟨d, hd⟩ := Option.isSome_iff_exists.mp (AList.lookup_isSome.mpr hkey)
    obtain ⟨e, he, -, hcont⟩ := hfiles c d hd
    obtain ⟨x, hx, -, hxc⟩ := hind.entry c d e hd
      (hcont ▸ parseEnvelope_marshalEnvelope he.header he.arrived)
    refine Finset.mem_biUnion.mpr ⟨e.key, mem_occupied.mpr (List.ne_nil_of_mem hx), ?_⟩
    exact List.mem_toFinset.mpr (List.mem_map.mpr ⟨x, hx, by rw [hxc]⟩)
  calc (envelopeFiles w.dir).card ≤ ((occupied w.queues).biUnion names).card :=
        Finset.card_le_card hsub
    _ ≤ ∑ h ∈ occupied w.queues, (names h).card := Finset.card_biUnion_le
    _ ≤ totalQueued w.queues := by
        refine Finset.sum_le_sum fun h _ => (List.toFinset_card_le _).trans ?_
        rw [List.length_map]

/-- A put passes its checks and is stored, at a handle without queued pointers, while as many
handles have queued pointers as the registry has room for. -/
def Verb.Crowds (env : Env σ) (build : Build) (cfg : FabricConfig) (w : World σ) : Verb → Prop
  | .fput req ip => ∃ p, Takes env build cfg req ip p w ∧
    (env.fault (w.tick + 4) = none ∧ env.fault (w.tick + 5) = none) ∧
    cfg.maxRegs ≤ (occupied w.queues).card ∧ Queues.of w.queues p.key = []
  | _ => False

/-- A put that does not crowd keeps the number of queues within the budget. -/
theorem card_occupied_fput {req : Value} {ip : String} (hreg : Registered w.reg)
    (hroom : ¬ Verb.Crowds env build cfg w (.fput req ip))
    (hle : (occupied w.queues).card ≤ cfg.maxRegs) :
    (occupied (exec env.handle (runFput build cfg req ip) w).1.queues).card ≤ cfg.maxRegs := by
  rcases exec_runFput env build cfg req ip hreg with ⟨p, now, hok, hacc⟩ | ⟨-, hun⟩
  swap
  · rwa [hun.queues]
  obtain ⟨⟨p', htakes⟩, hstored⟩ := (succeeds_runFput_iff hreg).mp ⟨_, hok⟩
  have hkey : p'.key = p.key := Except.ok.inj (htakes.reaches.handle.symm.trans hacc.handle)
  obtain ⟨u, sec, hmem, -, heff⟩ := hacc.effect
  have hsub : occupied (exec env.handle (runFput build cfg req ip) w).1.queues ⊆
      insert p.key (occupied w.queues) :=
    occupied_subset fun k hk => by rw [heff.queues, if_neg hk, hmem.queues]
  by_cases hempty : Queues.of w.queues p.key = []
  · have hless : (occupied w.queues).card < cfg.maxRegs := by
      by_contra hfull
      exact hroom ⟨p', htakes, hstored, not_lt.mp hfull, hkey ▸ hempty⟩
    exact (Finset.card_le_card hsub).trans ((Finset.card_insert_le _ _).trans hless)
  · rw [Finset.insert_eq_of_mem (mem_occupied.mpr hempty)] at hsub
    exact (Finset.card_le_card hsub).trans hle

/-- A request that does not crowd keeps the number of queues within the budget. -/
theorem card_occupied_verb (hreg : Registered w.reg) {v : Verb}
    (hroom : ¬ v.Crowds env build cfg w) (hle : (occupied w.queues).card ≤ cfg.maxRegs) :
    (occupied (exec env.handle (v.run build cfg) w).1.queues).card ≤ cfg.maxRegs := by
  cases v with
  | freg req =>
    change (occupied (exec env.handle (runFreg build cfg req) w).1.queues).card ≤ _
    rwa [(exec_runFreg_frame env build cfg w req).2.1]
  | fput req ip => exact card_occupied_fput hreg hroom hle
  | fpop req ip =>
    rcases exec_runFpop env w build cfg req ip with ⟨h, now, -, hd⟩ | ⟨-, hun⟩
    swap
    · change (occupied (exec env.handle (runFpop build cfg req ip) w).1.queues).card ≤ _
      rwa [hun.queues]
    obtain ⟨u, hun, heff⟩ := hd.effect
    refine (Finset.card_le_card fun k hk => ?_).trans hle
    rw [mem_occupied] at hk ⊢
    intro hnil
    refine hk ?_
    change Queues.of (exec env.handle (runFpop build cfg req ip) w).1.queues k = []
    rw [heff.queues, hun.queues]
    split
    · rename_i hkh
      rw [← hkh, hnil, List.drop_nil]
    · exact hnil

theorem tidied_opened (env : Env σ) (build : Build) (cfg : FabricConfig) (peer : σ) :
    (⟨opened env build cfg peer, some cfg⟩ : Relay σ).Tidied build := by
  rw [opened, opened_eq]
  refine ⟨⟨?_, fun _ => registered_empty, fun _ _ => List.forall_mem_nil _⟩, ?_,
    fun _ => ⟨fun _ => List.nodup_nil, ?_⟩, fun _ _ _ => Nat.zero_le _⟩
  -- there is no file and no entry
  · intro c d h
    cases h
  · intro c c' d d' e e' h
    cases h
  · intro c d e h
    cases h

/-- **The two budgets bound what a relay holds**, unless a put crowds. -/
theorem budget_run (env : Env σ) (build : Build) (cfg : FabricConfig) (peer : σ) (vs : List Verb)
    (hroom : ∀ (j : ℕ) (v : Verb), vs[j]? = some v →
      ¬ v.Crowds env build cfg (before env build cfg (opened env build cfg peer) vs j)) :
    totalQueued (serve env build cfg (opened env build cfg peer) vs).queues ≤
        cfg.maxPerHandle * cfg.maxRegs ∧
      (env.Calm → (envelopeFiles (serve env build cfg (opened env build cfg peer) vs).dir).card ≤
        cfg.maxPerHandle * cfg.maxRegs) := by
  -- every queue is within the cap, and no more queues than handles are in use
  let I (w : World σ) : Prop := Registered w.reg ∧
    (∀ h, (Queues.of w.queues h).length ≤ cfg.maxPerHandle) ∧
    (occupied w.queues).card ≤ cfg.maxRegs ∧
    (env.Calm → (⟨w, some cfg⟩ : Relay σ).Tidied build)
  have htidied := tidied_opened env build cfg peer
  have hnone : occupied (opened env build cfg peer).queues = ∅ := by
    rw [opened, opened_eq]
    rfl
  have hI : I (serve env build cfg (opened env build cfg peer) vs) := by
    refine serve_along (C := fun w v => ¬ v.Crowds env build cfg w) (fun w v hv hw => ?_) hroom
      ⟨htidied.sound.reg rfl, htidied.bounded cfg rfl, by rw [hnone]; exact Nat.zero_le _,
        fun _ => htidied⟩
    obtain ⟨hreg, hlen, hcard, htidy⟩ := hw
    refine ⟨registered_verb hreg v, bounded_verb hreg hlen v, card_occupied_verb hreg hv hcard,
      fun hcalm => ?_⟩
    exact tidied_step (s := .verb v) hcalm trivial (htidy hcalm)
  obtain ⟨-, hlen, hcard, htidy⟩ := hI
  have htotal := totalQueued_le hlen hcard
  refine ⟨htotal, fun hcalm => ?_⟩
  have ht := htidy hcalm
  exact (card_envelopeFiles_le ht.sound.files (ht.indexed rfl)).trans htotal

end

/-- A handle is registered, and a pointer queued. -/
theorem budget_run_one :
    let env : Env Unit := .still (fun p _ => (p, .error "closed")) 100
    let handle : U8Array 32 := .replicate 32 7
    let cfg : FabricConfig := { maxPerHandle := 1, maxRegs := 1 }
    let w := serve env .trailing cfg (opened env .trailing cfg ())
      [.freg (fregRequest handle "token-0123456789" 60),
        .fput (fputRequest handle (pointerOf 1 200)) "ip"]
    totalQueued w.queues ≤ cfg.maxPerHandle * cfg.maxRegs ∧
      (env.Calm → (envelopeFiles w.dir).card ≤ cfg.maxPerHandle * cfg.maxRegs) := by
  refine budget_run _ _ _ _ _ fun j v hv => ?_
  match j, hv with
  | 0, hv =>
    cases hv
    exact id
  | 1, hv =>
    cases hv
    rintro ⟨p, -, -, hfull, -⟩
    revert hfull
    decide +kernel

/-- The lease of a handle ends, its slot goes to another, and both have a pointer queued. -/
theorem lapsed_handle_keeps_queue :
    let env : Env Unit := .jump (fun p _ => (p, .error "closed")) 100 102 9
    let cfg : FabricConfig := { maxPerHandle := 1, maxRegs := 1 }
    let w := serve env .trailing cfg (opened env .trailing cfg ())
      [.freg (fregRequest (.replicate 32 7) "token-0123456789" 1),
        .fput (fputRequest (.replicate 32 7) (pointerOf 1 200)) "ip",
        .freg (fregRequest (.replicate 32 8) "token-0123456789" 1),
        .fput (fputRequest (.replicate 32 8) (pointerOf 2 200)) "ip"]
    ¬ totalQueued w.queues ≤ cfg.maxPerHandle * cfg.maxRegs ∧
      ¬ (envelopeFiles w.dir).card ≤ cfg.maxPerHandle * cfg.maxRegs := by
  decide +kernel

end SporePeer
