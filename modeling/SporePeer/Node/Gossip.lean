import Mathlib.Data.Finset.Lattice.Union
import SporePeer.Library.Gossip
import SporePeer.Node.Commands
import SporePeer.Node.Holdings

/-!
# A network of nodes

Every node serves its store and has a list of peers. From time to time a node makes a pass over its
list, and whoever can be reached exchanges bodies with it. In terms of the bodies that the nodes
hold, passes are gossip.

## Main definitions

* `Net`, `Pass`: the nodes of a network, and a pass of one of them
* `runPass`, `gossip`: a pass, and a run of passes
* `meetings`: the exchanges of a pass
* `NetHolds`: what the nodes hold

## Main results

* `runPass_spread`, `gossip_spread`: passes do what their exchanges do
* `gossip_sources`: what a node holds after a run
* `gossip_converges`: rounds of passes leave connected nodes with the same bodies
* `quiet_pass_iff`: what a pass that transfers nothing says about the peers
-/

namespace SporePeer

open Effects Text Gossip

/-! ## Networks -/

/-- The nodes of a network by their addresses, and the one that the client talks to. -/
structure Net (τ : Type) where
  nodes : String → World τ
  current : String

/-- A pass of a node, and the addresses that can be reached during it. -/
structure Pass where
  node : String
  up : String → Bool

/-- The node with another state of its peers. -/
def World.withPeer {σ σ' : Type} (w : World σ) (peer : σ') : World σ' := { w with peer := peer }

section

variable {τ : Type} (senv : String → Env τ) (build : Build) (dirs : String → String) (ip : String)
  (readError : String → String)

/-- The node at `addr` handles a request. -/
def Net.serve (addr : String) (s : Net τ) (frame : Bytes) : Net τ × Except String Bytes :=
  let x := serverNet (senv addr) build {} (dirs addr) ip (s.nodes addr) frame
  ({ s with nodes := Function.update s.nodes addr x.1 }, x.2)

/-- What answers the calls of a pass. -/
def passEnv (p : Pass) : ShellEnv (Net τ) where
  toEnv := { senv p.node with net := fun s => s.serve senv build dirs ip s.current }
  dial s addr := ({ s with current := addr },
    if p.up addr then .ok () else .error "Connection refused (os error 111)")

/-- What answers the calls of the node `a` while it talks to the node at `addr`. -/
def linkEnv (a addr : String) : Env (World τ) :=
  { senv a with net := serverNet (senv addr) build {} (dirs addr) ip }

/-- A pass: the network after it, and what the pass returns. -/
def runPass (p : Pass) (nodes : String → World τ) :
    (String → World τ) × Result (Except String Summary) :=
  let x := exec (passEnv senv build dirs ip p).shell (syncPass build (dirs p.node) readError)
    { world := (nodes p.node).withPeer ⟨nodes, p.node⟩ }
  (Function.update x.1.world.peer.nodes p.node (x.1.world.withPeer (nodes p.node).peer), x.2)

/-- Passes one after another. -/
def gossip (passes : List Pass) (nodes : String → World τ) : String → World τ :=
  passes.foldl (fun nodes p => (runPass senv build dirs ip readError p nodes).1) nodes

end

/-- The exchanges of a pass: with the peers on the list that can be reached, in the order of the
list. -/
def meetings (peers : String → List String) (p : Pass) : List (String × String) :=
  ((peers p.node).filter p.up).map fun addr => (p.node, addr)

/-- The bodies that are transferred in the exchanges of `a` with `addrs`. -/
def moved (a : String) : List String → (String → Finset Bytes) → ℕ
  | [], _ => 0
  | addr :: addrs, held =>
    (held addr \ held a).card + (held a \ held addr).card +
      moved a addrs (exchange held (a, addr))

/-! ## One peer -/

section

variable {τ : Type} {senv : String → Env τ} {build : Build} {dirs : String → String} {ip : String}

/-- A client in the network, and the client of a single server. -/
structure Linked (addr : String) (nodes : String → World τ) (w : World (Net τ))
    (v : World (World τ)) : Prop where
  current : w.peer.current = addr
  seen : v = w.withPeer (w.peer.nodes addr)
  others : ∀ a, a ≠ addr → w.peer.nodes a = nodes a

theorem linked_handle {p : Pass} {addr : String} {nodes : String → World τ} {β : Type} (e : Op β)
    {w : World (Net τ)} {v : World (World τ)} (h : Linked addr nodes w v) :
    Linked addr nodes ((passEnv senv build dirs ip p).toEnv.handle β e w).1
        ((linkEnv senv build dirs ip p.node addr).handle β e v).1 ∧
      ((passEnv senv build dirs ip p).toEnv.handle β e w).2 =
        ((linkEnv senv build dirs ip p.node addr).handle β e v).2 := by
  obtain ⟨hcurrent, rfl, hothers⟩ := h
  cases e with
  | write name content =>
    simp only [Env.handle, Env.write, passEnv, linkEnv, World.withPeer]
    split
    · exact ⟨⟨hcurrent, rfl, hothers⟩, rfl⟩
    · split
      · exact ⟨⟨hcurrent, rfl, hothers⟩, rfl⟩
      · exact ⟨⟨hcurrent, rfl, hothers⟩, rfl⟩
  | rename src dst =>
    simp only [Env.handle, Env.rename, passEnv, linkEnv, World.withPeer]
    split
    · exact ⟨⟨hcurrent, rfl, hothers⟩, rfl⟩
    · split
      · exact ⟨⟨hcurrent, rfl, hothers⟩, rfl⟩
      · exact ⟨⟨hcurrent, rfl, hothers⟩, rfl⟩
  | removeFile name =>
    simp only [Env.handle, Env.removeFile, passEnv, linkEnv, World.withPeer]
    split
    · exact ⟨⟨hcurrent, rfl, hothers⟩, trivial⟩
    · exact ⟨⟨hcurrent, rfl, hothers⟩, trivial⟩
  | exchange frame =>
    -- the one call that another node answers
    simp only [Env.handle, Env.exchange, passEnv, linkEnv, World.withPeer, Net.serve, hcurrent]
    refine ⟨⟨rfl, ?_, fun a ha => (Function.update_of_ne ha _ _).trans (hothers a ha)⟩, trivial⟩
    simp only [World.withPeer, Function.update_self]
    rfl
  | setWins l x => cases l <;> exact ⟨⟨hcurrent, rfl, hothers⟩, rfl⟩
  | _ => exact ⟨⟨hcurrent, rfl, hothers⟩, rfl⟩

variable (senv build dirs ip)

/-- A program of the client runs in the network as with a single server. -/
theorem exec_linked {α : Type} (p : Pass) {addr : String} (m : Fallible Op α) {w : World (Net τ)}
    (hcurrent : w.peer.current = addr) :
    ∃ w', exec (passEnv senv build dirs ip p).toEnv.handle m w =
        (w', (exec (linkEnv senv build dirs ip p.node addr).handle m
          (w.withPeer (w.peer.nodes addr))).2) ∧
      Linked addr w.peer.nodes w' (exec (linkEnv senv build dirs ip p.node addr).handle m
        (w.withPeer (w.peer.nodes addr))).1 := by
  obtain ⟨hlinked, hresult⟩ := exec_simulated (fun _ e _ _ => linked_handle e) m
    (⟨hcurrent, rfl, fun _ _ => rfl⟩ : Linked addr w.peer.nodes w _)
  exact ⟨_, Prod.ext rfl hresult, hlinked⟩

/-- What is held during a pass of `a`: its own store is that of the client. -/
structure PassHolds (a : String) (nodes : String → World τ)
    (held : String → Finset Bytes) (s : Shell (Net τ)) : Prop where
  own : HoldsBodies build s.world.dir (held a)
  peers : ∀ addr, addr ≠ a → HoldsBodies build (s.world.peer.nodes addr).dir (held addr)
  own_besides : Besides (nodes a).dir s.world.dir
  peers_besides : ∀ addr, addr ≠ a → Besides (nodes addr).dir (s.world.peer.nodes addr).dir

variable (readError : String → String)

variable {build} {p : Pass} {nodes : String → World τ} {held : String → Finset Bytes}
  {all : Finset Bytes} {s : Shell (Net τ)} {addr : String}

/-- A peer that cannot be reached. -/
theorem syncPeer_down (hdown : p.up addr = false) (h : PassHolds build p.node nodes held s) :
    ∃ s', exec (passEnv senv build dirs ip p).shell
        (syncPeer build (dirs p.node) readError addr) s = (s', .ok (.ok none)) ∧
      PassHolds build p.node nodes held s' := by
  have hdial : (passEnv senv build dirs ip p).shell _ (.right (.connect addr)) s =
      ({ s with world := { s.world.next with peer := { s.world.peer with current := addr } } },
        .error "Connection refused (os error 111)") := by
    simp only [ShellEnv.shell, passEnv, hdown, Bool.false_eq_true, if_false]
  rw [syncPeer, outside, exec_ask_bind, hdial]
  exact ⟨_, rfl, h.own, h.peers, h.own_besides, h.peers_besides⟩

variable {senv} (hcalm : ∀ a, (senv a).Calm) (hinj : Set.InjOn (cidOf build) all)
  (hcard : all.card ≤ 2000) (hsub : ∀ a, held a ⊆ all)

include hcalm hinj hcard hsub

/-- **A peer that can be reached** exchanges bodies with the node. -/
theorem syncPeer_up (hup : p.up addr = true) (hne : addr ≠ p.node)
    (h : PassHolds build p.node nodes held s) :
    ∃ s', exec (passEnv senv build dirs ip p).shell
        (syncPeer build (dirs p.node) readError addr) s =
          (s', .ok (.ok (some ((held addr \ held p.node).card +
            (held p.node \ held addr).card)))) ∧
      PassHolds build p.node nodes (exchange held (p.node, addr)) s' := by
  have hdial : (passEnv senv build dirs ip p).shell _ (.right (.connect addr)) s =
      ({ s with world := { s.world.next with peer := { s.world.peer with current := addr } } },
        .ok ()) := by
    simp only [ShellEnv.shell, passEnv, hup, if_true]
  rw [syncPeer, outside, exec_ask_bind, hdial]
  dsimp only
  set s₁ : Shell (Net τ) :=
    { s with world := { s.world.next with peer := { s.world.peer with current := addr } } } with hs₁
  have hlinkCalm : (linkEnv senv build dirs ip p.node addr).Calm := hcalm p.node
  have hnet : (linkEnv senv build dirs ip p.node addr).net =
      serverNet (senv addr) build {} (dirs addr) ip := rfl
  -- the pull, with the peer as the only server
  obtain ⟨v₂, height, had, hpull, hmine₂, hpeer₂, hsame₂⟩ := exec_syncStream_holds
    (w := s₁.world.withPeer (s₁.world.peer.nodes addr)) hnet (hcalm addr) hlinkCalm (dirs p.node)
    hinj hcard h.own (h.peers addr hne) (hsub _) (hsub _)
  obtain ⟨w₂, hrun₂, hlinked₂⟩ := exec_linked senv build dirs ip p (syncStream build (dirs p.node))
    (show s₁.world.peer.current = addr from rfl)
  rw [hpull] at hrun₂ hlinked₂
  obtain ⟨hcurrent₂, hseen₂, hothers₂⟩ := hlinked₂
  subst hseen₂
  -- the push
  have htoken : maxBodyBytes + "".utf8ByteSize + 500 ≤ maxFrame := by decide
  have htheirs₂ : HoldsBodies build (w₂.peer.nodes addr).dir (held addr) :=
    hpeer₂ ▸ h.peers addr hne
  obtain ⟨v₃, height', had', hpush, hdir₃, htheirs₃, hsame₃⟩ := exec_pushStream_holds
    (w := w₂.withPeer (w₂.peer.nodes addr)) hnet (hcalm addr) hlinkCalm (dirs p.node) htoken
    readError hinj hcard hmine₂ htheirs₂ (Finset.union_subset (hsub _) (hsub _)) (hsub _)
  obtain ⟨w₃, hrun₃, hlinked₃⟩ := exec_linked senv build dirs ip p
    (pushStream build (dirs p.node) "" readError) hcurrent₂
  rw [hpush] at hrun₃ hlinked₃
  obtain ⟨hcurrent₃, hseen₃, hothers₃⟩ := hlinked₃
  subst hseen₃
  have hpulled : exec (passEnv senv build dirs ip p).shell
      (onNode (syncStream build (dirs p.node))) s₁ =
      ({ s₁ with world := w₂ }, .ok (.ok (height, (held addr \ held p.node).card, had))) := by
    rw [exec_onNode, hrun₂]
  have hpushed : exec (passEnv senv build dirs ip p).shell
      (onNode (pushStream build (dirs p.node) "" readError)) { s₁ with world := w₂ } =
      ({ s₁ with world := w₃ },
        .ok (.ok (height', ((held p.node ∪ held addr) \ held addr).card, had'))) := by
    rw [exec_onNode, hrun₃]
  have hnew : (held p.node ∪ held addr) \ held addr = held p.node \ held addr := by
    rw [Finset.union_sdiff_right]
  rw [exec_bind_ok (exec_attempt_ok hpulled), exec_bind_ok (exec_attempt_ok hpushed), hnew]
  refine ⟨_, rfl, ?_, fun a ha => ?_, ?_, fun a ha => ?_⟩
  · rw [exchange_fst]
    exact hdir₃ ▸ hmine₂
  · by_cases haddr : a = addr
    · subst haddr
      have hunion : exchange held (p.node, a) a = held a ∪ (held p.node ∪ held a) := by
        rw [Finset.union_left_comm, Finset.union_idempotent]
        exact exchange_snd held (p.node, a)
      rw [hunion]
      exact htheirs₃
    · rw [exchange_of_ne ha haddr, hothers₃ a haddr, hothers₂ a haddr]
      exact h.peers a ha
  · exact (h.own_besides.trans hsame₂).trans (hdir₃ ▸ .refl _)
  · by_cases haddr : a = addr
    · subst haddr
      exact ((h.peers_besides a ha).trans (hpeer₂ ▸ .refl _)).trans hsame₃
    · rw [hothers₃ a haddr, hothers₂ a haddr]
      exact h.peers_besides a ha

omit hcalm hinj hcard in
theorem exchange_subset (e : String × String) (a : String) : exchange held e a ⊆ all := by
  rw [exchange]
  split
  · exact Finset.union_subset (hsub _) (hsub _)
  · exact hsub a

/-- The peers of a pass, one after another. By induction on the list. -/
theorem syncPeers_spread {addrs : List String} (hself : p.node ∉ addrs)
    (h : PassHolds build p.node nodes held s) (t : Summary) :
    ∃ s', exec (passEnv senv build dirs ip p).shell
        (syncPeers build (dirs p.node) readError addrs t) s =
          (s', .ok (.ok ⟨t.ok + addrs.countP p.up, t.failed + addrs.countP fun q => !p.up q,
            t.transferred + moved p.node (addrs.filter p.up) held⟩)) ∧
      PassHolds build p.node nodes
        (spread ((addrs.filter p.up).map fun addr => (p.node, addr)) held) s' := by
  induction addrs generalizing held s t with
  | nil => exact ⟨s, rfl, h⟩
  | cons addr rest ih =>
    rw [List.mem_cons, not_or] at hself
    obtain ⟨hne, hself⟩ := hself
    rw [syncPeers]
    by_cases hup : p.up addr
    · -- the two nodes exchange their bodies, and the pass goes on from there
      obtain ⟨s₁, hrun, h₁⟩ := syncPeer_up dirs ip readError hcalm hinj hcard hsub hup
        (Ne.symm hne) h
      obtain ⟨s', hrun', h'⟩ := ih (exchange_subset hsub _) hself h₁ (t.add (some _))
      refine ⟨s', ?_, ?_⟩
      · rw [exec_bind_ok hrun, hrun', Summary.add, List.filter_cons_of_pos hup, moved,
          List.countP_cons_of_pos hup, List.countP_cons_of_neg (by rw [hup]; decide)]
        simp only [Nat.add_assoc, Nat.add_comm 1]
      · rw [List.filter_cons_of_pos hup]
        exact h'
    · -- nobody answers, and the failure is counted
      have hdown : p.up addr = false := eq_false_of_ne_true hup
      obtain ⟨s₁, hrun, h₁⟩ := syncPeer_down senv dirs ip readError hdown h
      obtain ⟨s', hrun', h'⟩ := ih hsub hself h₁ (t.add none)
      refine ⟨s', ?_, ?_⟩
      · rw [exec_bind_ok hrun, hrun', Summary.add, List.filter_cons_of_neg hup,
          List.countP_cons_of_neg hup, List.countP_cons_of_pos (by rw [hdown]; rfl)]
        simp only [Nat.add_assoc, Nat.add_comm 1]
      · rw [List.filter_cons_of_neg hup]
        exact h'

end

/-! ## Passes -/

/-- The network holds `held`: at most 2000 bodies in all, no two of them with one hash. No node
lists itself. -/
structure NetHolds {τ : Type} (build : Build) (all : Finset Bytes) (nodes : String → World τ)
    (held : String → Finset Bytes) : Prop where
  holds : ∀ a, HoldsBodies build (nodes a).dir (held a)
  within : ∀ a, held a ⊆ all
  card_le : all.card ≤ 2000
  injOn : Set.InjOn (cidOf build) all
  self : ∀ a, a ∉ peersIn (nodes a).dir

/-- The peer lists of the nodes. -/
def listsOf {τ : Type} (nodes : String → World τ) (a : String) : List String :=
  peersIn (nodes a).dir

section

variable {τ : Type} {senv : String → Env τ} {build : Build} {all : Finset Bytes}
  {nodes : String → World τ} {held : String → Finset Bytes}

theorem spread_subset (hsub : ∀ a, held a ⊆ all) (es : List (String × String)) (a : String) :
    spread es held a ⊆ all := by
  induction es generalizing held with
  | nil => exact hsub a
  | cons e es ih => exact ih (exchange_subset hsub e)

variable (dirs : String → String) (ip : String) (readError : String → String)
  (hcalm : ∀ a, (senv a).Calm)

include hcalm

/-- **A pass** does what its exchanges do, and keeps the peer lists. -/
theorem runPass_spread (h : NetHolds build all nodes held) (p : Pass) :
    ∃ nodes', runPass senv build dirs ip readError p nodes =
        (nodes', .ok (.ok ⟨(listsOf nodes p.node).countP p.up,
          (listsOf nodes p.node).countP fun q => !p.up q,
          moved p.node ((listsOf nodes p.node).filter p.up) held⟩)) ∧
      NetHolds build all nodes' (spread (meetings (listsOf nodes) p) held) ∧
      listsOf nodes' = listsOf nodes := by
  set s₀ : Shell (Net τ) := { world := (nodes p.node).withPeer ⟨nodes, p.node⟩ } with hs₀
  have h₀ : PassHolds build p.node nodes held { s₀ with world := s₀.world.next } :=
    ⟨h.holds _, fun a _ => h.holds a, .refl _, fun _ _ => .refl _⟩
  obtain ⟨s', hrun, h'⟩ := syncPeers_spread dirs ip readError hcalm h.injOn h.card_le h.within
    (h.self p.node) h₀ {}
  have hlist : exec (passEnv senv build dirs ip p).shell (onNode peersList) s₀ =
      ({ s₀ with world := s₀.world.next }, .ok (.ok (listsOf nodes p.node))) := by
    have hpassCalm : (passEnv senv build dirs ip p).toEnv.Calm := hcalm p.node
    rw [exec_onNode, exec_peersList hpassCalm]
    rfl
  have hpass : exec (passEnv senv build dirs ip p).shell
      (syncPass build (dirs p.node) readError) s₀ = (s', .ok (.ok
        ⟨(listsOf nodes p.node).countP p.up, (listsOf nodes p.node).countP fun q => !p.up q,
          moved p.node ((listsOf nodes p.node).filter p.up) held⟩)) := by
    rw [syncPass, exec_bind_ok hlist]
    simp only [Nat.zero_add] at hrun
    exact hrun
  -- the peer lists are files that are no bodies, and no node changes such a file
  have hbesides (a : String) : Besides (nodes a).dir (Function.update s'.world.peer.nodes p.node
      (s'.world.withPeer (nodes p.node).peer) a).dir := by
    by_cases ha : a = p.node
    · subst ha
      rw [Function.update_self]
      exact h'.own_besides
    · rw [Function.update_of_ne ha]
      exact h'.peers_besides a ha
  refine ⟨_, by rw [runPass, hpass], ⟨fun a => ?_, spread_subset h.within _, h.card_le, h.injOn,
    fun a => ?_⟩, funext fun a => peersIn_of_besides (hbesides a)⟩
  · by_cases ha : a = p.node
    · subst ha
      rw [Function.update_self]
      exact h'.own
    · rw [Function.update_of_ne ha]
      exact h'.peers a ha
  · rw [peersIn_of_besides (hbesides a)]
    exact h.self a

/-- **A run of passes** does what their exchanges do. -/
theorem gossip_spread (h : NetHolds build all nodes held) (passes : List Pass) :
    NetHolds build all (gossip senv build dirs ip readError passes nodes)
      (spread (passes.flatMap (meetings (listsOf nodes))) held) := by
  induction passes generalizing nodes held with
  | nil => exact h
  | cons p passes ih =>
    obtain ⟨nodes', hrun, h', hlists⟩ := runPass_spread dirs ip readError hcalm h p
    have hrest := ih h'
    rw [hlists] at hrest
    rw [gossip, List.foldl_cons, hrun, List.flatMap_cons, spread_append]
    exact hrest

/-- **What a node holds** after passes of any nodes in any order, whoever could be reached: the
bodies that its sources held. -/
theorem gossip_sources (h : NetHolds build all nodes held) (passes : List Pass) (a : String) :
    HoldsBodies build (gossip senv build dirs ip readError passes nodes a).dir
      ((sources (passes.flatMap (meetings (listsOf nodes))) a).biUnion held) := by
  have hrun := (gossip_spread dirs ip readError hcalm h passes).holds a
  rw [spread_eq_sup_sources, Finset.sup_eq_biUnion] at hrun
  exact hrun

/-- **Convergence**: take nodes that exchange bodies with no others, and between any two of them a
chain of nodes, no longer than there are rounds, of which each one meets the next in every round.
After the rounds every one of these nodes holds the bodies of them all. -/
theorem gossip_converges (h : NetHolds build all nodes held) {rounds : List (List Pass)}
    {C : Finset String}
    (hclosed : ∀ round ∈ rounds, ∀ e ∈ round.flatMap (meetings (listsOf nodes)),
      e.1 ∈ C ↔ e.2 ∈ C)
    (hchained : ∀ a ∈ C, ∀ b ∈ C, Chained
      (fun x y => ∀ round ∈ rounds, Exchanges (round.flatMap (meetings (listsOf nodes))) x y)
      rounds.length a b) :
    ∀ a ∈ C, HoldsBodies build (gossip senv build dirs ip readError rounds.flatten nodes a).dir
      (C.biUnion held) := by
  intro a ha
  have hrun := (gossip_spread dirs ip readError hcalm h rounds.flatten).holds a
  set exchanges := rounds.map (List.flatMap (meetings (listsOf nodes))) with hexchanges
  have hflatten : rounds.flatten.flatMap (meetings (listsOf nodes)) = exchanges.flatten := by
    rw [List.flatten_eq_flatMap (L := rounds), List.flatMap_assoc, List.flatMap_def]
    rfl
  have hlen : exchanges.length = rounds.length := List.length_map _
  have hspread : spread exchanges.flatten held a = C.sup held := by
    refine spread_rounds_eq_sup (fun es hes x y hlinked => ?_) (fun es hes => ?_) ha
      (fun b hb => hlen ▸ hchained a ha b hb) held
    · obtain ⟨round, hround, rfl⟩ := List.mem_map.mp hes
      exact hlinked round hround
    · obtain ⟨round, hround, rfl⟩ := List.mem_map.mp hes
      exact hclosed round hround
  rw [hflatten, hspread, Finset.sup_eq_biUnion] at hrun
  exact hrun

end

/-! ## Quiet passes -/

section

variable {a : String} {addrs : List String} {held : String → Finset Bytes}

theorem moved_eq_zero_iff : moved a addrs held = 0 ↔ ∀ q ∈ addrs, held q = held a := by
  induction addrs with
  | nil => exact iff_of_true rfl fun q hq => (List.not_mem_nil hq).elim
  | cons q rest ih =>
    rw [moved, Nat.add_eq_zero_iff, Nat.add_eq_zero_iff, Finset.card_eq_zero, Finset.card_eq_zero,
      Finset.sdiff_eq_empty_iff_subset, Finset.sdiff_eq_empty_iff_subset, List.forall_mem_cons,
      ← Finset.Subset.antisymm_iff]
    refine and_congr_right fun hq => ?_
    rw [exchange_eq_self_iff.mpr hq.symm]
    exact ih

/-- Exchanges with nodes that hold the same do nothing. -/
theorem spread_eq_self (h : ∀ q ∈ addrs, held q = held a) :
    spread (addrs.map fun q => (a, q)) held = held := by
  induction addrs with
  | nil => rfl
  | cons q rest ih =>
    obtain ⟨hq, hrest⟩ := List.forall_mem_cons.mp h
    rw [List.map_cons, spread_cons, exchange_eq_self_iff.mpr hq.symm]
    exact ih hrest

/-- **A quiet pass**: nothing has failed and nothing was transferred just if every peer on the list
could be reached and holds the same bodies; and a pass that transfers nothing changes no bodies. -/
theorem quiet_pass_iff {τ : Type} {senv : String → Env τ} {build : Build}
    (dirs : String → String) (ip : String) (readError : String → String) {all : Finset Bytes}
    {nodes : String → World τ} (hcalm : ∀ a, (senv a).Calm) (h : NetHolds build all nodes held)
    (p : Pass) :
    ∃ nodes' t, runPass senv build dirs ip readError p nodes = (nodes', .ok (.ok t)) ∧
      (t.failed = 0 ∧ t.transferred = 0 ↔ ∀ q ∈ listsOf nodes p.node,
        p.up q ∧ bodiesOf (nodes q).dir = bodiesOf (nodes p.node).dir) ∧
      (t.transferred = 0 → ∀ a, bodiesOf (nodes' a).dir = bodiesOf (nodes a).dir) := by
  obtain ⟨nodes', hrun, h', -⟩ := runPass_spread dirs ip readError hcalm h p
  refine ⟨nodes', _, hrun, ?_, fun hzero a => ?_⟩
  · simp only [List.countP_eq_zero, Bool.not_eq_true', Bool.not_eq_false, moved_eq_zero_iff,
      List.mem_filter, and_imp]
    constructor
    · rintro ⟨hup, hsame⟩ q hq
      exact ⟨hup q hq, ((h.holds q).bodiesOf_eq_iff (h.holds p.node)).mpr (hsame q hq (hup q hq))⟩
    · intro hall
      exact ⟨fun q hq => (hall q hq).1,
        fun q hq _ => ((h.holds q).bodiesOf_eq_iff (h.holds p.node)).mp (hall q hq).2⟩
  · refine ((h'.holds a).bodiesOf_eq_iff (h.holds a)).mpr (congrFun ?_ a)
    exact spread_eq_self (moved_eq_zero_iff.mp hzero)

end

/-! ## Three nodes -/

/-- A node with the given bodies and peers. -/
def stocked (build : Build) (bs : List Bytes) (peers : String) : World Unit :=
  { World.fresh () with dir := (storeOf build bs).insert peersFile ⟨asBytes peers, 0⟩ }

/-- Two nodes that list a third one, with one body each. -/
def threeNodes (build : Build) (addr : String) : World Unit :=
  if addr = "a:1" then stocked build [[1]] "b:1"
  else if addr = "b:1" then stocked build [[2]] ""
  else if addr = "c:1" then stocked build [[3]] "b:1"
  else stocked build [] ""

/-- What the three nodes hold. -/
def threeHeld (addr : String) : Finset Bytes :=
  if addr = "a:1" then {[1]} else if addr = "b:1" then {[2]} else if addr = "c:1" then {[3]} else ∅

theorem listsOf_threeNodes (build : Build) : listsOf (threeNodes build) = fun addr =>
    if addr = "a:1" then ["b:1"] else if addr = "b:1" then [] else
      if addr = "c:1" then ["b:1"] else [] := by
  have hlists (bs : List Bytes) (peers : String) (hsize : peers.utf8ByteSize < 2 ^ 63) :
      peersIn (stocked build bs peers).dir = peersOf peers := peersIn_insert _ hsize 0
  funext addr
  rw [listsOf, threeNodes]
  split
  · exact (hlists _ _ (by decide)).trans (by decide +kernel)
  split
  · exact (hlists _ _ (by decide)).trans (by decide +kernel)
  split
  · exact (hlists _ _ (by decide)).trans (by decide +kernel)
  · exact (hlists _ _ (by decide)).trans (by decide +kernel)

theorem injOn_cidOf_three :
    Set.InjOn (cidOf .padding) (({[1], [2], [3]} : Finset Bytes) : Set Bytes) := by
  have hall : ∀ b ∈ ({[1], [2], [3]} : Finset Bytes), ∀ c ∈ ({[1], [2], [3]} : Finset Bytes),
      cidOf .padding b = cidOf .padding c → b = c := by decide +kernel
  exact fun b hb c hc => hall b hb c hc

theorem netHolds_threeNodes :
    NetHolds .padding {[1], [2], [3]} (threeNodes .padding) threeHeld where
  holds addr := by
    have hstocked {bs : List Bytes} (peers : String) (hfits : ∀ b ∈ bs, Fits b)
        (hsub : bs.toFinset ⊆ {[1], [2], [3]}) :
        HoldsBodies .padding (stocked .padding bs peers).dir bs.toFinset :=
      (HoldsBodies.of_storeOf hfits (injOn_cidOf_three.mono hsub)).insert_other
        not_isBodyFile_peersFile _
    rw [threeNodes, threeHeld]
    split
    · exact hstocked _ (by decide) (by decide)
    split
    · exact hstocked _ (by decide) (by decide)
    split
    · exact hstocked _ (by decide) (by decide)
    · exact hstocked _ (by decide) (by decide)
  within addr := by
    rw [threeHeld]
    split
    · decide
    split
    · decide
    split
    · decide
    · decide
  card_le := by decide
  injOn := injOn_cidOf_three
  self addr := by
    have hlists := congrFun (listsOf_threeNodes .padding) addr
    rw [listsOf] at hlists
    rw [hlists]
    split
    · rename_i h
      rw [h]
      decide
    split
    · exact List.not_mem_nil
    split
    · rename_i h
      rw [h]
      decide
    · exact List.not_mem_nil

/-- The passes of the first and of the third node. -/
def bothPass : List Pass := [⟨"a:1", fun _ => true⟩, ⟨"c:1", fun _ => true⟩]

theorem meetings_bothPass : bothPass.flatMap (meetings (listsOf (threeNodes .padding))) =
    [("a:1", "b:1"), ("c:1", "b:1")] := by
  rw [listsOf_threeNodes]
  decide

/-- After one pass each of the outer nodes, the first one lacks what the third one held. -/
theorem gossip_sources_three :
    let nodes := gossip (fun _ => .still (fun p _ => (p, .error "closed")) 0) .padding
      (fun _ => "") "" id bothPass (threeNodes .padding)
    HoldsBodies .padding (nodes "a:1").dir {[1], [2]} ∧
      HoldsBodies .padding (nodes "c:1").dir {[1], [2], [3]} := by
  intro nodes
  have hsources (a : String) : HoldsBodies .padding (nodes a).dir
      ((sources [("a:1", "b:1"), ("c:1", "b:1")] a).biUnion threeHeld) := by
    rw [← meetings_bothPass]
    exact gossip_sources _ _ _ (fun _ => Env.still_calm _ _) netHolds_threeNodes bothPass a
  have hfirst : (sources [("a:1", "b:1"), ("c:1", "b:1")] "a:1").biUnion threeHeld =
      {[1], [2]} := by decide
  have hthird : (sources [("a:1", "b:1"), ("c:1", "b:1")] "c:1").biUnion threeHeld =
      {[1], [2], [3]} := by decide
  exact ⟨hfirst ▸ hsources "a:1", hthird ▸ hsources "c:1"⟩

/-- After two passes each of the outer nodes, all three nodes hold the same bodies. -/
theorem gossip_converges_three :
    let nodes := gossip (fun _ => .still (fun p _ => (p, .error "closed")) 0) .padding
      (fun _ => "") "" id [bothPass, bothPass].flatten (threeNodes .padding)
    HoldsBodies .padding (nodes "a:1").dir {[1], [2], [3]} ∧
      HoldsBodies .padding (nodes "b:1").dir {[1], [2], [3]} ∧
      HoldsBodies .padding (nodes "c:1").dir {[1], [2], [3]} := by
  intro nodes
  have hround : ∀ round ∈ [bothPass, bothPass],
      round.flatMap (meetings (listsOf (threeNodes .padding))) =
        [("a:1", "b:1"), ("c:1", "b:1")] := by
    intro round hround
    rw [List.mem_pair, or_self] at hround
    rw [hround, meetings_bothPass]
  have hbodies : ({[1], [2], [3]} : Finset Bytes) =
      ({"a:1", "b:1", "c:1"} : Finset String).biUnion threeHeld := by decide
  have hall : ∀ a ∈ ({"a:1", "b:1", "c:1"} : Finset String),
      HoldsBodies .padding (nodes a).dir {[1], [2], [3]} := by
    rw [hbodies]
    refine gossip_converges _ _ _ (fun _ => Env.still_calm _ _) netHolds_threeNodes
      (fun round hr => ?_) (fun a ha b hb => ?_)
    · rw [hround round hr]
      decide
    · -- everyone is linked to the node in the middle
      set links := fun x y => ∀ round ∈ [bothPass, bothPass],
        Exchanges (round.flatMap (meetings (listsOf (threeNodes .padding)))) x y with hlinks
      have hlinked {x y : String}
          (h : Exchanges [("a:1", "b:1"), ("c:1", "b:1")] x y) : links x y := by
        intro round hr
        rw [hround round hr]
        exact h
      have hmiddle : ∀ x ∈ ({"a:1", "b:1", "c:1"} : Finset String), x ≠ "b:1" →
          Exchanges [("a:1", "b:1"), ("c:1", "b:1")] x "b:1" ∧
            Exchanges [("a:1", "b:1"), ("c:1", "b:1")] "b:1" x := by decide
      by_cases hab : a = b
      · rw [hab]
        exact .refl _ _
      by_cases hamid : a = "b:1"
      · rw [hamid] at hab ⊢
        exact .snoc (.refl 1 _) (hlinked (hmiddle b hb (Ne.symm hab)).2)
      · have hfirst : Chained links 1 a "b:1" := .snoc (.refl 0 a) (hlinked (hmiddle a ha hamid).1)
        by_cases hbmid : b = "b:1"
        · rw [hbmid]
          exact .snoc (.refl 1 _) (hlinked (hmiddle a ha hamid).1)
        · exact .snoc hfirst (hlinked (hmiddle b hb hbmid).2)
  exact ⟨hall "a:1" (by decide), hall "b:1" (by decide), hall "c:1" (by decide)⟩

/-- The first pass of the first node is not quiet. -/
theorem quiet_pass_iff_three :
    ∃ nodes' t, runPass (fun _ => .still (fun p _ => (p, .error "closed")) 0) .padding
        (fun _ => "") "" id ⟨"a:1", fun _ => true⟩ (threeNodes .padding) =
          (nodes', .ok (.ok t)) ∧ ¬ (t.failed = 0 ∧ t.transferred = 0) := by
  have hcalm : ∀ _ : String, (Env.still (fun (p : Unit) _ => (p, .error "closed")) 0).Calm :=
    fun _ => Env.still_calm _ _
  obtain ⟨nodes', t, hrun, hquiet, -⟩ := quiet_pass_iff (fun _ => "") "" id hcalm
    netHolds_threeNodes ⟨"a:1", fun _ => true⟩
  refine ⟨nodes', t, hrun, fun h => ?_⟩
  have hlisted : "b:1" ∈ listsOf (threeNodes .padding) "a:1" := by
    rw [listsOf_threeNodes]
    decide
  have hsame := ((netHolds_threeNodes.holds _).bodiesOf_eq_iff (netHolds_threeNodes.holds _)).mp
    (hquiet.mp h "b:1" hlisted).2
  exact absurd hsame (by decide)

end SporePeer
