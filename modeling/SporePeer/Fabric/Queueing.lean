import SporePeer.Fabric.Effects

/-!
# What a put and a drain make of a queue

A put first gives its pointer a place: the place it has, or a new one at the end. It then removes
the entries over the cap, and those that have expired. Every entry is kept or removed, and the
kept ones stay in order.

## Main definitions

* `placed`: the queue once the pointer has its place
* `overflow`, `superseded`, `putRemoved`: what a put removes

## Main results

* `putKept_eq`, `putDropped_eq`: a put in these terms
* `perm_placed`: an entry is kept or removed
* `nodup_putKept`, `length_putKept_le`: a queue keeps distinct pointers, at most the cap
* `length_popOut_le`: a drain
-/

namespace SporePeer

/-- The pointer of `new` is queued in `q`. -/
def IsQueued (p : Pointer) (q : List Queued) : Prop := ∃ x ∈ q, x.pointer = p

instance (p : Pointer) (q : List Queued) : Decidable (IsQueued p q) :=
  inferInstanceAs (Decidable (∃ x ∈ q, x.pointer = p))

/-- The queue once the pointer of `new` has its place. -/
def placed (new : Queued) (q : List Queued) : List Queued :=
  if IsQueued new.pointer q then refresh new.pointer new.envCidHex new.deadline q else q ++ [new]

/-- How many of the oldest entries are over the cap: none unless the pointer is new. -/
def overflow (cfg : FabricConfig) (new : Queued) (q : List Queued) : ℕ :=
  if IsQueued new.pointer q then 0 else q.length + 1 - cfg.maxPerHandle

/-- The envelope that a refresh replaces. -/
def superseded (new : Queued) (q : List Queued) : List String :=
  ((q.find? fun x => x.pointer = new.pointer).toList.map Queued.envCidHex).filter
    (· ≠ new.envCidHex)

/-- The entries that a put removes. -/
def putRemoved (cfg : FabricConfig) (new : Queued) (now : ℕ) (q : List Queued) : List Queued :=
  (placed new q).take (overflow cfg new q) ++
    ((placed new q).drop (overflow cfg new q)).filter fun x => x.deadline ≤ now

variable {cfg : FabricConfig} {new : Queued} {now : ℕ} {q : List Queued}

theorem find?_pointer_isSome {p : Pointer} :
    (q.find? fun x => x.pointer = p).isSome ↔ IsQueued p q := by
  simp [IsQueued, List.find?_isSome]

theorem putResult_eq (cfg : FabricConfig) (new : Queued) (q : List Queued) :
    putResult cfg new q =
      ((placed new q).drop (overflow cfg new q),
        superseded new q ++
          ((placed new q).take (overflow cfg new q)).map Queued.envCidHex) := by
  unfold putResult placed overflow superseded
  rcases hf : q.find? fun x => x.pointer = new.pointer with _ | old
  · have hnot : ¬ IsQueued new.pointer q := by
      rw [← find?_pointer_isSome, hf]
      exact Bool.false_ne_true
    simp only [hf, if_neg hnot, List.length_append, List.length_singleton]
    rfl
  · have hin : IsQueued new.pointer q := by
      rw [← find?_pointer_isSome, hf]
      rfl
    simp only [hf, if_pos hin, List.drop_zero, List.take_zero, List.map_nil, List.append_nil,
      Option.toList_some, List.map_cons, List.filter_cons, List.filter_nil]
    by_cases hc : old.envCidHex = new.envCidHex <;> simp [hc]

theorem putKept_eq : putKept cfg new now q =
    ((placed new q).drop (overflow cfg new q)).filter fun x => now < x.deadline := by
  rw [putKept, putResult_eq]

theorem putDropped_eq : putDropped cfg new now q =
    superseded new q ++ (putRemoved cfg new now q).map Queued.envCidHex := by
  rw [putDropped, putResult_eq, putRemoved, List.map_append, List.append_assoc]

/-- Every entry is kept or removed. -/
theorem perm_placed (cfg : FabricConfig) (new : Queued) (now : ℕ) (q : List Queued) :
    (placed new q).Perm (putRemoved cfg new now q ++ putKept cfg new now q) := by
  have hsplit : ((placed new q).drop (overflow cfg new q)).Perm
      (((placed new q).drop (overflow cfg new q)).filter (fun x => x.deadline ≤ now) ++
        ((placed new q).drop (overflow cfg new q)).filter fun x => now < x.deadline) := by
    have hnot : (fun x : Queued => decide (now < x.deadline)) =
        fun x => !decide (x.deadline ≤ now) := by
      funext x
      rw [← decide_not, decide_eq_decide, not_le]
    rw [hnot]
    exact (List.filter_append_perm _ _).symm
  calc placed new q
      = (placed new q).take (overflow cfg new q) ++ (placed new q).drop (overflow cfg new q) :=
        (List.take_append_drop _ _).symm
    _ |>.Perm (putRemoved cfg new now q ++ putKept cfg new now q) := by
        rw [putRemoved, putKept_eq, List.append_assoc]
        exact hsplit.append_left _

theorem putKept_sublist : (putKept cfg new now q).Sublist (placed new q) := by
  rw [putKept_eq]
  exact List.filter_sublist.trans (List.drop_sublist _ _)

/-! ## Places -/

theorem map_pointer_refresh (p : Pointer) (c : String) (d : ℕ) :
    (refresh p c d q).map Queued.pointer = q.map Queued.pointer := by
  induction q with
  | nil => rfl
  | cons x q ih =>
    unfold refresh
    split
    · rfl
    · rw [List.map_cons, ih, List.map_cons]

theorem map_pointer_placed : (placed new q).map Queued.pointer =
    q.map Queued.pointer ++ if IsQueued new.pointer q then [] else [new.pointer] := by
  unfold placed
  split
  · rw [map_pointer_refresh, List.append_nil]
  · rw [List.map_append, List.map_singleton]

theorem nodup_placed (h : (q.map Queued.pointer).Nodup) :
    ((placed new q).map Queued.pointer).Nodup := by
  rw [map_pointer_placed]
  split
  · rwa [List.append_nil]
  · rename_i hnot
    refine List.nodup_append.mpr ⟨h, List.nodup_singleton _, ?_⟩
    rintro p hp p' hp' rfl
    rw [List.mem_singleton] at hp'
    obtain ⟨x, hx, hxp⟩ := List.mem_map.mp hp
    exact hnot ⟨x, hx, hxp.trans hp'⟩

/-- **A queue keeps distinct pointers.** -/
theorem nodup_putKept (h : (q.map Queued.pointer).Nodup) :
    ((putKept cfg new now q).map Queued.pointer).Nodup :=
  (nodup_placed h).sublist (putKept_sublist.map _)

/-- An entry of a refreshed queue is the refreshed one or an old one. -/
theorem mem_refresh {p : Pointer} {c : String} {d : ℕ} {x : Queued} (hx : x ∈ refresh p c d q) :
    x.pointer = p ∧ x.envCidHex = c ∧ x.deadline = d ∨ x ∈ q := by
  induction q with
  | nil => cases hx
  | cons y q ih =>
    unfold refresh at hx
    split at hx
    · rename_i hy
      rcases List.mem_cons.mp hx with rfl | hx
      · exact .inl ⟨hy, rfl, rfl⟩
      · exact .inr (List.mem_cons_of_mem _ hx)
    · rcases List.mem_cons.mp hx with rfl | hx
      · exact .inr List.mem_cons_self
      · exact (ih hx).imp_right (List.mem_cons_of_mem _)

theorem mem_placed {x : Queued} (hx : x ∈ placed new q) :
    x.pointer = new.pointer ∧ x.envCidHex = new.envCidHex ∧ x.deadline = new.deadline ∨ x ∈ q := by
  unfold placed at hx
  split at hx
  · exact mem_refresh hx
  · rcases List.mem_append.mp hx with hx | hx
    · exact .inr hx
    · rw [List.mem_singleton.mp hx]
      exact .inl ⟨rfl, rfl, rfl⟩

/-- The other entries keep their places. -/
theorem mem_refresh_of_ne {p : Pointer} {c : String} {d : ℕ} {x : Queued} (hx : x ∈ q)
    (hp : x.pointer ≠ p) : x ∈ refresh p c d q := by
  induction q with
  | nil => cases hx
  | cons y q ih =>
    unfold refresh
    rcases List.mem_cons.mp hx with rfl | hx
    · rw [if_neg hp]
      exact List.mem_cons_self
    · split
      · exact List.mem_cons_of_mem _ hx
      · exact List.mem_cons_of_mem _ (ih hx)

theorem mem_placed_of_ne {x : Queued} (hx : x ∈ q) (hp : x.pointer ≠ new.pointer) :
    x ∈ placed new q := by
  unfold placed
  split
  · exact mem_refresh_of_ne hx hp
  · exact List.mem_append_left _ hx

/-- The pointer of a put has a place, under its new envelope. -/
theorem exists_mem_refresh {p : Pointer} {c : String} {d : ℕ} (h : IsQueued p q) :
    ∃ x ∈ refresh p c d q, x.pointer = p ∧ x.envCidHex = c ∧ x.deadline = d := by
  induction q with
  | nil => exact absurd h (by simp [IsQueued])
  | cons y q ih =>
    unfold refresh
    split
    · rename_i hy
      exact ⟨_, List.mem_cons_self, hy, rfl, rfl⟩
    · rename_i hy
      obtain ⟨x, hx, hxp⟩ := h
      rcases List.mem_cons.mp hx with rfl | hx
      · exact absurd hxp hy
      · obtain ⟨z, hz, hzp⟩ := ih ⟨x, hx, hxp⟩
        exact ⟨z, List.mem_cons_of_mem _ hz, hzp⟩

theorem exists_mem_placed (new : Queued) (q : List Queued) :
    ∃ x ∈ placed new q, x.pointer = new.pointer ∧ x.envCidHex = new.envCidHex ∧
      x.deadline = new.deadline := by
  unfold placed
  split
  · exact exists_mem_refresh ‹_›
  · exact ⟨new, List.mem_append_right _ List.mem_cons_self, rfl, rfl, rfl⟩

theorem eq_of_pointer {l : List Queued} (h : (l.map Queued.pointer).Nodup) {x y : Queued}
    (hx : x ∈ l) (hy : y ∈ l) (hp : x.pointer = y.pointer) : x = y :=
  List.inj_on_of_nodup_map h hx hy hp

/-- An entry whose envelope a refresh replaces is the entry of the pointer. -/
theorem mem_superseded {c : String} (hc : c ∈ superseded new q) :
    c ≠ new.envCidHex ∧ ∃ x ∈ q, x.pointer = new.pointer ∧ x.envCidHex = c := by
  obtain ⟨hc, hne⟩ := List.mem_filter.mp hc
  obtain ⟨x, hx, rfl⟩ := List.mem_map.mp hc
  rw [Option.mem_toList] at hx
  have hp := List.find?_some hx
  exact ⟨by simpa using hne, x, List.mem_of_find?_eq_some hx, by simpa using hp, rfl⟩

theorem superseded_of_mem (h : (q.map Queued.pointer).Nodup) {x : Queued} (hx : x ∈ q)
    (hp : x.pointer = new.pointer) (hc : x.envCidHex ≠ new.envCidHex) :
    x.envCidHex ∈ superseded new q := by
  have hsome : (q.find? fun x => x.pointer = new.pointer).isSome :=
    find?_pointer_isSome.mpr ⟨x, hx, hp⟩
  obtain ⟨y, hy⟩ := Option.isSome_iff_exists.mp hsome
  have hyp : y.pointer = new.pointer := by simpa using List.find?_some hy
  obtain rfl : y = x := eq_of_pointer h (List.mem_of_find?_eq_some hy) hx (hyp.trans hp.symm)
  refine List.mem_filter.mpr ⟨List.mem_map.mpr ⟨y, ?_, rfl⟩, by simpa using hc⟩
  rw [Option.mem_toList]
  exact hy

/-! ## Lengths -/

theorem length_refresh (p : Pointer) (c : String) (d : ℕ) :
    (refresh p c d q).length = q.length := by
  have h := congrArg List.length (map_pointer_refresh (q := q) p c d)
  rwa [List.length_map, List.length_map] at h

/-- **A queue stays under its cap.** -/
theorem length_putKept_le (h : q.length ≤ cfg.maxPerHandle) :
    (putKept cfg new now q).length ≤ cfg.maxPerHandle := by
  have hle : (putKept cfg new now q).length ≤ ((placed new q).drop (overflow cfg new q)).length := by
    rw [putKept_eq]
    exact List.length_filter_le _ _
  refine hle.trans ?_
  rw [List.length_drop, placed, overflow]
  split
  · rwa [length_refresh, Nat.sub_zero]
  · rw [List.length_append, List.length_singleton]
    omega

/-! ## Drains -/

/-- A drain delivers no more than its room. -/
theorem length_popOut_le (now max : ℕ) (q : List Queued) : (popOut now max q).length ≤ max := by
  unfold popOut
  rw [List.length_map]
  induction q generalizing max with
  | nil => exact Nat.zero_le _
  | cons x q ih =>
    by_cases hmax : max = 0
    · rw [drainCount, if_pos hmax]
      exact Nat.zero_le _
    · rw [drainCount, if_neg hmax, List.take_succ_cons]
      by_cases hx : now < x.deadline
      · rw [List.filter_cons_of_pos (by simpa using hx), if_pos hx, List.length_cons]
        have := ih (max - 1)
        omega
      · rw [List.filter_cons_of_neg (by simpa using hx), if_neg hx]
        exact ih max

/-- A drain delivers what lives. -/
theorem mem_popOut {now max : ℕ} {p : Pointer} (h : p ∈ popOut now max q) :
    ∃ x ∈ q, now < x.deadline ∧ x.pointer = p := by
  obtain ⟨x, hx, rfl⟩ := List.mem_map.mp h
  obtain ⟨hx, hlive⟩ := List.mem_filter.mp hx
  exact ⟨x, List.mem_of_mem_take hx, by simpa using hlive, rfl⟩

end SporePeer
