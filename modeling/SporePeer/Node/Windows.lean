import SporePeer.Node.Store

/-!
# The rate limiter

One map serves all addresses, with a window and a count for each. An address is admitted as often
in a window as it asks, up to the maximum, and nothing that other addresses do changes that.

## Main definitions

* `allowEach`: calls one after another
* `admissions`: their results, from the windows alone
* `used`: how much of a window an address has used up
* `decisions`: the results of some of the calls

## Main results

* `countHit_eq`: what one call does
* `decisions_window`, `decisions_address`: exactness, and independence
* `limiter_exact`: both of the limiter
-/

namespace SporePeer

open Effects

/-- The results of the calls `allow(ip, now)`, one after another. -/
def allowEach (l : Limiter) (max : ℕ) : List (String × ℕ) → Fallible Op (List Bool)
  | [] => return []
  | (ip, now) :: calls => do
    let ok ← allow l max ip now
    let oks ← allowEach l max calls
    return ok :: oks

/-- The results of calls, from the windows that they find. -/
def admissions (max : ℕ) : Wins → List (String × ℕ) → List Bool
  | _, [] => []
  | wins, (ip, now) :: calls =>
    (countHit max wins ip now).2 :: admissions max (countHit max wins ip now).1 calls

/-- How much of the window `now` the address has used up. -/
def used (wins : Wins) (ip : String) (now : ℕ) : ℕ :=
  ((wins.lookup ip).filter fun e => e.1 = now).elim 0 Prod.snd

/-- The results of some of the calls. -/
def decisions (p : String × ℕ → Bool) (calls : List (String × ℕ)) (oks : List Bool) : List Bool :=
  ((calls.zip oks).filter fun c => p c.1).map Prod.snd

section

variable {max : ℕ} {wins wins' : Wins} {ip ip' : String} {now now' : ℕ}

theorem used_of_lookup {t c : ℕ} (h : wins.lookup ip = some (t, c)) :
    used wins ip now = if t = now then c else 0 := by
  rw [used, h]
  by_cases ht : t = now
  · rw [if_pos ht, Option.filter_some, if_pos (decide_eq_true ht), Option.elim_some]
  · rw [if_neg ht, Option.filter_some, if_neg (by simpa using ht), Option.elim_none]

/-- **One call.** It is admitted if the window has room, and takes a place of it then. -/
theorem countHit_eq (hmax : 0 < max) (wins : Wins) (ip : String) (now : ℕ) :
    countHit max wins ip now =
      (wins.insert ip (now, if used wins ip now < max then used wins ip now + 1
        else used wins ip now), decide (used wins ip now < max)) := by
  rw [countHit]
  rcases hlook : wins.lookup ip with _ | ⟨t, c⟩
  · -- a new entry, in the window of the call
    have hused : used wins ip now = 0 := by
      rw [used, hlook]
      rfl
    simp only [Option.getD_none, ne_eq, not_true_eq_false, if_false, hused]
    rw [if_neg (by omega), if_pos hmax, decide_eq_true hmax]
  · have hused := @used_of_lookup _ _ now _ _ hlook
    simp only [Option.getD_some]
    by_cases ht : t = now
    · subst ht
      rw [if_pos rfl] at hused
      rw [if_neg (not_not.mpr rfl), hused]
      by_cases hfull : max ≤ c
      · rw [if_pos hfull, if_neg (not_lt.mpr hfull), decide_eq_false (not_lt.mpr hfull)]
      · rw [if_neg hfull, if_pos (not_le.mp hfull), decide_eq_true (not_le.mp hfull)]
    · -- a stale window is begun anew
      rw [if_neg ht] at hused
      rw [if_pos ht, hused, if_pos hmax, decide_eq_true hmax]

section

variable {p : String × ℕ → Bool} {c : String × ℕ} {ok : Bool} {calls : List (String × ℕ)}
  {oks : List Bool}

theorem decisions_cons_of_pos (h : p c = true) :
    decisions p (c :: calls) (ok :: oks) = ok :: decisions p calls oks := by
  rw [decisions, List.zip_cons_cons, List.filter_cons, if_pos h, List.map_cons]
  rfl

theorem decisions_cons_of_neg (h : ¬ p c = true) :
    decisions p (c :: calls) (ok :: oks) = decisions p calls oks := by
  rw [decisions, List.zip_cons_cons, List.filter_cons, if_neg h]
  rfl

end

theorem length_admissions (max : ℕ) (wins : Wins) (calls : List (String × ℕ)) :
    (admissions max wins calls).length = calls.length := by
  induction calls generalizing wins with
  | nil => rfl
  | cons c calls ih => rw [admissions, List.length_cons, List.length_cons, ih]

/-- **Addresses do not interfere**: what an address is told depends on its own entry and its own
calls. By induction on the calls; a call of another address leaves the entry alone. -/
theorem decisions_address (hmax : 0 < max) (calls : List (String × ℕ))
    (h : wins.lookup ip = wins'.lookup ip) :
    decisions (fun c => c.1 = ip) calls (admissions max wins calls) =
      admissions max wins' (calls.filter fun c => c.1 = ip) := by
  induction calls generalizing wins wins' with
  | nil => rfl
  | cons c calls ih =>
    obtain ⟨ip', now⟩ := c
    rw [admissions, countHit_eq hmax]
    by_cases hip : ip' = ip
    · subst hip
      have hused : used wins ip' now = used wins' ip' now := by rw [used, used, h]
      rw [decisions_cons_of_pos (by simp), List.filter_cons_of_pos (by simp), admissions,
        countHit_eq hmax, hused]
      refine congrArg _ (ih ?_)
      rw [AList.lookup_insert, AList.lookup_insert]
    · rw [decisions_cons_of_neg (by simpa using hip), List.filter_cons_of_neg (by simpa using hip)]
      refine ih ?_
      rw [Table.lookup_insert_eq, if_neg (Ne.symm hip), h]

/-- **The limiter is exact**: of the calls of an address in one window, as many are admitted as the
window has room for, and these are the first. By induction on the calls; the entry of the address
is never ahead of them. -/
theorem decisions_window (hmax : 0 < max) (calls : List (String × ℕ))
    (hmono : calls.Pairwise fun a b => a.2 ≤ b.2)
    (hold : ∀ t c, wins.lookup ip = some (t, c) → ∀ call ∈ calls, t ≤ call.2) :
    decisions (fun c => c = (ip, now)) calls (admissions max wins calls) =
      List.replicate (min (max - used wins ip now) (calls.count (ip, now))) true ++
        List.replicate (calls.count (ip, now) - (max - used wins ip now)) false := by
  induction calls generalizing wins with
  | nil => rw [List.count_nil, Nat.min_zero, Nat.zero_sub]; rfl
  | cons c calls ih =>
    obtain ⟨ip', now'⟩ := c
    rw [List.pairwise_cons] at hmono
    obtain ⟨hfirst, hrest⟩ := hmono
    rw [admissions, countHit_eq hmax]
    -- calls of other addresses do not touch this address's window
    by_cases hip : ip' = ip
    · subst hip
      have hold' : ∀ t c, (wins.insert ip' (now', if used wins ip' now' < max then
          used wins ip' now' + 1 else used wins ip' now')).lookup ip' = some (t, c) →
          ∀ call ∈ calls, t ≤ call.2 := by
        intro t c hlook call hcall
        rw [AList.lookup_insert] at hlook
        obtain ⟨rfl, -⟩ := Prod.mk.inj (Option.some.inj hlook)
        exact hfirst call hcall
      have hih := ih hrest hold'
      rw [used_of_lookup (AList.lookup_insert _)] at hih
      by_cases hnow : now' = now
      · subst hnow
        rw [decisions_cons_of_pos (by simp), hih, if_pos rfl, List.count_cons_self]
        by_cases hroom : used wins ip' now' < max
        · -- one more is admitted, and takes a place
          have hmin : min (max - used wins ip' now') (calls.count (ip', now') + 1) =
              min (max - (used wins ip' now' + 1)) (calls.count (ip', now')) + 1 := by
            omega
          have hsub : calls.count (ip', now') + 1 - (max - used wins ip' now') =
              calls.count (ip', now') - (max - (used wins ip' now' + 1)) := by
            omega
          rw [if_pos hroom, decide_eq_true hroom, hmin, hsub, List.replicate_succ,
            List.cons_append]
        · -- the window is full, and stays full to the end
          have hnone : max - used wins ip' now' = 0 := by omega
          rw [if_neg hroom, decide_eq_false hroom, hnone, Nat.zero_min, Nat.zero_min, Nat.sub_zero,
            Nat.sub_zero, List.replicate_zero, List.nil_append, List.nil_append,
            List.replicate_succ]
      · rw [decisions_cons_of_neg (by simpa using hnow), hih, if_neg hnow,
          List.count_cons_of_ne (by simpa using hnow)]
        rcases hlook : wins.lookup ip' with _ | ⟨t, c⟩
        · rw [used, hlook]
          rfl
        · rw [used_of_lookup hlook]
          by_cases ht : t = now
          · -- the window is over, and has no more calls
            subst ht
            have hle : t ≤ now' := hold t c hlook (ip', now') List.mem_cons_self
            have hzero : calls.count (ip', t) = 0 := by
              rw [List.count_eq_zero]
              intro hmem
              have hnext : now' ≤ t := hfirst (ip', t) hmem
              exact hnow (Nat.le_antisymm hnext hle)
            rw [hzero, Nat.min_zero, Nat.min_zero, Nat.zero_sub, Nat.zero_sub]
          · rw [if_neg ht]
    · have hne : (ip', now') ≠ (ip, now) := fun h => hip (Prod.mk.inj h).1
      have hother : (wins.insert ip' (now', if used wins ip' now' < max then
          used wins ip' now' + 1 else used wins ip' now')).lookup ip = wins.lookup ip := by
        rw [Table.lookup_insert_eq, if_neg (Ne.symm hip)]
      have hih := ih hrest (fun t c hlook call hcall =>
        hold t c (hother ▸ hlook) call (List.mem_cons_of_mem _ hcall))
      have hused : used (wins.insert ip' (now', if used wins ip' now' < max then
          used wins ip' now' + 1 else used wins ip' now')) ip now = used wins ip now := by
        rw [used, hother, used]
      rw [decisions_cons_of_neg (by simpa using hne), hih, hused, List.count_cons_of_ne hne]

/-! ## Runs -/

variable {σ : Type} {env : Env σ} {w : World σ}

@[simp] theorem wins_setWins (w : World σ) (l : Limiter) (x : Wins) :
    (w.setWins l x).wins l = x := by
  cases l <;> rfl

/-- The calls of the limiter read and set the windows, and nothing else. -/
theorem exec_allowEach (hmax : 0 < max) (l : Limiter) (calls : List (String × ℕ)) (w : World σ) :
    (exec env.handle (allowEach l max calls) w).2 =
      .ok (.ok (admissions max (w.wins l) calls)) := by
  induction calls generalizing w with
  | nil => rfl
  | cons c calls ih =>
    obtain ⟨ip, now⟩ := c
    have hone : exec env.handle (allow l max ip now) w =
        (w.setWins l (countHit max (w.wins l) ip now).1,
          .ok (.ok (countHit max (w.wins l) ip now).2)) := by
      rw [allow, if_neg (by omega), exec_locked, exec_ask_bind, exec_ask_bind]
      rfl
    have hrest := ih (w.setWins l (countHit max (w.wins l) ip now).1)
    rw [wins_setWins] at hrest
    rw [allowEach, exec_bind_ok hone, exec_bind_ok (Prod.ext rfl hrest), admissions]
    rfl

/-- **The limiter is exact, and addresses do not interfere.** From a fresh limiter on, with a clock
that does not go back, an address has as many calls of a window admitted as the maximum allows, the
first ones; and it is told what it would be told if no other address called. -/
theorem limiter_exact (env : Env σ) (l : Limiter) (hmax : 0 < max) (w : World σ)
    (hfresh : w.wins l = ∅) (calls : List (String × ℕ))
    (hmono : calls.Pairwise fun a b => a.2 ≤ b.2) :
    ∃ oks, (exec env.handle (allowEach l max calls) w).2 = .ok (.ok oks) ∧
      oks.length = calls.length ∧
      (∀ ip now, decisions (fun c => c = (ip, now)) calls oks =
        List.replicate (min max (calls.count (ip, now))) true ++
          List.replicate (calls.count (ip, now) - max) false) ∧
      ∀ ip, (exec env.handle (allowEach l max (calls.filter fun c => c.1 = ip)) w).2 =
        .ok (.ok (decisions (fun c => c.1 = ip) calls oks)) := by
  refine ⟨admissions max (w.wins l) calls, exec_allowEach hmax l calls w,
    length_admissions max _ calls, fun ip now => ?_, fun ip => ?_⟩
  · have hold : ∀ t c, (w.wins l).lookup ip = some (t, c) → ∀ call ∈ calls, t ≤ call.2 := by
      intro t c hlook
      rw [hfresh] at hlook
      cases hlook
    have hused : used (w.wins l) ip now = 0 := by
      rw [used, hfresh]
      rfl
    have h := @decisions_window _ _ ip now hmax calls hmono hold
    rwa [hused, Nat.sub_zero] at h
  · rw [exec_allowEach hmax, decisions_address hmax calls rfl]

end

/-- Two addresses that share a limiter for two calls. -/
theorem limiter_exact_two :
    let calls := [("a", 7), ("b", 7), ("a", 7), ("a", 7), ("a", 8)]
    ∃ oks, (exec (Env.still (fun p _ => (p, .error "closed")) 60).handle (allowEach .put 2 calls)
        (World.fresh ())).2 = .ok (.ok oks) ∧
      decisions (fun c => c = ("a", 7)) calls oks = [true, true, false] := by
  intro calls
  obtain ⟨oks, hrun, -, hexact, -⟩ := limiter_exact (.still (fun p _ => (p, .error "closed")) 60)
    .put (show 0 < 2 by omega) (World.fresh ()) rfl calls (by decide)
  exact ⟨oks, hrun, hexact "a" 7⟩

end SporePeer
