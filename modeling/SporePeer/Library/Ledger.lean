import Mathlib.Data.List.Induction
import Mathlib.Data.List.Sort

/-!
# Ledgers of queues

A queue takes values in at one end and loses them at the other: they are served, evicted to make
room, or expire. Its ledger lists every value that ever entered, in the order of entry, with what
became of it. So each entry has one fate, and the questions about loss, duplication and order are
questions about the ledger.

## Main definitions

* `Ledger.Item`, `Ledger.Fate`: an entry and what became of it
* `Ledger.Touch`: what is done to a queue of values with deadlines
* `Ledger.queue`, `Ledger.ledger`: the queue and the ledger after a history of touches
* `Ledger.Accounts`: the ledger accounts for the history

## Main results

* `Ledger.accounts_ledger`: every history is accounted for
-/

namespace Ledger

/-- What became of an item: it waits, or left the queue at a time. -/
inductive Fate
  | waiting
  | served (t : ℕ)
  | evicted (t : ℕ)
  | expired (t : ℕ)
  deriving DecidableEq

def Fate.isServed : Fate → Bool
  | .served _ => true
  | _ => false

/-- An item entered the queue at the time `since`. -/
structure Item (α : Type) where
  value : α
  since : ℕ
  fate : Fate

/-- All that happened to an item happened before the time `n`. It is served or evicted only after
it entered, but may expire at once. -/
def Item.Past {α : Type} (n : ℕ) (x : Item α) : Prop :=
  x.since < n ∧ match x.fate with
    | .waiting => True
    | .served t => x.since < t ∧ t < n
    | .evicted t => x.since < t ∧ t < n
    | .expired t => x.since ≤ t ∧ t < n

section Resolve

variable {α : Type}

theorem Item.Past.later {n : ℕ} {x : Item α} (h : x.Past n) : x.Past (n + 1) := by
  obtain ⟨hsince, hfate⟩ := h
  refine ⟨hsince.trans (Nat.lt_succ_self n), ?_⟩
  split
  · trivial
  all_goals
    rename_i t hx
    rw [hx] at hfate
    exact ⟨hfate.1, hfate.2.trans (Nat.lt_succ_self n)⟩

/-- The values of the items whose fate satisfies `p`. -/
def values (p : Fate → Bool) (l : List (Item α)) : List α :=
  (l.filter fun x => p x.fate).map Item.value

/-- The values that wait. -/
def waiting (l : List (Item α)) : List α := values (· = .waiting) l

/-- The item at place `i` of those that wait, of value `v`, meets the fate `f i v`. -/
def resolve (f : ℕ → α → Fate) : List (Item α) → List (Item α)
  | [] => []
  | x :: l =>
    if x.fate = .waiting then
      { x with fate := f 0 x.value } :: resolve (fun i => f (i + 1)) l
    else x :: resolve f l

/-- The values of a list that `p` selects by place and value. -/
def select (p : ℕ → α → Bool) : List α → List α
  | [] => []
  | v :: q =>
    if p 0 v then v :: select (fun i => p (i + 1)) q else select (fun i => p (i + 1)) q

variable {f : ℕ → α → Fate} {p : Fate → Bool} {l : List (Item α)}

theorem values_cons (x : Item α) (l : List (Item α)) :
    values p (x :: l) = if p x.fate then x.value :: values p l else values p l := by
  rw [values, List.filter_cons]
  split <;> rfl

theorem values_append (l m : List (Item α)) : values p (l ++ m) = values p l ++ values p m := by
  rw [values, List.filter_append, List.map_append]
  rfl

theorem waiting_cons (x : Item α) (l : List (Item α)) :
    waiting (x :: l) = if x.fate = .waiting then x.value :: waiting l else waiting l := by
  rw [waiting, values_cons]
  simp only [decide_eq_true_eq]
  rfl

/-- A fate that no settled item has is met by those that wait. -/
theorem values_resolve (h : ∀ x ∈ l, x.fate ≠ .waiting → p x.fate = false) :
    values p (resolve f l) = select (fun i v => p (f i v)) (waiting l) := by
  induction l generalizing f with
  | nil => rfl
  | cons x l ih =>
    rw [List.forall_mem_cons] at h
    rw [resolve, waiting_cons]
    by_cases hx : x.fate = .waiting
    · rw [if_pos hx, if_pos hx, values_cons, ih h.2, select]
    · rw [if_neg hx, if_neg hx, values_cons, h.1 hx, ih h.2, if_neg Bool.false_ne_true]

/-- A fate that is not met now is as it was. -/
theorem values_resolve_of_old (hp : p .waiting = false) (hf : ∀ i v, p (f i v) = false) :
    values p (resolve f l) = values p l := by
  induction l generalizing f with
  | nil => rfl
  | cons x l ih =>
    rw [resolve, values_cons]
    by_cases hx : x.fate = .waiting
    · rw [if_pos hx, values_cons, hf, ih fun i => hf (i + 1), hx, hp]
    · rw [if_neg hx, values_cons, ih hf]

theorem map_entry_resolve : (resolve f l).map (fun x => (x.value, x.since)) =
    l.map fun x => (x.value, x.since) := by
  induction l generalizing f with
  | nil => rfl
  | cons x l ih =>
    rw [resolve]
    split
    · rw [List.map_cons, ih, List.map_cons]
    · rw [List.map_cons, ih, List.map_cons]

/-- An item that was settled stays settled, and one that waited meets its fate. -/
theorem mem_resolve {x : Item α} (h : x ∈ resolve f l) :
    x ∈ l ∧ x.fate ≠ .waiting ∨
      ∃ y ∈ l, y.fate = .waiting ∧ x.value = y.value ∧ x.since = y.since ∧
        ∃ i, i < (waiting l).length ∧ x.fate = f i y.value := by
  induction l generalizing f with
  | nil => cases h
  | cons z l ih =>
    rw [resolve] at h
    rw [waiting_cons]
    by_cases hz : z.fate = .waiting
    · rw [if_pos hz] at h ⊢
      rcases List.mem_cons.mp h with rfl | h
      · exact .inr ⟨z, List.mem_cons_self, hz, rfl, rfl, 0, Nat.succ_pos _, rfl⟩
      rcases ih h with ⟨hx, hne⟩ | ⟨y, hy, hwait, hv, hs, i, hi, hfate⟩
      · exact .inl ⟨List.mem_cons_of_mem _ hx, hne⟩
      · exact .inr ⟨y, List.mem_cons_of_mem _ hy, hwait, hv, hs, i + 1, Nat.succ_lt_succ hi, hfate⟩
    · rw [if_neg hz] at h ⊢
      rcases List.mem_cons.mp h with rfl | h
      · exact .inl ⟨List.mem_cons_self, hz⟩
      rcases ih h with ⟨hx, hne⟩ | ⟨y, hy, hrest⟩
      · exact .inl ⟨List.mem_cons_of_mem _ hx, hne⟩
      · exact .inr ⟨y, List.mem_cons_of_mem _ hy, hrest⟩

theorem resolve_append (l m : List (Item α)) :
    resolve f (l ++ m) = resolve f l ++ resolve (fun i => f (i + (waiting l).length)) m := by
  induction l generalizing f with
  | nil => rfl
  | cons x l ih =>
    rw [List.cons_append, resolve, resolve, waiting_cons]
    split
    · rw [ih, List.cons_append, List.length_cons]
      rfl
    · rw [ih, List.cons_append]

/-- Nothing is served behind an item that waits. -/
def Ordered (l : List (Item α)) : Prop :=
  l.Pairwise fun x y => y.fate.isServed = true → x.fate ≠ .waiting

/-- Where what is served comes first, a resolution keeps the order. -/
theorem Ordered.resolve (h : Ordered l)
    (hf : ∀ i j u v, i ≤ j → (f j v).isServed = true → f i u ≠ .waiting) :
    Ordered (resolve f l) := by
  induction l generalizing f with
  | nil => exact List.Pairwise.nil
  | cons x l ih =>
    obtain ⟨hx, hl⟩ := List.pairwise_cons.mp h
    rw [Ledger.resolve]
    split
    · rename_i hwait
      refine List.pairwise_cons.mpr ⟨fun y hy hserved => ?_,
        ih hl fun i j u v hij => hf (i + 1) (j + 1) u v (Nat.succ_le_succ hij)⟩
      -- nothing behind an item that waited was served before
      rcases mem_resolve hy with ⟨hy, -⟩ | ⟨z, -, -, -, -, i, -, hfate⟩
      · exact absurd hwait (hx y hy hserved)
      · rw [hfate] at hserved
        exact hf 0 (i + 1) _ _ (Nat.zero_le _) hserved
    · rename_i hne
      exact List.pairwise_cons.mpr ⟨fun _ _ _ => hne, ih hl hf⟩

/-- **What is served is served behind what was served before.** -/
theorem values_isServed_resolve (h : Ordered l) :
    values Fate.isServed (resolve f l) =
      values Fate.isServed l ++ select (fun i v => (f i v).isServed) (waiting l) := by
  induction l generalizing f with
  | nil => rfl
  | cons x l ih =>
    obtain ⟨hx, hl⟩ := List.pairwise_cons.mp h
    by_cases hwait : x.fate = .waiting
    · have hnone : ∀ y ∈ x :: l, y.fate.isServed = false := by
        refine List.forall_mem_cons.mpr ⟨by rw [hwait]; rfl, fun y hy => ?_⟩
        rw [← Bool.not_eq_true]
        exact fun hserved => hx y hy hserved hwait
      have hempty : values Fate.isServed (x :: l) = [] := by
        rw [values, List.filter_eq_nil_iff.mpr fun y hy => by rw [hnone y hy]; exact nofun]
        rfl
      rw [hempty, List.nil_append]
      exact values_resolve fun y hy _ => hnone y hy
    · rw [Ledger.resolve, if_neg hwait, waiting_cons, if_neg hwait, values_cons, values_cons, ih hl]
      split <;> rfl

/-- The items of values that enter. -/
def newItems (t : ℕ) (vs : List α) : List (Item α) := vs.map fun v => ⟨v, t, .waiting⟩

theorem waiting_newItems (t : ℕ) (vs : List α) : waiting (newItems t vs) = vs := by
  induction vs with
  | nil => rfl
  | cons v vs ih =>
    rw [newItems, List.map_cons, waiting_cons, if_pos rfl]
    exact congrArg (v :: ·) ih

theorem fate_of_mem_newItems {t : ℕ} {vs : List α} {x : Item α} (h : x ∈ newItems t vs) :
    x.fate = .waiting ∧ x.since = t := by
  obtain ⟨v, -, rfl⟩ := List.mem_map.mp h
  exact ⟨rfl, rfl⟩

theorem values_newItems (hp : p .waiting = false) (t : ℕ) (vs : List α) :
    values p (newItems t vs) = [] := by
  rw [values, List.filter_eq_nil_iff.mpr fun x hx => ?_]
  · rfl
  · rw [(fate_of_mem_newItems hx).1, hp]
    exact Bool.false_ne_true

theorem Ordered.append_newItems (h : Ordered l) (t : ℕ) (vs : List α) :
    Ordered (l ++ newItems t vs) := by
  have hnot {y : Item α} (hy : y ∈ newItems t vs) : ¬ y.fate.isServed = true := by
    rw [(fate_of_mem_newItems hy).1]
    exact Bool.false_ne_true
  refine List.pairwise_append.mpr ⟨h, ?_, fun x _ y hy hserved => absurd hserved (hnot hy)⟩
  exact List.pairwise_of_forall_mem_list fun x _ y hy hserved => absurd hserved (hnot hy)

theorem select_congr {p q : ℕ → α → Bool} (h : ∀ i v, p i v = q i v) (l : List α) :
    select p l = select q l := by
  induction l generalizing p q with
  | nil => rfl
  | cons v l ih => rw [select, select, h, ih fun i => h (i + 1)]

theorem select_const (p : α → Bool) (l : List α) : select (fun _ => p) l = l.filter p := by
  induction l with
  | nil => rfl
  | cons v l ih =>
    rw [select, ih, List.filter_cons]

theorem select_eq_nil {p : ℕ → α → Bool} (h : ∀ i v, p i v = false) (l : List α) :
    select p l = [] := by
  rw [select_congr h, select_const, List.filter_false]

/-- What is selected from the first `n` places. -/
theorem select_take (n : ℕ) (p : α → Bool) (l : List α) :
    select (fun i v => decide (i < n) && p v) l = (l.take n).filter p := by
  induction l generalizing n with
  | nil => rw [List.take_nil]; rfl
  | cons v l ih =>
    cases n with
    | zero =>
      have hnone (i : ℕ) (v : α) : (decide (i < 0) && p v) = false := by simp
      rw [select_congr hnone, select_const, List.take_zero]
      simp
    | succ n =>
      have hshift (i : ℕ) (v : α) :
          (decide (i + 1 < n + 1) && p v) = (decide (i < n) && p v) := by simp
      rw [select, select_congr hshift, ih, List.take_succ_cons, List.filter_cons]
      simp

/-- What is selected behind the first `n` places. -/
theorem select_drop (n : ℕ) (p : α → Bool) (l : List α) :
    select (fun i v => decide (n ≤ i) && p v) l = (l.drop n).filter p := by
  induction l generalizing n with
  | nil => rw [List.drop_nil]; rfl
  | cons v l ih =>
    cases n with
    | zero =>
      have hall (i : ℕ) (v : α) : (decide (0 ≤ i) && p v) = p v := by simp
      rw [select_congr hall, select_const, List.drop_zero]
    | succ n =>
      have hshift (i : ℕ) (v : α) :
          (decide (n + 1 ≤ i + 1) && p v) = (decide (n ≤ i) && p v) := by simp
      rw [select, select_congr hshift, ih, List.drop_succ_cons]
      simp

end Resolve

/-! ## Touches -/

section Touch

variable {α : Type} [DecidableEq α]

/-- What is done to a queue: a value is put into it, or living values are taken off it. -/
inductive Touch (α : Type)
  | put (x : α) (now : ℕ)
  | take (now max : ℕ)

def Touch.now {α : Type} : Touch α → ℕ
  | .put _ now => now
  | .take now _ => now

variable (deadline : α → ℕ) (cap : ℕ)

/-- How many values leave the queue when it is asked for at most so many living ones. -/
def takes (now : ℕ) : ℕ → List α → ℕ
  | _, [] => 0
  | room, x :: q =>
    if room = 0 then 0 else takes now (if now < deadline x then room - 1 else room) q + 1

/-- A value that is put enters unless it waits. -/
def Touch.entering : Touch α → List α → List α
  | .put x _, q => if x ∈ q then [] else [x]
  | .take _ _, _ => []

/-- How many of the oldest values leave: those over the cap, or those that are taken. -/
def Touch.leaving : Touch α → List α → ℕ
  | .put x _, q => if x ∈ q then 0 else q.length + 1 - cap
  | .take now max, q => takes deadline now max q

/-- The fate at time `t` of the value `v` at place `i`. -/
def Touch.fate (t : ℕ) (τ : Touch α) (q : List α) (i : ℕ) (v : α) : Fate :=
  match τ with
  | .put _ now =>
    if i < τ.leaving deadline cap q then .evicted t
    else if now < deadline v then .waiting else .expired t
  | .take now _ =>
    if i < τ.leaving deadline cap q then if now < deadline v then .served t else .expired t
    else .waiting

/-- The queue after a touch. A put also removes what has expired. -/
def Touch.after (τ : Touch α) (q : List α) : List α :=
  match τ with
  | .put _ now =>
    ((q ++ τ.entering q).drop (τ.leaving deadline cap q)).filter fun v => now < deadline v
  | .take _ _ => q.drop (τ.leaving deadline cap q)

def Touch.served (τ : Touch α) (q : List α) : List α :=
  match τ with
  | .put _ _ => []
  | .take now _ => (q.take (τ.leaving deadline cap q)).filter fun v => now < deadline v

def Touch.evicted (τ : Touch α) (q : List α) : List α :=
  match τ with
  | .put _ _ => q.take (τ.leaving deadline cap q)
  | .take _ _ => []

/-- The queue after a history of touches, one at most at each time. -/
def queue (hist : List (Option (Touch α))) : List α :=
  hist.foldl (fun q o => o.elim q fun τ => τ.after deadline cap q) []

/-- The ledger after what happens at time `t`. -/
def note (t : ℕ) (o : Option (Touch α)) (l : List (Item α)) : List (Item α) :=
  match o with
  | none => l
  | some τ => resolve (τ.fate deadline cap t (waiting l))
      (l ++ newItems t (τ.entering (waiting l)))

def ledger (hist : List (Option (Touch α))) : List (Item α) :=
  hist.zipIdx.foldl (fun l e => note deadline cap e.2 e.1 l) []

/-- What `g` reads off the touch at time `t` and the queue before it. -/
def atTime {β : Type} (g : Touch α → List α → List β) (hist : List (Option (Touch α))) (t : ℕ) :
    List β :=
  match hist[t]? with
  | some (some τ) => g τ (queue deadline cap (hist.take t))
  | _ => []

/-- The ledger accounts for the history: every entry is in it once, with one fate. -/
structure Accounts (hist : List (Option (Touch α))) (l : List (Item α)) : Prop where
  entered : l.map (fun x => (x.value, x.since)) = (List.range hist.length).flatMap fun t =>
    (atTime deadline cap Touch.entering hist t).map fun v => (v, t)
  waiting : waiting l = queue deadline cap hist
  served : ∀ t, values (· = .served t) l = atTime deadline cap (Touch.served deadline cap) hist t
  evicted : ∀ t, values (· = .evicted t) l = atTime deadline cap (Touch.evicted deadline cap) hist t
  expired : ∀ x ∈ l, ∀ t, x.fate = .expired t →
    ∃ τ, hist[t]? = some (some τ) ∧ deadline x.value ≤ τ.now
  /-- In the order of entry, the values served are those served at one time after the other. -/
  order : values Fate.isServed l =
    (List.range hist.length).flatMap (atTime deadline cap (Touch.served deadline cap) hist)
  ordered : Ordered l
  past : ∀ x ∈ l, x.Past hist.length

variable {deadline cap} {hist : List (Option (Touch α))} {q : List α} {τ : Touch α} {t : ℕ}

/-! ## One touch -/

/-- The values that wait after a touch. -/
theorem select_waiting (t : ℕ) (τ : Touch α) (q : List α) :
    select (fun i v => decide (τ.fate deadline cap t q i v = .waiting)) (q ++ τ.entering q) =
      τ.after deadline cap q := by
  cases τ with
  | put x now =>
    have hfate (i : ℕ) (v : α) :
        decide ((Touch.put x now).fate deadline cap t q i v = .waiting) =
          (decide ((Touch.put x now).leaving deadline cap q ≤ i) && decide (now < deadline v)) := by
      unfold Touch.fate
      by_cases hi : i < (Touch.put x now).leaving deadline cap q
      · simp [hi, not_le.mpr hi]
      · by_cases hv : now < deadline v <;> simp [hi, hv, not_lt.mp hi]
    rw [select_congr hfate, select_drop]
    rfl
  | take now max =>
    have hfate (i : ℕ) (v : α) :
        decide ((Touch.take now max).fate deadline cap t q i v = .waiting) =
          (decide ((Touch.take now max : Touch α).leaving deadline cap q ≤ i) && true) := by
      unfold Touch.fate
      by_cases hi : i < (Touch.take now max).leaving deadline cap q
      · by_cases hv : now < deadline v <;> simp [hi, hv]
      · simp [hi, not_lt.mp hi]
    rw [select_congr hfate, select_drop, List.filter_true, Touch.entering, List.append_nil]
    rfl

theorem Touch.fate_put_ne_served (t : ℕ) (x : α) (now : ℕ) (q : List α) (i : ℕ) (v : α) :
    (Touch.put x now).fate deadline cap t q i v ≠ .served t := by
  unfold Touch.fate
  dsimp only
  split
  · exact nofun
  · split <;> exact nofun

theorem select_served (t : ℕ) (τ : Touch α) (q : List α) :
    select (fun i v => decide (τ.fate deadline cap t q i v = .served t)) (q ++ τ.entering q) =
      τ.served deadline cap q := by
  cases τ with
  | put x now =>
    exact select_eq_nil (fun i v => decide_eq_false (Touch.fate_put_ne_served t x now q i v)) _
  | take now max =>
    have hfate (i : ℕ) (v : α) :
        decide ((Touch.take now max).fate deadline cap t q i v = .served t) =
          (decide (i < (Touch.take now max : Touch α).leaving deadline cap q) &&
            decide (now < deadline v)) := by
      unfold Touch.fate
      by_cases hi : i < (Touch.take now max).leaving deadline cap q
      · by_cases hv : now < deadline v <;> simp [hi, hv]
      · simp [hi]
    rw [select_congr hfate, select_take, Touch.entering, List.append_nil]
    rfl

theorem Touch.leaving_put_le (deadline : α → ℕ) (hcap : 1 ≤ cap) (x : α) (now : ℕ) (q : List α) :
    (Touch.put x now).leaving deadline cap q ≤ q.length := by
  unfold Touch.leaving
  dsimp only
  split
  · exact Nat.zero_le _
  · omega

theorem select_evicted (hcap : 1 ≤ cap) (t : ℕ) (τ : Touch α) (q : List α) :
    select (fun i v => decide (τ.fate deadline cap t q i v = .evicted t)) (q ++ τ.entering q) =
      τ.evicted deadline cap q := by
  cases τ with
  | put x now =>
    have hfate (i : ℕ) (v : α) :
        decide ((Touch.put x now).fate deadline cap t q i v = .evicted t) =
          (decide (i < (Touch.put x now).leaving deadline cap q) && true) := by
      unfold Touch.fate
      by_cases hi : i < (Touch.put x now).leaving deadline cap q
      · simp [hi]
      · by_cases hv : now < deadline v <;> simp [hi, hv]
    rw [select_congr hfate, select_take, List.filter_true,
      List.take_append_of_le_length (Touch.leaving_put_le deadline hcap x now q)]
    rfl
  | take now max =>
    refine select_eq_nil (fun i v => ?_) _
    unfold Touch.fate
    dsimp only
    split
    · split <;> rfl
    · rfl

/-- A touch at time `t` settles items at that time. -/
theorem Touch.fate_cases (t : ℕ) (τ : Touch α) (q : List α) (i : ℕ) (v : α) :
    τ.fate deadline cap t q i v = .waiting ∨ τ.fate deadline cap t q i v = .served t ∨
      (τ.fate deadline cap t q i v = .evicted t ∧ ∃ x now, τ = .put x now ∧
        i < τ.leaving deadline cap q) ∨
      τ.fate deadline cap t q i v = .expired t ∧ deadline v ≤ τ.now := by
  cases τ with
  | put x now =>
    by_cases hi : i < (Touch.put x now).leaving deadline cap q
    · exact .inr (.inr (.inl ⟨if_pos hi, x, now, rfl, hi⟩))
    · by_cases hv : now < deadline v
      · exact .inl ((if_neg hi).trans (if_pos hv))
      · exact .inr (.inr (.inr ⟨(if_neg hi).trans (if_neg hv), not_lt.mp hv⟩))
  | take now max =>
    by_cases hi : i < (Touch.take now max).leaving deadline cap q
    · by_cases hv : now < deadline v
      · exact .inr (.inl ((if_pos hi).trans (if_pos hv)))
      · exact .inr (.inr (.inr ⟨(if_pos hi).trans (if_neg hv), not_lt.mp hv⟩))
    · exact .inl (if_neg hi)

theorem Touch.isServed_fate (t : ℕ) (τ : Touch α) (q : List α) (i : ℕ) (v : α) :
    (τ.fate deadline cap t q i v).isServed =
      decide (τ.fate deadline cap t q i v = .served t) := by
  rcases τ.fate_cases t q i v with h | h | ⟨h, -⟩ | ⟨h, -⟩
  · rw [h]; rfl
  · rw [h, decide_eq_true rfl]; rfl
  · rw [h]; rfl
  · rw [h]; rfl

/-- A touch settles at its own time. -/
theorem Touch.time_of_fate {τ : Touch α} {t t' : ℕ} {q : List α} {i : ℕ} {v : α}
    (h : τ.fate deadline cap t q i v = .served t' ∨ τ.fate deadline cap t q i v = .evicted t' ∨
      τ.fate deadline cap t q i v = .expired t') : t' = t := by
  rcases τ.fate_cases t q i v with hc | hc | ⟨hc, -⟩ | ⟨hc, -⟩ <;> rw [hc] at h <;>
    rcases h with h | h | h <;> cases h <;> rfl

/-- What a touch serves stands before what waits. -/
theorem Touch.fate_ordered {i j : ℕ} {u v : α} (hij : i ≤ j)
    (h : (τ.fate deadline cap t q j v).isServed = true) :
    τ.fate deadline cap t q i u ≠ .waiting := by
  unfold Touch.fate at h ⊢
  cases τ with
  | put x now =>
    dsimp only at h
    split at h
    · cases h
    · split at h <;> cases h
  | take now max =>
    dsimp only at h ⊢
    split at h
    · rename_i hj
      rw [if_pos (hij.trans_lt hj)]
      split <;> exact nofun
    · cases h

/-- What is evicted stands at the front of the queue, and is over the cap once a value enters. -/
theorem Touch.evicted_eq (deadline : α → ℕ) (cap : ℕ) (τ : Touch α) (q : List α) :
    τ.evicted deadline cap q =
      if τ.entering q = [] then [] else q.take (q.length + 1 - cap) := by
  cases τ with
  | put x now =>
    unfold Touch.evicted Touch.leaving Touch.entering
    by_cases hx : x ∈ q
    · simp [hx]
    · simp [hx]
  | take now max => rfl

/-- A touch that lets nothing in moves nothing. -/
theorem Touch.after_sublist (deadline : α → ℕ) (cap : ℕ) {τ : Touch α} {q : List α}
    (h : τ.entering q = []) : (τ.after deadline cap q).Sublist q := by
  cases τ with
  | put x now =>
    rw [Touch.after, h, List.append_nil]
    exact List.filter_sublist.trans (List.drop_sublist _ _)
  | take now max => exact List.drop_sublist _ _

/-! ## Histories -/

theorem queue_append_singleton (o : Option (Touch α)) : queue deadline cap (hist ++ [o]) =
    o.elim (queue deadline cap hist) fun τ => τ.after deadline cap (queue deadline cap hist) := by
  rw [queue, List.foldl_append]
  rfl

theorem ledger_append_singleton (o : Option (Touch α)) : ledger deadline cap (hist ++ [o]) =
    note deadline cap hist.length o (ledger deadline cap hist) := by
  rw [ledger, List.zipIdx_append, List.foldl_append, Nat.zero_add]
  rfl

theorem atTime_append_singleton {β : Type} (g : Touch α → List α → List β)
    (o : Option (Touch α)) (t : ℕ) : atTime deadline cap g (hist ++ [o]) t =
      if t = hist.length then o.elim [] fun τ => g τ (queue deadline cap hist)
      else atTime deadline cap g hist t := by
  unfold atTime
  rcases lt_trichotomy t hist.length with ht | rfl | ht
  · rw [if_neg ht.ne, List.getElem?_append_left ht, List.take_append_of_le_length ht.le]
  · rw [if_pos rfl, List.getElem?_concat_length, List.take_left]
    cases o <;> rfl
  · have hlen : (hist ++ [o]).length ≤ t := by
      rw [List.length_append]
      exact ht
    rw [if_neg ht.ne', List.getElem?_eq_none hlen, List.getElem?_eq_none ht.le]

theorem flatMap_atTime_append_singleton {β γ : Type} (g : Touch α → List α → List β)
    (k : ℕ → List β → List γ) (o : Option (Touch α)) :
    ((List.range (hist ++ [o]).length).flatMap fun t =>
        k t (atTime deadline cap g (hist ++ [o]) t)) =
      ((List.range hist.length).flatMap fun t => k t (atTime deadline cap g hist t)) ++
        k hist.length (o.elim [] fun τ => g τ (queue deadline cap hist)) := by
  rw [List.length_append, List.length_singleton, List.range_succ, List.flatMap_append,
    List.flatMap_singleton, atTime_append_singleton, if_pos rfl]
  congr 1
  refine List.flatMap_congr fun t ht => ?_
  rw [atTime_append_singleton, if_neg (List.mem_range.mp ht).ne]

/-- A step of the history in which nothing happens. -/
theorem Accounts.idle {l : List (Item α)} (h : Accounts deadline cap hist l) :
    Accounts deadline cap (hist ++ [none]) l where
  entered := by
    rw [flatMap_atTime_append_singleton _ fun t (vs : List α) => vs.map fun v => (v, t), h.entered]
    exact (List.append_nil _).symm
  waiting := by
    rw [queue_append_singleton]
    exact h.waiting
  served t := by
    rw [h.served, atTime_append_singleton]
    split
    · rename_i ht
      rw [atTime, ht, List.getElem?_eq_none le_rfl]
      rfl
    · rfl
  evicted t := by
    rw [h.evicted, atTime_append_singleton]
    split
    · rename_i ht
      rw [atTime, ht, List.getElem?_eq_none le_rfl]
      rfl
    · rfl
  expired x hx t hfate := by
    obtain ⟨τ, hτ, hle⟩ := h.expired x hx t hfate
    refine ⟨τ, ?_, hle⟩
    rw [List.getElem?_append_left (List.getElem?_eq_some_iff.mp hτ).1, hτ]
  order := by
    rw [h.order]
    exact ((flatMap_atTime_append_singleton _ (fun _ (vs : List α) => vs) none).trans
      (List.append_nil _)).symm
  ordered := h.ordered
  past x hx := by
    rw [List.length_append]
    exact (h.past x hx).later

/-- Nothing is settled at the time of a touch before the touch. -/
theorem Accounts.unsettled {l : List (Item α)} (h : Accounts deadline cap hist l) {vs : List α}
    {x : Item α} (hx : x ∈ l ++ newItems hist.length vs) {fate : Fate}
    (hfate : fate = .served hist.length ∨ fate = .evicted hist.length) : x.fate ≠ fate := by
  rintro rfl
  rcases List.mem_append.mp hx with hx | hx
  · have hpast := (h.past x hx).2
    rcases hfate with hfate | hfate
    · rw [hfate] at hpast
      exact lt_irrefl _ hpast.2
    · rw [hfate] at hpast
      exact lt_irrefl _ hpast.2
  · -- a value that enters is not settled yet
    rw [(fate_of_mem_newItems hx).1] at hfate
    rcases hfate with hfate | hfate <;> cases hfate

/-- What a touch settles, entered before it; only what a put has just let in may expire at once. -/
theorem Accounts.past_touch (hcap : 1 ≤ cap) {l : List (Item α)} (h : Accounts deadline cap hist l)
    (τ : Touch α) {x : Item α}
    (hx : x ∈ resolve (τ.fate deadline cap hist.length (queue deadline cap hist))
      (l ++ newItems hist.length (τ.entering (queue deadline cap hist)))) :
    x.Past (hist.length + 1) := by
  let q := queue deadline cap hist
  rw [resolve_append, h.waiting] at hx
  rcases List.mem_append.mp hx with hx | hx
  · rcases mem_resolve hx with ⟨hx, -⟩ | ⟨y, hy, -, -, hs, i, -, hf⟩
    · exact (h.past x hx).later
    · have hsince : x.since < hist.length := hs ▸ (h.past y hy).1
      refine ⟨hsince.trans (Nat.lt_succ_self _), ?_⟩
      rcases τ.fate_cases hist.length q i y.value with hc | hc | ⟨hc, -⟩ | ⟨hc, -⟩
      · rw [hf, hc]
        trivial
      · rw [hf, hc]
        exact ⟨hsince, Nat.lt_succ_self _⟩
      · rw [hf, hc]
        exact ⟨hsince, Nat.lt_succ_self _⟩
      · rw [hf, hc]
        exact ⟨hsince.le, Nat.lt_succ_self _⟩
  · rcases mem_resolve hx with ⟨hx, hne⟩ | ⟨y, hy, -, -, hs, i, -, hf⟩
    · exact absurd (fate_of_mem_newItems hx).1 hne
    have hsince : x.since = hist.length := hs.trans (fate_of_mem_newItems hy).2
    refine ⟨hsince ▸ Nat.lt_succ_self _, ?_⟩
    -- a value that enters is put, and stands behind those that leave for the cap
    cases τ with
    | take now max => cases hy
    | put v now =>
      rcases Touch.fate_cases hist.length (.put v now) q (i + q.length) y.value with
        hc | hc | ⟨hc, -, -, -, hi⟩ | ⟨hc, -⟩
      · rw [hf, hc]
        trivial
      · exact absurd hc (Touch.fate_put_ne_served _ _ _ _ _ _)
      · have hle := Touch.leaving_put_le deadline hcap v now q
        omega
      · rw [hf, hc]
        exact ⟨hsince.le, Nat.lt_succ_self _⟩

/-- A step of the history in which the queue is touched. -/
theorem Accounts.touch (hcap : 1 ≤ cap) {l : List (Item α)} (h : Accounts deadline cap hist l)
    (τ : Touch α) : Accounts deadline cap (hist ++ [some τ])
      (resolve (τ.fate deadline cap hist.length (queue deadline cap hist))
        (l ++ newItems hist.length (τ.entering (queue deadline cap hist)))) := by
  let q := queue deadline cap hist
  let m := newItems hist.length (τ.entering q)
  -- what waits when the queue is touched: the queue, and what enters
  have hwaiting : Ledger.waiting (l ++ m) = q ++ τ.entering q := by
    rw [Ledger.waiting, values_append]
    exact congrArg₂ _ h.waiting (waiting_newItems _ _)
  have hold {p : Fate → Bool} (hp : p .waiting = false) : values p (l ++ m) = values p l := by
    rw [values_append, values_newItems hp, List.append_nil]
  -- the fates of this time are dealt out over the queue as it stands
  have hnow {fate : Fate} (hfate : fate = .served hist.length ∨ fate = .evicted hist.length) :
      values (· = fate) (resolve (τ.fate deadline cap hist.length q) (l ++ m)) =
        select (fun i v => decide (τ.fate deadline cap hist.length q i v = fate))
          (q ++ τ.entering q) := by
    rw [← hwaiting]
    exact values_resolve fun x hx _ => decide_eq_false (h.unsettled hx hfate)
  -- and those of other times are as they were
  have hthen {fate : Fate} (hwait : fate ≠ .waiting)
      (hfate : ∀ i v, τ.fate deadline cap hist.length q i v ≠ fate) :
      values (· = fate) (resolve (τ.fate deadline cap hist.length q) (l ++ m)) =
        values (· = fate) l := by
    rw [values_resolve_of_old (decide_eq_false hwait.symm) fun i v => decide_eq_false (hfate i v)]
    exact hold (decide_eq_false hwait.symm)
  constructor
  case entered =>
    rw [map_entry_resolve, List.map_append, h.entered, flatMap_atTime_append_singleton _
      fun t (vs : List α) => vs.map fun v => (v, t)]
    congr 1
    exact List.map_map
  case waiting =>
    rw [queue_append_singleton]
    refine (values_resolve fun x _ hx => decide_eq_false hx).trans ?_
    rw [hwaiting]
    exact select_waiting _ τ q
  case served =>
    intro t
    rw [atTime_append_singleton]
    split
    · rename_i ht
      subst t
      exact (hnow (.inl rfl)).trans (select_served _ τ q)
    · rename_i ht
      rw [← h.served]
      exact hthen nofun fun i v hfate => ht (Touch.time_of_fate (.inl hfate))
  case evicted =>
    intro t
    rw [atTime_append_singleton]
    split
    · rename_i ht
      subst t
      exact (hnow (.inr rfl)).trans (select_evicted hcap _ τ q)
    · rename_i ht
      rw [← h.evicted]
      exact hthen nofun fun i v hfate => ht (Touch.time_of_fate (.inr (.inl hfate)))
  case expired =>
    intro x hx t hfate
    rcases mem_resolve hx with ⟨hx, hne⟩ | ⟨y, hy, -, hv, -, i, -, hf⟩
    · have hx : x ∈ l := by
        rcases List.mem_append.mp hx with hx | hx
        · exact hx
        · exact absurd (fate_of_mem_newItems hx).1 hne
      obtain ⟨τ', hτ', hle⟩ := h.expired x hx t hfate
      exact ⟨τ', by rw [List.getElem?_append_left (List.getElem?_eq_some_iff.mp hτ').1, hτ'], hle⟩
    · -- only the last fate there is says that an item has expired
      rw [hfate] at hf
      rcases τ.fate_cases hist.length q i y.value with hc | hc | ⟨hc, -⟩ | ⟨hc, hle⟩
      · exact absurd (hf.trans hc) nofun
      · exact absurd (hf.trans hc) nofun
      · exact absurd (hf.trans hc) nofun
      · rw [Fate.expired.inj (hf.trans hc), hv]
        exact ⟨τ, List.getElem?_concat_length, hle⟩
  case order =>
    have hserved : select (fun i v => (τ.fate deadline cap hist.length q i v).isServed)
        (q ++ τ.entering q) = τ.served deadline cap q :=
      (select_congr (τ.isServed_fate hist.length q) _).trans (select_served _ τ q)
    have hord : Ordered (l ++ m) := h.ordered.append_newItems _ _
    rw [values_isServed_resolve hord, hwaiting, hserved, hold rfl, h.order]
    exact (flatMap_atTime_append_singleton _ (fun _ (vs : List α) => vs) (some τ)).symm
  case ordered =>
    exact (h.ordered.append_newItems _ _).resolve fun i j u v hij => Touch.fate_ordered hij
  case past =>
    intro x hx
    rw [List.length_append, List.length_singleton]
    exact h.past_touch hcap τ hx

/-- **Every history is accounted for.** -/
theorem accounts_ledger (deadline : α → ℕ) (hcap : 1 ≤ cap) (hist : List (Option (Touch α))) :
    Accounts deadline cap hist (ledger deadline cap hist) := by
  induction hist using List.reverseRecOn with
  | nil => exact ⟨rfl, rfl, fun _ => rfl, fun _ => rfl, nofun, rfl, .nil, nofun⟩
  | append_singleton hist o ih =>
    rw [ledger_append_singleton]
    cases o with
    | none => exact ih.idle
    | some τ =>
      have htouch := ih.touch hcap τ
      rw [← ih.waiting] at htouch
      exact htouch

end Touch

end Ledger
