import Mathlib.Data.List.Basic

/-!
# The accept loop and the drain loop

A serving node counts the connections that it hands to threads of their own, and after a shutdown
signal it waits until the count is zero or a deadline has passed. Nothing takes a finished handler
off the count: it is the number of connections ever accepted.

## Main definitions

* `Serve`: the main thread of `serve`, the shutdown flag, the clock and the handlers
* `Serve.step`, `Serve.run`: one event, and a run from the start of the accept loop
* `Serve.live`: the handlers that are running
* `Serve.drains`: the condition of the drain loop

## Main results

* `counting_step`: what every event keeps
* `counts_live_iff`: when the counter is the number of running handlers
-/

namespace SporePeer

/-- The time that handlers get after a shutdown signal, in milliseconds. -/
def shutdownDrainMillis : ℕ := 5 * 1000

/-- What `accept` comes to. The flag of a connection says whether its socket could be made
blocking. -/
inductive AcceptResult
  | connection (blocking : Bool)
  | wouldBlock
  | failed
  deriving DecidableEq, Repr

/-- Where the main thread stands: before it loads the shutdown flag, before `accept`, before the
condition of the drain loop, or at its end. -/
inductive Point
  | loading
  | accepting
  | draining
  | exited
  deriving DecidableEq, Repr

/-- `serve`, from its accept loop on. -/
structure Serve where
  point : Point := .loading
  inFlight : ℕ := 0
  deadline : ℕ := 0
  /-- The main thread sleeps until then. -/
  wake : ℕ := 0
  shutdown : Bool := false
  now : ℕ := 0
  /-- For every thread that was started, whether its `handle_client` is over. -/
  handlers : List Bool := []
  deriving DecidableEq, Repr

/-- The main thread takes its next step, a handler comes to its end, a shutdown signal arrives, or
time passes. -/
inductive ServeEvent
  | main (accepted : AcceptResult)
  | ends (i : ℕ)
  | signal
  | pass (millis : ℕ)
  deriving DecidableEq, Repr

namespace Serve

/-- The handlers that are running. -/
def live (s : Serve) : ℕ := s.handlers.count false

/-- The condition of the drain loop. -/
def drains (s : Serve) : Prop := 0 < s.inFlight ∧ s.now < s.deadline

instance (s : Serve) : Decidable s.drains := inferInstanceAs (Decidable (_ ∧ _))

/-- A step of the main thread; `accepted` is what `accept` comes to if it is called. -/
def main (s : Serve) (accepted : AcceptResult) : Serve :=
  if s.now < s.wake then s
  else match s.point with
    | .loading =>
      if s.shutdown then { s with point := .draining, deadline := s.now + shutdownDrainMillis }
      else { s with point := .accepting }
    | .accepting =>
      match accepted with
      | .connection true =>
        { s with
            point := .loading
            inFlight := s.inFlight + 1
            handlers := s.handlers ++ [false] }
      | .connection false => { s with point := .loading }
      | .wouldBlock => { s with point := .loading, wake := s.now + 100 }
      | .failed => { s with point := .loading }
    | .draining => if s.drains then { s with wake := s.now + 100 } else { s with point := .exited }
    | .exited => s

def step (s : Serve) : ServeEvent → Serve
  | .main accepted => s.main accepted
  | .ends i => { s with handlers := s.handlers.set i true }
  | .signal => { s with shutdown := true }
  | .pass millis => { s with now := s.now + millis }

/-- A run from the start of the accept loop. -/
def run (events : List ServeEvent) : Serve := events.foldl step {}

/-- What the counter counts, and when the drain loop has ended. -/
structure Counting (s : Serve) : Prop where
  counted : s.inFlight = s.handlers.length
  ended : s.point = .exited → s.handlers = [] ∨ s.deadline ≤ s.now

variable {s : Serve}

theorem counting_main (h : s.Counting) (accepted : AcceptResult) : (s.main accepted).Counting := by
  unfold main
  split
  · exact h
  split
  · split
    · exact ⟨h.counted, nofun⟩
    · exact ⟨h.counted, nofun⟩
  · split
    · refine ⟨?_, nofun⟩
      rw [List.length_append, ← h.counted]
      rfl
    all_goals exact ⟨h.counted, nofun⟩
  · split
    · exact ⟨h.counted, h.ended⟩
    · -- the counter is zero, or the deadline has passed
      rename_i hdrains
      refine ⟨h.counted, fun _ => ?_⟩
      rw [drains, not_and_or, Nat.not_lt, Nat.not_lt, Nat.le_zero, h.counted] at hdrains
      exact hdrains.imp_left List.length_eq_zero_iff.mp
  · exact h

/-- **One event** keeps the count. -/
theorem counting_step (h : s.Counting) (e : ServeEvent) : (s.step e).Counting := by
  cases e with
  | main accepted => exact counting_main h accepted
  | ends i =>
    refine ⟨by rw [step, List.length_set]; exact h.counted, fun hexited => ?_⟩
    refine (h.ended hexited).imp_left fun hnil => ?_
    rw [step, hnil]
    rfl
  | signal => exact ⟨h.counted, h.ended⟩
  | pass millis =>
    exact ⟨h.counted, fun hexited => (h.ended hexited).imp_right (Nat.le_add_right_of_le ·)⟩

theorem counting_run (events : List ServeEvent) : (run events).Counting := by
  have hfold (s : Serve) (h : s.Counting) : (events.foldl step s).Counting := by
    induction events generalizing s with
    | nil => exact h
    | cons e events ih => exact ih _ (counting_step h e)
  exact hfold {} ⟨rfl, nofun⟩

/-- **The counter** is the number of running handlers as long as no handler is over, and not
afterwards. While the deadline lies ahead and no handler is running, the drain loop ends exactly if
no handler is over, which is if none was ever started; a drain that a connection precedes lasts
until the deadline. -/
theorem counts_live_iff (events : List ServeEvent) :
    let s := run events
    (s.inFlight = s.live ↔ ∀ ended ∈ s.handlers, ended = false) ∧
    (s.point = .draining → s.now < s.deadline → s.live = 0 →
      (¬ s.drains ↔ ∀ ended ∈ s.handlers, ended = false)) ∧
    (s.point = .exited → s.handlers = [] ∨ s.deadline ≤ s.now) := by
  intro s
  have h : s.Counting := counting_run events
  have hcount : s.inFlight = s.live ↔ ∀ ended ∈ s.handlers, ended = false := by
    rw [h.counted, live, eq_comm, List.count_eq_length]
    exact forall₂_congr fun _ _ => eq_comm
  refine ⟨hcount, fun _ hnow hlive => ?_, h.ended⟩
  rw [drains, and_iff_left hnow, Nat.not_lt, Nat.le_zero, ← hlive, hcount]

/-- A handler comes to its end, then a shutdown signal arrives: the drain loop goes on although no
handler is running, and the thread leaves it at the deadline only. -/
theorem finished_handler_counted :
    let events : List ServeEvent := [.main .wouldBlock, .main (.connection true), .ends 0, .signal,
      .main .wouldBlock]
    (run events).inFlight = 1 ∧ (run events).live = 0 ∧ (run events).point = .draining ∧
      (run events).drains ∧ (run (events ++ [.main .wouldBlock])).point ≠ .exited := by
  decide

end Serve

end SporePeer
