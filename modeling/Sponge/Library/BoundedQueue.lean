import Sponge.Library.Runs

/-! # Bounded queues

A queue of at most `capacity` items takes as many of the offered items as fit, and gives
items away in the order in which they came. A journal of all items that came and all that
went accounts for the ones that are left.
-/

variable {α : Type*} {capacity : ℕ}

structure BoundedQueue (α : Type*) (capacity : ℕ) where
  items : List α
  closed : Bool
  fits : items.length ≤ capacity

namespace BoundedQueue

def empty (α : Type*) (capacity : ℕ) : BoundedQueue α capacity where
  items := []
  closed := false
  fits := Nat.zero_le _

/-- The number of items that still fit. -/
def room (q : BoundedQueue α capacity) : ℕ := capacity - q.items.length

def push (q : BoundedQueue α capacity) (offered : List α) : BoundedQueue α capacity where
  items := q.items ++ offered.take q.room
  closed := q.closed
  fits := by
    have := q.fits
    simp only [List.length_append, List.length_take, room]
    omega

def pop (q : BoundedQueue α capacity) (n : ℕ) : BoundedQueue α capacity where
  items := q.items.drop n
  closed := q.closed
  fits := by
    have := q.fits
    rw [List.length_drop]
    omega

def close (q : BoundedQueue α capacity) : BoundedQueue α capacity := { q with closed := true }

variable {q : BoundedQueue α capacity}

theorem items_add_room (q : BoundedQueue α capacity) : q.items.length + q.room = capacity := by
  have := q.fits
  unfold room
  omega

theorem push_room (offered : List α) :
    (q.push offered).room = q.room - min offered.length q.room := by
  simp only [room, push, List.length_append, List.length_take]
  omega

theorem pop_room {n : ℕ} (hn : n ≤ q.items.length) : (q.pop n).room = q.room + n := by
  have := q.fits
  simp only [room, pop, List.length_drop]
  omega

inductive Op (α : Type*)
  | push (offered : List α)
  | pop (n : ℕ)
  | close
  | look

/-- A queue with all items that it took and all that it gave away. -/
structure Journal (α : Type*) (capacity : ℕ) where
  queue : BoundedQueue α capacity
  came : List α
  went : List α

namespace Journal

def new (α : Type*) (capacity : ℕ) : Journal α capacity where
  queue := empty α capacity
  came := []
  went := []

def step (j : Journal α capacity) : Op α → Journal α capacity
  | .push offered =>
    { j with queue := j.queue.push offered, came := j.came ++ offered.take j.queue.room }
  | .pop n => { j with queue := j.queue.pop n, went := j.went ++ j.queue.items.take n }
  | .close => { j with queue := j.queue.close }
  | .look => j

/-- What went and what is left is what came, in the same order. -/
def Balanced (j : Journal α capacity) : Prop := j.went ++ j.queue.items = j.came

theorem Balanced.step {j : Journal α capacity} (h : j.Balanced) (o : Op α) :
    (j.step o).Balanced := by
  unfold Balanced at h ⊢
  cases o with
  | push offered =>
    simp only [Journal.step, push]
    rw [← List.append_assoc, h]
  | pop n =>
    simp only [Journal.step, pop]
    rw [List.append_assoc, List.take_append_drop, h]
  | close => exact h
  | look => exact h

theorem balanced_run (os : List (Op α)) :
    (Runs.run Journal.step (Journal.new α capacity) os).Balanced :=
  Runs.run_invariant (I := Balanced) (fun _ o h => h.step o) rfl

end Journal

end BoundedQueue
