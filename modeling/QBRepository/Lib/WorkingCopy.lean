import Mathlib.Data.List.Basic

/-!
# Working copies

A `WorkingCopy` is a committed value together with the one that is being worked on.  Three events
happen to it: a change of the current value, a commit, and a discard that goes back to the
committed value.

* `WorkingCopy.replay` — a sequence of events;
* `committed_replay` — the committed value is the one of the last commit;
* `current_replay` — the current value is the committed one with the changes since the last commit
  or discard.
-/

universe u

/-- A committed value, and the one that is worked on. -/
structure WorkingCopy (α : Type u) where
  committed : α
  current : α

namespace WorkingCopy

variable {α : Type u}

/-- What happens to a working copy. -/
inductive Event (α : Type u) where
  | change (f : α → α)
  | commit
  | discard

/-- The working copy after an event. -/
def apply (w : WorkingCopy α) : Event α → WorkingCopy α
  | .change f => { w with current := f w.current }
  | .commit => { w with committed := w.current }
  | .discard => { w with current := w.committed }

/-- The working copy after a sequence of events. -/
def replay (w : WorkingCopy α) (events : List (Event α)) : WorkingCopy α :=
  events.foldl apply w

/-- The values that are committed, in order. -/
def commits : WorkingCopy α → List (Event α) → List α
  | _, [] => []
  | w, .commit :: events => w.current :: commits (w.apply .commit) events
  | w, .change f :: events => commits (w.apply (.change f)) events
  | w, .discard :: events => commits (w.apply .discard) events

/-- The changes since the last commit or discard, `changes` being those before. -/
def uncommitted : List (α → α) → List (Event α) → List (α → α)
  | changes, [] => changes
  | changes, .change f :: events => uncommitted (changes ++ [f]) events
  | _, .commit :: events => uncommitted [] events
  | _, .discard :: events => uncommitted [] events

/-- A value after a sequence of changes. -/
def changed (changes : List (α → α)) (a : α) : α := changes.foldl (fun a f => f a) a

variable {w : WorkingCopy α} {events : List (Event α)}

@[simp] theorem replay_nil : w.replay [] = w := rfl

@[simp] theorem replay_cons (event : Event α) :
    w.replay (event :: events) = (w.apply event).replay events := rfl

/-- Events one after the other. -/
theorem replay_append (events' : List (Event α)) :
    w.replay (events ++ events') = (w.replay events).replay events' := List.foldl_append

/-- The commits of both. -/
theorem commits_append (events' : List (Event α)) :
    w.commits (events ++ events') = w.commits events ++ (w.replay events).commits events' := by
  induction events generalizing w with
  | nil => rfl
  | cons event events ih =>
    cases event with
    | change f => exact ih
    | commit => exact congrArg (w.current :: ·) ih
    | discard => exact ih

/-- The committed value is the one of the last commit. -/
theorem committed_replay : (w.replay events).committed
    = (w.commits events).getLast?.getD w.committed := by
  induction events generalizing w with
  | nil => rfl
  | cons event events ih =>
    rw [replay_cons, ih]
    cases event with
    | change f => rfl
    | commit =>
      rw [commits, List.getLast?_cons]
      rfl
    | discard => rfl

/-- The current value is the committed one with the changes since. -/
theorem current_replay {changes : List (α → α)} (h : w.current = changed changes w.committed) :
    (w.replay events).current
      = changed (uncommitted changes events) (w.replay events).committed := by
  induction events generalizing w changes with
  | nil => exact h
  | cons event events ih =>
    rw [replay_cons]
    cases event with
    | change f =>
      refine ih ?_
      show f w.current = changed (changes ++ [f]) w.committed
      rw [changed, List.foldl_append, h]
      rfl
    | commit => exact ih rfl
    | discard => exact ih rfl

end WorkingCopy
