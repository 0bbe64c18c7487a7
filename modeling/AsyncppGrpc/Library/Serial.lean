import AsyncppGrpc.Library.Run

/-! A single consumer of a queue: items are taken first in first out, one at a time, and each
is finished before the next begins. -/
namespace Serial
open Run
variable {α : Type*}

inductive Action (α : Type*) where
  | put (x : α)
  | begin (x : α)
  | finish (x : α)
  deriving DecidableEq

structure State (α : Type*) where
  queue : List α
  running : Option α

def State.init : State α := ⟨[], none⟩

def Enabled (s : State α) : Action α → Prop
  | .put _ => True
  | .begin x => s.running = none ∧ s.queue.head? = some x
  | .finish x => s.running = some x

instance [DecidableEq α] (s : State α) (a : Action α) : Decidable (Enabled s a) :=
  match a with
  | .put _ => instDecidableTrue
  | .begin x => inferInstanceAs (Decidable (s.running = none ∧ s.queue.head? = some x))
  | .finish x => inferInstanceAs (Decidable (s.running = some x))

def next (s : State α) : Action α → State α
  | .put x => { s with queue := s.queue ++ [x] }
  | .begin x => ⟨s.queue.tail, some x⟩
  | .finish _ => { s with running := none }

def step [DecidableEq α] : State α → Action α → Option (State α) := stepOf Enabled next

/-- The items put, and those begun, in order. -/
def puts (w : List (Action α)) : List α :=
  w.filterMap fun
    | .put x => some x
    | _ => none

def begins (w : List (Action α)) : List α :=
  w.filterMap fun
    | .begin x => some x
    | _ => none

/-- The item begun and not yet finished. -/
def running (w : List (Action α)) : Option α :=
  w.foldl (fun r a => match a with
    | .put _ => r
    | .begin x => some x
    | .finish _ => none) none

/-- Begin and finish alternate, on the same item each time, from `r` running. -/
def Alternates (r : Option α) : List (Action α) → Prop
  | [] => True
  | .put _ :: w => Alternates r w
  | .begin x :: w => r = none ∧ Alternates (some x) w
  | .finish x :: w => r = some x ∧ Alternates none w

/-- What a history of a serial consumer looks like. What is put while an item is running does
not begin before that item is finished. -/
structure Fifo (w : List (Action α)) : Prop where
  alternates : Alternates none w
  ordered : begins w <+: puts w
  nested : ∀ u v z x y y', w = u ++ .put y :: v ++ .begin y' :: z → running u = some x →
    .finish x ∈ v

section
variable (u w : List (Action α))

@[simp] theorem puts_append : puts (u ++ w) = puts u ++ puts w := by
  simp [puts]

@[simp] theorem begins_append : begins (u ++ w) = begins u ++ begins w := by
  simp [begins]

theorem running_concat (a : Action α) : running (u ++ [a]) = match a with
    | .put _ => running u
    | .begin x => some x
    | .finish _ => none := by
  cases a <;> simp [running]

variable {u w}

theorem alternates_append (h : Alternates none (u ++ w)) : Alternates (running u) w := by
  induction u using List.reverseRecOn generalizing w with
  | nil => simpa [running] using h
  | append_singleton u a ih =>
    have hu := ih (w := a :: w) (by simpa using h)
    rw [running_concat]
    cases a with
    | put x => exact hu
    | begin x => exact hu.2
    | finish x => exact hu.2

/-- Before something begins, what runs is finished. -/
theorem Alternates.finish_mem {x y : α} {z : List (Action α)}
    (h : Alternates (some x) (w ++ .begin y :: z)) : .finish x ∈ w := by
  induction w with
  | nil => exact absurd h.1 (by simp)
  | cons a w ih =>
    cases a with
    | put x' => exact List.mem_cons_of_mem _ (ih h)
    | begin x' => exact absurd h.1 (by simp)
    | finish x' =>
      obtain rfl : x = x' := by simpa using h.1
      exact List.mem_cons_self
end

section
variable [DecidableEq α]

/-- What a run of the consumer has done so far. -/
structure Served (s : State α) (w : List (Action α)) : Prop where
  running : s.running = running w
  queue : puts w = begins w ++ s.queue

theorem served_run {s : State α} {w : List (Action α)} (hr : run step .init w = some s) :
    Served s w := by
  apply log_of_run (I := Served) _ _ hr
  · exact ⟨rfl, rfl⟩
  · intro s w a s' h hs
    obtain ⟨he, rfl⟩ := stepOf_eq_some.mp hs
    have hqueue := h.queue
    constructor
    · rw [running_concat]
      cases a with
      | put x => exact h.running
      | begin x => rfl
      | finish x => rfl
    · cases a with
      | put x =>
        rw [puts_append, begins_append, hqueue]
        simp [next, puts, begins]
      | begin x =>
        obtain ⟨q, hq⟩ := List.head?_eq_some_iff.mp he.2
        simpa [next, puts, begins, hq] using hqueue
      | finish x => simpa [next, puts, begins] using hqueue

theorem alternates_run {s t : State α} {w : List (Action α)} (hr : run step s w = some t) :
    Alternates s.running w := by
  induction w generalizing s with
  | nil => trivial
  | cons a w ih =>
    obtain ⟨u, ha, hr'⟩ := run_cons_eq_some.mp hr
    obtain ⟨he, rfl⟩ := stepOf_eq_some.mp ha
    have hw := ih hr'
    cases a with
    | put x => exact hw
    | begin x => exact ⟨he.1, hw⟩
    | finish x => exact ⟨he, hw⟩

/-- Every run of the consumer is serial and first in first out. -/
theorem fifo_run {s : State α} {w : List (Action α)} (hr : run step .init w = some s) :
    Fifo w := by
  have halt := alternates_run hr
  refine ⟨halt, ⟨s.queue, (served_run hr).queue.symm⟩, ?_⟩
  intro u v z x y y' hw hrun
  rw [hw, List.append_assoc] at halt
  have hrest := alternates_append halt
  rw [hrun] at hrest
  simpa using Alternates.finish_mem hrest
end

end Serial
