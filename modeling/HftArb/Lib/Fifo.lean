import HftArb.Lib.Transition

/-!
# Bounded first-in first-out queues

The abstract queue: what has been pushed, what has been popped, and the contents in between.  Its
reachable states satisfy `pushed = popped ++ contents` with at most `bound` elements stored, which
is all that first-in first-out order says about the history of a queue.
-/

namespace Transition

variable {T : Type*}

/-- The contents of a queue together with its history. -/
structure Fifo (T : Type*) where
  contents : List T
  pushed : List T
  popped : List T

namespace Fifo

/-- The operations of a queue. -/
inductive Op (T : Type*)
  | push (value : T)
  | pop (value : T)

/-- A push appends when there is room, a pop takes the oldest element. -/
inductive Step (bound : ℕ) : Fifo T → Op T → Fifo T → Prop
  | push (q : Fifo T) (value : T) (room : q.contents.length < bound) :
      Step bound q (.push value) ⟨q.contents ++ [value], q.pushed ++ [value], q.popped⟩
  | pop (q : Fifo T) (value : T) (rest : List T) (head : q.contents = value :: rest) :
      Step bound q (.pop value) ⟨rest, q.pushed, q.popped ++ [value]⟩

/-- What an operation was can be seen from the history. -/
theorem Step.eq_push {bound : ℕ} {q q' : Fifo T} {op : Op T} {value : T} (h : Step bound q op q')
    (hpushed : q'.pushed = q.pushed ++ [value]) : op = .push value := by
  cases h with
  | push value' room =>
    have heq := List.append_cancel_left hpushed
    rw [List.singleton_inj.1 heq]
  | pop value' rest head => exact absurd (congrArg List.length hpushed) (by simp)

theorem Step.eq_pop {bound : ℕ} {q q' : Fifo T} {op : Op T} {value : T} (h : Step bound q op q')
    (hpopped : q'.popped = q.popped ++ [value]) : op = .pop value := by
  cases h with
  | push value' room => exact absurd (congrArg List.length hpopped) (by simp)
  | pop value' rest head =>
    have heq := List.append_cancel_left hpopped
    rw [List.singleton_inj.1 heq]

/-- The queue that starts empty and stores at most `bound` elements. -/
def system (T : Type*) (bound : ℕ) : System (Fifo T) (Op T) where
  init q := q = ⟨[], [], []⟩
  step := Step bound

theorem reachable_spec {bound : ℕ} {q : Fifo T} (h : (system T bound).Reachable q) :
    q.pushed = q.popped ++ q.contents ∧ q.contents.length ≤ bound := by
  refine h.induct
    (I := fun q => q.pushed = q.popped ++ q.contents ∧ q.contents.length ≤ bound) ?_ ?_
  · rintro _ rfl
    simp
  · rintro _ _ _ ⟨hq, hlen⟩ hstep
    cases hstep with
    | push value room =>
      refine ⟨?_, ?_⟩
      · dsimp only
        rw [hq, List.append_assoc]
      · simp only [List.length_append, List.length_singleton]
        omega
    | pop value rest head =>
      rw [head] at hq hlen
      refine ⟨?_, ?_⟩
      · dsimp only
        rw [hq, List.append_assoc, List.singleton_append]
      · simp only [List.length_cons] at hlen
        dsimp only
        omega

/-- What has been popped is what was pushed first, in the same order. -/
theorem popped_prefix {bound : ℕ} {q : Fifo T} (h : (system T bound).Reachable q) :
    q.popped <+: q.pushed :=
  ⟨q.contents, (reachable_spec h).1.symm⟩

end Fifo

end Transition
