import RedisProxy.Lib.Simulation
import RedisProxy.RingBuffer

/-!
# The queue that a `RingBuffer` stands for

A queue of bounded capacity. Its elements have consecutive indices from zero on, in the order in which they
are added, until the queue is initialised again. The elements that have not been popped are live.
-/

namespace RedisProxy

open Lib

/-- The elements that have been added since the queue was initialised, and how many of them have been popped. -/
structure RingQueue (α : Type) where
  added : List α
  popped : Nat

namespace RingQueue

variable {α : Type}

def empty : RingQueue α := ⟨[], 0⟩

/-- The elements in the queue, oldest first. -/
def items (q : RingQueue α) : List α := q.added.drop q.popped

/-- The element with index `i` is in the queue. -/
def Live (q : RingQueue α) (i : Nat) : Prop := q.popped ≤ i ∧ i < q.added.length

/-- The live index that is equal to `i` modulo the capacity. -/
def liveAt (n : Nat) (q : RingQueue α) (i : Nat) : Option Nat :=
  (List.range' q.popped q.items.length).find? fun j => j % n == i % n

def add (q : RingQueue α) (x : α) : RingQueue α := { q with added := q.added ++ [x] }

/-- The operations on a queue of capacity `n`. An index is only known modulo `n`. -/
def perform (n : Nat) (q : RingQueue α) : RingBuffer.Op α → RingBuffer.Result α × RingQueue α
  | .addData x => if q.items.length < n then (.bool true, q.add x) else (.bool false, q)
  | .addDataIdx x i =>
    if q.items.length < n ∧ q.added.length % n = i % n then (.bool true, q.add x) else (.bool false, q)
  | .popFront => (.pointer q.items.head?, if q.items = [] then q else { q with popped := q.popped + 1 })
  | .getFront => (.pointer q.items.head?, q)
  | .getBack => (.pointer q.items.getLast?, q)
  | .getData i => (.pointer ((q.liveAt n i).bind fun j => q.added[j]?), q)
  | .reInit => (.ok, empty)

/-- Elements are added only with an index, which is the number of elements that have been added before. -/
def Consecutive (n : Nat) (ops : List (RingBuffer.Op α)) : Prop :=
  ∀ (before after : List (RingBuffer.Op α)) (o : RingBuffer.Op α), ops = before ++ o :: after →
    (∀ x, o ≠ .addData x) ∧ ∀ x i, o = .addDataIdx x i → i = (performAll (perform n) empty before).2.added.length

end RingQueue

end RedisProxy
