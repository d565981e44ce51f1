import Mathlib.Data.List.Basic

/-!
# Reading ahead

A producer of items, one at a time, behind a buffer: `next` takes the first item of the
buffer, or else of the producer, and the peeks fill the buffer from the producer.  Whatever
the producer does between two items, it is asked for them in one order only, so the items
that `next` answers are those of the producer.

## Main results

* `Ahead.run_eq` — a run of calls answers as many items as it calls `next`, and these are
  the first items of the producer.
-/

namespace ProtoST.Lib

universe u v

variable {σ : Type u} {τ : Type v}

/-- The first `n` items of the producer. -/
def produce (step : σ → τ × σ) : Nat → σ → List τ
  | 0, _ => []
  | n + 1, s => (step s).1 :: produce step n (step s).2

/-- A producer and the items that were produced and not yet consumed. -/
structure Ahead (σ : Type u) (τ : Type v) where
  state : σ
  buffer : List τ

/-- A call: `next`, or a peek that wants `n + 1` items in the buffer. -/
inductive Ahead.Call where
  | next
  | peek (n : Nat)
  deriving DecidableEq, Repr

namespace Ahead

variable (step : σ → τ × σ)

/-- One item is added to the buffer. -/
def push (a : Ahead σ τ) : Ahead σ τ := ⟨(step a.state).2, a.buffer ++ [(step a.state).1]⟩

/-- `n` items are added to the buffer. -/
def pushes : Nat → Ahead σ τ → Ahead σ τ
  | 0, a => a
  | n + 1, a => pushes n (a.push step)

def next (a : Ahead σ τ) : τ × Ahead σ τ :=
  match a.buffer with
  | t :: ts => (t, { a with buffer := ts })
  | [] => ((step a.state).1, { a with state := (step a.state).2 })

/-- At least `n + 1` items are in the buffer. -/
def fill (n : Nat) (a : Ahead σ τ) : Ahead σ τ := a.pushes step (n + 1 - a.buffer.length)

/-- What the calls of `next` answer. -/
def run : List Call → Ahead σ τ → List τ
  | [], _ => []
  | .next :: calls, a => (a.next step).1 :: run calls (a.next step).2
  | .peek n :: calls, a => run calls (a.fill step n)

/-- The first `n` items that are to come. -/
def coming (n : Nat) (a : Ahead σ τ) : List τ :=
  (a.buffer ++ produce step n a.state).take n

variable {step} {a : Ahead σ τ}

/-- A longer run of the producer begins with the shorter one. -/
theorem take_produce {n m : Nat} (h : n ≤ m) (s : σ) :
    (produce step m s).take n = produce step n s := by
  induction n generalizing m s with
  | zero => rfl
  | succ n ih =>
    obtain ⟨m, rfl⟩ : ∃ k, m = k + 1 := ⟨m - 1, by omega⟩
    rw [produce, produce, List.take_succ_cons, ih (by omega)]

@[simp] theorem coming_zero : a.coming step 0 = [] := rfl

theorem coming_push (n : Nat) : (a.push step).coming step n = a.coming step n := by
  cases n with
  | zero => rfl
  | succ n =>
    have hlong : produce step (n + 1) a.state =
      (step a.state).1 :: produce step n (step a.state).2 := rfl
    unfold coming push
    rw [hlong, List.append_assoc, List.singleton_append]
    simp only [List.take_append]
    congr 1
    cases hk : n + 1 - a.buffer.length with
    | zero => rfl
    | succ k =>
      rw [List.take_succ_cons, List.take_succ_cons, take_produce (by omega),
        take_produce (by omega)]

theorem coming_pushes (n k : Nat) : (a.pushes step k).coming step n = a.coming step n := by
  induction k generalizing a with
  | zero => rfl
  | succ k ih => rw [pushes, ih, coming_push]

theorem coming_succ (n : Nat) :
    a.coming step (n + 1) = (a.next step).1 :: (a.next step).2.coming step n := by
  obtain ⟨s, buffer⟩ := a
  cases buffer with
  | nil => simp [coming, next, produce]
  | cons t ts =>
    simp only [coming, next, List.cons_append, List.take_succ_cons, List.take_append]
    rw [take_produce (by omega), take_produce (by omega)]

/-- The calls of `next` answer the items to come, whatever is peeked at in between. -/
theorem run_eq_coming (calls : List Call) :
    a.run step calls = a.coming step (calls.count .next) := by
  induction calls generalizing a with
  | nil => rfl
  | cons call calls ih =>
    cases call with
    | next => rw [run, ih, List.count_cons_self, coming_succ]
    | peek n => rw [run, ih, fill, coming_pushes, List.count_cons_of_ne (by simp)]

/-- **Transparency.** -/
theorem run_eq (calls : List Call) (s : σ) :
    (Ahead.mk s []).run step calls = produce step (calls.count .next) s := by
  rw [run_eq_coming, coming, List.nil_append, take_produce (Nat.le_refl _)]

end Ahead

end ProtoST.Lib
