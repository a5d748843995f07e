import Mathlib.Data.List.Basic
import Mathlib.Algebra.Order.Group.Nat

/-!
# Histories that replay

An `Object` has operations with an effect and an answer. The history of a concurrent
implementation is a log of operations in the order they took effect; the object's state is
what the log replays to. A call that was answered has its operation in the log, between the
log's length when it began and the length when it ended, and was answered as the replay up
to there has it (`Answered.In`): this is linearizability, and the log is the order.

An operation may rely on something of the state it is applied to (`Legal`). What an
operation brings about, and none after it takes away, holds at the end (`replay_after`).
-/

/-- Operations on a state, with their answers. -/
structure Object (D O A : Type*) where
  apply : O → D → D
  answer : O → D → A

namespace Object

variable {D O A : Type*} (X : Object D O A) (L : O → D → Prop)

/-- What a log comes to. -/
def replay (init : D) (log : List O) : D := log.foldl (fun d o => X.apply o d) init

theorem replay_concat (init : D) (log : List O) (o : O) :
    X.replay init (log ++ [o]) = X.apply o (X.replay init log) := by
  unfold replay
  rw [List.foldl_append]
  rfl

/-- Each operation found what it relies on. -/
def Legal (init : D) (log : List O) : Prop :=
  ∀ i o, log[i]? = some o → L o (X.replay init (log.take i))

theorem Legal.nil (init : D) : X.Legal L init [] := fun i o h => by simp at h

variable {X L}

theorem Legal.concat {init : D} {log : List O} {o : O} (h : X.Legal L init log)
    (ho : L o (X.replay init log)) : X.Legal L init (log ++ [o]) := by
  intro i o' hi
  rcases Nat.lt_trichotomy i log.length with hlt | rfl | hgt
  · rw [List.getElem?_append_left hlt] at hi
    rw [List.take_append_of_le_length hlt.le]
    exact h i o' hi
  · rw [List.getElem?_concat_length] at hi
    obtain rfl := Option.some.inj hi
    rw [List.take_left]
    exact ho
  · rw [List.getElem?_eq_none (by simp; omega)] at hi
    cases hi

/-- **What lasts.** An operation of the log brings `P` about, and every later one keeps it:
then `P` holds at the end. -/
theorem replay_after {P : D → Prop} {init : D} {log : List O} (hl : X.Legal L init log) {i : ℕ}
    {o : O} (hi : log[i]? = some o) (hP : ∀ d, L o d → P (X.apply o d))
    (hkeep : ∀ j o', i < j → log[j]? = some o' → ∀ d, L o' d → P d → P (X.apply o' d)) :
    P (X.replay init log) := by
  have step {n : ℕ} {o' : O} (hn : log[n]? = some o') :
      X.replay init (log.take (n + 1)) = X.apply o' (X.replay init (log.take n)) := by
    rw [List.take_add_one, hn, Option.toList_some, replay_concat]
  -- along the log, from the operation on
  have along : ∀ n, i < n → n ≤ log.length → P (X.replay init (log.take n)) := by
    intro n
    induction n with
    | zero => exact fun h => absurd h (Nat.not_lt_zero i)
    | succ n ih =>
      intro hlt hle
      obtain ⟨o', ho'⟩ : ∃ o', log[n]? = some o' := ⟨_, List.getElem?_eq_getElem hle⟩
      rw [step ho']
      rcases Nat.lt_succ_iff_lt_or_eq.mp hlt with hin | rfl
      · exact hkeep n o' hin ho' _ (hl n o' ho') (ih hin (Nat.le_of_succ_le hle))
      · obtain rfl : o' = o := Option.some.inj (ho'.symm.trans hi)
        exact hP _ (hl i o' hi)
  have hlt : i < log.length := (List.getElem?_eq_some_iff.mp hi).1
  have := along log.length hlt le_rfl
  rwa [List.take_length] at this

/-- A call with its answer: the log's length when it began and when it ended, and the place
of its operation. -/
structure Answered (O A : Type*) where
  op : O
  answer : A
  began : ℕ
  place : ℕ
  ended : ℕ

/-- The call took effect at its place, while it ran, and was answered as it had to be. -/
structure Answered.In (X : Object D O A) (init : D) (log : List O) (c : Answered O A) : Prop where
  began : c.began ≤ c.place
  ended : c.place < c.ended
  known : c.ended ≤ log.length
  op : log[c.place]? = some c.op
  answer : c.answer = X.answer c.op (X.replay init (log.take c.place))

theorem Answered.In.concat {init : D} {log : List O} {c : Answered O A} (h : c.In X init log)
    (o : O) : c.In X init (log ++ [o]) where
  began := h.began
  ended := h.ended
  known := h.known.trans (by simp)
  op := by
    rw [List.getElem?_append_left (h.ended.trans_le h.known)]
    exact h.op
  answer := by
    rw [List.take_append_of_le_length (h.ended.le.trans h.known)]
    exact h.answer

end Object
