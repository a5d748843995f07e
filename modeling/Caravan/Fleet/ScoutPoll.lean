import Caravan.Framework.System
import Mathlib.Tactic.Linarith

/-!
# The poller of the scouts

Every read of the board kicks a pull of the scouts' state, from any number of threads. Kicks that
are past the lock and pulls that run are counted, and the moments at which one was let in are
kept, the last one first; the code keeps none of these.
-/

namespace ScoutPoller

/-- What the threads share, and where those stand that were let in. -/
structure Poller where
  running : Bool := false
  lastStart : Option ℚ := none
  starting : ℕ := 0
  pulling : ℕ := 0
  starts : List ℚ := []
  deriving DecidableEq

def MIN_INTERVAL : ℚ := 5

/-- What `kick` asks under the lock. -/
def Poller.opens (p : Poller) (now : ℚ) : Bool :=
  !p.running && p.lastStart.all fun last => ¬ now - last < MIN_INTERVAL

inductive Event where
  | kick (now : ℚ)
  | started
  /-- `_start` raises. -/
  | failed
  /-- The `finally` of `_run`. -/
  | ended

def next (p : Poller) : Event → Option Poller
  | .kick now => some <| if p.opens now then
      { p with
        running := true, lastStart := some now
        starting := p.starting + 1, starts := now :: p.starts }
    else p
  | .started =>
    if p.starting = 0 then none
    else some { p with starting := p.starting - 1, pulling := p.pulling + 1 }
  | .failed =>
    if p.starting = 0 then none else some { p with starting := p.starting - 1, running := false }
  | .ended =>
    if p.pulling = 0 then none else some { p with pulling := p.pulling - 1, running := false }

def system : System Poller Event where
  init p := p = {}
  step p e p' := next p e = some p'

structure Sound (p : Poller) : Prop where
  one : p.starting + p.pulling = if p.running then 1 else 0
  last : p.lastStart = p.starts.head?
  apart : p.starts.Pairwise fun b a => MIN_INTERVAL ≤ b - a

theorem Sound.step {p p' : Poller} {e : Event} (h : Sound p) (hs : next p e = some p') :
    Sound p' := by
  have hone := h.one
  cases e with
  | kick now =>
    cases Option.some.inj hs
    split_ifs with hopen
    · simp only [Poller.opens, Bool.and_eq_true, Bool.not_eq_true', h.last] at hopen
      rw [hopen.1, if_neg Bool.false_ne_true] at hone
      refine ⟨by dsimp only; rw [if_pos rfl]; omega, rfl, ?_⟩
      cases hp : p.starts with
      | nil => exact List.pairwise_singleton _ _
      | cons last older =>
        have hgap : MIN_INTERVAL ≤ now - last := by simpa [hp] using hopen.2
        have hapart := hp ▸ h.apart
        refine List.pairwise_cons.mpr ⟨fun a ha => ?_, hapart⟩
        rcases List.mem_cons.mp ha with rfl | ha
        · exact hgap
        · -- an older one is before the last
          have := (List.pairwise_cons.mp hapart).1 a ha
          unfold MIN_INTERVAL at *
          linarith
    · exact h
  | started | failed | ended =>
    simp only [next, Option.ite_none_left_eq_some] at hs
    obtain ⟨hpos, hs⟩ := hs
    cases Option.some.inj hs
    refine ⟨?_, h.last, h.apart⟩
    split_ifs at hone ⊢ <;> dsimp only at * <;> omega

/-- **One pull at a time, and not too often.** Whatever the threads do, at most one kick or pull
is under way, the pulls are let in `MIN_INTERVAL` apart, and once none is under way, also after a
start or a pull that raised, the next kick so much later is let in. -/
theorem polls {p : Poller} (h : system.Reachable p) :
    p.starting + p.pulling ≤ 1 ∧ p.starts.Pairwise (fun b a => MIN_INTERVAL ≤ b - a) ∧
      (p.starting + p.pulling = 0 → ∀ now, (∀ a ∈ p.starts, MIN_INTERVAL ≤ now - a) →
        p.opens now = true) := by
  obtain ⟨hone, hlast, hapart⟩ := h.invariant (I := Sound)
    (by rintro _ rfl; exact ⟨rfl, rfl, List.Pairwise.nil⟩) fun _ _ _ hp _ hs => hp.step hs
  refine ⟨by split_ifs at hone <;> omega, hapart, fun hnone now hlong => ?_⟩
  have hidle : p.running = false := by
    by_contra hrun
    rw [if_pos (by simpa using hrun)] at hone
    omega
  rw [Poller.opens, hidle, hlast]
  cases hp : p.starts with
  | nil => rfl
  | cons a _ => simpa using hlong a (hp ▸ List.mem_cons_self)

/-- A start raises, and six seconds later a pull runs. -/
theorem polls_failed : ∃ p : Poller, p.starts = [6, 0] ∧ p.starting + p.pulling ≤ 1 := by
  have h : system.Reachable {} := .init rfl
  have h' : system.Reachable ⟨true, some 6, 0, 1, [6, 0]⟩ := h.follow (fun _ _ _ h => h)
    [.kick 0, .failed, .kick 6, .started] (by decide +kernel) fun _ _ _ => trivial
  exact ⟨_, rfl, (polls h').1⟩

end ScoutPoller
