import Mathlib.Algebra.BigOperators.Group.List.Basic
import Mathlib.Tactic.Linarith
import Mathlib.Tactic.Ring

/-!
# The deadline of chained queues

A queue scales its thresholds by a timeout. The first one of a request takes the client's
own; the absolute deadline it makes of it rides along on the route when the request spills,
and the next queue works off what is left (`budget`). There is no abort in the loop: what
leaves a queue is an admission, a spill, a fallback or a client that has gone.

`visits` is one request's way through its queues. Every queue it enters before the deadline
that the first one set shares that deadline (`shares_deadline`). At the deadline, or past
it, `budget` no longer sees it, and takes the client's whole timeout again.
-/

namespace Proxy.Deadline

/-- What `wait_for_proxy_slot` reads of a route and its policy. -/
structure Queue where
  clientTimeoutSeconds : ℤ
  /-- `spillPct` of a queue node, `cloudFallbackPct` of the implicit queue. -/
  spillPct : ℤ
  /-- The spill edge of a queue node. -/
  spillRef : Bool
  /-- `cloudFallbackProviderId` of the implicit queue. -/
  cloudId : Bool
  deriving DecidableEq

/-- One round of the loop: its `time.time()`, and what it finds. -/
structure Poll where
  now : ℚ
  /-- The client has gone, or a keepalive could not be written. -/
  gone : Bool
  /-- First in the group, room, and no reservation of another port. -/
  slot : Bool

/-- How a wait ends. -/
inductive Leave where
  | gone | spilled | fallback | admitted
  deriving DecidableEq, Repr

/-- A queue on the way of a request, with the rounds of its loop there. -/
structure Hop where
  queue : Queue
  /-- `started` -/
  entered : ℚ
  polls : List Poll

/-- `wait_timeout_sec` and `deadline_epoch`. -/
def budget (deadlineEpoch started : ℚ) (clientTimeoutSeconds : ℤ) : ℚ × ℚ :=
  if started < deadlineEpoch then
    (max 1 (deadlineEpoch - started), deadlineEpoch)
  else
    let whole : ℤ := max 10 (if clientTimeoutSeconds = 0 then 3600 else clientTimeoutSeconds)
    (whole, started + whole)

/-- `cloud_at`, from the entry on. -/
def Queue.cloudAt (q : Queue) (timeout : ℚ) : ℚ :=
  timeout * (max 0 (min 100 q.spillPct) : ℤ) / 100

/-- The loop; `none` while it goes on. -/
def waitForProxySlot (q : Queue) (started timeout : ℚ) : List Poll → Option (Leave × ℚ)
  | [] => none
  | p :: ps =>
    if p.gone then some (.gone, p.now)
    else if 0 < q.cloudAt timeout ∧ q.cloudAt timeout ≤ p.now - started ∧ q.spillRef then
      some (.spilled, p.now)
    else if 0 < q.cloudAt timeout ∧ q.cloudAt timeout ≤ p.now - started ∧ q.cloudId then
      some (.fallback, p.now)
    else if p.slot then some (.admitted, p.now)
    else waitForProxySlot q started timeout ps

/-- A queue as the request has met it. -/
structure Visit where
  queue : Queue
  entered : ℚ
  timeout : ℚ
  deadline : ℚ
  leave : Option (Leave × ℚ)
  deriving DecidableEq

/-- The time spent in a queue that has been left. -/
def Visit.waited (v : Visit) : ℚ :=
  match v.leave with
  | some (_, left) => left - v.entered
  | none => 0

def Hop.visit (h : Hop) (deadlineEpoch : ℚ) : Visit where
  queue := h.queue
  entered := h.entered
  timeout := (budget deadlineEpoch h.entered h.queue.clientTimeoutSeconds).1
  deadline := (budget deadlineEpoch h.entered h.queue.clientTimeoutSeconds).2
  leave := waitForProxySlot h.queue h.entered
    (budget deadlineEpoch h.entered h.queue.clientTimeoutSeconds).1 h.polls

/-- The queue and spill loop of the handler: after eight spills the ninth is refused. -/
def visits (spillGuard : ℕ) (deadlineEpoch : ℚ) : List Hop → List Visit
  | [] => []
  | h :: hs =>
    let v := h.visit deadlineEpoch
    v :: match v.leave with
      | some (.spilled, _) =>
        if 8 < spillGuard + 1 then []
        else visits (spillGuard + 1) (if v.deadline = 0 then deadlineEpoch else v.deadline) hs
      | _ => []

/-- The times of a hop, in the order they are read. -/
def Hop.times (h : Hop) : List ℚ := h.entered :: h.polls.map Poll.now

/-- Time does not go back, and the epoch is behind. -/
structure Timed (hops : List Hop) : Prop where
  sorted : (hops.flatMap Hop.times).Pairwise (· ≤ ·)
  pos : ∀ h ∈ hops, 0 ≤ h.entered

/-! ### One queue -/

theorem budget_shared {d started : ℚ} (c : ℤ) (h : started < d) :
    budget d started c = (max 1 (d - started), d) := if_pos h

/-- The deadline is the end of the timeout, or a second is given past it. -/
theorem budget_sum (d started : ℚ) (c : ℤ) :
    started + (budget d started c).1 ≤ max (budget d started c).2 (started + 1) := by
  unfold budget
  split
  · simp only
    rcases le_total (d - started) 1 with h | h
    · rw [max_eq_left h]
      exact le_max_right _ _
    · rw [max_eq_right h]
      exact le_trans (by linarith) (le_max_left _ _)
  · exact le_max_left _ _

theorem budget_nonneg (d started : ℚ) (c : ℤ) : 0 ≤ (budget d started c).1 := by
  unfold budget
  split
  · exact le_trans zero_le_one (le_max_left _ _)
  · change (0 : ℚ) ≤ ((max 10 _ : ℤ) : ℚ)
    exact_mod_cast le_trans (by norm_num) (le_max_left (10 : ℤ) _)

/-- A first queue, at a time past the epoch. -/
theorem budget_first {started : ℚ} (c : ℤ) (h : 0 ≤ started) :
    (budget 0 started c).2 = started + (budget 0 started c).1 ∧ 10 ≤ (budget 0 started c).1 := by
  unfold budget
  rw [if_neg (not_lt.mpr h)]
  refine ⟨rfl, ?_⟩
  change (10 : ℚ) ≤ ((max 10 _ : ℤ) : ℚ)
  exact_mod_cast le_max_left (10 : ℤ) _

/-- A threshold is a share of the timeout. -/
theorem Queue.cloudAt_le (q : Queue) {timeout : ℚ} (h : 0 ≤ timeout) :
    q.cloudAt timeout ≤ timeout := by
  have hpct : ((max 0 (min 100 q.spillPct) : ℤ) : ℚ) ≤ 100 := by
    exact_mod_cast max_le (by norm_num) (min_le_left _ _)
  unfold Queue.cloudAt
  calc timeout * (max 0 (min 100 q.spillPct) : ℤ) / 100 ≤ timeout * 100 / 100 := by gcongr
    _ = timeout := by ring

/-- A wait is left at one of its rounds. -/
theorem left_mem {q : Queue} {started timeout : ℚ} {ps : List Poll} {l : Leave} {t : ℚ}
    (h : waitForProxySlot q started timeout ps = some (l, t)) : t ∈ ps.map Poll.now := by
  induction ps with
  | nil => cases h
  | cons p ps ih =>
    unfold waitForProxySlot at h
    rw [List.map_cons, List.mem_cons]
    split at h
    · exact .inl (congrArg Prod.snd (Option.some.inj h)).symm
    · split at h
      · exact .inl (congrArg Prod.snd (Option.some.inj h)).symm
      · split at h
        · exact .inl (congrArg Prod.snd (Option.some.inj h)).symm
        · split at h
          · exact .inl (congrArg Prod.snd (Option.some.inj h)).symm
          · exact .inr (ih h)

/-- A spill comes no later than the deadline, or than a second after the entry. -/
theorem Hop.spill_le (h : Hop) (d : ℚ) :
    (h.visit d).entered + (h.visit d).queue.cloudAt (h.visit d).timeout ≤
      max (h.visit d).deadline ((h.visit d).entered + 1) := by
  have hle := h.queue.cloudAt_le (budget_nonneg d h.entered h.queue.clientTimeoutSeconds)
  calc h.entered + h.queue.cloudAt _
      ≤ h.entered + (budget d h.entered h.queue.clientTimeoutSeconds).1 :=
        add_le_add_right hle h.entered
    _ ≤ _ := budget_sum d h.entered h.queue.clientTimeoutSeconds

/-! ### The chain -/

theorem mem_visits {g : ℕ} {d : ℚ} {hops : List Hop} {v : Visit} (h : v ∈ visits g d hops) :
    ∃ hop ∈ hops, ∃ d', v = hop.visit d' := by
  induction hops generalizing g d with
  | nil => cases h
  | cons hop hops ih =>
    unfold visits at h
    rcases List.mem_cons.mp h with rfl | h
    · exact ⟨hop, List.mem_cons_self, d, rfl⟩
    · split at h
      · split at h
        · cases h
        · obtain ⟨hop', hmem, hv⟩ := ih h
          exact ⟨hop', List.mem_cons_of_mem _ hmem, hv⟩
      · cases h

/-- The queues after a spill, up to the deadline that came with it. -/
theorem visits_shared {g : ℕ} {d t₀ : ℚ} {hops : List Hop} (hd : d ≠ 0)
    (hs : (t₀ :: hops.flatMap Hop.times).Pairwise (· ≤ ·)) {pre post : List Visit} {v : Visit}
    (h : visits g d hops = pre ++ v :: post) (hv : v.entered < d) :
    v.deadline = d ∧ v.timeout = max 1 (d - v.entered) ∧
      (pre.map Visit.waited).sum ≤ v.entered - t₀ := by
  induction hops generalizing g t₀ pre with
  | nil => cases pre <;> cases h
  | cons hop hops ih =>
    have hmem : ∀ u ∈ visits g d (hop :: hops), ∃ k ∈ hop :: hops, u.entered = k.entered :=
      fun u hu => by
        obtain ⟨k, hk, d', rfl⟩ := mem_visits hu
        exact ⟨k, hk, rfl⟩
    rw [List.flatMap_cons, List.pairwise_cons, List.pairwise_append] at hs
    obtain ⟨hmin, hhop, hrest, hcross⟩ := hs
    have hfirst : t₀ ≤ hop.entered := hmin _ (List.mem_append_left _ List.mem_cons_self)
    unfold visits at h
    cases pre with
    | nil =>
      obtain ⟨rfl, -⟩ := List.cons.inj h
      have hb := budget_shared hop.queue.clientTimeoutSeconds hv
      refine ⟨congrArg Prod.snd hb, congrArg Prod.fst hb, ?_⟩
      change (0 : ℚ) ≤ hop.entered - t₀
      linarith
    | cons u pre =>
      obtain ⟨rfl, htail⟩ := List.cons.inj h
      -- there is a queue behind this one, so it was left by a spill
      cases hl : (hop.visit d).leave with
      | none => rw [hl] at htail; cases pre <;> cases htail
      | some lt =>
        obtain ⟨l, t⟩ := lt
        rw [hl] at htail
        cases l with
        | gone | fallback | admitted => cases pre <;> cases htail
        | spilled =>
          simp only at htail
          split at htail
          · cases pre <;> cases htail
          · have ht : t ∈ hop.times := List.mem_cons_of_mem _ (left_mem hl)
            have hvmem : v ∈ visits (g + 1)
                (if (hop.visit d).deadline = 0 then d else (hop.visit d).deadline) hops := by
              rw [htail]
              exact List.mem_append_right _ List.mem_cons_self
            obtain ⟨k, hk, d', rfl⟩ := mem_visits hvmem
            have hle : hop.entered ≤ k.entered := hcross _ List.mem_cons_self _
              (List.mem_flatMap.mpr ⟨k, hk, List.mem_cons_self⟩)
            -- entered before the deadline, it has carried the deadline on
            have hb := budget_shared hop.queue.clientTimeoutSeconds (lt_of_le_of_lt hle hv)
            have hdead : (hop.visit d).deadline = d := congrArg Prod.snd hb
            rw [hdead, if_neg hd] at htail
            have hsorted : (t :: hops.flatMap Hop.times).Pairwise (· ≤ ·) :=
              List.pairwise_cons.mpr ⟨fun x hx => hcross t ht x hx, hrest⟩
            obtain ⟨h₁, h₂, h₃⟩ := ih hsorted htail
            refine ⟨h₁, h₂, ?_⟩
            have hw : (hop.visit d).waited = t - hop.entered := by
              unfold Visit.waited
              rw [hl]
              rfl
            rw [List.map_cons, List.sum_cons, hw]
            linarith

/-- **Chained queues share one deadline.** A queue that a request enters before the deadline
its first queue has set works with that deadline: its timeout is what is left of it, a
second at least; what the request has waited so far and what is left are no more than the
first timeout; and the queue's spill comes no later than the deadline, or than a second
after it was entered. -/
theorem shares_deadline {hop : Hop} {hops : List Hop} (ht : Timed (hop :: hops))
    {pre post : List Visit} {v : Visit} (h : visits 0 0 (hop :: hops) = pre ++ v :: post)
    (hv : v.entered < (hop.visit 0).deadline) :
    v.deadline = (hop.visit 0).deadline ∧
      (pre ≠ [] → v.timeout = max 1 ((hop.visit 0).deadline - v.entered)) ∧
      (pre.map Visit.waited).sum + ((hop.visit 0).deadline - v.entered) ≤ (hop.visit 0).timeout ∧
      v.entered + v.queue.cloudAt v.timeout ≤ max v.deadline (v.entered + 1) := by
  obtain ⟨hsum, hten⟩ : (hop.visit 0).deadline = hop.entered + (hop.visit 0).timeout ∧
      10 ≤ (hop.visit 0).timeout :=
    budget_first hop.queue.clientTimeoutSeconds (ht.pos hop List.mem_cons_self)
  have hspill : v.entered + v.queue.cloudAt v.timeout ≤ max v.deadline (v.entered + 1) := by
    have hmem : v ∈ visits 0 0 (hop :: hops) := by
      rw [h]
      exact List.mem_append_right _ List.mem_cons_self
    obtain ⟨k, -, d, rfl⟩ := mem_visits hmem
    exact k.spill_le d
  unfold visits at h
  cases pre with
  | nil =>
    obtain ⟨rfl, -⟩ := List.cons.inj h
    refine ⟨rfl, fun h => absurd rfl h, ?_, hspill⟩
    change 0 + ((hop.visit 0).deadline - hop.entered) ≤ _
    linarith
  | cons u pre =>
    obtain ⟨rfl, htail⟩ := List.cons.inj h
    -- the first queue was left by a spill, and its deadline went with the request
    cases hl : (hop.visit 0).leave with
    | none => rw [hl] at htail; cases pre <;> cases htail
    | some lt =>
      obtain ⟨l, t⟩ := lt
      rw [hl] at htail
      cases l with
      | gone | fallback | admitted => cases pre <;> cases htail
      | spilled =>
        have hne : (hop.visit 0).deadline ≠ 0 := by
          have := ht.pos hop List.mem_cons_self
          exact ne_of_gt (by linarith)
        simp only [if_neg hne, Nat.reduceAdd, Nat.reduceLT, if_false] at htail
        have hs := ht.sorted
        rw [List.flatMap_cons, List.pairwise_append] at hs
        have hmem : t ∈ hop.times := List.mem_cons_of_mem _ (left_mem hl)
        obtain ⟨h₁, h₂, h₃⟩ := visits_shared hne
          (List.pairwise_cons.mpr ⟨fun x hx => hs.2.2 t hmem x hx, hs.2.1⟩) htail hv
        have hw : (hop.visit 0).waited = t - hop.entered := by
          unfold Visit.waited
          rw [hl]
          rfl
        refine ⟨h₁, fun _ => h₂, ?_, hspill⟩
        rw [List.map_cons, List.sum_cons, hw]
        linarith

/-- Two queues of a client that waits a minute: the second is entered after twelve seconds
and has the forty-eight that are left. -/
theorem shares_deadline_two : ∃ v : Visit,
    v ∈ visits 0 0 [⟨⟨60, 20, true, false⟩, 100, [⟨112, false, false⟩]⟩,
      ⟨⟨60, 20, true, false⟩, 112, [⟨113, false, true⟩]⟩] ∧ v.entered = 112 ∧
      v.deadline = 160 ∧ v.timeout = max 1 (160 - v.entered) := by
  have hd : (Hop.visit ⟨⟨60, 20, true, false⟩, 100, [⟨112, false, false⟩]⟩ 0).deadline = 160 := by
    decide +kernel
  have hv : visits 0 0 [⟨⟨60, 20, true, false⟩, 100, [⟨112, false, false⟩]⟩,
      ⟨⟨60, 20, true, false⟩, 112, [⟨113, false, true⟩]⟩] =
      [Hop.visit ⟨⟨60, 20, true, false⟩, 100, [⟨112, false, false⟩]⟩ 0] ++
        Hop.visit ⟨⟨60, 20, true, false⟩, 112, [⟨113, false, true⟩]⟩ 160 :: [] := by
    decide +kernel
  have key := shares_deadline ⟨by decide +kernel, by decide +kernel⟩ hv
    (by rw [hd]; decide +kernel)
  rw [hd] at key
  exact ⟨_, by rw [hv]; exact List.mem_append_right _ List.mem_cons_self, rfl, key.1,
    key.2.1 (by simp)⟩

/-- A queue that nobody spills from or leaves is waited in past the timeout; and a spill at
the whole of the timeout enters the second queue at the deadline, where a fresh timeout
starts: the request has waited twice the time it was given. -/
theorem waits_past_timeout :
    (∃ hop : Hop, Timed [hop] ∧ (hop.visit 0).timeout = 10 ∧ (hop.visit 0).waited = 100) ∧
    ∃ hops : List Hop, Timed hops ∧ ∃ u v : Visit, visits 0 0 hops = [u, v] ∧
      u.timeout = 10 ∧ v.timeout = 10 ∧ u.timeout < u.waited + v.waited := by
  refine ⟨⟨⟨⟨10, 20, false, false⟩, 100, [⟨200, false, true⟩]⟩,
    ⟨by decide +kernel, by decide +kernel⟩, by decide +kernel, by decide +kernel⟩, ?_⟩
  refine ⟨[⟨⟨10, 100, true, false⟩, 100, [⟨110, false, false⟩]⟩,
    ⟨⟨10, 100, true, false⟩, 110, [⟨119, false, true⟩]⟩], ⟨by decide +kernel, by decide +kernel⟩,
    ⟨⟨10, 100, true, false⟩, 100, 10, 110, some (.spilled, 110)⟩,
    ⟨⟨10, 100, true, false⟩, 110, 10, 120, some (.admitted, 119)⟩, ?_⟩
  exact ⟨by decide +kernel, rfl, rfl, by decide +kernel⟩

end Proxy.Deadline
