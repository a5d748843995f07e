import Mathlib.Data.Finset.Card
import Caravan.Proxy.QueueSteps

/-!
# How many requests a group serves

`active_count` finds the requests on a group by their items. It finds all of them while
every request that was admitted to a group has an item with the group's stamp that takes a
place (`InBooks`), and then no admission oversells the group (`admit_below`).

Two steps take a request off the count that is still on its group. A pool's leg gives up
its admission before its phase is written, and for that long its item says `queued`; the
main path does the two in the other order. And a sync of the ports drops the row of a port
with all that is in flight there. `Steady` says that neither comes in the way.
-/

set_option linter.unusedSectionVars false

namespace Proxy.Queue

variable {P G : Type} [DecidableEq P] [DecidableEq G]

/-- Where a thread has its request in a queue, or is about to. -/
def Pc.Waits : Pc → Prop
  | .queueing _ | .waiting _ => True
  | _ => False

/-- Where a thread is on no group. -/
def Pc.Off : Pc → Prop
  | .queueing _ | .waiting _ | .quitting .. | .spilling | .refused | .leaving | .closed
  | .gone => True
  | _ => False

/-- Past the wait, and the admission not given up. -/
def Pc.Taken : Pc → Prop
  | .taken _ => True
  | _ => False

/-- The item of a request, and what it says of where the request is. -/
structure InBooks (s : State P G) (r : ℕ) (t : Thread P G) (i : Item P G) : Prop where
  mem : i ∈ s.active
  id : i.id = r
  port : i.port = t.port
  /-- A request waits where its stamp says. -/
  stamp : t.pc.Waits → i.upstream = t.group
  /-- A request is where its stamp says. -/
  on : ∀ g, t.on = some g → i.upstream = g
  /-- A request on a group takes a place of it. -/
  counts : t.on ≠ none → t.early = false → i.phase ≠ .queued ∨ t.pc.Taken ∧ r ∈ s.admitted

/-- What holds of one request and its item. -/
structure Kept (s : State P G) (r : ℕ) (t : Thread P G) : Prop where
  off : t.pc.Off → t.on = none
  booked : t.pc.Live → ∃ i, InBooks s r t i

/-- No preemption, no rescue, no row dropped with requests in it, and no admission to a
group while a leg on it stands between its discard and the write of its phase. -/
def Steady (s : State P G) : Event P G → Prop
  | .preempt .. | .admitAfterPreempt .. | .rescue .. => False
  | .sync ports => ∀ i ∈ s.active, i.port ∈ ports
  | .admitted id => ∀ t r t', s.thread id = some t → s.thread r = some t' →
      t'.on = some t.group → t'.early = false
  | _ => True

variable {s s' : State P G} {e : Event P G}

/-- The step of another leaves a request and its item as they were. -/
theorem Kept.frame {r : ℕ} {t : Thread P G} (hk : Kept s r t) (hf : Frame s s' r)
    (hi : ∀ i : Item P G, i.id = r → i ∈ s.active → i ∈ s'.active) : Kept s' r t where
  off := hk.off
  booked hlive := by
    obtain ⟨i, hb⟩ := hk.booked hlive
    exact ⟨i, hi i hb.id hb.mem, hb.id, hb.port, hb.stamp, hb.on, fun h₁ h₂ =>
      (hb.counts h₁ h₂).imp_right fun h => ⟨h.1, hf.admitted.mpr h.2⟩⟩

/-- A thread that has died asks nothing of the books. -/
theorem Kept.die (s : State P G) (r : ℕ) (t : Thread P G) : Kept s r t.die :=
  ⟨fun _ => rfl, fun h => h.elim⟩

theorem Kept.goes {s : State P G} {r : ℕ} {t : Thread P G} {ok : Bool} {pc : Pc}
    (h : Kept s r { t with pc := pc }) : Kept s r (t.goes ok pc) := by
  unfold Thread.goes
  split
  · exact h
  · exact Kept.die s r t

theorem Kept.runs {s : State P G} {r : ℕ} {t : Thread P G} {ok : Bool} {pc : Pc}
    (h : Kept s r { t with pc := pc }) (hb : Kept s r { t with pc := .broken }) :
    Kept s r (t.runs ok pc) := by
  unfold Thread.runs
  cases ok
  · exact hb
  · exact h

/-- Past a write, the patched item is in the books. -/
theorem InBooks.patched {r : ℕ} {t : Thread P G} {i : Item P G} (hi : InBooks s r t i)
    (hb : Books s) (patch : Item P G → Item P G) :
    patch i ∈ (s.updateActive t.port r patch).active :=
  mem_patchFirst_self hb.distinct hi.mem hi.port hi.id

/-- Past the wait, a request on a group counts by its phase. -/
theorem InBooks.phase_ne {r : ℕ} {t : Thread P G} {i : Item P G} (hi : InBooks s r t i)
    (hon : t.on ≠ none) (he : t.early = false) (hpc : ¬ t.pc.Taken) : i.phase ≠ .queued :=
  (hi.counts hon he).resolve_right fun h => hpc h.1

section Own

variable {r : ℕ} {t t' : Thread P G} {f : Item P G → Item P G}

/-- A step after which the request is on no group: the item is there, and while the
request waits its stamp is the group it waits in. -/
theorem Kept.becomes_off (hk : Kept s r t) (hlive : t.pc.Live)
    (hmem : ∀ i, InBooks s r t i → f i ∈ s'.active) (hid : ∀ i, (f i).id = i.id)
    (hfport : ∀ i, (f i).port = i.port) (hport : t'.port = t.port) (hon : t'.on = none)
    (hstamp : t'.pc.Waits → ∀ i, InBooks s r t i → (f i).upstream = t'.group) :
    Kept s' r t' where
  off _ := hon
  booked _ := by
    obtain ⟨i, hi⟩ := hk.booked hlive
    refine ⟨f i, hmem i hi, ?_, ?_, fun hw => hstamp hw i hi, by simp [hon], by simp [hon]⟩
    · rw [hid, hi.id]
    · rw [hfport, hi.port, hport]

/-- A step of a request that keeps its group: the stamp stays, and the phase is not
`queued`. -/
theorem Kept.stays_on (hk : Kept s r t) (hlive : t.pc.Live)
    (hmem : ∀ i, InBooks s r t i → f i ∈ s'.active) (hid : ∀ i, (f i).id = i.id)
    (hfport : ∀ i, (f i).port = i.port) (hstamp : ∀ i, (f i).upstream = i.upstream)
    (hport : t'.port = t.port) (hon : t'.on = t.on) (hpc : ¬ t'.pc.Off)
    (hwaits : ¬ t'.pc.Waits)
    (hcounts : t.on ≠ none → t'.early = false → ∀ i, InBooks s r t i → (f i).phase ≠ .queued) :
    Kept s' r t' where
  off h := absurd h hpc
  booked _ := by
    obtain ⟨i, hi⟩ := hk.booked hlive
    refine ⟨f i, hmem i hi, ?_, ?_, fun h => absurd h hwaits, fun g hg => ?_, fun h₁ h₂ => ?_⟩
    · rw [hid, hi.id]
    · rw [hfport, hi.port, hport]
    · rw [hstamp]
      exact hi.on g (hon ▸ hg)
    · exact .inl (hcounts (hon ▸ h₁) h₂ i hi)

end Own

/-- **What a request's own step keeps.** -/
theorem Kept.act (hb : Books s) (hk : ∀ r t, s.thread r = some t → Kept s r t)
    (hok : Steady s e) (h : Step s e s') {r : ℕ} (ha : e.actor = some r) :
    ∃ t', s'.thread r = some t' ∧ Kept s' r t' := by
  cases h with
  | start hnew =>
    obtain rfl := Option.some.inj ha
    exact ⟨_, State.set_self .., Kept.goes ⟨fun _ => rfl, fun _ => ⟨_,
      List.mem_append_right _ (List.mem_singleton_self _), rfl, rfl, fun _ => rfl,
      by simp [Thread.new], by simp [Thread.new]⟩⟩⟩
  | @block _ _ at_ ht hpc =>
    obtain rfl := Option.some.inj ha
    have hon := (hk _ _ ht).off (by rw [hpc]; trivial)
    refine ⟨_, State.set_self .., (hk _ _ ht).becomes_off (f := id) (by rw [hpc]; trivial)
      (fun i hi => hi.mem) (fun _ => rfl) (fun _ => rfl) rfl hon fun hw => ?_⟩
    -- neither `refused` nor `forward` waits
    cases at_ <;> exact hw.elim
  | bypass ht hpc =>
    obtain rfl := Option.some.inj ha
    have hon := (hk _ _ ht).off (by rw [hpc]; trivial)
    exact ⟨_, State.set_self .., (hk _ _ ht).becomes_off (f := id) (by rw [hpc]; trivial)
      (fun i hi => hi.mem) (fun _ => rfl) (fun _ => rfl) rfl hon fun hw => hw.elim⟩
  | enter ht hpc =>
    obtain rfl := Option.some.inj ha
    have hon := (hk _ _ ht).off (by rw [hpc]; trivial)
    refine ⟨_, State.set_self .., (hk _ _ ht).becomes_off (f := id) (by rw [hpc]; trivial)
      (fun i hi => hi.mem) (fun _ => rfl) (fun _ => rfl) rfl hon fun _ i hi => ?_⟩
    exact hi.stamp (by rw [hpc]; trivial)
  | blocked ht hpc | passed ht hpc =>
    obtain rfl := Option.some.inj ha
    have hon := (hk _ _ ht).off (by rw [hpc]; trivial)
    refine ⟨_, ht, (hk _ _ ht).becomes_off (by rw [hpc]; trivial)
      (fun i hi => hi.patched hb _) (fun _ => rfl) (fun _ => rfl) rfl hon fun hw i hi => ?_⟩
    exact hi.stamp hw
  | pollRaises ht hpc =>
    obtain rfl := Option.some.inj ha
    have hon := (hk _ _ ht).off (by rw [hpc]; trivial)
    exact ⟨_, State.set_self .., (hk _ _ ht).becomes_off (by rw [hpc]; trivial)
      (fun i hi => hi.patched hb _) (fun _ => rfl) (fun _ => rfl) rfl hon fun hw => hw.elim⟩
  | admitted ht hpc =>
    -- the item still has the stamp of the group it has waited in
    obtain rfl := Option.some.inj ha
    obtain ⟨i, hi⟩ := (hk _ _ ht).booked (by rw [hpc]; trivial)
    refine ⟨_, State.set_self .., fun h => h.elim, fun _ => ⟨_, hi.patched hb _, hi.id, hi.port,
      fun h => h.elim, fun g hg => ?_, fun _ _ => .inr ⟨trivial, by simp⟩⟩⟩
    rw [← Option.some.inj hg]
    exact hi.stamp (by rw [hpc]; trivial)
  | preempt | preemptUnsaved | preemptRaises | admitAfterPreempt | rescue => exact hok.elim
  | graceOver ht hpc =>
    obtain rfl := Option.some.inj ha
    have hon := (hk _ _ ht).off (by rw [hpc]; trivial)
    exact ⟨_, State.set_self .., (hk _ _ ht).becomes_off (f := id) (by rw [hpc]; trivial)
      (fun i hi => hi.mem) (fun _ => rfl) (fun _ => rfl) rfl hon fun hw i hi => hi.stamp hw⟩
  | quit ht hpc =>
    obtain rfl := Option.some.inj ha
    have hon := (hk _ _ ht).off (by rw [hpc]; trivial)
    exact ⟨_, State.set_self .., (hk _ _ ht).becomes_off (f := id) (by rw [hpc]; trivial)
      (fun i hi => hi.mem) (fun _ => rfl) (fun _ => rfl) rfl hon fun hw => hw.elim⟩
  | @unqueue _ _ at_ exit ht hpc =>
    obtain rfl := Option.some.inj ha
    have hon := (hk _ _ ht).off (by rw [hpc]; trivial)
    refine ⟨_, State.set_self .., (hk _ _ ht).becomes_off (f := id) (by rw [hpc]; trivial)
      (fun i hi => hi.mem) (fun _ => rfl) (fun _ => rfl) ?_ ?_ fun hw => ?_⟩
    -- wherever the handler goes on, it is on no group and waits in no queue
    · cases at_ <;> cases exit <;> rfl
    · cases at_ <;> cases exit <;> first | exact hon | rfl
    · cases at_ <;> cases exit <;> exact hw.elim
  | spill ht hpc =>
    obtain rfl := Option.some.inj ha
    have hon := (hk _ _ ht).off (by rw [hpc]; trivial)
    exact ⟨_, State.set_self .., Kept.goes ((hk _ _ ht).becomes_off (by rw [hpc]; trivial)
      (fun i hi => hi.patched hb _) (fun _ => rfl) (fun _ => rfl) rfl hon fun _ _ _ => rfl)⟩
  | unroutable ht hpc =>
    obtain rfl := Option.some.inj ha
    have hon := (hk _ _ ht).off (by rw [hpc]; trivial)
    exact ⟨_, State.set_self .., (hk _ _ ht).becomes_off (f := id) (by rw [hpc]; trivial)
      (fun i hi => hi.mem) (fun _ => rfl) (fun _ => rfl) rfl hon fun hw => hw.elim⟩
  | receive ht hpc =>
    obtain rfl := Option.some.inj ha
    exact ⟨_, State.set_self .., Kept.goes ((hk _ _ ht).stays_on (by rw [hpc]; trivial)
      (fun i hi => hi.patched hb _) (fun _ => rfl) (fun _ => rfl) (fun _ => rfl) rfl rfl
      (fun h => h.elim) (fun h => h.elim) fun _ _ _ _ => by simp)⟩
  | discard ht hpc =>
    -- the phase is `received` by now, so the item counts without the admission
    obtain rfl := Option.some.inj ha
    refine ⟨_, State.set_self .., Kept.goes ((hk _ _ ht).stays_on (f := id) (by rw [hpc]; trivial)
      (fun i hi => hi.mem) (fun _ => rfl) (fun _ => rfl) (fun _ => rfl) rfl rfl
      (fun h => h.elim) (fun h => h.elim) fun hon he i hi => ?_)⟩
    exact (hi.counts hon he).resolve_right fun h => by rw [hpc] at h; exact h.1
  | discardLeg ht hpc =>
    -- here it is not: nothing is asked of the item until the phase is written
    obtain rfl := Option.some.inj ha
    exact ⟨_, State.set_self .., (hk _ _ ht).stays_on (f := id) (by rw [hpc]; trivial)
      (fun i hi => hi.mem) (fun _ => rfl) (fun _ => rfl) (fun _ => rfl) rfl rfl
      (fun h => h.elim) (fun h => h.elim) fun _ he => by cases he⟩
  | toCell ht hpc =>
    obtain rfl := Option.some.inj ha
    exact ⟨_, State.set_self .., Kept.runs
      ((hk _ _ ht).becomes_off (by rw [hpc]; trivial) (fun i hi => hi.patched hb _)
        (fun _ => rfl) (fun _ => rfl) rfl rfl fun _ _ _ => rfl)
      ((hk _ _ ht).becomes_off (by rw [hpc]; trivial) (fun i hi => hi.patched hb _)
        (fun _ => rfl) (fun _ => rfl) rfl rfl fun hw => hw.elim)⟩
  | toAccount ht hpc =>
    obtain rfl := Option.some.inj ha
    exact ⟨_, State.set_self .., Kept.runs
      ((hk _ _ ht).becomes_off (by rw [hpc]; trivial) (fun i hi => hi.patched hb _)
        (fun _ => rfl) (fun _ => rfl) rfl rfl fun hw => hw.elim)
      ((hk _ _ ht).becomes_off (by rw [hpc]; trivial) (fun i hi => hi.patched hb _)
        (fun _ => rfl) (fun _ => rfl) rfl rfl fun hw => hw.elim)⟩
  | @send _ t ht hpc =>
    obtain rfl := Option.some.inj ha
    have hlive : t.pc.Live := by rcases hpc with hpc | ⟨hpc, -⟩ <;> rw [hpc] <;> trivial
    exact ⟨_, State.set_self .., Kept.runs
      ((hk _ _ ht).stays_on hlive (fun i hi => hi.patched hb _) (fun _ => rfl) (fun _ => rfl)
        (fun _ => rfl) rfl rfl (fun h => h.elim) (fun h => h.elim) fun _ _ _ _ => by simp)
      ((hk _ _ ht).stays_on hlive (fun i hi => hi.patched hb _) (fun _ => rfl) (fun _ => rfl)
        (fun _ => rfl) rfl rfl (fun h => h.elim) (fun h => h.elim) fun _ _ _ _ => by simp)⟩
  | answer ht hpc =>
    obtain rfl := Option.some.inj ha
    have hphase : ∀ streaming : Bool,
        (if streaming then Phase.streaming else Phase.reading) ≠ Phase.queued := by decide
    exact ⟨_, State.set_self .., Kept.runs
      ((hk _ _ ht).stays_on (by rw [hpc]; trivial) (fun i hi => hi.patched hb _)
        (fun _ => rfl) (fun _ => rfl) (fun _ => rfl) rfl rfl (fun h => h.elim)
        (fun h => h.elim) fun _ _ _ _ => hphase _)
      ((hk _ _ ht).stays_on (by rw [hpc]; trivial) (fun i hi => hi.patched hb _)
        (fun _ => rfl) (fun _ => rfl) (fun _ => rfl) rfl rfl (fun h => h.elim)
        (fun h => h.elim) fun _ _ _ _ => hphase _)⟩
  | @relay _ _ t ht hpc =>
    obtain rfl := Option.some.inj ha
    have htaken : ¬ t.pc.Taken := by rw [hpc]; exact not_false
    exact ⟨_, State.set_self .., Kept.runs
      ((hk _ _ ht).stays_on (by rw [hpc]; trivial) (fun i hi => hi.patched hb _)
        (fun _ => rfl) (fun _ => rfl) (fun _ => rfl) rfl rfl (fun h => h.elim)
        (fun h => h.elim) fun hon he i hi => hi.phase_ne hon he htaken)
      ((hk _ _ ht).stays_on (by rw [hpc]; trivial) (fun i hi => hi.patched hb _)
        (fun _ => rfl) (fun _ => rfl) (fun _ => rfl) rfl rfl (fun h => h.elim)
        (fun h => h.elim) fun hon he i hi => hi.phase_ne hon he htaken)⟩
  | goOn ht hpc =>
    obtain rfl := Option.some.inj ha
    exact ⟨_, State.set_self .., (hk _ _ ht).stays_on (f := id) (by rw [hpc]; trivial)
      (fun i hi => hi.mem) (fun _ => rfl) (fun _ => rfl) (fun _ => rfl) rfl rfl
      (fun h => h.elim) (fun h => h.elim) fun hon he i hi =>
        hi.phase_ne hon he (by rw [hpc]; exact not_false)⟩
  | @fail _ t ht hpc =>
    obtain rfl := Option.some.inj ha
    have hpcs : t.pc.Live ∧ ¬ t.pc.Taken := by
      simp only [List.mem_cons, List.not_mem_nil, or_false] at hpc
      rcases hpc with h | h | h | h | h <;> rw [h] <;> exact ⟨trivial, not_false⟩
    exact ⟨_, State.set_self .., (hk _ _ ht).stays_on (f := id) hpcs.1
      (fun i hi => hi.mem) (fun _ => rfl) (fun _ => rfl) (fun _ => rfl) rfl rfl
      (fun h => h.elim) (fun h => h.elim) fun hon he i hi => hi.phase_ne hon he hpcs.2⟩
  | finish ht hpc =>
    obtain rfl := Option.some.inj ha
    exact ⟨_, State.set_self .., Kept.goes ⟨fun _ => rfl, fun h => h.elim⟩⟩
  | uncountable ht hpc =>
    obtain rfl := Option.some.inj ha
    exact ⟨_, State.set_self .., Kept.die ..⟩
  | release ht hpc =>
    obtain rfl := Option.some.inj ha
    have hon := (hk _ _ ht).off (by rw [hpc]; trivial)
    exact ⟨_, State.set_self .., ⟨fun _ => hon, fun h => h.elim⟩⟩
  | sync | tick | sweepSee | sweepPop => cases ha

/-! ### Runs -/

/-- The books, and of every request that it is kept. -/
structure Slots (s : State P G) : Prop where
  books : Books s
  kept : ∀ r t, s.thread r = some t → Kept s r t

theorem Slots.init : Slots (State.init : State P G) :=
  ⟨Books.init, fun _ _ h => absurd h (by simp [State.init])⟩

theorem Slots.step (hs : Slots s) (hok : Steady s e) (h : Step s e s') : Slots s' := by
  refine ⟨hs.books.step h, fun r t ht => ?_⟩
  by_cases ha : e.actor = some r
  · obtain ⟨t', ht', hk⟩ := Kept.act hs.books hs.kept hok h ha
    rw [ht] at ht'
    exact Option.some.inj ht' ▸ hk
  · have hf := h.frame ha
    rw [hf.thread] at ht
    refine (hs.kept r t ht).frame hf fun i hi hmem => ?_
    by_cases he : e.Reaches
    · cases h with
      | preempt | preemptUnsaved | preemptRaises => exact hok.elim
      | sync =>
        -- no row with an item in it is dropped
        exact List.mem_filter.mpr ⟨hmem, decide_eq_true (hok i hmem)⟩
      | _ => exact he.elim
    · exact (h.sameItems ha he i hi).mpr hmem

theorem slots (h : (system P G).Reach Steady s) : Slots s :=
  h.invariant (fun _ h => h ▸ Slots.init) fun _ _ _ hs hok hstep => hs.step hok hstep

/-- Requests that each have an item which counts are no more than the count. -/
theorem card_le_activeCount {F : Finset ℕ} {g : G}
    (h : ∀ r ∈ F, ∃ i ∈ s.active, i.id = r ∧ i.Counts s.admitted g) :
    F.card ≤ s.activeCount g := by
  have hsub : F ⊆ ((s.active.filter fun i => i.Counts s.admitted g).map Item.id).toFinset := by
    intro r hr
    obtain ⟨i, hi, hid, hc⟩ := h r hr
    rw [List.mem_toFinset]
    exact List.mem_map.mpr ⟨i, List.mem_filter.mpr ⟨hi, decide_eq_true hc⟩, hid⟩
  calc F.card ≤ _ := Finset.card_le_card hsub
    _ ≤ _ := List.toFinset_card_le _
    _ = s.activeCount g := List.length_map ..

/-- **Slots are not oversold.** In a steady run an admission finds fewer than `max_slots`
other requests that were admitted to the group and have not left it. -/
theorem admit_below {id : ℕ} {t : Thread P G} (hr : (system P G).Reach Steady s)
    (hok : Steady s (.admitted id)) (h : Step s (.admitted id) s') (ht : s.thread id = some t)
    (F : Finset ℕ)
    (hF : ∀ r ∈ F, r ≠ id ∧ ∃ t', s.thread r = some t' ∧ t'.on = some t.group) :
    F.card < t.maxSlots := by
  cases h with
  | @admitted _ u _ hu _ _ _ _ hclear =>
  obtain rfl : u = t := Option.some.inj (hu.symm.trans ht)
  refine lt_of_le_of_lt (card_le_activeCount fun r hr' => ?_) hclear.2
  obtain ⟨hne, t', ht', hon⟩ := hF r hr'
  -- every request on the group has an item that counts, and the poll leaves it alone
  have hk := (slots hr).kept r t' ht'
  have hlive : t'.pc.Live := by
    by_contra hl
    have hoff : t'.pc.Off := by
      revert hl
      cases t'.pc <;> simp [Pc.Live, Pc.Off]
    rw [hk.off hoff] at hon
    cases hon
  obtain ⟨i, hi⟩ := hk.booked hlive
  refine ⟨i, ?_, hi.id, hi.on _ hon, ?_⟩
  · have hne : i.id ≠ id := by rw [hi.id]; exact hne
    exact (mem_patchFirst_of_ne (fun _ => by rfl) hne).mpr hi.mem
  · rcases hi.counts (by simp [hon]) (hok u r t' ht ht' hon) with h | h
    · exact .inr h
    · exact .inl (hi.id.symm ▸ h.2)

/-- One request, and a group of one place. -/
theorem admit_below_first : ∃ (s s' : State ℕ ℕ) (t : Thread ℕ ℕ),
    (system ℕ ℕ).Reach Steady s ∧ Step s (.admitted 0) s' ∧ s.thread 0 = some t ∧ t.maxSlots = 1 ∧
      ∀ F : Finset ℕ,
        (∀ r ∈ F, r ≠ 0 ∧ ∃ t', s.thread r = some t' ∧ t'.on = some t.group) →
        F.card < t.maxSlots := by
  have h₀ : (system ℕ ℕ).Reach Steady State.init := .init rfl
  have h₁ := h₀.next (@Step.start _ _ _ _ _ 0 9 5 false true rfl) trivial
  have h₂ := h₁.next (@Step.enter _ _ _ _ _ 0 1 (Thread.new 9 5 false) .main rfl rfl
    fun _ => rfl) trivial
  refine ⟨_, _, _, h₂, .admitted rfl rfl (by decide) rfl rfl (by decide), rfl, rfl, fun F hF =>
    admit_below h₂ ?_ (.admitted rfl rfl (by decide) rfl rfl (by decide)) rfl F hF⟩
  -- the only thread there is has given up no admission
  intro t r t' _ ht' _
  by_cases hr : r = 0
  · subst hr
    exact Option.some.inj ht' ▸ rfl
  · simp [Function.update_of_ne hr, State.init] at ht'

/-- No preemption and no rescue, and every other step as it comes. -/
def Plain : State P G → Event P G → Prop
  | _, .preempt .. | _, .admitAfterPreempt .. | _, .rescue .. => False
  | _, _ => True

/-- A pool's leg has the one place of a group and has given up its admission; before its
phase is written a second request is admitted. -/
theorem leg_oversells : ∃ (s s' : State ℕ ℕ) (t u : Thread ℕ ℕ),
    (system ℕ ℕ).Reach Plain s ∧ Step s (.admitted 1) s' ∧ s.thread 1 = some t ∧
      t.maxSlots = 1 ∧ s.thread 0 = some u ∧ u.on = some t.group := by
  have h₀ : (system ℕ ℕ).Reach Plain State.init := .init rfl
  have h₁ := h₀.next (@Step.start _ _ _ _ _ 0 9 7 true true rfl) trivial
  have h₂ := h₁.next (@Step.bypass _ _ _ _ _ 0 (Thread.new 9 7 true) rfl rfl rfl) trivial
  have h₃ := h₂.next (@Step.receive _ _ _ _ _ 0
    ⟨.taken .main, 9, 7, true, some 7, 0, .untried, none, false⟩ rfl rfl) trivial
  have h₄ := h₃.next (@Step.discard _ _ _ _ _ 0 true
    ⟨.received, 9, 7, true, some 7, 0, .untried, none, false⟩ rfl rfl) trivial
  have h₅ := h₄.next (@Step.toCell _ _ _ _ _ 0 5 true
    ⟨.forward, 9, 7, true, some 7, 0, .untried, none, false⟩ rfl rfl rfl) trivial
  have h₆ := h₅.next (@Step.enter _ _ _ _ _ 0 1
    ⟨.queueing .leg, 9, 5, true, some 7, 0, .untried, none, false⟩ .leg rfl rfl
    (by decide)) trivial
  have h₇ := h₆.next (@Step.admitted _ _ _ _ _ 0
    ⟨.waiting .leg, 9, 5, true, some 7, 1, .untried, none, false⟩ .leg rfl rfl (by decide)
    rfl rfl (by decide)) trivial
  have h₈ := h₇.next (@Step.discardLeg _ _ _ _ _ 0 true
    ⟨.taken .leg, 9, 5, true, some 7, 1, .untried, some 5, false⟩ rfl rfl) trivial
  have h₉ := h₈.next (@Step.start _ _ _ _ _ 1 9 5 false true rfl) trivial
  have h₁₀ := h₉.next (@Step.enter _ _ _ _ _ 1 1 (Thread.new 9 5 false) .main rfl rfl
    fun _ => rfl) trivial
  exact ⟨_, _, _, ⟨.ready, 9, 5, true, some 7, 1, .untried, some 5, true⟩, h₁₀,
    .admitted rfl rfl (by decide) rfl rfl (by decide), rfl, rfl, rfl, rfl⟩

end Proxy.Queue
