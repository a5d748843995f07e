import Caravan.Proxy.Queue

/-!
# What a step of the queue can change

Three facts about every step, from which the invariants start. The ids of the in-flight
items are those of before, fewer, or one new one (`Step.ids`). A thread that is there stays
there (`Step.thread_isSome`). And a step is the act of one request, which leaves the
thread, the items, the entries and the admission of every other request as they were
(`Step.frame`); only a preemption and a sync of the ports reach over to other items.
-/

set_option linter.unusedSectionVars false

namespace Proxy.Queue

variable {P G : Type} [DecidableEq P] [DecidableEq G]

/-! ### Patches -/

section Patch

variable {port : P} {id : ℕ} {patch : Item P G → Item P G} {l : List (Item P G)}

theorem map_id_patchFirst (hp : ∀ i, (patch i).id = i.id) :
    (patchFirst port id patch l).map Item.id = l.map Item.id := by
  induction l with
  | nil => rfl
  | cons i l ih =>
    unfold patchFirst
    split
    · rw [List.map_cons, List.map_cons, hp]
    · rw [List.map_cons, List.map_cons, ih]

theorem mem_patchFirst_of_ne (hp : ∀ i, (patch i).id = i.id) {j : Item P G} (h : j.id ≠ id) :
    j ∈ patchFirst port id patch l ↔ j ∈ l := by
  induction l with
  | nil => rfl
  | cons i l ih =>
    unfold patchFirst
    split
    · next hi =>
      -- neither the item nor its patched form is `j`
      have h₁ : j ≠ patch i := fun e => h (by rw [e, hp, hi.2])
      have h₂ : j ≠ i := fun e => h (by rw [e, hi.2])
      simp [h₁, h₂]
    · simp [ih]

/-- Where the ids are distinct, the patch reaches the item that has the id. -/
theorem mem_patchFirst_self (hd : (l.map Item.id).Nodup) {i : Item P G} (hi : i ∈ l)
    (hport : i.port = port) (hid : i.id = id) : patch i ∈ patchFirst port id patch l := by
  induction l with
  | nil => exact absurd hi List.not_mem_nil
  | cons j l ih =>
    rw [List.map_cons, List.nodup_cons] at hd
    unfold patchFirst
    rcases List.mem_cons.mp hi with rfl | hi
    · rw [if_pos ⟨hport, hid⟩]
      exact List.mem_cons_self
    · have hj : j.id ≠ id := fun e => hd.1 (List.mem_map.mpr ⟨i, hi, by rw [hid, e]⟩)
      rw [if_neg fun h => hj h.2]
      exact List.mem_cons_of_mem _ (ih hd.2 hi)

/-- An item after a patch: one of before that the patch is not for, or a patched one. -/
theorem of_mem_patchFirst (hd : (l.map Item.id).Nodup) {j : Item P G}
    (h : j ∈ patchFirst port id patch l) :
    j ∈ l ∧ ¬(j.port = port ∧ j.id = id) ∨
      ∃ i ∈ l, i.port = port ∧ i.id = id ∧ j = patch i := by
  induction l with
  | nil => exact absurd h List.not_mem_nil
  | cons i l ih =>
    rw [List.map_cons, List.nodup_cons] at hd
    unfold patchFirst at h
    split at h
    · next hi =>
      rcases List.mem_cons.mp h with rfl | hj
      · exact .inr ⟨i, List.mem_cons_self, hi.1, hi.2, rfl⟩
      · -- no second item has the id
        have hne : j.id ≠ id := fun e => hd.1 (List.mem_map.mpr ⟨j, hj, by rw [e, hi.2]⟩)
        exact .inl ⟨List.mem_cons_of_mem _ hj, fun hc => hne hc.2⟩
    · next hi =>
      rcases List.mem_cons.mp h with rfl | hj
      · exact .inl ⟨List.mem_cons_self, hi⟩
      · rcases ih hd.2 hj with ⟨hj, hn⟩ | ⟨k, hk, hrest⟩
        · exact .inl ⟨List.mem_cons_of_mem _ hj, hn⟩
        · exact .inr ⟨k, List.mem_cons_of_mem _ hk, hrest⟩

/-- What a patch keeps of an item, it keeps of all. -/
theorem forall_mem_patchFirst {p : Item P G → Prop} (hp : ∀ i, p i → p (patch i))
    (h : ∀ i ∈ l, p i) : ∀ i ∈ patchFirst port id patch l, p i := by
  induction l with
  | nil => exact h
  | cons i l ih =>
    rw [List.forall_mem_cons] at h
    unfold patchFirst
    split
    · exact List.forall_mem_cons.mpr ⟨hp i h.1, h.2⟩
    · exact List.forall_mem_cons.mpr ⟨h.1, ih h.2⟩

end Patch

theorem State.set_self (s : State P G) (id : ℕ) (t : Thread P G) :
    (s.set id t).thread id = some t := Function.update_self ..

theorem State.set_writable (s : State P G) (id : ℕ) (t : Thread P G) :
    (s.set id t).writable = s.writable := rfl

@[simp] theorem Thread.goes_port (t : Thread P G) (w : Bool) (pc : Pc) :
    (t.goes w pc).port = t.port := by unfold Thread.goes; split <;> rfl

theorem Thread.goes_pc {t : Thread P G} {w : Bool} {pc : Pc} (h : w = true) :
    (t.goes w pc).pc = pc := by rw [Thread.goes, if_pos h]

theorem Thread.runs_pc {t : Thread P G} {w : Bool} {pc : Pc} (h : w = true) :
    (t.runs w pc).pc = pc := if_pos h

/-! ### The release -/

section Reserve

variable (s : State P G) (group : G) (port : P) (sec : ℕ)

@[simp] theorem State.reserve_active : (s.reserve group port sec).active = s.active := by
  unfold State.reserve; split <;> rfl

@[simp] theorem State.reserve_recent : (s.reserve group port sec).recent = s.recent := by
  unfold State.reserve; split <;> rfl

@[simp] theorem State.reserve_pending : (s.reserve group port sec).pending = s.pending := by
  unfold State.reserve; split <;> rfl

@[simp] theorem State.reserve_admitted : (s.reserve group port sec).admitted = s.admitted := by
  unfold State.reserve; split <;> rfl

@[simp] theorem State.reserve_seq : (s.reserve group port sec).seq = s.seq := by
  unfold State.reserve; split <;> rfl

@[simp] theorem State.reserve_thread : (s.reserve group port sec).thread = s.thread := by
  unfold State.reserve; split <;> rfl

end Reserve

/-! ### Whose step it is -/

/-- Where a thread has its item in the books. -/
def Pc.Live : Pc → Prop
  | .leaving | .closed | .gone => False
  | _ => True

/-- The request whose thread acts. -/
def Event.actor : Event P G → Option ℕ
  | .start id .. | .block id | .bypass id | .enter id _ | .poll id | .admitted id
  | .preempt id .. | .graceOver id | .admitAfterPreempt id _ | .quit id _ | .unqueue id
  | .spill id .. | .unroutable id | .receive id | .discard id _ | .toCell id ..
  | .toAccount id _ | .send id | .answer id .. | .relay id _ | .goOn id | .rescue id ..
  | .fail id | .finish id .. | .release id _ => some id
  | .sync _ | .tick _ | .sweepSee _ | .sweepPop _ => none

/-- A step that reaches over to the items of other requests. -/
def Event.Reaches : Event P G → Prop
  | .preempt .. | .sync _ => True
  | _ => False

/-- What the step of another leaves to a request. -/
structure Frame (s s' : State P G) (r : ℕ) : Prop where
  thread : s'.thread r = s.thread r
  admitted : r ∈ s'.admitted ↔ r ∈ s.admitted
  pending : ∀ e : Entry P G, e.id = r → (e ∈ s'.pending ↔ e ∈ s.pending)

/-- The in-flight items of a request are left as they are. -/
def SameItems (s s' : State P G) (r : ℕ) : Prop :=
  ∀ i : Item P G, i.id = r → (i ∈ s'.active ↔ i ∈ s.active)

variable {s s' : State P G} {e : Event P G}

theorem Step.frame (h : Step s e s') {r : ℕ} (hr : e.actor ≠ some r) : Frame s s' r := by
  cases h <;>
    first
    | exact ⟨rfl, Iff.rfl, fun _ _ => Iff.rfl⟩
    | have hne : r ≠ _ := fun e => hr (congrArg some e.symm)
      refine ⟨?_, ?_, fun e he => ?_⟩
      · simp [Function.update_of_ne hne]
      · simp [hne]
      · simp [removePendingRequest, he, hne] <;>
          exact fun hx => absurd (congrArg Entry.id hx) (by simpa [he] using hne)

theorem Step.sameItems (h : Step s e s') {r : ℕ} (hr : e.actor ≠ some r) (he : ¬ e.Reaches) :
    SameItems s s' r := by
  intro i hi
  cases h <;>
    first
    | exact Iff.rfl
    | exact absurd trivial he
    | have hne : i.id ≠ _ := fun e => hr (congrArg some (e.symm.trans hi))
      simp [hne, mem_patchFirst_of_ne, Item.take]
  case start id port group cloud w _ _ =>
    rintro rfl
    exact absurd rfl hne

theorem Step.thread_isSome (h : Step s e s') {r : ℕ} (hr : (s.thread r).isSome) :
    (s'.thread r).isSome := by
  by_cases ha : e.actor = some r
  · cases h <;> simp_all [Event.actor]
  · rwa [(h.frame ha).thread]

/-- The ids in the books: those of before, fewer of them, or one more. -/
theorem Step.ids (h : Step s e s') :
    ((s'.active.map Item.id).Sublist (s.active.map Item.id)) ∨
      ∃ id, s.thread id = none ∧ (s'.thread id).isSome ∧
        s'.active.map Item.id = s.active.map Item.id ++ [id] := by
  cases h with
  | start hnew => exact .inr ⟨_, hnew, by simp, by simp⟩
  | _ =>
    first
    | exact .inl (List.Sublist.refl _)
    | exact .inl (List.filter_sublist.map _)
    | exact .inl (by simp [map_id_patchFirst, Item.take])

/-- An item in the books was there with its id and its port, or has just been added. -/
theorem Step.origin (h : Step s e s') {i : Item P G} (hi : i ∈ s'.active) :
    (∃ j ∈ s.active, j.id = i.id ∧ j.port = i.port) ∨
      (s.thread i.id = none ∧ e.actor = some i.id ∧
        ∃ t, s'.thread i.id = some t ∧ i.port = t.port ∧ (s'.writable → t.pc = .queueing .main)) := by
  cases h with
  | start hnew =>
    rcases List.mem_append.mp hi with hi | hi
    · exact .inl ⟨i, hi, rfl, rfl⟩
    · obtain rfl := List.mem_singleton.mp hi
      refine .inr ⟨hnew, rfl, _, State.set_self .., ?_, fun hw => ?_⟩
      · unfold Thread.goes
        split <;> rfl
      · -- the books of the new state are those that were written
        exact congrArg Thread.pc (if_pos hw)
  | _ =>
    first
    | exact .inl ⟨i, hi, rfl, rfl⟩
    | exact .inl ⟨i, (List.mem_filter.mp hi).1, rfl, rfl⟩
    | exact .inl ⟨i, by simpa using hi, rfl, rfl⟩
    | simp only [State.set_active, State.unstick_active, State.admission_active,
        State.updateActive_active] at hi
      exact .inl (forall_mem_patchFirst
        (p := fun i => ∃ j ∈ s.active, j.id = i.id ∧ j.port = i.port)
        (by exact fun _ h => h) (fun i hi => ⟨i, hi, rfl, rfl⟩) i hi)

/-! ### The books -/

/-- Every item in the books is of a request that has begun, and no request has two. -/
structure Books (s : State P G) : Prop where
  known : ∀ i ∈ s.active, (s.thread i.id).isSome
  distinct : (s.active.map Item.id).Nodup

theorem Books.init : Books (State.init : State P G) :=
  ⟨fun _ h => absurd h List.not_mem_nil, List.nodup_nil⟩

theorem Books.step (hb : Books s) (h : Step s e s') : Books s' := by
  rcases h.ids with hsub | ⟨id, hnone, hsome, hids⟩
  · refine ⟨fun i hi => ?_, hb.distinct.sublist hsub⟩
    obtain ⟨j, hj, hji⟩ := List.mem_map.mp (hsub.subset (List.mem_map_of_mem hi))
    exact h.thread_isSome (hji ▸ hb.known j hj)
  · refine ⟨fun i hi => ?_, ?_⟩
    · have hmem : i.id ∈ s.active.map Item.id ++ [id] := hids ▸ List.mem_map_of_mem hi
      rcases List.mem_append.mp hmem with hold | hnew
      · obtain ⟨j, hj, hji⟩ := List.mem_map.mp hold
        exact h.thread_isSome (hji ▸ hb.known j hj)
      · rw [List.mem_singleton.mp hnew]
        exact hsome
    · -- the new id has no item yet, since its thread had not begun
      rw [hids]
      refine List.nodup_append.mpr ⟨hb.distinct, List.nodup_singleton _, ?_⟩
      rintro a ha _ hid rfl
      obtain rfl := List.mem_singleton.mp hid
      obtain ⟨j, hj, rfl⟩ := List.mem_map.mp ha
      have := hb.known j hj
      rw [hnone] at this
      exact absurd this (by simp)

end Proxy.Queue
