import Caravan.Proxy.QueueSteps

/-!
# First come, first served

The entries of `pending_requests` stand in the order of their sequence numbers, so the
request at position 0 of its group is the one that has waited longest (`Ordered.first`);
nobody else is admitted, by a poll or after a preemption.

An entry that nobody takes away would stand at the head for ever. `Clean` says that no
step comes with a content the books cannot take, that no stop request is lost and that
every heartbeat starts. In a run of such steps no thread dies, and what a thread leaves
behind is told by where it stands (`Tidy`): an entry only while it waits, an admission
only until its phase is written, an item only until it is finished.
-/

set_option linter.unusedSectionVars false

namespace Proxy.Queue

variable {P G : Type} [DecidableEq P] [DecidableEq G] {s s' : State P G} {e : Event P G}

/-! ### The order of the queue -/

/-- The entries in the order of their numbers, all of them given out. -/
structure Ordered (s : State P G) : Prop where
  sorted : s.pending.Pairwise fun x y => x.seq < y.seq
  given : ∀ x ∈ s.pending, x.seq ≤ s.seq

theorem Ordered.init : Ordered (State.init : State P G) :=
  ⟨List.Pairwise.nil, fun _ h => absurd h List.not_mem_nil⟩

theorem Ordered.sublist {l : List (Entry P G)} (h : Ordered s) (hl : l.Sublist s.pending) :
    l.Pairwise (fun x y => x.seq < y.seq) ∧ ∀ x ∈ l, x.seq ≤ s.seq :=
  ⟨h.sorted.sublist hl, fun x hx => h.given x (hl.subset hx)⟩

theorem Ordered.step (ho : Ordered s) (h : Step s e s') : Ordered s' := by
  cases h with
  | enter =>
    -- the new entry comes last, with a number above all others
    refine ⟨List.pairwise_append.mpr ⟨ho.sorted, List.pairwise_singleton _ _, ?_⟩, ?_⟩
    · intro x hx y hy
      obtain rfl := List.mem_singleton.mp hy
      exact Nat.lt_succ_of_le (ho.given x hx)
    · intro x hx
      rcases List.mem_append.mp hx with hx | hx
      · exact Nat.le_succ_of_le (ho.given x hx)
      · rw [List.mem_singleton.mp hx]
        exact le_rfl
  | admitted | admitAfterPreempt | unqueue =>
    exact ⟨(ho.sublist List.filter_sublist).1, (ho.sublist List.filter_sublist).2⟩
  | release => exact ⟨by simpa using ho.sorted, by simpa using ho.given⟩
  | _ => exact ⟨ho.sorted, ho.given⟩

/-- Position 0 is the smallest number of the group. -/
theorem Ordered.first (ho : Ordered s) {id : ℕ} {t : Thread P G} (h : s.First id t) :
    ∃ x ∈ s.pending, x.id = id ∧ x.group = t.group ∧
      ∀ y ∈ s.pending, y.group = t.group → y ≠ x → x.seq < y.seq := by
  have hpool := ho.sorted.filter fun e => decide (e.group = t.group)
  have hsort : (s.pending.filter fun e => decide (e.group = t.group)).Pairwise
      fun x y => x.seq ≤ y.seq := hpool.imp fun h => le_of_lt h
  simp only [State.First, queuePosition] at h
  rw [hsort.insertionSort_eq] at h
  cases hl : s.pending.filter fun e => decide (e.group = t.group) with
  | nil => rw [hl] at h; cases h
  | cons x l =>
    rw [hl] at h hpool
    have hx : x ∈ s.pending.filter fun e => decide (e.group = t.group) := by
      rw [hl]
      exact List.mem_cons_self
    have hid : x.id = id := by
      by_contra hne
      rw [List.findIdx?_cons, if_neg (by simpa using hne)] at h
      simp at h
    refine ⟨x, (List.mem_filter.mp hx).1, hid, by simpa using (List.mem_filter.mp hx).2, ?_⟩
    intro y hy hg hne
    have hyl : y ∈ x :: l := hl ▸ List.mem_filter.mpr ⟨hy, decide_eq_true hg⟩
    exact (List.pairwise_cons.mp hpool).1 y ((List.mem_cons.mp hyl).resolve_left hne)

/-- The request that a step admits. -/
def Event.Admits (id : ℕ) : Event P G → Prop
  | .admitted r | .admitAfterPreempt r _ => r = id
  | _ => False

theorem admits_first {id : ℕ} (h : Step s e s') (ha : e.Admits id) :
    ∃ t, s.thread id = some t ∧ s.First id t := by
  cases h with
  | admitted ht _ _ _ _ hclear => exact ⟨_, ha ▸ ht, ha ▸ hclear.1⟩
  | admitAfterPreempt ht _ _ hfirst => exact ⟨_, ha ▸ ht, ha ▸ hfirst⟩
  | _ => exact ha.elim

/-! ### What a thread leaves behind -/

/-- A step that comes with nothing the books cannot take. -/
def Event.Clean : Event P G → Prop
  | .start _ _ _ _ w | .toCell _ _ w | .toAccount _ w | .answer _ _ w | .relay _ w
  | .rescue _ _ _ w => w = true
  | .preempt _ _ _ saved => saved = true
  | .discard _ started => started = true
  | .finish _ countable w => countable = true ∧ w = true
  | _ => True

/-- Where a thread has an entry in the queue. -/
def Pc.InQueue : Pc → Prop
  | .waiting _ | .quitting .. => True
  | _ => False

/-- Where a thread is one of the admitted. -/
def Pc.Admitted : Pc → Prop
  | .taken _ | .received => True
  | _ => False

/-- No exception but the proxy's own is on its way. -/
def Pc.Sane : Pc → Prop
  | .quitting _ .failed | .gone => False
  | _ => True

/-- What is left of a request, by where its thread stands. -/
structure TidyOf (s : State P G) (r : ℕ) : Prop where
  pending : ∀ x ∈ s.pending, x.id = r → ∃ t, s.thread r = some t ∧ t.pc.InQueue
  admitted : r ∈ s.admitted → ∃ t, s.thread r = some t ∧ t.pc.Admitted
  active : ∀ i ∈ s.active, i.id = r → ∃ t, s.thread r = some t ∧ i.port = t.port ∧ t.pc.Live
  sane : ∀ t, s.thread r = some t → t.pc.Sane

theorem State.writable_iff : s.writable = true ↔
    (∀ i ∈ s.active, i.writable = true) ∧ ∀ x ∈ s.recent, x.2 = true := by
  simp [State.writable]

theorem mem_addRecent {port : P} {w : Bool} {x : P × Bool} (h : x ∈ s.addRecent port w) :
    x ∈ s.recent ∨ x = (port, w) := by
  unfold State.addRecent at h
  rcases List.mem_append.mp h with h | h
  · exact .inl (List.mem_filter.mp h).1
  · rcases List.mem_append.mp (List.mem_of_mem_drop h) with h | h
    · exact .inl (List.mem_filter.mp h).1
    · exact .inr (List.mem_singleton.mp h)

/-- Books that can be written stay so. -/
theorem Step.written (hw : s.writable = true) (hc : e.Clean) (h : Step s e s') :
    s'.writable = true := by
  rw [State.writable_iff] at hw ⊢
  cases h with
  | start =>
    refine ⟨fun i hi => ?_, hw.2⟩
    rcases List.mem_append.mp hi with hi | hi
    · exact hw.1 i hi
    · rw [List.mem_singleton.mp hi]
      exact hc
  | finish =>
    refine ⟨fun i hi => hw.1 i (List.mem_filter.mp hi).1, fun x hx => ?_⟩
    rcases mem_addRecent hx with hx | rfl
    · exact hw.2 x hx
    · exact hc.2
  | sync =>
    exact ⟨fun i hi => hw.1 i (List.mem_filter.mp hi).1,
      fun x hx => hw.2 x (List.mem_filter.mp hx).1⟩
  | toCell | toAccount | answer | relay | rescue =>
    refine ⟨forall_mem_patchFirst (fun i hi => ?_) hw.1, hw.2⟩
    exact Bool.and_eq_true_iff.mpr ⟨hi, hc⟩
  | blocked | passed | pollRaises | admitted | preempt | preemptRaises | spill | receive | send =>
    exact ⟨forall_mem_patchFirst (fun i hi => hi) hw.1, hw.2⟩
  | release => exact ⟨by simpa using hw.1, by simpa using hw.2⟩
  | _ => exact hw

/-- A thread that moves: what it had is gone, or still stands where it may. -/
theorem TidyOf.moves {r : ℕ} {t t' : Thread P G} (hr : TidyOf s r) (h : Step s e s')
    (ht : s.thread r = some t) (ht' : s'.thread r = some t') (hport : t'.port = t.port)
    (hpend : t'.pc.InQueue ∨ (∀ x ∈ s'.pending, x.id ≠ r) ∨
      ¬ t.pc.InQueue ∧ s'.pending = s.pending)
    (hadm : t'.pc.Admitted ∨ r ∉ s'.admitted ∨ ¬ t.pc.Admitted ∧ s'.admitted = s.admitted)
    (hact : t'.pc.Live ∨ ¬ t.pc.Live ∨ ∀ i ∈ s'.active, i.id = r → i.port ≠ t.port)
    (hsane : t'.pc.Sane) : TidyOf s' r where
  pending x hx hid := by
    refine ⟨t', ht', ?_⟩
    rcases hpend with hp | hp | ⟨hn, hp⟩
    · exact hp
    · exact absurd hid (hp x hx)
    · obtain ⟨u, hu, hq⟩ := hr.pending x (hp ▸ hx) hid
      exact absurd (Option.some.inj (hu.symm.trans ht) ▸ hq) hn
  admitted hx := by
    refine ⟨t', ht', ?_⟩
    rcases hadm with ha | ha | ⟨hn, ha⟩
    · exact ha
    · exact absurd hx ha
    · obtain ⟨u, hu, hq⟩ := hr.admitted (ha ▸ hx)
      exact absurd (Option.some.inj (hu.symm.trans ht) ▸ hq) hn
  active i hi hid := by
    rcases h.origin hi with ⟨j, hj, hjid, hjport⟩ | ⟨hnone, -⟩
    · obtain ⟨u, hu, hup, huo⟩ := hr.active j hj (hjid.trans hid)
      obtain rfl := Option.some.inj (hu.symm.trans ht)
      have hip : i.port = u.port := hjport.symm.trans hup
      refine ⟨t', ht', by rw [hip, hport], ?_⟩
      rcases hact with ha | ha | ha
      · exact ha
      · exact absurd huo ha
      · exact absurd hip (ha i hi hid)
    · rw [hid, ht] at hnone
      cases hnone
  sane u hu := Option.some.inj (ht'.symm.trans hu) ▸ hsane

/-- The step of another leaves it as it was. -/
theorem TidyOf.frame {r : ℕ} (hr : TidyOf s r) (h : Step s e s') (ha : e.actor ≠ some r) :
    TidyOf s' r := by
  have hf := h.frame ha
  refine ⟨fun x hx hid => ?_, fun hx => ?_, fun i hi hid => ?_, fun t ht => ?_⟩
  · rw [hf.thread]
    exact hr.pending x ((hf.pending x hid).mp hx) hid
  · rw [hf.thread]
    exact hr.admitted (hf.admitted.mp hx)
  · rcases h.origin hi with ⟨j, hj, hjid, hjport⟩ | ⟨-, hactor, -⟩
    · rw [hf.thread, ← hjport]
      exact hr.active j hj (hjid.trans hid)
    · exact absurd (hid ▸ hactor) ha
  · exact hr.sane t (hf.thread ▸ ht)

/-- **What a request's own step leaves behind**, where nothing raises. -/
theorem TidyOf.act {r : ℕ} (hw : s.writable = true) (hr : TidyOf s r) (hc : e.Clean)
    (h : Step s e s') (ha : e.actor = some r) : TidyOf s' r := by
  have hw' := h.written hw hc
  cases id h with
  | start hnew =>
    -- nothing of the request is there yet
    obtain rfl := Option.some.inj ha
    rw [State.set_writable] at hw'
    refine ⟨fun x hx hid => ?_, fun hx => ?_, fun i hi hid => ?_, fun t ht => ?_⟩
    · obtain ⟨u, hu, -⟩ := hr.pending x hx hid
      rw [hnew] at hu
      cases hu
    · obtain ⟨u, hu, -⟩ := hr.admitted hx
      rw [hnew] at hu
      cases hu
    · rcases List.mem_append.mp hi with hi | hi
      · obtain ⟨u, hu, -⟩ := hr.active i hi hid
        rw [hnew] at hu
        cases hu
      · obtain rfl := List.mem_singleton.mp hi
        exact ⟨_, State.set_self .., by simp; rfl, by rw [Thread.goes_pc hw']; trivial⟩
    · rw [State.set_self] at ht
      rw [← Option.some.inj ht, Thread.goes_pc hw']
      trivial
  | @block _ _ at_ ht hpc =>
    obtain rfl := Option.some.inj ha
    refine hr.moves h ht (State.set_self ..) rfl (.inr (.inr ⟨?_, rfl⟩))
      (.inr (.inr ⟨?_, rfl⟩)) (.inl ?_) ?_
    · rw [hpc]; exact not_false
    · rw [hpc]; exact not_false
    · cases at_ <;> trivial
    · cases at_ <;> trivial
  | bypass ht hpc =>
    obtain rfl := Option.some.inj ha
    exact hr.moves h ht (State.set_self ..) rfl
      (.inr (.inr ⟨by rw [hpc]; exact not_false, rfl⟩)) (.inl trivial) (.inl trivial) trivial
  | enter ht hpc =>
    obtain rfl := Option.some.inj ha
    exact hr.moves h ht (State.set_self ..) rfl (.inl trivial)
      (.inr (.inr ⟨by rw [hpc]; exact not_false, rfl⟩)) (.inl trivial) trivial
  | blocked ht hpc | passed ht hpc =>
    obtain rfl := Option.some.inj ha
    exact hr.moves h ht ht rfl (.inl (by rw [hpc]; trivial))
      (.inr (.inr ⟨by rw [hpc]; exact not_false, rfl⟩)) (.inl (by rw [hpc]; trivial))
      (by rw [hpc]; trivial)
  | pollRaises _ _ _ hraise => exact Bool.noConfusion (hraise.symm.trans hw')
  | admitted ht hpc | admitAfterPreempt ht hpc =>
    obtain rfl := Option.some.inj ha
    exact hr.moves h ht (State.set_self ..) rfl
      (.inr (.inl fun x hx => by simpa using (List.mem_filter.mp hx).2)) (.inl trivial)
      (.inl trivial) trivial
  | preempt ht hpc | graceOver ht hpc =>
    obtain rfl := Option.some.inj ha
    exact hr.moves h ht (State.set_self ..) rfl (.inl (by rw [hpc]; trivial))
      (.inr (.inr ⟨by rw [hpc]; exact not_false, rfl⟩)) (.inl (by rw [hpc]; trivial))
      (by rw [hpc]; trivial)
  | preemptUnsaved _ _ _ hsaved => rw [hc] at hsaved; cases hsaved
  | preemptRaises _ _ _ _ hraise => exact Bool.noConfusion (hraise.symm.trans hw')
  | @quit _ exit _ _ ht hpc _ hexit =>
    obtain rfl := Option.some.inj ha
    refine hr.moves h ht (State.set_self ..) rfl (.inl trivial)
      (.inr (.inr ⟨by rw [hpc]; exact not_false, rfl⟩)) (.inl trivial) ?_
    cases exit <;> trivial
  | @unqueue _ _ at_ exit ht hpc =>
    -- the `finally` takes the entry away on every way out
    obtain rfl := Option.some.inj ha
    have hs := hr.sane _ ht
    rw [hpc] at hs
    refine hr.moves h ht (State.set_self ..) ?_
      (.inr (.inl fun x hx => by simpa using (List.mem_filter.mp hx).2))
      (.inr (.inl (Finset.notMem_erase _ _))) (.inl ?_) ?_ <;>
    · cases at_ <;> cases exit <;> first | exact hs.elim | trivial
  | @spill _ _ cloud _ ht hpc =>
    obtain rfl := Option.some.inj ha
    rw [State.set_writable] at hw'
    refine hr.moves h ht (State.set_self ..) (Thread.goes_port ..)
      (.inr (.inr ⟨by rw [hpc]; exact not_false, rfl⟩))
      (.inr (.inr ⟨by rw [hpc]; exact not_false, rfl⟩)) (.inl ?_) ?_ <;>
    · rw [Thread.goes_pc hw']
      cases cloud <;> trivial
  | unroutable ht hpc =>
    obtain rfl := Option.some.inj ha
    exact hr.moves h ht (State.set_self ..) rfl
      (.inr (.inr ⟨by rw [hpc]; exact not_false, rfl⟩))
      (.inr (.inr ⟨by rw [hpc]; exact not_false, rfl⟩)) (.inl trivial) trivial
  | receive ht hpc =>
    obtain rfl := Option.some.inj ha
    rw [State.set_writable] at hw'
    exact hr.moves h ht (State.set_self ..) (Thread.goes_port ..)
      (.inr (.inr ⟨by rw [hpc]; exact not_false, rfl⟩)) (.inl (by rw [Thread.goes_pc hw']; trivial))
      (.inl (by rw [Thread.goes_pc hw']; trivial)) (by rw [Thread.goes_pc hw']; trivial)
  | discard ht hpc =>
    obtain rfl := Option.some.inj ha
    exact hr.moves h ht (State.set_self ..) (Thread.goes_port ..)
      (.inr (.inr ⟨by rw [hpc]; exact not_false, rfl⟩))
      (.inr (.inl (Finset.notMem_erase _ _)))
      (.inl (by rw [Thread.goes_pc hc]; trivial)) (by rw [Thread.goes_pc hc]; trivial)
  | discardLeg ht hpc =>
    obtain rfl := Option.some.inj ha
    exact hr.moves h ht (State.set_self ..) rfl
      (.inr (.inr ⟨by rw [hpc]; exact not_false, rfl⟩))
      (.inr (.inl (Finset.notMem_erase _ _))) (.inl trivial) trivial
  | toCell ht hpc | toAccount ht hpc | answer ht hpc | relay ht hpc | rescue ht hpc =>
    obtain rfl := Option.some.inj ha
    rw [State.set_writable] at hw'
    exact hr.moves h ht (State.set_self ..) rfl
      (.inr (.inr ⟨by rw [hpc]; exact not_false, rfl⟩))
      (.inr (.inr ⟨by rw [hpc]; exact not_false, rfl⟩))
      (.inl (by rw [Thread.runs_pc hw']; trivial)) (by rw [Thread.runs_pc hw']; trivial)
  | @send _ t ht hpc =>
    obtain rfl := Option.some.inj ha
    rw [State.set_writable] at hw'
    have hq : ¬ t.pc.InQueue ∧ ¬ t.pc.Admitted := by
      rcases hpc with hpc | ⟨hpc, -⟩ <;> rw [hpc] <;> exact ⟨not_false, not_false⟩
    exact hr.moves h ht (State.set_self ..) rfl (.inr (.inr ⟨hq.1, rfl⟩))
      (.inr (.inr ⟨hq.2, rfl⟩))
      (.inl (by rw [Thread.runs_pc hw']; trivial)) (by rw [Thread.runs_pc hw']; trivial)
  | goOn ht hpc =>
    obtain rfl := Option.some.inj ha
    exact hr.moves h ht (State.set_self ..) rfl
      (.inr (.inr ⟨by rw [hpc]; exact not_false, rfl⟩))
      (.inr (.inr ⟨by rw [hpc]; exact not_false, rfl⟩)) (.inl trivial) trivial
  | @fail _ t ht hpc =>
    obtain rfl := Option.some.inj ha
    have hq : ¬ t.pc.InQueue ∧ ¬ t.pc.Admitted := by
      simp only [List.mem_cons, List.not_mem_nil, or_false] at hpc
      rcases hpc with h | h | h | h | h <;> rw [h] <;> exact ⟨not_false, not_false⟩
    exact hr.moves h ht (State.set_self ..) rfl (.inr (.inr ⟨hq.1, rfl⟩))
      (.inr (.inr ⟨hq.2, rfl⟩)) (.inl trivial) trivial
  | @finish _ _ _ t ht hpc =>
    -- the item was in the row that `finish_active` looks in
    obtain rfl := Option.some.inj ha
    rw [State.set_writable] at hw'
    have hq : ¬ t.pc.InQueue ∧ ¬ t.pc.Admitted := by
      simp only [List.mem_cons, List.not_mem_nil, or_false] at hpc
      rcases hpc with h | h | h <;> rw [h] <;> exact ⟨not_false, not_false⟩
    refine hr.moves h ht (State.set_self ..) (Thread.goes_port ..) (.inr (.inr ⟨hq.1, rfl⟩))
      (.inr (.inr ⟨hq.2, rfl⟩)) (.inr (.inr fun i hi hid hport => ?_))
      (by rw [Thread.goes_pc hw']; trivial)
    have := (List.mem_filter.mp hi).2
    simp [hid, hport] at this
  | uncountable => exact Bool.noConfusion hc.1
  | release ht hpc =>
    obtain rfl := Option.some.inj ha
    exact hr.moves h ht (State.set_self ..) rfl
      (.inr (.inr ⟨by rw [hpc]; exact not_false, by simp⟩))
      (.inr (.inl (by simp))) (.inr (.inl (by rw [hpc]; exact not_false))) trivial
  | sync | tick | sweepSee | sweepPop => cases ha

/-! ### Runs -/

/-- The books can be written, and every request has left what it should. -/
structure Tidy (s : State P G) : Prop where
  written : s.writable = true
  of : ∀ r, TidyOf s r

theorem Tidy.init : Tidy (State.init : State P G) :=
  ⟨rfl, fun _ => ⟨fun _ h => absurd h List.not_mem_nil, fun h => absurd h (Finset.notMem_empty _),
    fun _ h => absurd h List.not_mem_nil, fun _ h => by cases h⟩⟩

theorem Tidy.step (ht : Tidy s) (hc : e.Clean) (h : Step s e s') : Tidy s' :=
  ⟨h.written ht.written hc, fun r => (em (e.actor = some r)).elim
    (fun ha => (ht.of r).act ht.written hc h ha) fun ha => (ht.of r).frame h ha⟩

theorem tidy (h : (system P G).Reach (fun _ e => e.Clean) s) : Tidy s :=
  h.invariant (fun _ h => h ▸ Tidy.init) fun _ _ _ ht hc hstep => ht.step hc hstep

theorem ordered (h : (system P G).Reachable s) : Ordered s :=
  h.invariant (fun _ h => h ▸ Ordered.init) fun _ _ _ ho _ hstep => ho.step hstep

/-- A request whose thread has ended. -/
def Ended (s : State P G) (r : ℕ) : Prop :=
  ∃ t, s.thread r = some t ∧ (t.pc = .closed ∨ t.pc = .gone)

/-- What stands in the queue, among the admitted or in the books. -/
def Left (s : State P G) (r : ℕ) : Prop :=
  (∃ x ∈ s.pending, x.id = r) ∨ r ∈ s.admitted ∨ ∃ i ∈ s.active, i.id = r

/-- **First come, first served, and nobody is left behind.** In every run an admission is
of the request with the smallest number of its group; in a clean run nothing is left of a
request that has ended. -/
theorem fifo :
    (∀ (s s' : State P G) (e : Event P G) (id : ℕ), (system P G).Reachable s → Step s e s' →
      e.Admits id → ∃ t, s.thread id = some t ∧ ∃ x ∈ s.pending, x.id = id ∧ x.group = t.group ∧
        ∀ y ∈ s.pending, y.group = t.group → y ≠ x → x.seq < y.seq) ∧
    (∀ s : State P G, (system P G).Reach (fun _ e => e.Clean) s → ∀ r, Ended s r → ¬ Left s r) := by
  refine ⟨fun s s' e id hr h ha => ?_, fun s hr r hend hleft => ?_⟩
  · obtain ⟨t, ht, hfirst⟩ := admits_first h ha
    exact ⟨t, ht, (ordered hr).first hfirst⟩
  · obtain ⟨t, ht, hpc⟩ := hend
    have htidy := (tidy hr).of r
    -- no place where something may be left is an end
    rcases hleft with ⟨x, hx, hid⟩ | hx | ⟨i, hi, hid⟩
    · obtain ⟨u, hu, hq⟩ := htidy.pending x hx hid
      obtain rfl := Option.some.inj (hu.symm.trans ht)
      rcases hpc with h | h <;> rw [h] at hq <;> exact hq
    · obtain ⟨u, hu, hq⟩ := htidy.admitted hx
      obtain rfl := Option.some.inj (hu.symm.trans ht)
      rcases hpc with h | h <;> rw [h] at hq <;> exact hq
    · obtain ⟨u, hu, -, hq⟩ := htidy.active i hi hid
      obtain rfl := Option.some.inj (hu.symm.trans ht)
      rcases hpc with h | h <;> rw [h] at hq <;> exact hq

/-- Two requests wait and the first is admitted; a refused one leaves nothing. -/
theorem fifo_two :
    (∃ (s s' : State ℕ ℕ) (x : Entry ℕ ℕ), (system ℕ ℕ).Reachable s ∧ Step s (.admitted 0) s' ∧
      s.pending.length = 2 ∧ x ∈ s.pending ∧ x.id = 0 ∧
      ∀ y ∈ s.pending, y.group = 5 → y ≠ x → x.seq < y.seq) ∧
    ∃ s : State ℕ ℕ, Ended s 0 ∧ ¬ Left s 0 := by
  have h₀ : (system ℕ ℕ).Reach (fun _ e => e.Clean) State.init := .init rfl
  have h₁ := h₀.next (@Step.start _ _ _ _ _ 0 9 5 false true rfl) rfl
  have h₂ := h₁.next (@Step.enter _ _ _ _ _ 0 1 (Thread.new 9 5 false) .main rfl rfl
    fun _ => rfl) trivial
  have h₃ := h₂.next (@Step.start _ _ _ _ _ 1 9 5 false true rfl) rfl
  have h₄ := h₃.next (@Step.enter _ _ _ _ _ 1 1 (Thread.new 9 5 false) .main rfl rfl
    fun _ => rfl) trivial
  have g₂ := h₁.next (@Step.block _ _ _ _ _ 0 (Thread.new 9 5 false) .main rfl rfl) trivial
  have g₃ := g₂.next (@Step.finish _ _ _ _ _ 0 true true
    ⟨.refused, 9, 5, false, none, 0, .untried, none, false⟩ rfl (by decide) (.inl rfl)) ⟨rfl, rfl⟩
  have g₄ := g₃.next (@Step.release _ _ _ _ _ 0 0
    ⟨.leaving, 9, 5, false, none, 0, .untried, none, false⟩ rfl rfl) trivial
  obtain ⟨t, ht, x, hx, hid, -, hmin⟩ := (fifo (P := ℕ) (G := ℕ)).1 _ _ (.admitted 0) 0 h₄.reachable
    (.admitted rfl rfl (by decide) rfl rfl (by decide)) rfl
  refine ⟨⟨_, _, x, h₄.reachable, .admitted rfl rfl (by decide) rfl rfl (by decide), rfl, hx, hid,
    ?_⟩, _, ⟨_, rfl, .inl rfl⟩, (fifo (P := ℕ) (G := ℕ)).2 _ g₄ 0 ⟨_, rfl, .inl rfl⟩⟩
  obtain rfl := Option.some.inj ht
  exact hmin

/-- A request whose content the books cannot take: its thread is gone, its item is not. -/
theorem unwritable_left : ∃ s : State ℕ ℕ, (system ℕ ℕ).Reachable s ∧ Ended s 0 ∧ Left s 0 :=
  ⟨_, (System.Reach.init rfl).next (@Step.start ℕ ℕ _ _ State.init 0 9 5 false false rfl) trivial,
    ⟨_, rfl, .inr rfl⟩, .inr (.inr ⟨_, List.mem_singleton_self _, rfl⟩)⟩

end Proxy.Queue
