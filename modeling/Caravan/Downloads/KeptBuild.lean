import Caravan.Downloads.Staging
import Caravan.Python.Int

/-!
# The build that was kept

`start_update` takes the build under `<file>.prev` away before it knows that there will be another:
an update that is refused after that, or whose download does not arrive, leaves the file's own
build twice and the older one nowhere (`failed_update_loses`). And a download of an earlier update
that arrives before the link is made has the new build kept in place of the one that was there.

Where neither happens (`Safe`), a failed update leaves the build that was kept on the disk, and one
that returned leaves the build that the file held, until the next call (`update_leaves`). The
invariant says, for each place of `start_update`, which name holds which of the two builds (`At`).
-/

namespace Staging

open Python Inodes Ports

/-! ### What is asked of a run -/

/-- The kept build has been taken away, or there was none. -/
def Place.taken : Place → Bool
  | .checking | .looking | .unlinking => false
  | _ => true

/-- The file's build has been kept. -/
def Place.linked : Place → Bool
  | .placing | .starting => true
  | _ => false

section

variable (I : Interp)

/-- **An update fails**: its call raises, or ends with the process, or its download ends without
the file, or with the process. -/
inductive Fails (s : State) : Event → Update → Prop
  | refused {u : Update} {free : ℕ} {e : AppError} (h : s.call = .update u .checking)
      (hcheck : check I u.key u.row (s.disk.node .file).isSome free = .error e) :
      Fails s (.checks free) u
  /-- a link that cannot be made is a copy instead -/
  | raises {u : Update} {p : Place} (h : s.call = .update u p) (hp : p ≠ .linking) :
      Fails s .fails u
  | outside {u : Update} (h : s.call = .update u .placing) (hdest : u.destDir = none) :
      Fails s .goes u
  | threadless {u : Update} (h : s.call = .update u .starting) : Fails s .threadless u
  | dies {u : Update} {p : Place} (h : s.call = .update u p) : Fails s .crash u
  | stops {u : Update} {job : ℕ} (h : s.started = some (u, job)) : Fails s (.stops job) u
  | lost {u : Update} {job : Job} (h : s.started = some (u, job.id)) (hjob : job ∈ s.jobs) :
      Fails s .crash u

/-- The steps in which nothing is lost: a download does not land on a file whose update has begun
and has not kept it yet, and an update that has taken another build away than the file's own goes
through. -/
structure Safe (s : State) (e : Event) : Prop where
  apart : ∀ u p job build, s.call = .update u p → e = .lands job build → p.linked = true
  through : ∀ u, Fails I s e u → (∀ v p, s.call = .update v p → p.taken = true) →
    ∀ b, u.kept = some b → u.held = some b

end

/-! ### Which name holds which build -/

/-- What holds at a place of `start_update`. -/
def At (u : Update) (d : Disk Name Bytes) : Place → Prop
  | .checking | .looking | .unlinking => d.content .file = u.held ∧ d.content .prev = u.kept
  | .linking | .opening => d.content .file = u.held
  | .copying source =>
    d.node .file = some source ∧ u.held = some (d.data source) ∧ d.node .prev ≠ some source
  | .placing | .starting => ∀ b, u.held = some b → d.content .prev = some b

/-- Until the file's build is kept, the file holds it. -/
theorem At.held {u : Update} {d : Disk Name Bytes} {p : Place} (h : At u d p) {b : Bytes}
    (hb : u.held = some b) : d.Holds b := by
  cases p with
  | checking => exact ⟨.file, h.1.trans hb⟩
  | looking => exact ⟨.file, h.1.trans hb⟩
  | unlinking => exact ⟨.file, h.1.trans hb⟩
  | linking => exact ⟨.file, h.trans hb⟩
  | opening => exact ⟨.file, h.trans hb⟩
  | copying source =>
    obtain ⟨hnode, hheld, -⟩ := h
    refine ⟨.file, ?_⟩
    unfold Disk.content
    rw [hnode]
    exact hheld.symm.trans hb
  | placing => exact ⟨.prev, h b hb⟩
  | starting => exact ⟨.prev, h b hb⟩

/-- Before it is taken away, the kept build is there. -/
theorem At.kept {u : Update} {d : Disk Name Bytes} {p : Place} (h : At u d p)
    (hp : p.taken = false) : d.content .prev = u.kept := by
  cases p with
  | checking => exact h.2
  | looking => exact h.2
  | unlinking => exact h.2
  | linking => cases hp
  | opening => cases hp
  | copying => cases hp
  | placing => cases hp
  | starting => cases hp

structure Inv (s : State) : Prop where
  call : ∀ u p, s.call = .update u p → At u s.disk p ∧ s.started = none
  started : ∀ u job, s.started = some (u, job) →
    s.call = .idle ∧ ∀ b, u.held = some b → s.disk.content .prev = some b

section Steps

variable {I : Interp} {s s' : State} {u : Update} {p : Place} {e : Event}

/-- **What a step of an update does**: it goes on to a place at which `At` holds, it ends with the
disk as it was, or it ends with a job. -/
theorem update_cases (hcall : s.call = .update u p) (hat : At u s.disk p)
    (h : s.update I u p e = some s') :
    (∃ q, s'.call = .update u q ∧ s'.started = s.started ∧ At u s'.disk q) ∨
      (Fails I s e u ∧ s'.call = .idle ∧ s'.started = s.started ∧
        s'.disk = s.disk) ∨
      (p = .starting ∧ e = .goes ∧ s'.call = .idle ∧ (∃ job, s'.started = some (u, job)) ∧
        s'.disk = s.disk) := by
  unfold State.update at h
  split at h
  · -- the checks
    split at h
    · next e' hcheck =>
      obtain rfl := Option.some.inj h
      exact .inr (.inl ⟨.refused hcall hcheck, rfl, rfl, rfl⟩)
    · obtain rfl := Option.some.inj h
      exact .inl ⟨.looking, rfl, rfl, hat⟩
  · -- what is there
    obtain rfl := Option.some.inj h
    split
    · next hnone =>
      refine .inl ⟨.placing, rfl, rfl, fun b hb => ?_⟩
      have hfile := hat.1.trans hb
      unfold Disk.content at hfile
      rw [hnone] at hfile
      cases hfile
    · split
      · exact .inl ⟨.unlinking, rfl, rfl, hat⟩
      · exact .inl ⟨.linking, rfl, rfl, hat.1⟩
  · -- the kept build is taken away
    obtain rfl := Option.some.inj h
    refine .inl ⟨.linking, rfl, rfl, ?_⟩
    have hne : Name.file ≠ .prev := by decide
    exact (s.disk.content_unlink_of_ne hne).trans hat.1
  · -- the link
    obtain rfl := Option.some.inj h
    exact .inl ⟨.placing, rfl, rfl, fun b hb => s.disk.content_link_self.trans (hat.trans hb)⟩
  · obtain rfl := Option.some.inj h
    exact .inl ⟨.opening, rfl, rfl, hat⟩
  · -- a new file is opened for the copy
    obtain ⟨source, hsource, rfl⟩ := Option.map_eq_some_iff.mp h
    have hlt := s.disk.given .file source hsource
    refine .inl ⟨.copying source, rfl, rfl, ?_, ?_, ?_⟩
    · have hne : Name.file ≠ .prev := by decide
      exact (s.disk.node_place_of_ne hne).trans hsource
    · have hheld : s.disk.content .file = u.held := hat
      rw [← hheld, s.disk.data_place hlt]
      unfold Disk.content
      rw [hsource]
      rfl
    · rw [s.disk.node_place_self]
      exact fun heq => Nat.ne_of_gt hlt (Option.some.inj heq)
  · -- some more of it is written
    next source n =>
    obtain rfl := Option.some.inj h
    obtain ⟨hnode, hheld, hne⟩ := hat
    refine .inl ⟨.copying source, hcall, rfl, hnode, ?_, hne⟩
    rw [s.disk.data_write_of_ne _ hne]
    exact hheld
  · -- all of it is written
    next source =>
    split at h
    · next hall =>
      obtain rfl := Option.some.inj h
      obtain ⟨-, hheld, -⟩ := hat
      exact .inl ⟨.placing, rfl, rfl, fun b hb => hall.trans (hheld.symm.trans hb)⟩
    · cases h
  · -- where it goes
    obtain rfl := Option.some.inj h
    split
    · next hdest => exact .inr (.inl ⟨.outside hcall hdest, rfl, rfl, rfl⟩)
    · exact .inl ⟨.starting, rfl, rfl, hat⟩
  · -- the job
    obtain ⟨destDir, -, rfl⟩ := Option.map_eq_some_iff.mp h
    refine .inr (.inr ⟨rfl, rfl, ?_⟩)
    split
    · exact ⟨rfl, ⟨_, rfl⟩, rfl⟩
    · exact ⟨rfl, ⟨_, rfl⟩, rfl⟩
  · obtain ⟨destDir, -, h⟩ := Option.bind_eq_some_iff.mp h
    split at h
    · cases h
    · obtain rfl := Option.some.inj h
      exact .inr (.inl ⟨.threadless hcall, rfl, rfl, rfl⟩)
  · next hlinking =>
    obtain rfl := Option.some.inj h
    exact .inr (.inl ⟨.raises hcall hlinking, rfl, rfl, rfl⟩)
  · cases h

/-- What a step does: the process dies, a download lands or ends, a call begins, an update's
operation is made, or one of the two other calls'. -/
theorem next_cases (h : s.next I e = some s') :
    (e = .crash ∧ s' = { s.ends with jobs := [] }) ∨
      (∃ job build, e = .lands job build ∧ s' = { s with disk := s.disk.place .file build }) ∨
      (∃ job, (e = .finishes job ∨ e = .stops job) ∧
        s' = { s with jobs := s.jobs.filter (·.id ≠ job) }) ∨
      (s.call = .idle ∧ ∃ c, s' = s.begins c ∧ ∀ u p, c = .update u p → At u s.disk p) ∨
      (∃ u p, s.call = .update u p ∧ s.update I u p e = some s') ∨
      (s.call ≠ .idle ∧ (∀ u p, s.call ≠ .update u p ∧ s'.call ≠ .update u p) ∧
        s'.started = s.started) := by
  unfold State.next at h
  split at h
  · exact .inl ⟨rfl, (Option.some.inj h).symm⟩
  · next job build =>
    split at h
    · exact .inr (.inl ⟨job, build, rfl, (Option.some.inj h).symm⟩)
    · cases h
  · next job =>
    split at h
    · exact .inr (.inr (.inl ⟨job, .inl rfl, (Option.some.inj h).symm⟩))
    · cases h
  · next job =>
    split at h
    · exact .inr (.inr (.inl ⟨job, .inr rfl, (Option.some.inj h).symm⟩))
    · cases h
  · refine .inr (.inr (.inr ?_))
    cases hcall : s.call with
    | idle =>
      rw [hcall] at h
      refine .inl ⟨rfl, ?_⟩
      dsimp only at h
      split at h
      · obtain rfl := Option.some.inj h
        refine ⟨_, rfl, fun u p hc => ?_⟩
        cases hc
        exact ⟨rfl, rfl⟩
      · exact ⟨_, (Option.some.inj h).symm, fun _ _ hc => nomatch hc⟩
      · exact ⟨_, (Option.some.inj h).symm, fun _ _ hc => nomatch hc⟩
      · cases h
    | update u p =>
      rw [hcall] at h
      exact .inr (.inl ⟨u, p, rfl, h⟩)
    | restoring | replacing | dropping | removing =>
      rw [hcall] at h
      refine .inr (.inr ⟨fun hc => (nomatch hc), fun u p => ⟨fun hc => (nomatch hc), ?_⟩, ?_⟩)
      -- each operation of these two ends the call, or goes on in it
      all_goals
        dsimp only at h
        repeat' split at h
        all_goals cases h
        all_goals first
          | exact fun hc => (nomatch hc)
          | rfl

/-- An update that fails leaves the disk as it is. -/
theorem disk_of_fails (hf : Fails I s e u) (h : s.next I e = some s') : s'.disk = s.disk := by
  unfold State.next at h
  cases hf with
  | refused hcall hcheck =>
    simp only [hcall, State.update, hcheck] at h
    exact Option.some.inj h ▸ rfl
  | @raises _ p hcall hp =>
    simp only [hcall] at h
    cases p with
    | linking => exact absurd rfl hp
    | checking => exact Option.some.inj h ▸ rfl
    | looking => exact Option.some.inj h ▸ rfl
    | unlinking => exact Option.some.inj h ▸ rfl
    | opening => exact Option.some.inj h ▸ rfl
    | copying => exact Option.some.inj h ▸ rfl
    | placing => exact Option.some.inj h ▸ rfl
    | starting => exact Option.some.inj h ▸ rfl
  | outside hcall hdest =>
    simp only [hcall, State.update, hdest] at h
    exact Option.some.inj h ▸ rfl
  | threadless hcall =>
    simp only [hcall, State.update] at h
    obtain ⟨destDir, -, h⟩ := Option.bind_eq_some_iff.mp h
    split at h
    · cases h
    · exact Option.some.inj h ▸ rfl
  | dies => exact Option.some.inj h ▸ rfl
  | stops =>
    dsimp only at h
    split at h
    · exact Option.some.inj h ▸ rfl
    · cases h
  | lost => exact Option.some.inj h ▸ rfl

/-- The invariant is kept. -/
theorem inv_step (hinv : Inv s) (hok : Safe I s e) (h : s.next I e = some s') : Inv s' := by
  rcases next_cases h with ⟨-, rfl⟩ | ⟨job, build, rfl, rfl⟩ | ⟨job, -, rfl⟩ | ⟨-, c, rfl, hc⟩ |
    ⟨u, p, hcall, h⟩ | ⟨hidle, hcall, hstarted⟩
  · exact ⟨fun _ _ hc => (nomatch hc), fun u job hs => ⟨rfl, (hinv.started u job hs).2⟩⟩
  · have hne : Name.prev ≠ .file := by decide
    refine ⟨fun u p hc => ?_, fun u job hs => ?_⟩
    · obtain ⟨hat, hnone⟩ := hinv.call u p hc
      refine ⟨?_, hnone⟩
      -- the file's build is kept by then
      have hlinked := hok.apart u p job build hc rfl
      cases p with
      | placing => exact fun b hb => (s.disk.content_place_of_ne hne).trans (hat b hb)
      | starting => exact fun b hb => (s.disk.content_place_of_ne hne).trans (hat b hb)
      | checking => cases hlinked
      | looking => cases hlinked
      | unlinking => cases hlinked
      | linking => cases hlinked
      | opening => cases hlinked
      | copying => cases hlinked
    · obtain ⟨hidle, hheld⟩ := hinv.started u _ hs
      exact ⟨hidle, fun b hb => (s.disk.content_place_of_ne hne).trans (hheld b hb)⟩
  · exact ⟨hinv.call, hinv.started⟩
  · exact ⟨fun u p heq => ⟨hc u p heq, rfl⟩, fun _ _ hs => nomatch hs⟩
  · obtain ⟨hat, hnone⟩ := hinv.call u p hcall
    rcases update_cases hcall hat h with ⟨q, hcall', hstarted, hat'⟩ |
      ⟨-, hcall', hstarted, -⟩ | ⟨rfl, -, hcall', ⟨job, hstarted⟩, hdisk⟩
    · refine ⟨fun v r hc => ?_, fun v job hs => ?_⟩
      · rw [hcall'] at hc
        cases hc
        exact ⟨hat', hstarted.trans hnone⟩
      · rw [hstarted, hnone] at hs
        cases hs
    · refine ⟨fun v r hc => ?_, fun v job hs => ?_⟩
      · rw [hcall'] at hc
        cases hc
      · rw [hstarted, hnone] at hs
        cases hs
    · refine ⟨fun v r hc => ?_, fun v job hs => ⟨hcall', fun b hb => ?_⟩⟩
      · rw [hcall'] at hc
        cases hc
      · rw [hstarted] at hs
        cases hs
        rw [hdisk]
        exact hat b hb
  · refine ⟨fun u p hc => absurd hc (hcall u p).2, fun u job hs => ?_⟩
    rw [hstarted] at hs
    exact absurd (hinv.started u job hs).1 hidle

theorem inv_reach (h : System.Reach (runs I) (Safe I) s) : Inv s := by
  refine h.invariant (fun s hs => ⟨fun u p hc => ?_, fun u job hstarted => ?_⟩)
    fun _ _ _ hinv hok hstep => inv_step hinv hok hstep
  · rw [hs.1] at hc
    cases hc
  · rw [hs.2.2] at hstarted
    cases hstarted

/-- An update that fails leaves the build that was kept. -/
theorem fails_leaves (hinv : Inv s) (hok : Safe I s e) (hf : Fails I s e u) {b : Bytes}
    (hb : u.kept = some b) : s.disk.Holds b := by
  have hcalled : ∀ p, s.call = .update u p → s.disk.Holds b := fun p hcall => by
    obtain ⟨hat, -⟩ := hinv.call u p hcall
    cases hp : p.taken with
    | false => exact ⟨.prev, (hat.kept hp).trans hb⟩
    | true =>
      refine hat.held (hok.through u hf (fun v q hq => ?_) b hb)
      rw [hcall] at hq
      cases hq
      exact hp
  have hstarted : ∀ job, s.started = some (u, job) → s.disk.Holds b := fun job hs => by
    obtain ⟨hidle, hheld⟩ := hinv.started u job hs
    refine ⟨.prev, hheld b (hok.through u hf (fun v q hq => ?_) b hb)⟩
    rw [hidle] at hq
    cases hq
  cases hf with
  | refused hcall => exact hcalled _ hcall
  | raises hcall => exact hcalled _ hcall
  | outside hcall => exact hcalled _ hcall
  | threadless hcall => exact hcalled _ hcall
  | dies hcall => exact hcalled _ hcall
  | stops hs => exact hstarted _ hs
  | lost hs => exact hstarted _ hs

/-- **A failed update leaves the build that was kept**, and one that returned leaves the build that
the file held until the next call, in a run that is `Safe`. -/
theorem update_leaves (h : System.Reach (runs I) (Safe I) s) :
    (∀ e s', Safe I s e → s.next I e = some s' → ∀ u, Fails I s e u → ∀ b, u.kept = some b →
      s'.disk.Holds b) ∧
    ∀ u job, s.started = some (u, job) → ∀ b, u.held = some b → s.disk.Holds b := by
  have hinv := inv_reach h
  refine ⟨fun e s' hok hstep u hf b hb => ?_, fun u job hs b hb => ?_⟩
  · rw [disk_of_fails hf hstep]
    exact fails_leaves hinv hok hf hb
  · exact ⟨.prev, (hinv.started u job hs).2 b hb⟩

end Steps

/-! ### Runs by hand -/

/-- An update whose kept build, if there is one, is the file's own. -/
def Update.Same (u : Update) : Prop := ∀ b, u.kept = some b → u.held = some b

/-- A step in which all updates are such. -/
theorem safe_of_same {I : Interp} {s : State} {e : Event}
    (hcall : ∀ u p, s.call = .update u p → u.Same)
    (hstarted : ∀ u job, s.started = some (u, job) → u.Same)
    (hlands : ∀ job build, e = .lands job build → s.call = .idle) : Safe I s e := by
  refine ⟨fun u p job build hc he => ?_, fun u hf _ => ?_⟩
  · rw [hlands job build he] at hc
    cases hc
  · cases hf with
    | refused h => exact hcall _ _ h
    | raises h => exact hcall _ _ h
    | outside h => exact hcall _ _ h
    | threadless h => exact hcall _ _ h
    | dies h => exact hcall _ _ h
    | stops h => exact hstarted _ _ h
    | lost h => exact hstarted _ _ h

/-- A disk that holds a build, with none kept. -/
def oneBuild : Disk Name Bytes where
  node := fun | .file => some 0 | .prev => none
  data _ := [2]
  free := 1
  given n i h := by
    cases n with
    | file => exact Option.some.inj h ▸ Nat.one_pos
    | prev => cases h

/-- A disk that holds a build, with an older one kept. -/
def twoBuilds : Disk Name Bytes where
  node := fun | .file => some 0 | .prev => some 1
  data i := if i = 0 then [2] else [1]
  free := 2
  given n i h := by
    cases n with
    | file => exact Option.some.inj h ▸ Nat.zero_lt_two
    | prev => exact Option.some.inj h ▸ Nat.one_lt_two

def idle (d : Disk Name Bytes) : State := ⟨d, [], 0, .idle, none⟩

def report : Row := ⟨"author/model", some "size", "model.gguf", 100⟩

/-- An update as far as its link. -/
def uptoLink (destDir : Option Text) : List Event :=
  [.start_update "model.gguf" (some report) destDir, .checks 4000000000, .goes, .goes, .goes]

/-- The update whose row and directory are these, on that disk. -/
def asked (destDir : Option Text) (kept : Option Bytes) : Update :=
  ⟨"model.gguf", some report, destDir, some [2], kept⟩

/-- The builds that are on a disk. -/
def builds (d : Disk Name Bytes) : List Bytes :=
  (d.content .file).toList ++ (d.content .prev).toList

theorem mem_builds {d : Disk Name Bytes} {b : Bytes} (h : d.Holds b) : b ∈ builds d := by
  obtain ⟨n, hn⟩ := h
  unfold builds
  rw [List.mem_append, Option.mem_toList, Option.mem_toList]
  cases n with
  | file => exact .inl hn
  | prev => exact .inr hn

theorem led (I : Interp) (script : List Event) {s : State}
    (h : System.follow (State.next I) (idle twoBuilds) script = some s) :
    System.Reachable (runs I) s :=
  System.Reach.follow (fun _ _ _ h => h) script (.init ⟨rfl, rfl, rfl⟩) h fun _ _ _ => trivial

/-- An update that has linked the file's build, and where it is then. -/
def linked (call : Call) : State :=
  ⟨(twoBuilds.unlink .prev).link .file .prev, [], 0, call, none⟩

/-- That update, when its download has begun. -/
def downloading : State :=
  { linked .idle with
    jobs := [⟨0, "author/model", ""⟩]
    issued := 1
    started := some (asked (some "") (some [1]), 0) }

/-- **A failed update loses the kept build**: one whose file lies outside the models directory, and
one whose download ends with an error. -/
theorem failed_update_loses :
    (∃ s s', System.Reachable (runs Interp.ascii) s ∧ s.next Interp.ascii .goes = some s' ∧
      Fails Interp.ascii s .goes (asked none (some [1])) ∧ ¬ s'.disk.Holds [1]) ∧
    ∃ s s', System.Reachable (runs Interp.ascii) s ∧ s.next Interp.ascii (.stops 0) = some s' ∧
      Fails Interp.ascii s (.stops 0) (asked (some "") (some [1])) ∧ ¬ s'.disk.Holds [1] := by
  refine ⟨⟨linked (.update (asked none (some [1])) .placing), linked .idle,
      led _ (uptoLink none) rfl, rfl, .outside rfl rfl, fun h => ?_⟩,
    ⟨downloading, { downloading with jobs := [] },
      led _ (uptoLink (some "") ++ [.goes, .goes]) rfl, rfl, .stops rfl, fun h => ?_⟩⟩
  · exact absurd (mem_builds h) (by decide)
  · exact absurd (mem_builds h) (by decide)

/-- The build that the file held stays, with the new one in its place. -/
theorem update_leaves_both :
    ∃ s : State, s.started = some (asked (some "") none, 0) ∧ [3] ∈ builds s.disk ∧
      s.disk.Holds [2] := by
  -- none was kept, so nothing may be lost
  have hsafe : ∀ {s : State} {e : Event}, (∀ u p, s.call = .update u p → u.kept = none) →
      (∀ u job, s.started = some (u, job) → u.kept = none) →
      (∀ job build, e = .lands job build → s.call = .idle) → Safe Interp.ascii s e :=
    fun hcall hstarted hlands => safe_of_same
      (fun u p h b hb => by rw [hcall u p h] at hb; cases hb)
      (fun u job h b hb => by rw [hstarted u job h] at hb; cases hb) hlands
  let u := asked (some "") none
  have hcall : ∀ {d : Disk Name Bytes} {p : Place} {e : Event},
      (∀ job build, e ≠ .lands job build) →
      Safe Interp.ascii ⟨d, [], 0, .update u p, none⟩ e := fun he =>
    hsafe (fun _ _ h => by cases h; rfl) (fun _ _ h => nomatch h)
      fun job build h => absurd h (he job build)
  have h₀ : System.Reach (runs Interp.ascii) (Safe Interp.ascii) (idle oneBuild) :=
    .init ⟨rfl, rfl, rfl⟩
  have h₁ : System.Reach _ (Safe Interp.ascii) ⟨oneBuild, [], 0, .update u .checking, none⟩ :=
    h₀.next (e := .start_update "model.gguf" (some report) (some "")) rfl
      (hsafe (fun _ _ h => nomatch h) (fun _ _ h => nomatch h) fun _ _ h => nomatch h)
  have h₂ : System.Reach _ (Safe Interp.ascii) ⟨oneBuild, [], 0, .update u .looking, none⟩ :=
    h₁.next (e := .checks 4000000000) rfl (hcall fun _ _ h => nomatch h)
  have h₃ : System.Reach _ (Safe Interp.ascii) ⟨oneBuild, [], 0, .update u .linking, none⟩ :=
    h₂.next (e := .goes) rfl (hcall fun _ _ h => nomatch h)
  have h₄ : System.Reach _ (Safe Interp.ascii)
      ⟨oneBuild.link .file .prev, [], 0, .update u .placing, none⟩ :=
    h₃.next (e := .goes) rfl (hcall fun _ _ h => nomatch h)
  have h₅ : System.Reach _ (Safe Interp.ascii)
      ⟨oneBuild.link .file .prev, [], 0, .update u .starting, none⟩ :=
    h₄.next (e := .goes) rfl (hcall fun _ _ h => nomatch h)
  have h₆ : System.Reach _ (Safe Interp.ascii) ⟨oneBuild.link .file .prev,
      [⟨0, "author/model", ""⟩], 1, .idle, some (u, 0)⟩ :=
    h₅.next (e := .goes) rfl (hcall fun _ _ h => nomatch h)
  have h₇ : System.Reach _ (Safe Interp.ascii) ⟨(oneBuild.link .file .prev).place .file [3],
      [⟨0, "author/model", ""⟩], 1, .idle, some (u, 0)⟩ :=
    h₆.next (e := .lands 0 [3]) rfl
      (hsafe (fun _ _ h => nomatch h) (fun _ _ h => by cases h; rfl) fun _ _ _ => rfl)
  exact ⟨_, rfl, by decide, (update_leaves h₇).2 u 0 rfl [2] rfl⟩

end Staging
