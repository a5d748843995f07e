import Caravan.Framework.System
import Caravan.StoreMoves.Folder
import Caravan.StoreMoves.Planner

/-!
# The jobs of the mover

`MoveRunner` keeps the jobs of the process and their records on disk. A request reads what
is busy under the lock, plans outside it and enters its job under the lock again; the worker
runs one unfinished job at a time; a restarted process takes the records up (`resume`).

`Desk.system` is the runner with any number of requests, a worker and crashes. No path is in
two unfinished jobs for as long as no other job is entered between the reading of what is
busy and the entry, no picked path lies in a busy one or has one in it, requests are read
after the records were taken up, and a job's end is on disk before the process dies
(`apart_kept`). A file of a folder that is being moved is not compared with the folder
(`inside_taken`).
-/

namespace StoreMoves

variable {D : Type}

/-! ### What a mover leaves of a job -/

/-- What a mover leaves of an item: its folder, and its files or those found in it. -/
structure ItemAdvance (a b : MoveItem D) : Prop where
  folder : b.folder = a.folder
  rels : b.rels = a.rels ∨
    a.folder ≠ "" ∧ ∀ r ∈ b.rels, ∃ q, r = within a.folder q

/-- A mover keeps the id and the ends of its job. -/
structure Advance (a b : MoveJob D) : Prop where
  id : b.id = a.id
  items : List.Forall₂ ItemAdvance a.items b.items

theorem ItemAdvance.cover {a b : MoveItem D} (h : ItemAdvance a b) : b.cover = a.cover := by
  rw [MoveItem.cover, MoveItem.cover, h.folder]
  split
  · next hf =>
    cases h.rels with
    | inl he => exact he
    | inr he => exact absurd hf he.1
  · rfl

theorem ItemAdvance.tidy {a b : MoveItem D} (h : ItemAdvance a b) (ha : a.Tidy) : b.Tidy := by
  intro hf r hr
  rw [h.folder] at hf ⊢
  cases h.rels with
  | inl he => exact ha hf r (he ▸ hr)
  | inr he => exact he.2 r hr

theorem cover_of_forall₂ {l l' : List (MoveItem D)} (h : List.Forall₂ ItemAdvance l l') :
    l'.flatMap MoveItem.cover = l.flatMap MoveItem.cover := by
  induction h with
  | nil => rfl
  | cons hx _ ih => rw [List.flatMap_cons, List.flatMap_cons, hx.cover, ih]

theorem Advance.cover {a b : MoveJob D} (h : Advance a b) : b.cover = a.cover :=
  cover_of_forall₂ h.items

theorem Advance.tidy {a b : MoveJob D} (h : Advance a b) (ha : a.Tidy) : b.Tidy := by
  intro item hitem
  obtain ⟨i, hi, rfl⟩ := List.getElem_of_mem hitem
  have hlen := h.items.length_eq
  have hstep := List.forall₂_iff_get.mp h.items |>.2 i (by omega) hi
  exact ItemAdvance.tidy hstep (ha _ (List.getElem_mem _))

/-! ### The desk -/

/-- What a request has read: how many jobs had been entered, and what was busy. -/
structure Asked where
  entered : ℕ
  busy : List String

/-- The runner of the process, the records on disk and the requests being served. -/
structure Desk (D : Type) where
  /-- `_jobs` -/
  jobs : List (String × MoveJob D)
  /-- The folder of the records, by id. -/
  files : List (String × MoveDoc D)
  /-- `_current` -/
  current : Option String
  asked : ℕ → Option Asked
  /-- The jobs entered so far. -/
  entered : ℕ

inductive Act (D : Type) where
  | ask (t : ℕ)
  | enter (t : ℕ) (v : View) (r : Request) (job : MoveJob D) (written : Bool)
  | refused (t : ℕ)
  | pick (id : String)
  | rest
  | advance (job : MoveJob D)
  | save (id : String)
  | saveGone (job : MoveJob D)
  | cancel (id : String) (written : Bool)
  | prune (id : String) (unlinked : Bool)
  | crash
  | resume (id : String)

/-- What `MoveRunner.cancel` does to an unfinished job. -/
def MoveJob.cancelled (job : MoveJob D) (current : Option String) (now : ℕ) : MoveJob D :=
  if job.status = .queued ∧ some job.id ≠ current then
    { job with
      cancel := true
      items := job.items.map fun item =>
        if item.state.final then item else { item with state := .cancelled }
      status := .cancelled
      finishedAt := now }
  else { job with cancel := true }

/-- What `MoveRunner.resume` makes of a record. -/
def MoveJob.resumed (job : MoveJob D) : MoveJob D :=
  if job.finished then job else { job with status := .queued, reason := "" }

namespace Desk

variable (s : Desk D)

/-- The paths of the unfinished jobs. -/
def busy : List String :=
  ((s.jobs.map Prod.snd).filter fun job => !job.finished).flatMap MoveJob.paths

/-- The record of a job, after it was written or where writing it failed. -/
def write (job : MoveJob D) (written : Bool) : List (String × MoveDoc D) :=
  if written then Assoc.put s.files job.id job.toJson else s.files

/-- One critical section of the runner, one change a mover makes to its job, or the death
of the process. -/
inductive Step : Desk D → Act D → Desk D → Prop
  /-- `start`: what is busy, read under the lock. -/
  | ask (s : Desk D) (t : ℕ) :
      Step s (.ask t) { s with asked := Function.update s.asked t (some ⟨s.entered, s.busy⟩) }
  /-- `start`: the job that was planned outside the lock. -/
  | enter (s : Desk D) (t : ℕ) (a : Asked) (v : View) (r : Request) (job : MoveJob D)
      (written : Bool) :
      s.asked t = some a → v.plan job.id a.busy r = .ok job →
      Step s (.enter t v r job written)
        { s with jobs := Assoc.put s.jobs job.id job, files := s.write job written,
                 asked := Function.update s.asked t none, entered := s.entered + 1 }
  | refused (s : Desk D) (t : ℕ) :
      Step s (.refused t) { s with asked := Function.update s.asked t none }
  /-- `_work`: the next job. -/
  | pick (s : Desk D) (id : String) (job : MoveJob D) :
      Assoc.get s.jobs id = some job → job.finished = false → s.current = none →
      Step s (.pick id) { s with current := some id }
  /-- `_work`: the job is over. -/
  | rest (s : Desk D) : Step s .rest { s with current := none }
  /-- The mover at work, or its `_finish`. -/
  | advance (s : Desk D) (id : String) (job job' : MoveJob D) :
      s.current = some id → Assoc.get s.jobs id = some job → Advance job job' →
      (job.finished = true → job'.finished = true) →
      Step s (.advance job') { s with jobs := Assoc.put s.jobs id job' }
  | save (s : Desk D) (id : String) (job : MoveJob D) :
      Assoc.get s.jobs id = some job →
      Step s (.save id) { s with files := Assoc.put s.files job.id job.toJson }
  /-- A last save of a job that was pruned. -/
  | saveGone (s : Desk D) (job : MoveJob D) :
      Assoc.get s.jobs job.id = none → job.finished = true → job.Tidy →
      Step s (.saveGone job) { s with files := Assoc.put s.files job.id job.toJson }
  | cancel (s : Desk D) (id : String) (job : MoveJob D) (now : ℕ) (written : Bool) :
      Assoc.get s.jobs id = some job → job.finished = false →
      Step s (.cancel id written)
        { s with jobs := Assoc.put s.jobs id (job.cancelled s.current now),
                 files := s.write (job.cancelled s.current now) written }
  /-- `_prune`: a finished job, and its record where the unlink does not fail. -/
  | prune (s : Desk D) (id : String) (job : MoveJob D) (unlinked : Bool) :
      Assoc.get s.jobs id = some job → job.finished = true →
      Step s (.prune id unlinked)
        { s with jobs := Assoc.del s.jobs id,
                 files := if unlinked then Assoc.del s.files id else s.files }
  | crash (s : Desk D) :
      Step s .crash { s with jobs := [], current := none, asked := fun _ => none }
  /-- `resume`: one record of the folder. -/
  | resume (s : Desk D) (id : String) (doc : MoveDoc D) :
      Assoc.get s.files id = some doc → Assoc.get s.jobs (MoveJob.fromJson doc).id = none →
      Step s (.resume id)
        { s with jobs := Assoc.put s.jobs (MoveJob.fromJson doc).id
                   (MoveJob.fromJson doc).resumed }

/-- The runner of a controller that starts without records. -/
def system (D : Type) : System (Desk D) (Act D) where
  init s := s.jobs = [] ∧ s.files = [] ∧ s.current = none ∧ s.asked = fun _ => none
  step := Step

/-- A job that is unfinished, or will be once its record is taken up. -/
def Live (id : String) (job : MoveJob D) : Prop :=
  job.finished = false ∧ (Assoc.get s.jobs id = some job ∨
    Assoc.get s.jobs id = none ∧ (Assoc.get s.files id).map MoveJob.fromJson = some job)

/-- A record with an unfinished job. -/
def OpenRecord (id : String) : Prop :=
  ∃ doc, Assoc.get s.files id = some doc ∧ (MoveJob.fromJson doc).finished = false

/-- Requests are read after the records were taken up. A job is entered under an id that is
free, no other was entered since its request was read, and of the paths it picks none lies in
a busy one or has one in it. The end of a job is on disk when the job is forgotten. -/
def ok : Desk D → Act D → Prop
  | s, .ask _ => ∀ id, s.OpenRecord id → Assoc.get s.jobs id ≠ none
  | s, .enter t v r job _ =>
    Assoc.get s.jobs job.id = none ∧ Assoc.get s.files job.id = none ∧
      ∀ a, s.asked t = some a → a.entered = s.entered ∧
        ∀ p ∈ v.picks r, ∀ q ∈ a.busy, Overlap p q → p = q
  | s, .prune id unlinked => unlinked = true ∨ ¬ s.OpenRecord id
  | s, .crash => ∀ id job, Assoc.get s.jobs id = some job → job.finished = true →
      ¬ s.OpenRecord id
  | _, _ => True

/-! ### What every step keeps -/

/-- Jobs and records stand under their ids, the files of a folder in the folder, and a job
and its record were planned for the same paths. -/
structure Sound : Prop where
  jobs : ∀ id job, Assoc.get s.jobs id = some job → job.id = id ∧ job.Tidy
  files : ∀ id doc, Assoc.get s.files id = some doc →
    (MoveJob.fromJson doc).id = id ∧ (MoveJob.fromJson doc).Tidy
  same : ∀ id job doc, Assoc.get s.jobs id = some job → Assoc.get s.files id = some doc →
    (MoveJob.fromJson doc).cover = job.cover

structure Inv : Prop where
  sound : s.Sound
  /-- No two jobs were planned for paths that meet. -/
  apart : ∀ id id' a b, id ≠ id' → s.Live id a → s.Live id' b →
    ∀ p ∈ a.cover, ∀ q ∈ b.cover, ¬ Overlap p q
  /-- A request before whose entry no other was made knows all of them. -/
  known : ∀ t a, s.asked t = some a → a.entered = s.entered →
    ∀ id b, s.Live id b → b.cover ⊆ a.busy
  past : ∀ t a, s.asked t = some a → a.entered ≤ s.entered

variable {s} {s' : Desk D}

theorem Live.congr {id : String} {b : MoveJob D} (h : s'.Live id b)
    (hj : Assoc.get s'.jobs id = Assoc.get s.jobs id)
    (hf : Assoc.get s'.files id = Assoc.get s.files id) : s.Live id b := by
  rw [Live, hj, hf] at h
  exact h

/-- An unfinished job in memory is busy. -/
theorem paths_subset_busy {id : String} {job : MoveJob D}
    (h : Assoc.get s.jobs id = some job) (hopen : job.finished = false) :
    job.paths ⊆ s.busy := by
  intro p hp
  refine List.mem_flatMap.mpr ⟨job, List.mem_filter.mpr ⟨?_, by simp [hopen]⟩, hp⟩
  exact List.mem_map.mpr ⟨_, Assoc.mem_of_get h, rfl⟩

/-- No step but an entry adds to what is unfinished. -/
def Fewer (s s' : Desk D) : Prop :=
  ∀ id b, s'.Live id b → ∃ a, s.Live id a ∧ b.cover = a.cover

theorem Inv.fewer (hi : s.Inv) (hs : s'.Sound) (hf : Fewer s s')
    (hasked : ∀ t a, s'.asked t = some a → s.asked t = some a)
    (hentered : s'.entered = s.entered) : s'.Inv where
  sound := hs
  apart := fun id id' a b hne ha hb p hp q hq => by
    obtain ⟨a₀, ha₀, hea⟩ := hf id a ha
    obtain ⟨b₀, hb₀, heb⟩ := hf id' b hb
    exact hi.apart id id' a₀ b₀ hne ha₀ hb₀ p (hea ▸ hp) q (heb ▸ hq)
  known := fun t a ha he id b hb => by
    obtain ⟨b₀, hb₀, heb⟩ := hf id b hb
    rw [heb]
    exact hi.known t a (hasked t a ha) (he.trans hentered) id b₀ hb₀
  past := fun t a ha => hentered ▸ hi.past t a (hasked t a ha)

/-! Writes of a job and of a record. -/

theorem Sound.congr (h : s.Sound) (hj : s'.jobs = s.jobs) (hf : s'.files = s.files) :
    s'.Sound where
  jobs := by rw [hj]; exact h.jobs
  files := by rw [hf]; exact h.files
  same := by rw [hj, hf]; exact h.same

theorem Sound.putJob (h : s.Sound) {id : String} {job : MoveJob D} (hid : job.id = id)
    (ht : job.Tidy)
    (hsame : ∀ doc, Assoc.get s.files id = some doc →
      (MoveJob.fromJson doc).cover = job.cover) :
    ({ s with jobs := Assoc.put s.jobs id job } : Desk D).Sound where
  jobs := fun k j hk => by
    simp only [Assoc.get_put] at hk
    split at hk
    · next he =>
      obtain rfl := Option.some.inj hk
      exact ⟨hid.trans he.symm, ht⟩
    · exact h.jobs k j hk
  files := h.files
  same := fun k j doc hk hdoc => by
    simp only [Assoc.get_put] at hk
    split at hk
    · next he =>
      obtain rfl := Option.some.inj hk
      exact hsame doc (he ▸ hdoc)
    · exact h.same k j doc hk hdoc

theorem Sound.putFile (h : s.Sound) {job : MoveJob D} (ht : job.Tidy)
    (hsame : ∀ j, Assoc.get s.jobs job.id = some j → job.cover = j.cover) :
    ({ s with files := Assoc.put s.files job.id job.toJson } : Desk D).Sound where
  jobs := h.jobs
  files := fun k doc hk => by
    simp only [Assoc.get_put] at hk
    split at hk
    · next he =>
      obtain rfl := Option.some.inj hk
      exact ⟨he.symm, ht⟩
    · exact h.files k doc hk
  same := fun k j doc hk hdoc => by
    simp only [Assoc.get_put] at hdoc
    split at hdoc
    · next he =>
      obtain rfl := Option.some.inj hdoc
      exact hsame j (he ▸ hk)
    · exact h.same k j doc hk hdoc

/-- A job and, where the write succeeds, its record. -/
theorem Sound.putBoth (h : s.Sound) {job : MoveJob D} (ht : job.Tidy) (written : Bool)
    (hsame : ∀ doc, Assoc.get s.files job.id = some doc →
      (MoveJob.fromJson doc).cover = job.cover) :
    ({ s with jobs := Assoc.put s.jobs job.id job, files := s.write job written } :
      Desk D).Sound := by
  have hjob := h.putJob rfl ht hsame
  cases written with
  | false => exact hjob.congr rfl rfl
  | true =>
    have hfile := hjob.putFile ht fun j hj => by
      rw [Assoc.get_put_self] at hj
      rw [Option.some.inj hj]
    exact hfile.congr rfl rfl

theorem write_of_ne {job : MoveJob D} {written : Bool} {id : String} (h : id ≠ job.id) :
    Assoc.get (s.write job written) id = Assoc.get s.files id := by
  cases written with
  | false => rfl
  | true => exact Assoc.get_put_of_ne _ _ h

@[simp] theorem cancelled_id (job : MoveJob D) (current : Option String) (now : ℕ) :
    (job.cancelled current now).id = job.id := by
  unfold MoveJob.cancelled
  split <;> rfl

theorem advance_cancelled (job : MoveJob D) (current : Option String) (now : ℕ) :
    Advance job (job.cancelled current now) := by
  refine ⟨cancelled_id job current now, ?_⟩
  unfold MoveJob.cancelled
  split
  · refine List.forall₂_map_right_iff.mpr (forall₂_refl (fun item => ?_) _)
    split <;> exact ⟨rfl, .inl rfl⟩
  · exact forall₂_refl (fun item => ⟨rfl, .inl rfl⟩) _

theorem advance_resumed (job : MoveJob D) : Advance job job.resumed := by
  unfold MoveJob.resumed
  split <;> exact ⟨rfl, forall₂_refl (fun item => ⟨rfl, .inl rfl⟩) _⟩

theorem finished_resumed (job : MoveJob D) : job.resumed.finished = job.finished := by
  unfold MoveJob.resumed
  split
  · rfl
  · next h => exact (Bool.eq_false_iff.mpr h).symm

/-- A job that changed under one id and is no less finished than it was. -/
theorem Fewer.of_job {id : String} {job job' : MoveJob D}
    (hold : job'.finished = false → s.Live id job)
    (hget : Assoc.get s'.jobs id = some job') (hcover : job'.cover = job.cover)
    (hj : ∀ k, k ≠ id → Assoc.get s'.jobs k = Assoc.get s.jobs k)
    (hf : ∀ k, k ≠ id → Assoc.get s'.files k = Assoc.get s.files k) : Fewer s s' := by
  intro k b hb
  by_cases hk : k = id
  · subst hk
    cases hb.2 with
    | inl hb' =>
      obtain rfl : job' = b := Option.some.inj (hget.symm.trans hb')
      exact ⟨job, hold hb.1, hcover⟩
    | inr hb' => exact absurd (hget.symm.trans hb'.1) (by simp)
  · exact ⟨b, hb.congr (hj k hk) (hf k hk), rfl⟩

/-- A record that changed under one id, where nothing unfinished is left under it. -/
theorem Fewer.of_gone {id : String} (hgone : ∀ b, ¬ s'.Live id b)
    (hj : ∀ k, k ≠ id → Assoc.get s'.jobs k = Assoc.get s.jobs k)
    (hf : ∀ k, k ≠ id → Assoc.get s'.files k = Assoc.get s.files k) : Fewer s s' := by
  intro k b hb
  by_cases hk : k = id
  · exact absurd (hk ▸ hb) (hgone b)
  · exact ⟨b, hb.congr (hj k hk) (hf k hk), rfl⟩

theorem not_live_of_none {id : String} (hj : Assoc.get s.jobs id = none)
    (hf : ¬ s.OpenRecord id) (b : MoveJob D) : ¬ s.Live id b := by
  rintro ⟨hopen, hb | ⟨-, hb⟩⟩
  · exact absurd (hj.symm.trans hb) (by simp)
  · obtain ⟨doc, hdoc, rfl⟩ := Option.map_eq_some_iff.mp hb
    exact hf ⟨doc, hdoc, hopen⟩

/-! The steps. -/

theorem asked_update {f : ℕ → Option Asked} {t t' : ℕ} {o : Option Asked} {a : Asked}
    (h : Function.update f t o t' = some a) : o = some a ∨ f t' = some a := by
  by_cases he : t' = t
  · subst he
    rw [Function.update_self] at h
    exact .inl h
  · rw [Function.update_of_ne he] at h
    exact .inr h

/-- An entry under a free id, of a plan that meets nothing busy. -/
theorem Inv.enter (hi : s.Inv) {t : ℕ} {a : Asked} {v : View} {r : Request} {job : MoveJob D}
    {written : Bool} (ht : s.asked t = some a) (hplan : v.plan job.id a.busy r = .ok job)
    (hok : ok s (.enter t v r job written)) :
    ({ s with jobs := Assoc.put s.jobs job.id job, files := s.write job written,
              asked := Function.update s.asked t none, entered := s.entered + 1 } :
      Desk D).Inv := by
  obtain ⟨hjobs, hfiles, hmeet⟩ := hok
  obtain ⟨hlast, hmeet⟩ := hmeet a ht
  obtain ⟨-, -, htidy, hfree⟩ := v.plan_free hplan
  -- what is live after the entry is the new job or was live
  have hlive : ∀ id b, Live { s with
      jobs := Assoc.put s.jobs job.id job, files := s.write job written,
      asked := Function.update s.asked t none, entered := s.entered + 1 } id b →
      id = job.id ∧ b = job ∨ id ≠ job.id ∧ s.Live id b := by
    intro id b hb
    by_cases hid : id = job.id
    · subst hid
      cases hb.2 with
      | inl hb' =>
        obtain rfl := Option.some.inj ((Assoc.get_put_self _ _ _).symm.trans hb')
        exact .inl ⟨rfl, rfl⟩
      | inr hb' => exact absurd ((Assoc.get_put_self _ _ _).symm.trans hb'.1) (by simp)
    · exact .inr ⟨hid, hb.congr (Assoc.get_put_of_ne _ _ hid) (write_of_ne hid)⟩
  have hnew : ∀ id b, s.Live id b → ∀ p ∈ job.cover, ∀ q ∈ b.cover, ¬ Overlap p q := by
    intro id b hb p hp q hq hover
    have hbusy : q ∈ a.busy := hi.known t a ht hlast id b hb hq
    obtain rfl := hmeet p (hfree p hp).1 q hbusy hover
    exact (hfree p hp).2 hbusy
  have hasked : ∀ t' a', Function.update s.asked t none t' = some a' → s.asked t' = some a' :=
    fun t' a' h => (asked_update h).resolve_left (by simp)
  refine ⟨?_, ?_, ?_, ?_⟩
  · exact (hi.sound.putBoth htidy written fun doc hdoc =>
      absurd (hfiles.symm.trans hdoc) (by simp)).congr rfl rfl
  · intro id id' b c hne hb hc p hp q hq
    cases hlive id b hb with
    | inl hb =>
      obtain ⟨rfl, rfl⟩ := hb
      cases hlive id' c hc with
      | inl hc => exact absurd hc.1.symm hne
      | inr hc => exact hnew id' c hc.2 p hp q hq
    | inr hb =>
      cases hlive id' c hc with
      | inl hc =>
        obtain ⟨rfl, rfl⟩ := hc
        exact fun hover => hnew id b hb.2 q hq p hp hover.symm
      | inr hc => exact hi.apart id id' b c hne hb.2 hc.2 p hp q hq
  · intro t' a' ht' he
    have := hi.past t' a' (hasked t' a' ht')
    exact absurd he (by simp only; omega)
  · intro t' a' ht'
    exact (hi.past t' a' (hasked t' a' ht')).trans (Nat.le_succ _)

theorem Inv.step (hi : s.Inv) {e : Act D} (hok : ok s e) (h : Step s e s') : s'.Inv := by
  have hs := hi.sound
  cases h with
  | ask t =>
    -- everything unfinished is in memory, and so in what was read
    refine ⟨hs.congr rfl rfl, hi.apart, fun t' a ht he id b hb => ?_, fun t' a ht => ?_⟩
    · cases asked_update ht with
      | inl ha =>
        obtain rfl := Option.some.inj ha
        refine fun p hp => ?_
        cases hb.2 with
        | inl hb' => exact paths_subset_busy hb' hb.1 (b.cover_subset_paths hp)
        | inr hb' =>
          obtain ⟨doc, hdoc, rfl⟩ := Option.map_eq_some_iff.mp hb'.2
          exact absurd hb'.1 (hok id ⟨doc, hdoc, hb.1⟩)
      | inr ha => exact hi.known t' a ha he id b hb
    · cases asked_update ht with
      | inl ha => exact (Option.some.inj ha) ▸ Nat.le_refl _
      | inr ha => exact hi.past t' a ha
  | enter t a v r job written ht hplan => exact hi.enter ht hplan hok
  | refused t =>
    exact hi.fewer (hs.congr rfl rfl) (fun id b hb => ⟨b, hb, rfl⟩)
      (fun t' a ht => (asked_update ht).resolve_left (by simp)) rfl
  | pick id job hget hopen hidle =>
    exact hi.fewer (hs.congr rfl rfl) (fun id b hb => ⟨b, hb, rfl⟩) (fun _ _ ht => ht) rfl
  | rest =>
    exact hi.fewer (hs.congr rfl rfl) (fun id b hb => ⟨b, hb, rfl⟩) (fun _ _ ht => ht) rfl
  | advance id job job' hcur hget hadv hfin =>
    obtain ⟨hid, htidy⟩ := hs.jobs id job hget
    refine hi.fewer (hs.putJob (hadv.id.trans hid) (hadv.tidy htidy) fun doc hdoc => ?_) ?_
      (fun _ _ ht => ht) rfl
    · exact (hs.same id job doc hget hdoc).trans hadv.cover.symm
    · refine Fewer.of_job (fun hopen => ⟨?_, .inl hget⟩) (Assoc.get_put_self _ _ _) hadv.cover
        (fun k hk => Assoc.get_put_of_ne _ _ hk) fun _ _ => rfl
      exact Bool.eq_false_iff.mpr fun hf => by simp [hfin hf] at hopen
  | save id job hget =>
    obtain ⟨rfl, htidy⟩ := hs.jobs id job hget
    refine hi.fewer (hs.putFile htidy fun j hj => ?_) ?_ (fun _ _ ht => ht) rfl
    · rw [Option.some.inj (hget.symm.trans hj)]
    · exact Fewer.of_job (fun hopen => ⟨hopen, .inl hget⟩) hget rfl (fun _ _ => rfl)
        fun k hk => Assoc.get_put_of_ne _ _ hk
  | saveGone job hget hfin htidy =>
    refine hi.fewer (hs.putFile htidy fun j hj => ?_) ?_ (fun _ _ ht => ht) rfl
    · exact absurd (hget.symm.trans hj) (by simp)
    · refine Fewer.of_gone (not_live_of_none hget ?_) (fun _ _ => rfl)
        fun k hk => Assoc.get_put_of_ne _ _ hk
      rintro ⟨doc, hdoc, hopen⟩
      obtain rfl := Option.some.inj ((Assoc.get_put_self _ _ _).symm.trans hdoc)
      rw [fromJson_toJson, hfin] at hopen
      cases hopen
  | cancel id job now written hget hopen =>
    obtain ⟨rfl, htidy⟩ := hs.jobs id job hget
    have hadv := advance_cancelled job s.current now
    have hid := cancelled_id job s.current now
    refine hi.fewer ?_ ?_ (fun _ _ ht => ht) rfl
    · have := hs.putBoth (hadv.tidy htidy) written fun doc hdoc =>
        (hs.same job.id job doc hget (hid ▸ hdoc)).trans hadv.cover.symm
      rw [hid] at this
      exact this
    · exact Fewer.of_job (fun _ => ⟨hopen, .inl hget⟩) (Assoc.get_put_self _ _ _) hadv.cover
        (fun k hk => Assoc.get_put_of_ne _ _ hk) fun k hk => write_of_ne (hid.symm ▸ hk)
  | prune id job unlinked hget hfin =>
    have hjobs : ∀ k j, Assoc.get (Assoc.del s.jobs id) k = some j →
        Assoc.get s.jobs k = some j := by
      intro k j hk
      rw [Assoc.get_del] at hk
      split at hk
      · cases hk
      · exact hk
    have hfiles : ∀ k doc, Assoc.get (if unlinked then Assoc.del s.files id else s.files) k =
        some doc → Assoc.get s.files k = some doc := by
      intro k doc hk
      split at hk
      · rw [Assoc.get_del] at hk
        split at hk
        · cases hk
        · exact hk
      · exact hk
    refine hi.fewer ⟨fun k j hk => hs.jobs k j (hjobs k j hk),
      fun k doc hk => hs.files k doc (hfiles k doc hk),
      fun k j doc hk hdoc => hs.same k j doc (hjobs k j hk) (hfiles k doc hdoc)⟩ ?_
      (fun _ _ ht => ht) rfl
    refine Fewer.of_gone (not_live_of_none (Assoc.get_del_self _ _) ?_)
      (fun k hk => Assoc.get_del_of_ne _ hk) fun k hk => ?_
    · rintro ⟨doc, hdoc, hopen⟩
      cases hok with
      | inl hu =>
        rw [if_pos hu, Assoc.get_del_self] at hdoc
        cases hdoc
      | inr hr => exact hr ⟨doc, hfiles _ _ hdoc, hopen⟩
    · simp only
      split
      · exact Assoc.get_del_of_ne _ hk
      · rfl
  | crash =>
    refine hi.fewer ⟨fun k j hk => (by cases hk), hs.files,
      fun k j doc hk => (by cases hk)⟩
      (fun id b hb => ?_) (fun _ _ ht => by cases ht) rfl
    obtain ⟨hopen, hb | ⟨-, hb⟩⟩ := hb
    · cases hb
    · cases hget : Assoc.get s.jobs id with
      | none => exact ⟨b, ⟨hopen, .inr ⟨hget, hb⟩⟩, rfl⟩
      | some job =>
        -- the record is unfinished, and so is the job it is of
        obtain ⟨doc, hdoc, rfl⟩ := Option.map_eq_some_iff.mp hb
        have hjob : job.finished = false :=
          Bool.eq_false_iff.mpr fun hf => hok id job hget hf ⟨doc, hdoc, hopen⟩
        exact ⟨job, ⟨hjob, .inl hget⟩, hs.same id job doc hget hdoc⟩
  | resume id doc hdoc hnone =>
    obtain ⟨hid, htidy⟩ := hs.files id doc hdoc
    rw [hid] at hnone ⊢
    have hadv := advance_resumed (MoveJob.fromJson doc)
    refine hi.fewer (hs.putJob (hadv.id.trans hid) (hadv.tidy htidy) fun doc' hdoc' => ?_) ?_
      (fun _ _ ht => ht) rfl
    · rw [Option.some.inj (hdoc'.symm.trans hdoc)]
      exact hadv.cover.symm
    · refine Fewer.of_job (fun hopen => ⟨?_, .inr ⟨hnone, by rw [hdoc]; rfl⟩⟩)
        (Assoc.get_put_self _ _ _) hadv.cover (fun k hk => Assoc.get_put_of_ne _ _ hk)
        fun _ _ => rfl
      exact (finished_resumed _).symm.trans hopen

theorem Inv.initial (h : (system D).init s) : s.Inv := by
  obtain ⟨hjobs, hfiles, -, hasked⟩ := h
  have hlive : ∀ id b, ¬ s.Live id b := by
    intro id
    refine not_live_of_none (by rw [hjobs]; rfl) ?_
    rintro ⟨doc, hdoc, -⟩
    rw [hfiles] at hdoc
    exact nomatch hdoc
  refine ⟨⟨fun id job hj => ?_, fun id doc hd => ?_, fun id job doc hj => ?_⟩,
    fun id id' a b _ ha => absurd ha (hlive id a), fun t a ht => ?_, fun t a ht => ?_⟩
  · rw [hjobs] at hj; exact nomatch hj
  · rw [hfiles] at hd; exact nomatch hd
  · rw [hjobs] at hj; exact nomatch hj
  · rw [hasked] at ht; exact nomatch ht
  · rw [hasked] at ht; exact nomatch ht

theorem reach_inv (h : (system D).Reach ok s) : s.Inv :=
  h.invariant (fun _ => Inv.initial) fun _ _ _ hi hok hstep => hi.step hok hstep

end Desk

/-! ### Runs of two requests -/

namespace Desk

variable {c : Desk D → Act D → Prop} {s : Desk D}

/-- A desk before its first request. -/
def fresh : Desk D := ⟨[], [], none, fun _ => none, 0⟩

/-- A request has been served: its job is entered and written. -/
def started (s : Desk D) (t : ℕ) (job : MoveJob D) : Desk D where
  jobs := Assoc.put s.jobs job.id job
  files := Assoc.put s.files job.id job.toJson
  current := s.current
  asked := Function.update (Function.update s.asked t (some ⟨s.entered, s.busy⟩)) t none
  entered := s.entered + 1

/-- What a request finds when it has read what is busy. -/
def afterAsk (s : Desk D) (t : ℕ) : Desk D :=
  { s with asked := Function.update s.asked t (some ⟨s.entered, s.busy⟩) }

theorem afterAsk_asked {s : Desk D} {t : ℕ} {a : Asked} (h : (s.afterAsk t).asked t = some a) :
    a = ⟨s.entered, s.busy⟩ := by
  have hself : (s.afterAsk t).asked t = some ⟨s.entered, s.busy⟩ := Function.update_self ..
  exact Option.some.inj (h.symm.trans hself)

/-- A request served in one go. -/
theorem reach_started (h : (system D).Reach c s) (t : ℕ) (v : View) (r : Request)
    (job : MoveJob D) (hplan : v.plan job.id s.busy r = .ok job) (hask : c s (.ask t))
    (henter : c (s.afterAsk t) (.enter t v r job true)) :
    (system D).Reach c (s.started t job) :=
  (h.step hask (.ask s t)).step henter (.enter (s.afterAsk t) t ⟨s.entered, s.busy⟩ v r job true
    (Function.update_self ..) hplan)

end Desk

/-- A plan, from the paths it is for. -/
theorem View.planned (v : View) (id : String) (busy : List String) (r : Request)
    {paths : List String}
    (h : (v.plan (D := D) id busy r).toOption.map MoveJob.paths = some paths) :
    ∃ job : MoveJob D, v.plan id busy r = .ok job ∧ job.id = id ∧ job.finished = false ∧
      job.paths = paths := by
  cases hp : v.plan (D := D) id busy r with
  | error e =>
    rw [hp] at h
    exact nomatch h
  | ok job =>
    rw [hp] at h
    obtain ⟨hid, hopen, -⟩ := v.plan_free hp
    exact ⟨job, rfl, hid, hopen, Option.some.inj h⟩

/-- **A path is moved by one job at a time**, in every run that meets `Desk.ok`: no path of
an unfinished job is, contains or lies in a path of another. -/
theorem apart_kept {s : Desk D} (h : (Desk.system D).Reach Desk.ok s) {id id' : String}
    {a b : MoveJob D} (hne : id ≠ id') (ha : Assoc.get s.jobs id = some a)
    (hb : Assoc.get s.jobs id' = some b) (hao : a.finished = false) (hbo : b.finished = false) :
    ∀ p ∈ a.paths, ∀ q ∈ b.paths, ¬ Overlap p q := by
  intro p hp q hq hover
  have hi := Desk.reach_inv h
  obtain ⟨c, hc, hcp⟩ := (hi.sound.jobs id a ha).2.covered hp
  obtain ⟨d, hd, hdq⟩ := (hi.sound.jobs id' b hb).2.covered hq
  have hcq : Overlap c q := hover.of_covers hcp
  have hdc : Overlap d c := hcq.symm.of_covers hdq
  exact hi.apart id id' a b hne ⟨hao, .inl ha⟩ ⟨hbo, .inl hb⟩ c hc d hd hdc.symm

/-- A models disk with two files, a model's folder and a file in it. -/
def someModels : View where
  rows := [⟨"local", "", "/models", .localDisk, "ok", none, ""⟩,
    ⟨"nas", "nas", "/nas", .library, "ok", some (2 ^ 40), ""⟩]
  listing := .ok ([⟨"a.gguf", 1, "a.gguf", ""⟩, ⟨"b.gguf", 1, "b.gguf", ""⟩,
    ⟨"fam/m.gguf", 1, "fam/m.gguf", ""⟩, ⟨"fam", 1, "fam", "safetensors"⟩], "/models")
  library := []
  is_link := fun _ => false
  stamp := fun _ => ⟨1, 0⟩
  reading := fun _ => []
  gigabytes := fun _ => "0.0"

def toShelf (path : String) : Request := ⟨[path], "nas", none⟩

/-- The desk once the first of two requests has been served. -/
def firstDone (a : MoveJob ℕ) : Desk ℕ := Desk.fresh.started 0 a

theorem firstDone_busy {a : MoveJob ℕ} (h : a.finished = false) :
    (firstDone a).busy = a.paths := by
  simp [firstDone, Desk.started, Desk.fresh, Desk.busy, Assoc.put, Assoc.del, h]

/-- Two requests one after the other. -/
theorem two_started {p q : String} {c : Desk ℕ → Act ℕ → Prop}
    (hp : (someModels.plan (D := ℕ) "a" [] (toShelf p)).toOption.map MoveJob.paths = some [p])
    (hq : (someModels.plan (D := ℕ) "b" [p] (toShelf q)).toOption.map MoveJob.paths = some [q])
    (hask : c Desk.fresh (.ask 0))
    (henter : ∀ a, a.id = "a" →
      c (Desk.fresh.afterAsk 0) (.enter 0 someModels (toShelf p) a true))
    (hask' : ∀ a, a.id = "a" → c (firstDone a) (.ask 1))
    (henter' : ∀ a b, a.id = "a" → b.id = "b" → (firstDone a).busy = [p] →
      c ((firstDone a).afterAsk 1) (.enter 1 someModels (toShelf q) b true)) :
    ∃ s a b, (Desk.system ℕ).Reach c s ∧ Assoc.get s.jobs "a" = some a ∧
      Assoc.get s.jobs "b" = some b ∧ (a.finished = false ∧ b.finished = false) ∧
      a.paths = [p] ∧ b.paths = [q] := by
  obtain ⟨a, hplan, ha, hao, hap⟩ := View.planned _ _ _ _ hp
  have hbusy : (firstDone a).busy = [p] := (firstDone_busy hao).trans hap
  obtain ⟨b, hplan', hb, hbo, hbp⟩ := View.planned _ _ _ _ hq
  have hfirst : (Desk.system ℕ).Reach c (firstDone a) :=
    Desk.reach_started (.init ⟨rfl, rfl, rfl, rfl⟩) 0 someModels (toShelf p) a
      (ha ▸ hplan) hask (henter a ha)
  have hsecond := Desk.reach_started hfirst 1 someModels (toShelf q) b
    (hbusy ▸ hb ▸ hplan') (hask' a ha) (henter' a b ha hb hbusy)
  refine ⟨_, a, b, hsecond, ?_, ?_, ⟨hao, hbo⟩, hap, hbp⟩
  · simp [Desk.started, firstDone, Desk.fresh, Assoc.get_put, ha, hb]
  · simp [Desk.started, hb]

/-- Two files moved side by side. -/
theorem apart_kept_two : ∃ (s : Desk ℕ) (a b : MoveJob ℕ),
    (Desk.system ℕ).Reach Desk.ok s ∧ (a.paths = ["a.gguf"] ∧ b.paths = ["b.gguf"]) ∧
      ∀ p ∈ a.paths, ∀ q ∈ b.paths, ¬ Overlap p q := by
  have hask : Desk.ok (Desk.fresh : Desk ℕ) (.ask 0) := by
    rintro id ⟨doc, hdoc, -⟩
    exact nomatch hdoc
  have henter : ∀ a : MoveJob ℕ, a.id = "a" →
      Desk.ok (Desk.fresh.afterAsk 0) (.enter 0 someModels (toShelf "a.gguf") a true) := by
    intro a ha
    refine ⟨rfl, rfl, fun x hx => ?_⟩
    rw [Desk.afterAsk_asked hx]
    exact ⟨rfl, fun _ _ _ hq => absurd hq List.not_mem_nil⟩
  have hask' : ∀ a : MoveJob ℕ, a.id = "a" → Desk.ok (firstDone a) (.ask 1) := by
    rintro a ha id ⟨doc, hdoc, -⟩
    by_cases hid : id = a.id
    · simp [firstDone, Desk.started, hid]
    · simp [firstDone, Desk.started, Desk.fresh, Assoc.get_put, hid] at hdoc
  have henter' : ∀ a b : MoveJob ℕ, a.id = "a" → b.id = "b" →
      (firstDone a).busy = ["a.gguf"] →
      Desk.ok ((firstDone a).afterAsk 1) (.enter 1 someModels (toShelf "b.gguf") b true) := by
    intro a b ha hb hbusy
    have hne : b.id ≠ a.id := by rw [ha, hb]; decide
    refine ⟨?_, ?_, fun x hx => ?_⟩
    · simp [Desk.afterAsk, firstDone, Desk.started, Desk.fresh, Assoc.get_put, hne]
    · simp [Desk.afterAsk, firstDone, Desk.started, Desk.fresh, Assoc.get_put, hne]
    · rw [Desk.afterAsk_asked hx]
      refine ⟨rfl, ?_⟩
      simp only [hbusy]
      decide
  obtain ⟨s, a, b, hs, ha, hb, ⟨hao, hbo⟩, hap, hbp⟩ :=
    two_started (by decide) (by decide) hask henter hask' henter'
  exact ⟨s, a, b, hs, ⟨hap, hbp⟩, apart_kept hs (by decide) ha hb hao hbo⟩

/-- **A file inside a folder on the move is taken.** The folder is busy under its own path,
and the file's is another. -/
theorem inside_taken : ∃ (s : Desk ℕ) (a b : MoveJob ℕ), (Desk.system ℕ).Reachable s ∧
    Assoc.get s.jobs "a" = some a ∧ Assoc.get s.jobs "b" = some b ∧
    (a.finished = false ∧ b.finished = false) ∧
    ∃ p ∈ a.paths, ∃ q ∈ b.paths, Overlap p q := by
  obtain ⟨s, a, b, hs, ha, hb, ho, hap, hbp⟩ := two_started (p := "fam") (q := "fam/m.gguf")
    (c := fun _ _ => True) (by decide) (by decide) trivial
    (fun _ _ => trivial) (fun _ _ => trivial) fun _ _ _ _ _ => trivial
  refine ⟨s, a, b, hs, ha, hb, ho, "fam", by simp [hap], "fam/m.gguf", by simp [hbp], ?_⟩
  decide

end StoreMoves
