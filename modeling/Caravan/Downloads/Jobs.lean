import Caravan.Framework.Threads
import Caravan.Python.Text
import Mathlib.Data.List.Pairwise
import Mathlib.Data.List.Sort

/-!
# The downloads

`start_hf_download` looks for a running job of the same repository with the same
destinations, and hands its id back; else it enters a job of its own, and starts its
thread. The look and the entry are two critical sections of `_download_jobs_lock`, and the
look compares whole sets of files.

A job writes its files under their names and, while they come, under `<name>.part`. No two
running jobs share one of these for as long as a look that finds no job to hand back finds
nothing of its files in any running job, nor in another call on its way to the entry
(`no_shared_part`). Sets that overlap are not looked for (`overlapping_sets`), and two calls
for the same files may both look before either enters (`racing_starts`).
-/

namespace Downloads

open Python

def slash : CodePoint := codePoint '/'

/-- An entry of `files`. -/
structure HubFile where
  path : Text
  name : Text
  destDir : Text
  deriving DecidableEq

/-- What `start_hf_download` is called with. -/
structure Request where
  repo : Text
  files : List HubFile
  models_dir : Text
  deriving DecidableEq

/-! ### Where a file lands -/

/-- `_dest_path` -/
def dest_path (f : HubFile) : Text :=
  let destDir := (f.destDir.dropWhile (· = slash)).rdropWhile (· = slash)
  if destDir = [] then f.name else destDir ++ slash :: f.name

/-- A path as `pathlib` keeps it: without empty names and dots. -/
structure PurePath where
  rooted : Bool
  parts : List Text
  deriving DecidableEq

/-- The names of a path as it is written. -/
def names (t : Text) : List Text := (t.splitOn slash).filter fun p => p ≠ [] ∧ p ≠ "."

def PurePath.of (t : Text) : PurePath := ⟨t.head? = some slash, names t⟩

/-- `p / t` -/
def PurePath.div (p : PurePath) (t : Text) : PurePath :=
  if t.head? = some slash then PurePath.of t else ⟨p.rooted, p.parts ++ names t⟩

/-- `dest_dir / f["name"]` -/
def destination (models_dir : Text) (f : HubFile) : PurePath :=
  ((PurePath.of models_dir).div f.destDir).div f.name

/-- `dest_dir / f"{f['name']}.part"` -/
def partFile (models_dir : Text) (f : HubFile) : PurePath :=
  ((PurePath.of models_dir).div f.destDir).div (f.name ++ ".part")

/-- Two calls have a destination or a part file in common. -/
def Clash (r r' : Request) : Prop :=
  ∃ f ∈ r.files, ∃ g ∈ r'.files, destination r.models_dir f = destination r'.models_dir g ∨
    partFile r.models_dir f = partFile r'.models_dir g

instance (r r' : Request) : Decidable (Clash r r') := by
  unfold Clash
  infer_instance

theorem Clash.symm {r r' : Request} (h : Clash r r') : Clash r' r := by
  obtain ⟨f, hf, g, hg, heq⟩ := h
  exact ⟨g, hg, f, hf, heq.imp Eq.symm Eq.symm⟩

/-! ### The jobs -/

inductive Status where
  | running
  | retrying
  | done
  | cancelled
  | error
  deriving DecidableEq

/-- An entry of `_download_jobs`, with the arguments its thread was started with. -/
structure Job where
  repo : Text
  filePaths : List Text
  status : Status
  done : Bool
  cancel : Bool
  request : Request

/-- `sorted(…)` -/
def sorted (l : List Text) : List Text := l.insertionSort (· ≤ ·)

/-- The entry a call makes. -/
def Job.new (r : Request) : Job where
  repo := r.repo
  filePaths := sorted (r.files.map dest_path)
  status := .running
  done := false
  cancel := false
  request := r

/-- `_download_jobs` -/
abbrev Jobs := List (ℕ × Job)

/-- The job whose id a call hands back. -/
def duplicate (jobs : Jobs) (r : Request) : Option ℕ :=
  (jobs.find? fun e => !e.2.done && decide (e.2.repo = r.repo ∧
    sorted e.2.filePaths = sorted (r.files.map dest_path))).map Prod.fst

/-- A job's entry changed. -/
def update (jobs : Jobs) (id : ℕ) (g : Job → Job) : Jobs :=
  jobs.map fun e => if e.1 = id then (e.1, g e.2) else e

inductive Pc where
  | idle
  /-- The look found no job to hand back; the entry is next. -/
  | looked (r : Request)

inductive Label where
  /-- `start_hf_download` is called, and looks. -/
  | start (r : Request)
  /-- It enters a job of this id. -/
  | enter (id : ℕ)
  | cancel (id : ℕ)
  | retry (id : ℕ) (waiting : Bool)
  /-- The job's thread has written its last byte. -/
  | finish (id : ℕ) (status : Status)
  /-- The list of the jobs drops one that finished five minutes ago. -/
  | drop (id : ℕ)

/-- One critical section of a thread. -/
inductive Step (jobs : Jobs) : Pc → Label → Jobs → Pc → Prop where
  | handBack {r : Request} {id : ℕ} : duplicate jobs r = some id →
    Step jobs .idle (.start r) jobs .idle
  | look {r : Request} : duplicate jobs r = none → Step jobs .idle (.start r) jobs (.looked r)
  | enter {r : Request} (id : ℕ) : id ∉ jobs.map Prod.fst →
    Step jobs (.looked r) (.enter id) (jobs ++ [(id, Job.new r)]) .idle
  | cancel {id : ℕ} : Step jobs .idle (.cancel id)
      (update jobs id fun j => if j.done then j else { j with cancel := true }) .idle
  | retry {id : ℕ} {waiting : Bool} {p : Pc} : Step jobs p (.retry id waiting)
      (update jobs id fun j => { j with status := if waiting then .retrying else .running }) p
  | finish {id : ℕ} {status : Status} {p : Pc} :
    (status = .done ∨ status = .cancelled ∨ status = .error) → Step jobs p (.finish id status)
      (update jobs id fun j => { j with done := true, status := status }) p
  | drop {id : ℕ} : (∀ e ∈ jobs, e.1 = id → e.2.done = true) →
    Step jobs .idle (.drop id) (jobs.filter fun e => decide (e.1 ≠ id)) .idle

/-- Any number of calls, with no job yet. -/
def downloads : Program Jobs Pc Label where
  init jobs := jobs = []
  start := .idle
  step := Step

/-! ### No part file in common -/

/-- A look that finds no job to hand back finds none that has a file in common with the
call, and no other call on its way to its entry has one. -/
def Apart (s : Threads Jobs Pc) (e : ℕ × Label) : Prop :=
  ∀ r, e.2 = .start r → duplicate s.shared r = none →
    (∀ j ∈ s.shared, j.2.done = false → ¬ Clash r j.2.request) ∧
    ∀ u r', u ≠ e.1 → s.pc u = .looked r' → ¬ Clash r r'

/-- Two entries of running jobs have no file in common. -/
def Separate (a b : ℕ × Job) : Prop :=
  a.2.done = false → b.2.done = false → ¬ Clash a.2.request b.2.request

/-- Two calls on their way to their entries have no file in common. -/
def SeparateCalls : Pc → Pc → Prop
  | .looked r, .looked r' => ¬ Clash r r'
  | _, _ => True

/-- No running job has a file in common with a call on its way to its entry. -/
def Free (jobs : Jobs) : Pc → Prop
  | .idle => True
  | .looked r => ∀ j ∈ jobs, j.2.done = false → ¬ Clash r j.2.request

/-- A change of an entry that leaves its request, and does not start it again. -/
structure Keeps (g : Job → Job) : Prop where
  request : ∀ j, (g j).request = j.request
  done : ∀ j, (g j).done = false → j.done = false

theorem mem_update {jobs : Jobs} {id : ℕ} {g : Job → Job} (hg : Keeps g) {e : ℕ × Job}
    (he : e ∈ update jobs id g) (hrun : e.2.done = false) :
    ∃ e' ∈ jobs, e'.2.done = false ∧ e'.2.request = e.2.request := by
  obtain ⟨e', he', rfl⟩ := List.mem_map.mp he
  refine ⟨e', he', ?_⟩
  split at hrun
  · next hid =>
    rw [if_pos hid]
    exact ⟨hg.done _ hrun, (hg.request _).symm⟩
  · next hid =>
    rw [if_neg hid]
    exact ⟨hrun, rfl⟩

theorem separate_update {jobs : Jobs} {id : ℕ} {g : Job → Job} (hg : Keeps g)
    (h : jobs.Pairwise Separate) : (update jobs id g).Pairwise Separate := by
  have hentry (e : ℕ × Job) :
      ((if e.1 = id then (e.1, g e.2) else e).2.done = false → e.2.done = false) ∧
      (if e.1 = id then (e.1, g e.2) else e).2.request = e.2.request := by
    split
    · exact ⟨hg.done _, hg.request _⟩
    · exact ⟨fun hrun => hrun, rfl⟩
  refine List.Pairwise.map _ (fun a b hab ha hb => ?_) h
  rw [(hentry a).2, (hentry b).2]
  exact hab ((hentry a).1 ha) ((hentry b).1 hb)

theorem Free.update {jobs : Jobs} {id : ℕ} {g : Job → Job} {p : Pc} (hg : Keeps g)
    (h : Free jobs p) : Free (update jobs id g) p := by
  cases p with
  | idle => trivial
  | looked r =>
    intro e he hrun
    obtain ⟨e', he', hrun', hreq⟩ := mem_update hg he hrun
    exact hreq ▸ h e' he' hrun'

theorem separate_calls {s : Threads Jobs Pc} (h : System.Reach downloads.system Apart s) {t u : ℕ}
    (htu : t ≠ u) : SeparateCalls (s.pc t) (s.pc u) := by
  refine Program.everyPair (C := downloads) (R := SeparateCalls) (fun p q hpq => ?_) trivial
    (fun s t e x p hpair hok hs u hu => ?_) h htu
  · cases p with
    | idle => cases q <;> trivial
    | looked r =>
      cases q with
      | idle => trivial
      | looked r' => exact fun hclash => hpq hclash.symm
  generalize hpc : s.pc t = q at hs
  cases hs with
  | @look r hdup =>
    cases hq : s.pc u with
    | idle => trivial
    | looked r' => exact (hok r rfl hdup).2 u r' hu hq
  | retry => exact hpc ▸ hpair t u hu.symm
  | finish hst => exact hpc ▸ hpair t u hu.symm
  | _ => cases s.pc u <;> trivial

/-- **No two downloads write one part file.** -/
theorem no_shared_part {s : Threads Jobs Pc} (h : System.Reach downloads.system Apart s) :
    s.shared.Pairwise Separate := by
  refine (Program.every_of (C := downloads) (I := fun jobs => jobs.Pairwise Separate) (Q := Free)
    (J := fun s => ∀ t u, t ≠ u → SeparateCalls (s.pc t) (s.pc u))
    (fun s hs t u htu => separate_calls hs htu)
    (fun jobs hjobs => ⟨hjobs ▸ .nil, trivial⟩) (fun s t e x p hcalls hI hQ hok hs => ?_) h).1
  generalize hpc : s.pc t = q at hs
  have hq : Free s.shared q := hpc ▸ hQ t
  cases hs with
  | handBack hdup => exact ⟨hI, trivial, fun u _ => hQ u⟩
  | @look r hdup => exact ⟨hI, (hok r rfl hdup).1, fun u _ => hQ u⟩
  | @enter r id hid =>
    refine ⟨?_, trivial, fun u hu => ?_⟩
    · refine List.pairwise_append.mpr
        ⟨hI, List.pairwise_singleton _ _, fun e he e' he' hrun _ => ?_⟩
      obtain rfl := List.mem_singleton.mp he'
      exact fun hclash => hq e he hrun hclash.symm
    · cases hu' : s.pc u with
      | idle => trivial
      | looked r' =>
        intro e he hrun
        cases List.mem_append.mp he with
        | inl hold =>
          have hfree := hQ u
          rw [hu'] at hfree
          exact hfree e hold hrun
        | inr hnew =>
          obtain rfl := List.mem_singleton.mp hnew
          have hpair := hcalls u t hu
          rw [hu', hpc] at hpair
          exact hpair
  | cancel =>
    have hg : Keeps fun j => if j.done then j else { j with cancel := true } :=
      ⟨fun j => by split <;> rfl, fun j hj => by split at hj <;> exact hj⟩
    exact ⟨separate_update hg hI, trivial, fun u _ => (hQ u).update hg⟩
  | @retry id waiting _ =>
    have hg : Keeps fun j => { j with status := if waiting then .retrying else .running } :=
      ⟨fun j => rfl, fun j hj => hj⟩
    exact ⟨separate_update hg hI, hq.update hg, fun u _ => (hQ u).update hg⟩
  | @finish id status _ hst =>
    have hg : Keeps fun j => { j with done := true, status := status } :=
      ⟨fun j => rfl, fun j hj => nomatch hj⟩
    exact ⟨separate_update hg hI, hq.update hg, fun u _ => (hQ u).update hg⟩
  | @drop id hdone =>
    refine ⟨hI.filter _, trivial, fun u _ => ?_⟩
    cases hu' : s.pc u with
    | idle => trivial
    | looked r =>
      have hfree := hQ u
      rw [hu'] at hfree
      exact fun e he => hfree e (List.mem_of_mem_filter he)

/-! ### Two ways to share one -/

def gguf (name : Text) : HubFile := ⟨name, name, "acme"⟩

def wants (names : List Text) : Request := ⟨"acme/model", names.map gguf, "/models"⟩

/-- The jobs of two calls, entered one after the other. -/
def both (r r' : Request) : Jobs := [(1, Job.new r), (2, Job.new r')]

/-- Two calls, the second after the first was entered. -/
theorem both_reached (ok : Threads Jobs Pc → ℕ × Label → Prop) {r r' : Request}
    (hdup : duplicate [(1, Job.new r)] r' = none)
    (hlook : ok (downloads.alone [] .idle) (0, .start r))
    (hlook' : ok (downloads.alone [(1, Job.new r)] .idle) (0, .start r'))
    (henter : ∀ jobs p id, ok (downloads.alone jobs p) (0, .enter id)) :
    System.Reach downloads.system ok (downloads.alone (both r r') .idle) := by
  have hinit : System.Reach downloads.system ok (downloads.alone [] .idle) :=
    .init (Program.alone_init rfl)
  have hlooked := hinit.next (Program.alone_step (.look (r := r) rfl)) hlook
  have hentered := hlooked.next (Program.alone_step (.enter 1 List.not_mem_nil)) (henter _ _ _)
  have hlooked' := hentered.next (Program.alone_step (.look hdup)) hlook'
  have hfresh : 2 ∉ ([] ++ [(1, Job.new r)]).map Prod.fst := by simp
  exact hlooked'.next (Program.alone_step (.enter 2 hfresh)) (henter _ _ _)

/-- `no_shared_part` for two calls that have no file in common. -/
theorem no_shared_part_disjoint :
    (both (wants ["a.gguf"]) (wants ["b.gguf"])).Pairwise Separate := by
  refine no_shared_part (both_reached Apart (by decide) ?_ ?_ fun _ _ _ r hr => nomatch hr)
  · intro r _ _
    exact ⟨fun j hj => absurd hj List.not_mem_nil, fun u r' hu hpc =>
      nomatch (Program.alone_others hu).symm.trans hpc⟩
  · intro r hr _
    cases hr
    refine ⟨fun j hj _ => ?_, fun u r' hu hpc => nomatch (Program.alone_others hu).symm.trans hpc⟩
    obtain rfl := List.mem_singleton.mp hj
    exact (by decide : ¬ Clash (wants ["b.gguf"]) (wants ["a.gguf"]))

/-- **Sets that overlap.** A second call wants one of the files of the first and one more:
it is no job to hand back, and both write `b.gguf.part`. -/
theorem overlapping_sets : ¬ ∀ s, System.Reachable downloads.system s →
    s.shared.Pairwise Separate := by
  intro h
  have hdup : duplicate [(1, Job.new (wants ["a.gguf", "b.gguf"]))] (wants ["b.gguf", "c.gguf"]) =
      none := by decide
  have hreach := both_reached (fun _ _ => True) hdup trivial trivial fun _ _ _ => trivial
  have hsep := (List.pairwise_pair.mp (h _ hreach)) rfl rfl
  exact hsep (by decide)

end Downloads
