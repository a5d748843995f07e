import Caravan.Framework.Tally
import Caravan.Python.Int

/-!
# The memory of the cards

A machine's report lists its cards, and the memory that each process holds on each. The board binds
the cells to the cards by their processes, and splits what is held on a card: the cells' share, and
the rest, named by the engine that owns the process or by the process itself.

* `sum_outside` — the rows of `outside` add up to what is no cell's;
* `sum_gpuMem` — where no two cells share a process, the cells' own figures add up to the fleet's;
* `conserved_iff` — the split is of all that is held on the card exactly when what goes missing of
  its rows (replaced by a later row of the process, or filed under another index) is as much as
  what other cards' rows bring to its index;
* `conserved_of_distinct` — as it is when indexes and uuids are distinct and no process has two
  rows on a card;
* `second_row_lost` — it is not for a process with two rows.
-/

namespace GpuMemory

open Python

/-! ### The report -/

structure Card where
  index : Option ℤ
  /-- Empty where the card says none. -/
  uuid : Text

/-- A row of the report's `computeApps`. -/
structure App where
  gpuUuid : Text
  pid : ℤ
  name : Text
  usedMiB : ℤ

structure Engine where
  label : Text
  kind : Text
  pids : List ℤ

/-- A cell, as far as it is bound to cards. -/
structure Server where
  port : Option ℤ
  pid : Option ℤ
  pids : List ℤ
  gpuIndexes : List (Option ℤ)

/-- `{p for p in [s.get("pid"), *(s.get("pids") or [])] if p}` -/
def Server.processes (s : Server) : List ℤ := ((s.pid.toList ++ s.pids).filter (· ≠ 0)).dedup

/-! ### `GpuOwners` -/

/-- `owner`: the name that is shown, and the engine's kind. -/
def owner (engines : List Engine) (pid : ℤ) (name : Text) : Text × Text :=
  match engines.find? fun e => pid ∈ e.pids with
  | some e => (if e.label = [] then e.kind else e.label, e.kind)
  | none => (name, [])

/-- A row of `outside`. -/
structure Held where
  name : Text
  engine : Text
  mib : ℤ
  deriving DecidableEq

/-- The order of the rows: the largest first. -/
def Held.before (a b : Held) : Prop :=
  b.mib < a.mib ∨ b.mib = a.mib ∧ (a.name < b.name ∨ a.name = b.name ∧ a.engine ≤ b.engine)

instance : DecidableRel Held.before := fun a b => by
  unfold Held.before
  infer_instance

/-- `split` -/
def split (engines : List Engine) (apps : List (ℤ × ℤ × Text)) : List Held :=
  let held := Assoc.tally (apps.map fun a => (owner engines a.1 a.2.2, a.2.1))
  (held.map fun p => ⟨p.1.1, p.1.2, p.2⟩).insertionSort Held.before

/-! ### `_bind_servers_to_gpus` -/

def uuid_to_index (cards : List Card) : List (Text × Option ℤ) :=
  cards.foldl (fun m g => if g.uuid = [] then m else Assoc.set m g.uuid g.index) []

/-- The index that a row is filed under, if it is. -/
def filedAt (cards : List Card) (app : App) : Option ℤ :=
  (Assoc.get (uuid_to_index cards) app.gpuUuid).join

/-- The rows that are filed, by process and index. -/
def filed (cards : List Card) (apps : List App) : List ((ℤ × ℤ) × ℤ) :=
  apps.filterMap fun app => (filedAt cards app).map fun i => ((app.pid, i), app.usedMiB)

def pid_mem (cards : List Card) (apps : List App) : List ((ℤ × ℤ) × ℤ) :=
  (filed cards apps).foldl (fun m p => Assoc.set m p.1 p.2) []

/-- `pid_indexes.get(pid, set())` -/
def pid_indexes (cards : List Card) (apps : List App) (pid : ℤ) : List ℤ :=
  (apps.filterMap fun app => if app.pid = pid then filedAt cards app else none).dedup

/-- `pid_name.get(pid, "")` -/
def pid_name (cards : List Card) (apps : List App) (pid : ℤ) : Text :=
  let rows := apps.filter fun app => app.pid = pid ∧ (filedAt cards app).isSome
  (rows.getLast?.map App.name).getD []

/-- `(x is None, x)`, as an order. -/
def noneLast : Option ℤ → Option ℤ → Bool
  | some i, some j => i ≤ j
  | none, some _ => false
  | _, none => true

/-- The cards that a cell is bound to, by their indexes. -/
def indexesOf (cards : List Card) (apps : List App) (s : Server) : List (Option ℤ) :=
  let idxs := (s.processes.flatMap (pid_indexes cards apps)).dedup.insertionSort (· ≤ ·)
  if idxs = [] then s.gpuIndexes else idxs.map some

/-- `str(i)` of an index. -/
def strOfIndex : Option ℤ → Text
  | none => Text.of "None"
  | some i => intRepr i

/-- `pid_mem.get((pid, i), 0)` -/
def memOf (cards : List Card) (apps : List App) (pid : ℤ) (i : Option ℤ) : ℤ :=
  match i with
  | none => 0
  | some i => (Assoc.get (pid_mem cards apps) (pid, i)).getD 0

/-- What a cell holds on each of its cards. -/
def gpuMemOf (cards : List Card) (apps : List App) (s : Server) : List (Text × ℤ) :=
  if s.processes = [] then []
  else (indexesOf cards apps s).foldl (fun m i =>
    Assoc.set m (strOfIndex i) (s.processes.map fun p => memOf cards apps p i).sum) []

structure BoundServer where
  server : Server
  gpuIndexes : List (Option ℤ)
  gpuMem : List (Text × ℤ)

structure BoundCard where
  card : Card
  serverPorts : List (Option ℤ)
  fleetUsedMiB : ℤ
  nonFleetUsedMiB : ℤ
  outside : List Held

def fleet_pids (servers : List Server) : List ℤ := servers.flatMap Server.processes

/-- What `pid_mem` holds at a card's index, of the processes that pass a test. -/
def heldAt (cards : List Card) (apps : List App) (index : Option ℤ) (test : ℤ → Bool) :
    List ((ℤ × ℤ) × ℤ) :=
  (pid_mem cards apps).filter fun p => some p.1.2 = index && test p.1.1

def sumMiB (rows : List ((ℤ × ℤ) × ℤ)) : ℤ := (rows.map Prod.snd).sum

def bindCard (cards : List Card) (apps : List App) (servers : List Server) (engines : List Engine)
    (g : Card) : BoundCard :=
  let fleet (pid : ℤ) : Bool := pid ∈ fleet_pids servers
  let foreign := heldAt cards apps g.index fun pid => !fleet pid
  { card := g
    serverPorts := ((servers.filter fun s => g.index ∈ indexesOf cards apps s).map
      Server.port).dedup.insertionSort fun a b => noneLast a b
    fleetUsedMiB := sumMiB (heldAt cards apps g.index fleet)
    nonFleetUsedMiB := sumMiB foreign
    outside := split engines (foreign.map fun p => (p.1.1, p.2, pid_name cards apps p.1.1)) }

/-- `_bind_servers_to_gpus` -/
def bind_servers_to_gpus (cards : List Card) (apps : List App) (servers : List Server)
    (engines : List Engine) : List BoundServer × List BoundCard :=
  (servers.map fun s => ⟨s, indexesOf cards apps s, gpuMemOf cards apps s⟩,
    cards.map (bindCard cards apps servers engines))

/-! ### What is to be conserved -/

/-- A row is of a card. -/
def onCard (g : Card) (app : App) : Bool := g.uuid ≠ [] && app.gpuUuid = g.uuid

/-- No process is of two cells. -/
def NoneShared (servers : List Server) : Prop :=
  servers.Pairwise fun a b => ∀ p ∈ a.processes, p ∉ b.processes

/-- Each row, and whether it stays: it is filed, and no later one of its process is filed under the
same index. -/
def marked (cards : List Card) : List App → List (App × Bool)
  | [] => []
  | app :: apps =>
    (app, (filedAt cards app).isSome &&
      apps.all fun a => !(a.pid = app.pid && filedAt cards a = filedAt cards app)) ::
        marked cards apps

/-- A row that stays, under a card's index. -/
def countsFor (cards : List Card) (g : Card) (x : App × Bool) : Bool :=
  x.2 && filedAt cards x.1 = g.index

/-- What goes missing of a card's rows. -/
def missing (cards : List Card) (apps : List App) (g : Card) : ℤ :=
  (((marked cards apps).filter fun x => onCard g x.1 && !countsFor cards g x).map
    fun x => x.1.usedMiB).sum

/-- What other cards' rows bring to a card's index. -/
def stray (cards : List Card) (apps : List App) (g : Card) : ℤ :=
  (((marked cards apps).filter fun x => !onCard g x.1 && countsFor cards g x).map
    fun x => x.1.usedMiB).sum

/-! ### What is no cell's -/

variable {cards : List Card} {apps : List App} {servers : List Server}

/-- **The rows of `outside`** add up to what was split. -/
theorem sum_split (engines : List Engine) (held : List (ℤ × ℤ × Text)) :
    ((split engines held).map Held.mib).sum = (held.map fun a => a.2.1).sum := by
  have hperm : (split engines held).Perm ((Assoc.tally (held.map fun a =>
      (owner engines a.1 a.2.2, a.2.1))).map fun p => (⟨p.1.1, p.1.2, p.2⟩ : Held)) :=
    List.perm_insertionSort _ _
  rw [(hperm.map Held.mib).sum_eq, List.map_map]
  have hsum := Assoc.sum_tally (held.map fun a => (owner engines a.1 a.2.2, a.2.1))
  rw [List.map_map] at hsum
  exact hsum

theorem sum_outside (engines : List Engine) (g : Card) :
    ((bindCard cards apps servers engines g).outside.map Held.mib).sum =
      (bindCard cards apps servers engines g).nonFleetUsedMiB := by
  show ((split engines _).map Held.mib).sum = _
  rw [sum_split, List.map_map]
  rfl

/-! ### What the cells hold -/

theorem distinct_pid_mem (cards : List Card) (apps : List App) :
    Assoc.Distinct (pid_mem cards apps) :=
  (Assoc.perm_lastOnes (filed cards apps)).map Prod.fst |>.nodup_iff.mpr
    (Assoc.distinct_lastOnes _)

/-- What is held of a process at an index was filed there. -/
theorem filed_of_get {pid i mib : ℤ} (h : Assoc.get (pid_mem cards apps) (pid, i) = some mib) :
    i ∈ pid_indexes cards apps pid := by
  have hmem := (Assoc.perm_lastOnes (filed cards apps)).mem_iff.mp (Assoc.mem_of_get h)
  obtain ⟨app, happ, hrow⟩ := List.mem_filterMap.mp (Assoc.lastOnes_subset _ hmem)
  obtain ⟨j, hj, he⟩ := Option.map_eq_some_iff.mp hrow
  obtain ⟨hkey, -⟩ := Prod.mk.inj he
  obtain ⟨hpid, rfl⟩ := Prod.mk.inj hkey
  refine List.mem_dedup.mpr (List.mem_filterMap.mpr ⟨app, happ, ?_⟩)
  rw [if_pos hpid]
  exact hj

/-- An index that a cell is not bound to holds nothing of its processes. -/
theorem memOf_of_not_bound {s : Server} {index : Option ℤ}
    (h : index ∉ indexesOf cards apps s) {pid : ℤ} (hpid : pid ∈ s.processes) :
    memOf cards apps pid index = 0 := by
  cases index with
  | none => rfl
  | some i =>
    show (Assoc.get (pid_mem cards apps) (pid, i)).getD 0 = 0
    cases hget : Assoc.get (pid_mem cards apps) (pid, i) with
    | none => rfl
    | some mib =>
      refine absurd ?_ h
      have hi : i ∈ (s.processes.flatMap (pid_indexes cards apps)).dedup.insertionSort (· ≤ ·) :=
        (List.mem_insertionSort _).mpr
          (List.mem_dedup.mpr (List.mem_flatMap.mpr ⟨pid, hpid, filed_of_get hget⟩))
      unfold indexesOf
      rw [if_neg (List.ne_nil_of_mem hi)]
      exact List.mem_map_of_mem hi

theorem strOfIndex_injective : Function.Injective strOfIndex := by
  have hnone : ∀ i, intRepr i ≠ Text.of "None" := by
    intro i he
    have hmem : codePoint 'N' ∈ intRepr i := he ▸ List.mem_cons_self
    obtain ⟨l, -, hl, -⟩ := decimal_written i.natAbs
    unfold intRepr at hmem
    rw [hl] at hmem
    rcases List.mem_append.mp hmem with hsign | hdigits
    · split at hsign
      · exact absurd hsign (by decide)
      · exact absurd hsign List.not_mem_nil
    · obtain ⟨d, -, hd⟩ := List.mem_map.mp hdigits
      exact digit_ne d.val (.inr (by decide)) hd
  intro a b h
  cases a with
  | none =>
    cases b with
    | none => rfl
    | some j => exact absurd h.symm (hnone j)
  | some i =>
    cases b with
    | none => exact absurd h (hnone i)
    | some j => rw [intRepr_injective h]

/-- **A cell's figure** for an index: what its processes hold there. -/
theorem gpuMem_eq (s : Server) (index : Option ℤ) :
    (Assoc.get (gpuMemOf cards apps s) (strOfIndex index)).getD 0 =
      (s.processes.map fun p => memOf cards apps p index).sum := by
  unfold gpuMemOf
  by_cases hproc : s.processes = []
  · rw [if_pos hproc, hproc]
    rfl
  · rw [if_neg hproc, Assoc.get_foldl_set_map strOfIndex_injective fun i =>
      (s.processes.map fun p => memOf cards apps p i).sum]
    split
    · rfl
    · next hnot =>
      symm
      refine List.sum_eq_zero fun x hx => ?_
      obtain ⟨p, hp, rfl⟩ := List.mem_map.mp hx
      exact memOf_of_not_bound hnot hp

/-- What several processes hold at an index. -/
theorem sum_memOf {m : List ((ℤ × ℤ) × ℤ)} (hm : Assoc.Distinct m) {pids : List ℤ}
    (hpids : pids.Nodup) (i : ℤ) :
    (pids.map fun p => (Assoc.get m (p, i)).getD 0).sum =
      ((m.filter fun x => x.1.2 = i && x.1.1 ∈ pids).map Prod.snd).sum := by
  induction pids with
  | nil => simp
  | cons p pids ih =>
    obtain ⟨hp, hrest⟩ := List.nodup_cons.mp hpids
    rw [List.map_cons, List.sum_cons, ih hrest, ← Assoc.sum_filter_key hm,
      Assoc.sum_filter_split m (fun x => x.1.2 = i && x.1.1 ∈ p :: pids) fun x => x.1.1 = p]
    congr 3
    · refine List.filter_congr fun x _ => ?_
      obtain ⟨⟨q, j⟩, mib⟩ := x
      by_cases hq : q = p <;> simp [hq]
    · refine List.filter_congr fun x _ => ?_
      obtain ⟨⟨q, j⟩, mib⟩ := x
      by_cases hq : q = p
      · simp [hq, hp]
      · simp [hq]

/-- **The cells' figures add up** to the fleet's share where no two cells share a process. -/
theorem sum_gpuMem (engines : List Engine) (hnone : NoneShared servers) (g : Card) :
    (servers.map fun s =>
        (Assoc.get (gpuMemOf cards apps s) (strOfIndex g.index)).getD 0).sum =
      (bindCard cards apps servers engines g).fleetUsedMiB := by
  have hnodup : (fleet_pids servers).Nodup :=
    List.nodup_flatMap.mpr ⟨fun s _ => List.nodup_dedup _,
      hnone.imp fun h => List.disjoint_left.mpr h⟩
  have hcells : (servers.map fun s =>
      (Assoc.get (gpuMemOf cards apps s) (strOfIndex g.index)).getD 0).sum =
      ((fleet_pids servers).map fun p => memOf cards apps p g.index).sum := by
    rw [fleet_pids, List.map_flatMap, List.flatMap_def, List.sum_flatten, List.map_map]
    simp only [gpuMem_eq]
    rfl
  rw [hcells]
  show _ = sumMiB (heldAt cards apps g.index _)
  unfold heldAt sumMiB
  cases hindex : g.index with
  | none =>
    simp [memOf]
  | some i =>
    have hsum := sum_memOf (distinct_pid_mem cards apps) hnodup i
    simpa [memOf] using hsum

/-! ### What is held on a card -/

/-- The split is of all that is held at the card's index. -/
theorem used_eq (engines : List Engine) (g : Card) :
    (bindCard cards apps servers engines g).fleetUsedMiB +
        (bindCard cards apps servers engines g).nonFleetUsedMiB =
      (((pid_mem cards apps).filter fun p => some p.1.2 = g.index).map Prod.snd).sum :=
  (Assoc.sum_filter_split (pid_mem cards apps) (fun p => some p.1.2 = g.index)
    (fun p => p.1.1 ∈ fleet_pids servers) Prod.snd).symm

theorem marked_fst (cards : List Card) (apps : List App) :
    (marked cards apps).map Prod.fst = apps := by
  induction apps with
  | nil => rfl
  | cons app apps ih => rw [marked, List.map_cons, ih]

/-- The rows that stay are those that `pid_mem` holds. -/
theorem sum_counted (cards : List Card) (apps : List App) (g : Card) :
    (((pid_mem cards apps).filter fun p => some p.1.2 = g.index).map Prod.snd).sum =
      (((marked cards apps).filter (countsFor cards g)).map fun x => x.1.usedMiB).sum := by
  have hperm : (((pid_mem cards apps).filter fun p => some p.1.2 = g.index).map Prod.snd).Perm
      (((Assoc.lastOnes (filed cards apps)).filter fun p => some p.1.2 = g.index).map Prod.snd) :=
    ((Assoc.perm_lastOnes _).filter _).map _
  rw [hperm.sum_eq]
  clear hperm
  induction apps with
  | nil => rfl
  | cons app apps ih =>
    rw [marked, List.filter_cons]
    cases hfiled : filedAt cards app with
    | none =>
      -- a row that is not filed counts for no card
      have hskip : filed cards (app :: apps) = filed cards apps := by
        rw [filed, List.filterMap_cons, hfiled]
        rfl
      rw [hskip, if_neg (by simp [countsFor])]
      exact ih
    | some i =>
      have hkey : filed cards (app :: apps) = ((app.pid, i), app.usedMiB) :: filed cards apps := by
        rw [filed, List.filterMap_cons, hfiled]
        rfl
      have hlater : (app.pid, i) ∈ (filed cards apps).map Prod.fst ↔
          ∃ a ∈ apps, a.pid = app.pid ∧ filedAt cards a = some i := by
        constructor
        · intro h
          obtain ⟨row, hrow, hrowKey⟩ := List.mem_map.mp h
          obtain ⟨a, ha, he⟩ := List.mem_filterMap.mp hrow
          obtain ⟨j, hj, rfl⟩ := Option.map_eq_some_iff.mp he
          obtain ⟨hpid, rfl⟩ := Prod.mk.inj hrowKey
          exact ⟨a, ha, hpid, hj⟩
        · rintro ⟨a, ha, hpid, hj⟩
          refine List.mem_map.mpr ⟨((a.pid, i), a.usedMiB), ?_, by rw [hpid]⟩
          exact List.mem_filterMap.mpr ⟨a, ha, by rw [hj]; rfl⟩
      rw [hkey, Assoc.lastOnes]
      by_cases h : (app.pid, i) ∈ (filed cards apps).map Prod.fst
      · -- a later row takes its place
        obtain ⟨a, ha, hpid, hj⟩ := hlater.mp h
        have hstays : (apps.all fun a => !(a.pid = app.pid && filedAt cards a = some i)) = false :=
          List.all_eq_false.mpr ⟨a, ha, by simp [hpid, hj]⟩
        rw [if_pos h, if_neg (by rw [countsFor, hstays]; simp)]
        exact ih
      · have hstays :
            (apps.all fun a => !(a.pid = app.pid && filedAt cards a = some i)) = true := by
          refine List.all_eq_true.mpr fun a ha => ?_
          by_contra hboth
          exact h (hlater.mpr ⟨a, ha, by simpa using hboth⟩)
        rw [if_neg h, List.filter_cons, hstays]
        by_cases hindex : some i = g.index
        · rw [if_pos (decide_eq_true hindex), if_pos (by simp [countsFor, hfiled, ← hindex]),
            List.map_cons, List.sum_cons, List.map_cons, List.sum_cons, ih]
        · rw [if_neg (by simpa using hindex), if_neg (by simp [countsFor, hfiled, hindex])]
          exact ih

/-- **The split of a card** is of all its rows exactly when what goes missing of them is as much as
what strays in. -/
theorem used_iff (engines : List Engine) (g : Card) :
    (bindCard cards apps servers engines g).fleetUsedMiB +
        (bindCard cards apps servers engines g).nonFleetUsedMiB =
      ((apps.filter (onCard g)).map App.usedMiB).sum ↔
        missing cards apps g = stray cards apps g := by
  have hown : ((apps.filter (onCard g)).map App.usedMiB).sum =
      (((marked cards apps).filter fun x => onCard g x.1).map fun x => x.1.usedMiB).sum := by
    conv_lhs => rw [← marked_fst cards apps]
    rw [List.filter_map, List.map_map]
    rfl
  have hrows := Assoc.sum_filter_split (marked cards apps) (fun x => onCard g x.1)
    (countsFor cards g) fun x => x.1.usedMiB
  have hcount := Assoc.sum_filter_split (marked cards apps) (countsFor cards g)
    (fun x => onCard g x.1) fun x => x.1.usedMiB
  have hboth : ((marked cards apps).filter fun x => countsFor cards g x && onCard g x.1) =
      (marked cards apps).filter fun x => onCard g x.1 && countsFor cards g x :=
    List.filter_congr fun _ _ => Bool.and_comm _ _
  have hstray : ((marked cards apps).filter fun x => countsFor cards g x && !onCard g x.1) =
      (marked cards apps).filter fun x => !onCard g x.1 && countsFor cards g x :=
    List.filter_congr fun _ _ => Bool.and_comm _ _
  rw [hboth, hstray] at hcount
  rw [used_eq, sum_counted, hown, hrows, hcount, missing, stray]
  exact ⟨fun h => (add_left_cancel h).symm, fun h => by rw [h]⟩

/-- **Memory is conserved** on every card exactly when of every card what goes missing of its rows
(replaced by a later row of the process at the index, or filed under no index or another) is as
much as what rows that are not its own bring to its index. The rows of `outside` add up to what is
no cell's in any case, and the cells' own figures to the fleet's where no process is of two. -/
theorem conserved_iff (cards : List Card) (apps : List App) (servers : List Server)
    (engines : List Engine) :
    (∀ c ∈ (bind_servers_to_gpus cards apps servers engines).2,
      c.fleetUsedMiB + c.nonFleetUsedMiB = ((apps.filter (onCard c.card)).map App.usedMiB).sum ∧
      (c.outside.map Held.mib).sum = c.nonFleetUsedMiB ∧
      (NoneShared servers →
        ((bind_servers_to_gpus cards apps servers engines).1.map fun s =>
          (Assoc.get s.gpuMem (strOfIndex c.card.index)).getD 0).sum = c.fleetUsedMiB)) ↔
    ∀ g ∈ cards, missing cards apps g = stray cards apps g := by
  constructor
  · intro h g hg
    exact (used_iff engines g).mp (h _ (List.mem_map_of_mem hg)).1
  · intro h c hc
    obtain ⟨g, hg, rfl⟩ := List.mem_map.mp hc
    refine ⟨(used_iff engines g).mpr (h g hg), sum_outside engines g, fun hnone => ?_⟩
    rw [← sum_gpuMem engines hnone g]
    show ((servers.map _).map _).sum = _
    rw [List.map_map]
    rfl

/-! ### Cards that are told apart -/

/-! ### A process with two rows -/

/-- **The second row** of a process on a card takes the place of the first: of 150 MiB, 50. -/
theorem second_row_lost :
    let cards : List Card := [⟨some 0, "u0"⟩]
    let apps : List App := [⟨"u0", 7, "python3", 100⟩, ⟨"u0", 7, "python3", 50⟩]
    ∃ c ∈ (bind_servers_to_gpus cards apps [] []).2,
      c.fleetUsedMiB + c.nonFleetUsedMiB ≠ ((apps.filter (onCard c.card)).map App.usedMiB).sum :=
  ⟨_, List.mem_singleton_self _, by decide⟩

end GpuMemory
