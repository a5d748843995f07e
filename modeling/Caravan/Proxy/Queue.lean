import Mathlib.Data.Finset.Basic
import Mathlib.Data.List.Sort
import Caravan.Framework.System

/-!
# The queue of the proxy

One queue per upstream group. `wait_for_proxy_slot` puts an entry into
`pending_requests` and polls until it stands first in its group and the group has room;
how many requests a group serves is not kept anywhere but counted (`active_count`) from
the in-flight items, their phases and the set of admitted ids.

The state is what the threads of the proxy share, and for each request where its own
thread stands in `proxy` (`Thread.pc`). A step is one critical section: the state between
two holds of a lock is a state of the run. A poll is one step, since `queue_condition` is
held from the position to the admission; `finish_active` is two (`finish`, `release`),
since it lets one lock go before it takes the other.

Of what a request says only one thing matters here, whether the state file can be written
with it (`writable`): a write that raises leaves the thread where no `except` of `proxy`
waits for it. Two fields are not in the source and no step reads them: `Thread.on`, the
group a request was admitted to and has not left, and `State.held`, the reservations as
they were made.
-/

namespace Proxy.Queue

/-- What an in-flight item says of its request. -/
inductive Phase where
  | queued | received | upstream | streaming | reading | preempting
  deriving DecidableEq, Repr

/-- One of the `active` of a port. -/
structure Item (P G : Type) where
  id : ℕ
  port : P
  /-- The stamp, `route_group_key` of the route at the time. -/
  upstream : G
  phase : Phase
  writable : Bool

/-- One of `pending_requests`. -/
structure Entry (P G : Type) where
  id : ℕ
  port : P
  group : G
  seq : ℕ

/-- One of `sticky_slots`. -/
structure Reservation (P : Type) where
  port : P
  expiresAt : ℕ
  deriving DecidableEq

/-- Whose wait it is: the route's own, or that of a pool's leg to a cell. -/
inductive Place where
  | main | leg
  deriving DecidableEq, Repr

/-- How a wait ends without an admission. -/
inductive Exit where
  /-- `ProxyQueueSpill` -/
  | spill
  /-- `ProxyCloudFallback` -/
  | fallback
  /-- `ProxyRequestBlocked`, `ProxyClientDisconnected` -/
  | refused
  /-- An exception that is not the proxy's own. -/
  | failed
  deriving DecidableEq, Repr

/-- The preemption of one wait: `preemptTried`, and the grace given to the victim. -/
inductive Preempt where
  | untried | grace | tried
  deriving DecidableEq, Repr

/-- Where a request's thread stands in `proxy`. -/
inductive Pc where
  /-- Before `wait_for_proxy_slot`. -/
  | queueing (at_ : Place)
  | waiting (at_ : Place)
  /-- An exception is on its way out of the wait. -/
  | quitting (at_ : Place) (exit : Exit)
  /-- The wait has spilled, and the item still has the old stamp. -/
  | spilling
  /-- Past the queue, by an admission or without one. -/
  | taken (at_ : Place)
  | received
  /-- At the head of the leg loop. -/
  | forward
  /-- A leg has all it needs. -/
  | ready
  | sent
  | answered
  /-- In the `except` of the leg loop. -/
  | broken
  /-- To be finished without an upstream. -/
  | refused
  /-- Between the two halves of `finish_active`. -/
  | leaving
  | closed
  /-- The thread has died of an exception that nothing caught. -/
  | gone
  deriving DecidableEq, Repr

/-- The thread of a request. -/
structure Thread (P G : Type) where
  pc : Pc
  port : P
  /-- `route_group_key` of its route. -/
  group : G
  /-- `route_is_cloud`, or a provider to fall back to. -/
  cloud : Bool
  /-- `_pool_route`, by its key. -/
  pool : Option G
  maxSlots : ℕ
  preempt : Preempt
  /-- The group it was admitted to and has not left. -/
  on : Option G
  /-- A leg has given up its admission and its phase is not written yet. -/
  early : Bool

structure State (P G : Type) where
  /-- The `active` of all ports. -/
  active : List (Item P G)
  /-- The `recent` of all ports, each with whether it can be written. -/
  recent : List (P × Bool)
  pending : List (Entry P G)
  admitted : Finset ℕ
  sticky : G → Option (Reservation P)
  seq : ℕ
  now : ℕ
  thread : ℕ → Option (Thread P G)
  /-- What a `sticky_slot_snapshot` has found expired and is about to pop. -/
  sweep : List G
  held : G → Option (Reservation P)

variable {P G : Type} [DecidableEq P] [DecidableEq G]

/-! ### The functions of the source -/

/-- The position of a request among those waiting on its upstream. -/
def queuePosition (pending : List (Entry P G)) (id : ℕ) (group : G) : Option ℕ :=
  let pool := pending.filter fun e => e.group = group
  (pool.insertionSort fun a b => a.seq ≤ b.seq).findIdx? fun e => e.id = id

def removePendingRequest (id : ℕ) (pending : List (Entry P G)) : List (Entry P G) :=
  pending.filter fun e => e.id ≠ id

/-- An item that takes a place of its group. -/
def Item.Counts (admitted : Finset ℕ) (group : G) (i : Item P G) : Prop :=
  i.upstream = group ∧ (i.id ∈ admitted ∨ i.phase ≠ .queued)

instance (admitted : Finset ℕ) (group : G) (i : Item P G) :
    Decidable (i.Counts admitted group) := inferInstanceAs (Decidable (_ ∧ _))

namespace State

variable (s : State P G)

def activeCount (group : G) : ℕ :=
  (s.active.filter fun i => i.Counts s.admitted group).length

def stickySlotBlocks (group : G) (port : P) : Bool :=
  match s.sticky group with
  | none => false
  | some r => s.now < r.expiresAt && r.port ≠ port

/-- `json.dumps` of the books returns. -/
def writable : Bool := s.active.all (·.writable) && s.recent.all (·.2)

@[simps] def addActive (i : Item P G) : State P G := { s with active := s.active ++ [i] }

end State

/-- The first item of the request in the row of the port, with the patch. -/
def patchFirst (port : P) (id : ℕ) (patch : Item P G → Item P G) :
    List (Item P G) → List (Item P G)
  | [] => []
  | i :: is =>
    if i.port = port ∧ i.id = id then patch i :: is else i :: patchFirst port id patch is

namespace State

variable (s : State P G)

@[simps] def updateActive (port : P) (id : ℕ) (patch : Item P G → Item P G) : State P G :=
  { s with active := patchFirst port id patch s.active }

/-- The last results of a port, of which a row keeps twenty. -/
def addRecent (port : P) (writable : Bool) : List (P × Bool) :=
  let row := s.recent.filter (fun r => r.1 = port) ++ [(port, writable)]
  s.recent.filter (fun r => r.1 ≠ port) ++ row.drop (row.length - 20)

/-- The half of `finish_active` under `lock`. -/
@[simps] def finishActive (port : P) (id : ℕ) (writable : Bool) : State P G :=
  { s with
    active := s.active.filter fun i => ¬(i.port = port ∧ i.id = id)
    recent := s.addRecent port writable }

@[simps] def syncAgents (ports : List P) : State P G :=
  { s with
    active := s.active.filter fun i => i.port ∈ ports
    recent := s.recent.filter fun r => r.1 ∈ ports }

@[simps] def set (id : ℕ) (t : Thread P G) : State P G :=
  { s with thread := Function.update s.thread id (some t) }

@[simps] def discard (id : ℕ) : State P G := { s with admitted := s.admitted.erase id }

/-- A new entry, with the next sequence number. -/
@[simps] def enqueue (id : ℕ) (t : Thread P G) : State P G :=
  { s with seq := s.seq + 1, pending := s.pending ++ [⟨id, t.port, t.group, s.seq + 1⟩] }

/-- The phase a poll writes before it looks. -/
abbrev requeue (id : ℕ) (t : Thread P G) : State P G :=
  s.updateActive t.port id fun i => { i with phase := .queued }

/-- A poll that is not blocked: a reservation of this group is its own port's, or has
expired, and goes. -/
@[simps] def unstick (group : G) : State P G :=
  { s with sticky := Function.update s.sticky group none }

/-- First of its group. -/
def First (id : ℕ) (t : Thread P G) : Prop := queuePosition s.pending id t.group = some 0

/-- First of its group, and the group has room: what a poll that is not blocked asks. -/
def Clear (id : ℕ) (t : Thread P G) : Prop :=
  s.First id t ∧ (s.requeue id t).activeCount t.group < t.maxSlots

instance (id : ℕ) (t : Thread P G) : Decidable (s.First id t) :=
  inferInstanceAs (Decidable (_ = _))

instance (id : ℕ) (t : Thread P G) : Decidable (s.Clear id t) :=
  inferInstanceAs (Decidable (_ ∧ _))

/-- `proxy_or_llama_has_capacity`, where the server may say how many it works on. -/
def hasCapacity (t : Thread P G) (busy : Option ℕ) : Bool :=
  match busy with
  | none => s.activeCount t.group < t.maxSlots
  | some n => n < t.maxSlots

/-- The reservations with the one that a request of this port has used up. -/
def spend (group : G) (port : P) : G → Option (Reservation P) :=
  match s.held group with
  | some r => if r.port = port then Function.update s.held group none else s.held
  | none => s.held

/-- Out of the queue and onto the group. -/
@[simps] def admission (id : ℕ) (t : Thread P G) (at_ : Place) : State P G :=
  { s.set id { t with pc := .taken at_, on := some t.group } with
    pending := removePendingRequest id s.pending
    admitted := insert id s.admitted
    held := s.spend t.group t.port }

/-- `sticky_slots[group] = …`, where the release comes with a period. -/
def reserve (group : G) (port : P) (sec : ℕ) : State P G :=
  if sec = 0 then s else
    { s with
      sticky := Function.update s.sticky group (some ⟨port, s.now + sec⟩)
      held := Function.update s.held group (some ⟨port, s.now + sec⟩) }

end State

/-- The thread of a request that begins. -/
def Thread.new (port : P) (group : G) (cloud : Bool) : Thread P G where
  pc := .queueing .main
  port := port
  group := group
  cloud := cloud
  pool := if cloud then some group else none
  maxSlots := 0
  preempt := .untried
  on := none
  early := false

namespace Thread

variable (t : Thread P G)

def die : Thread P G := { t with pc := .gone, on := none, early := false }

/-- On to `pc`, past a write that no `except` guards. -/
def goes (written : Bool) (pc : Pc) : Thread P G := if written then { t with pc := pc } else t.die

/-- On to `pc`, past a write inside the leg loop. -/
def runs (written : Bool) (pc : Pc) : Thread P G :=
  { t with pc := if written then pc else .broken }

/-- Where the handler goes on after the `finally` of the wait. -/
def afterWait (at_ : Place) (exit : Exit) : Thread P G :=
  match at_, exit with
  | .main, .spill => { t with pc := .spilling }
  | .main, .fallback => { t with pc := .taken .main, cloud := true }
  | .main, .refused => { t with pc := .refused }
  | .main, .failed => t.die
  | .leg, .failed => { t with pc := .broken }
  | .leg, _ => { t with pc := .forward }

end Thread

/-! ### Steps -/

/-- What happens: an act of one request's thread, or of another part of the proxy. -/
inductive Event (P G : Type) where
  | start (id : ℕ) (port : P) (group : G) (cloud writable : Bool)
  | block (id : ℕ)
  | bypass (id : ℕ)
  | enter (id maxSlots : ℕ)
  | poll (id : ℕ)
  | admitted (id : ℕ)
  | preempt (id victim : ℕ) (victimPort : P) (saved : Bool)
  | graceOver (id : ℕ)
  | admitAfterPreempt (id : ℕ) (busy : Option ℕ)
  | quit (id : ℕ) (exit : Exit)
  | unqueue (id : ℕ)
  | spill (id : ℕ) (group : G) (cloud : Bool)
  | unroutable (id : ℕ)
  | receive (id : ℕ)
  | discard (id : ℕ) (started : Bool)
  | toCell (id : ℕ) (group : G) (writable : Bool)
  | toAccount (id : ℕ) (writable : Bool)
  | send (id : ℕ)
  | answer (id : ℕ) (streaming writable : Bool)
  | relay (id : ℕ) (writable : Bool)
  | goOn (id : ℕ)
  | rescue (id : ℕ) (group : G) (cloud writable : Bool)
  | fail (id : ℕ)
  | finish (id : ℕ) (countable writable : Bool)
  | release (id sec : ℕ)
  | sync (ports : List P)
  | tick (sec : ℕ)
  | sweepSee (group : G)
  | sweepPop (group : G)

/-- The patch of an item that brings a content with it. -/
def Item.take (i : Item P G) (writable : Bool) : Item P G :=
  { i with writable := i.writable && writable }

/-- The critical sections of the proxy. -/
inductive Step : State P G → Event P G → State P G → Prop
  /-- `add_active`, the item in phase `queued`. -/
  | start {s : State P G} {id : ℕ} {port : P} {group : G} {cloud w : Bool} :
    s.thread id = none →
    Step s (.start id port group cloud w)
      ((s.addActive ⟨id, port, group, .queued, w⟩).set id
        ((Thread.new port group cloud).goes
          (s.addActive ⟨id, port, group, .queued, w⟩).writable (.queueing .main)))
  /-- A route that is paused or drained, or a pool's leg to one. -/
  | block {s : State P G} {id : ℕ} {t : Thread P G} {at_ : Place} :
    s.thread id = some t → t.pc = .queueing at_ →
    Step s (.block id)
      (s.set id { t with pc := if at_ = .main then .refused else .forward })
  /-- A cloud route waits in no queue. -/
  | bypass {s : State P G} {id : ℕ} {t : Thread P G} :
    s.thread id = some t → t.pc = .queueing .main → t.cloud = true →
    Step s (.bypass id) (s.set id { t with pc := .taken .main })
  /-- The entry into `pending_requests`. -/
  | enter {s : State P G} {id maxSlots : ℕ} {t : Thread P G} {at_ : Place} :
    s.thread id = some t → t.pc = .queueing at_ → (at_ = .main → t.cloud = false) →
    Step s (.enter id maxSlots)
      ((s.enqueue id t).set id
        { t with pc := .waiting at_, maxSlots := maxSlots, preempt := .untried })
  /-- A poll that another port's reservation blocks. -/
  | blocked {s : State P G} {id : ℕ} {t : Thread P G} {at_ : Place} :
    s.thread id = some t → t.pc = .waiting at_ → t.preempt ≠ .grace →
    (s.requeue id t).writable = true → s.stickySlotBlocks t.group t.port = true →
    Step s (.poll id) (s.requeue id t)
  /-- A poll that is too far back, or finds no room. -/
  | passed {s : State P G} {id : ℕ} {t : Thread P G} {at_ : Place} :
    s.thread id = some t → t.pc = .waiting at_ → t.preempt ≠ .grace →
    (s.requeue id t).writable = true → s.stickySlotBlocks t.group t.port = false →
    ¬ s.Clear id t →
    Step s (.poll id) ((s.requeue id t).unstick t.group)
  /-- A poll whose write of the books raises. -/
  | pollRaises {s : State P G} {id : ℕ} {t : Thread P G} {at_ : Place} :
    s.thread id = some t → t.pc = .waiting at_ → t.preempt ≠ .grace →
    (s.requeue id t).writable = false →
    Step s (.poll id) ((s.requeue id t).set id { t with pc := .quitting at_ .failed })
  /-- A poll that admits. -/
  | admitted {s : State P G} {id : ℕ} {t : Thread P G} {at_ : Place} :
    s.thread id = some t → t.pc = .waiting at_ → t.preempt ≠ .grace →
    (s.requeue id t).writable = true → s.stickySlotBlocks t.group t.port = false →
    s.Clear id t →
    Step s (.admitted id) (((s.requeue id t).unstick t.group).admission id t at_)
  /-- A victim is told to stop, once in a wait. -/
  | preempt {s : State P G} {id victim : ℕ} {vport : P} {saved : Bool} {t : Thread P G}
      {at_ : Place} :
    s.thread id = some t → t.pc = .waiting at_ → t.preempt = .untried → saved = true →
    (s.updateActive vport victim fun i => { i with phase := .preempting }).writable = true →
    Step s (.preempt id victim vport saved)
      ((s.updateActive vport victim fun i => { i with phase := .preempting }).set id
        { t with preempt := .grace })
  /-- The stop request is not saved: the wait ends with the exception. -/
  | preemptUnsaved {s : State P G} {id victim : ℕ} {vport : P} {saved : Bool}
      {t : Thread P G} {at_ : Place} :
    s.thread id = some t → t.pc = .waiting at_ → t.preempt = .untried → saved = false →
    Step s (.preempt id victim vport saved)
      (s.set id { t with pc := .quitting at_ .failed })
  /-- The victim's item is marked and the write of the books raises. -/
  | preemptRaises {s : State P G} {id victim : ℕ} {vport : P} {saved : Bool} {t : Thread P G}
      {at_ : Place} :
    s.thread id = some t → t.pc = .waiting at_ → t.preempt = .untried → saved = true →
    (s.updateActive vport victim fun i => { i with phase := .preempting }).writable = false →
    Step s (.preempt id victim vport saved)
      ((s.updateActive vport victim fun i => { i with phase := .preempting }).set id
        { t with pc := .quitting at_ .failed })
  /-- No victim, or the grace is over: back to polling. -/
  | graceOver {s : State P G} {id : ℕ} {t : Thread P G} {at_ : Place} :
    s.thread id = some t → t.pc = .waiting at_ →
    Step s (.graceOver id) (s.set id { t with preempt := .tried })
  /-- An admission during the grace, which asks no reservation. -/
  | admitAfterPreempt {s : State P G} {id : ℕ} {busy : Option ℕ} {t : Thread P G}
      {at_ : Place} :
    s.thread id = some t → t.pc = .waiting at_ → t.preempt = .grace → s.First id t →
    s.hasCapacity t busy = true →
    Step s (.admitAfterPreempt id busy) (s.admission id t at_)
  /-- A vanished client, a spill, a fallback: the exception is raised. -/
  | quit {s : State P G} {id : ℕ} {exit : Exit} {t : Thread P G} {at_ : Place} :
    s.thread id = some t → t.pc = .waiting at_ → t.preempt ≠ .grace → exit ≠ .failed →
    Step s (.quit id exit) (s.set id { t with pc := .quitting at_ exit })
  /-- The `finally` of the wait. -/
  | unqueue {s : State P G} {id : ℕ} {t : Thread P G} {at_ : Place} {exit : Exit} :
    s.thread id = some t → t.pc = .quitting at_ exit →
    Step s (.unqueue id)
      { (s.discard id).set id (t.afterWait at_ exit) with
        pending := removePendingRequest id s.pending }
  /-- A spilled request goes on to another group, cell or cloud. -/
  | spill {s : State P G} {id : ℕ} {group : G} {cloud : Bool} {t : Thread P G} :
    s.thread id = some t → t.pc = .spilling →
    Step s (.spill id group cloud)
      ((s.updateActive t.port id fun i => { i with upstream := group }).set id
        ({ t with
            group := group, cloud := cloud, pool := if cloud then some group else none }.goes
          (s.updateActive t.port id fun i => { i with upstream := group }).writable
          (if cloud then .taken .main else .queueing .main)))
  | unroutable {s : State P G} {id : ℕ} {t : Thread P G} :
    s.thread id = some t → t.pc = .spilling →
    Step s (.unroutable id) (s.set id { t with pc := .refused })
  /-- Phase `received`, outside every `try`. -/
  | receive {s : State P G} {id : ℕ} {t : Thread P G} :
    s.thread id = some t → t.pc = .taken .main →
    Step s (.receive id)
      ((s.updateActive t.port id fun i => { i with phase := .received }).set id
        (t.goes (s.updateActive t.port id fun i => { i with phase := .received }).writable
          .received))
  /-- The admission is given up; a streaming request then starts its heartbeat. -/
  | discard {s : State P G} {id : ℕ} {started : Bool} {t : Thread P G} :
    s.thread id = some t → t.pc = .received →
    Step s (.discard id started)
      ((s.discard id).set id (t.goes started .forward))
  /-- A leg gives up its admission: its phase is still `queued`. -/
  | discardLeg {s : State P G} {id : ℕ} {started : Bool} {t : Thread P G} :
    s.thread id = some t → t.pc = .taken .leg →
    Step s (.discard id started)
      ((s.discard id).set id { t with pc := .ready, early := true })
  /-- A pool's leg to a cell: the stamp, before the wait. -/
  | toCell {s : State P G} {id : ℕ} {group : G} {w : Bool} {t : Thread P G} :
    s.thread id = some t → t.pc = .forward → t.cloud = true →
    Step s (.toCell id group w)
      ((s.updateActive t.port id fun i => { i.take w with upstream := group }).set id
        ({ t with group := group, on := none }.runs
          (s.updateActive t.port id fun i => { i.take w with upstream := group }).writable
          (.queueing .leg)))
  /-- A leg to an account: no stamp. -/
  | toAccount {s : State P G} {id : ℕ} {w : Bool} {t : Thread P G} :
    s.thread id = some t → t.pc = .forward → t.cloud = true →
    Step s (.toAccount id w)
      ((s.updateActive t.port id fun i => i.take w).set id
        ({ t with group := t.pool.getD t.group, on := none }.runs
          (s.updateActive t.port id fun i => i.take w).writable .ready))
  /-- Phase `upstream`. -/
  | send {s : State P G} {id : ℕ} {t : Thread P G} :
    s.thread id = some t → (t.pc = .ready ∨ t.pc = .forward ∧ t.cloud = false) →
    Step s (.send id)
      ((s.updateActive t.port id fun i => { i with phase := .upstream }).set id
        ({ t with early := false }.runs
          (s.updateActive t.port id fun i => { i with phase := .upstream }).writable .sent))
  /-- The headers of an answer, or a connection that failed. -/
  | answer {s : State P G} {id : ℕ} {streaming w : Bool} {t : Thread P G} :
    s.thread id = some t → t.pc = .sent →
    Step s (.answer id streaming w)
      ((s.updateActive t.port id fun i =>
          { i.take w with phase := if streaming then .streaming else .reading }).set id
        (t.runs (s.updateActive t.port id fun i =>
          { i.take w with phase := if streaming then .streaming else .reading }).writable
          .answered))
  /-- A second of the relay. -/
  | relay {s : State P G} {id : ℕ} {w : Bool} {t : Thread P G} :
    s.thread id = some t → t.pc = .answered →
    Step s (.relay id w)
      ((s.updateActive t.port id fun i => i.take w).set id
        (t.runs (s.updateActive t.port id fun i => i.take w).writable .answered))
  /-- The pool's next row is asked. -/
  | goOn {s : State P G} {id : ℕ} {t : Thread P G} :
    s.thread id = some t → t.pc = .answered → t.cloud = true →
    Step s (.goOn id) (s.set id { t with pc := .forward })
  /-- The backup exit: a new stamp, and no queue. -/
  | rescue {s : State P G} {id : ℕ} {group : G} {cloud w : Bool} {t : Thread P G} :
    s.thread id = some t → t.pc = .answered →
    Step s (.rescue id group cloud w)
      ((s.updateActive t.port id fun i => { i.take w with upstream := group }).set id
        ({ t with
            group := group, cloud := cloud, pool := if cloud then some group else none,
            on := none }.runs
          (s.updateActive t.port id fun i => { i.take w with upstream := group }).writable
          .forward))
  /-- An exception in the leg loop. -/
  | fail {s : State P G} {id : ℕ} {t : Thread P G} :
    s.thread id = some t →
    t.pc ∈ [Pc.queueing .leg, Pc.forward, Pc.ready, Pc.sent, Pc.answered] →
    Step s (.fail id) (s.set id { t with pc := .broken })
  /-- The item goes and the record comes. -/
  | finish {s : State P G} {id : ℕ} {countable w : Bool} {t : Thread P G} :
    s.thread id = some t → t.pc ∈ [Pc.answered, Pc.broken, Pc.refused] →
    (countable = true ∨ t.pc = .refused) →
    Step s (.finish id countable w)
      ((s.finishActive t.port id w).set id
        ({ t with on := none, early := false }.goes (s.finishActive t.port id w).writable
          .leaving))
  /-- `int()` raises on what the answer says it used: the record is never made. -/
  | uncountable {s : State P G} {id : ℕ} {w : Bool} {t : Thread P G} :
    s.thread id = some t → t.pc ∈ [Pc.answered, Pc.broken] →
    Step s (.finish id false w) (s.set id t.die)
  /-- The half of `finish_active` under `queue_condition`. -/
  | release {s : State P G} {id sec : ℕ} {t : Thread P G} :
    s.thread id = some t → t.pc = .leaving →
    Step s (.release id sec)
      (((s.discard id).reserve t.group t.port sec).set id { t with pc := .closed })
  | sync {s : State P G} {ports : List P} : Step s (.sync ports) (s.syncAgents ports)
  | tick {s : State P G} {sec : ℕ} : Step s (.tick sec) { s with now := s.now + sec }
  /-- `sticky_slot_snapshot` finds a reservation expired … -/
  | sweepSee {s : State P G} {group : G} {r : Reservation P} :
    s.sticky group = some r → r.expiresAt ≤ s.now →
    Step s (.sweepSee group) { s with sweep := group :: s.sweep }
  /-- … and pops what is there by then: it does not hold `queue_condition`. -/
  | sweepPop {s : State P G} {group : G} :
    group ∈ s.sweep →
    Step s (.sweepPop group)
      { s.unstick group with sweep := s.sweep.erase group }

/-- The proxy that has just been started. -/
def State.init : State P G where
  active := []
  recent := []
  pending := []
  admitted := ∅
  sticky := fun _ => none
  seq := 0
  now := 0
  thread := fun _ => none
  sweep := []
  held := fun _ => none

/-- Every interleaving of any number of requests. -/
def system (P G : Type) [DecidableEq P] [DecidableEq G] : System (State P G) (Event P G) where
  init s := s = State.init
  step := Step

end Proxy.Queue
