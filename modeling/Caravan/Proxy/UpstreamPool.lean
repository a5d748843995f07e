import Caravan.Framework.Assoc
import Caravan.Framework.System
import Caravan.Python.Text
import Mathlib.Data.List.Perm.Subperm
import Mathlib.Data.List.Nodup

/-!
# Connections kept between requests

`UpstreamPool` keeps a provider's connection for the next request to the same place. A request
takes one, or opens one; sends on it and reads the answer; goes from leg to leg; and at its end
gives the connection back, if nothing else can reach it, or closes it. An answer that is not read
to its end is drained first, on a thread of its own.
-/

namespace UpstreamPool

open Python

/-! ### Connections and their answers -/

/-- `(scheme, host, port)` -/
structure Key where
  tls : Bool
  host : Text
  port : ℕ
  deriving DecidableEq, Repr

/-- How far an answer was read. -/
inductive Answer
  /-- There is more of it to read. -/
  | more
  | whole
  /-- It was closed before its end. -/
  | cut
  deriving DecidableEq, Repr

/-- `response.isclosed()` -/
def Answer.isclosed : Answer → Bool
  | .more => false
  | _ => true

/-- What a reading of an answer's body meets. -/
inductive Meets
  /-- So many bytes, and the answer goes on. -/
  | part (n : ℕ)
  /-- Its last bytes, or the chunk of size 0: `http.client` closes the response. -/
  | last
  /-- The connection has ended inside the answer, or a chunk's size is none: `http.client` closes
  the response as well, and answers no bytes or raises. -/
  | broken (raises : Bool)
  /-- It raises, and the response stays open. -/
  | fails
  deriving DecidableEq, Repr

/-- A reading; a closed response has nothing to read. -/
def Answer.read (a : Answer) (m : Meets) : Answer :=
  match a, m with
  | .more, .last => .whole
  | .more, .broken _ => .cut
  | a, _ => a

/-- `HTTPConnection`: where it goes, whether it has its socket, and its last answer. -/
structure Conn where
  key : Key
  sock : Bool := false
  answer : Option Answer := none
  deriving DecidableEq, Repr

/-- `conn.close()` closes its response, too. -/
def Conn.close (x : Conn) : Conn :=
  { x with
    sock := false
    answer := x.answer.map fun
      | .more => .cut
      | a => a }

/-- `conn.getresponse()`: a response that will close the connection takes its socket. -/
def Conn.answered (x : Conn) (willClose : Bool) : Conn :=
  { x with sock := !willClose, answer := some .more }

def Conn.read (x : Conn) (m : Meets) : Conn :=
  { x with answer := x.answer.map fun a => a.read m }

/-! ### The pool -/

structure Config where
  idleSec : ℤ
  perHost : ℕ
  drainBytes : ℕ

/-- `_idle`: for each key its connections and since when they are idle, newest last. -/
abbrev Idle := List (Key × List (ℕ × ℤ))

namespace Idle

variable (d : Idle)

def kept (k : Key) : List (ℕ × ℤ) := (Assoc.get d k).getD []

/-- The connections that are idle. -/
def conns : List ℕ := d.flatMap fun p => p.2.map Prod.fst

/-- `_sweep_locked` -/
def sweep (cfg : Config) (now : ℤ) : Idle × List ℕ :=
  ((d.map fun p => (p.1, p.2.filter fun e => now - e.2 ≤ cfg.idleSec)).filter fun p => p.2 ≠ [],
    d.flatMap fun p => (p.2.filter fun e => ¬ now - e.2 ≤ cfg.idleSec).map Prod.fst)

/-- The loop of `take`, newest first: the connection that is found, those that stay, and those
that are dropped. -/
def pop (alive : ℕ → Bool) : List (ℕ × ℤ) → Option ℕ × List (ℕ × ℤ) × List ℕ
  | [] => (none, [], [])
  | e :: rest =>
    if alive e.1 then (some e.1, rest, [])
    else
      let r := pop alive rest
      (r.1, r.2.1, e.1 :: r.2.2)

/-- The critical section of `take`. -/
def take (cfg : Config) (now : ℤ) (k : Key) (alive : ℕ → Bool) : Option ℕ × Idle × List ℕ :=
  let swept := d.sweep cfg now
  let r := pop alive (swept.1.kept k).reverse
  (r.1, if r.2.1 = [] then Assoc.del swept.1 k else Assoc.set swept.1 k r.2.1.reverse,
    swept.2 ++ r.2.2)

/-- The critical section of `give_back`; the oldest go where there are too many. -/
def put (cfg : Config) (now since : ℤ) (k : Key) (c : ℕ) : Idle × List ℕ :=
  let swept := d.sweep cfg now
  let l := swept.1.kept k ++ [(c, since)]
  let surplus := l.length - cfg.perHost
  (Assoc.set swept.1 k (l.drop surplus), swept.2 ++ (l.take surplus).map Prod.fst)

end Idle

/-! ### Requests -/

/-- Where a request is. -/
inductive Phase
  /-- A leg of it begins. -/
  | legs
  /-- The connection is there, and the request is to be sent. -/
  | sends
  /-- The answer has begun. -/
  | reads
  /-- The pool of rows answers by itself. -/
  | answers
  /-- `_relayed` -/
  | relayed
  /-- An exception has ended the relay. -/
  | failed
  /-- `give_back` on a thread of its own: so many bytes may still be drained. -/
  | drains (left : ℕ)
  /-- Draining it is over, and no reading raised. -/
  | settles (quiet : Bool)
  | done
  deriving DecidableEq, Repr

/-- Its connection has an answer, if it has a connection. -/
def Phase.answered : Phase → Bool
  | .reads | .answers | .relayed | .drains _ | .settles _ => true
  | _ => false

/-- The handler is not yet in its `finally`. -/
def Phase.relays : Phase → Bool
  | .drains _ | .settles _ | .done => false
  | _ => true

structure Request where
  conn : Option ℕ := none
  pooled : Bool := false
  reused : Bool := false
  phase : Phase := .legs
  /-- Its control has a `stopReason`. -/
  stopped : Bool := false
  /-- `_hb_thread` is alive. -/
  beating : Bool
  deriving DecidableEq, Repr

/-- `_keep` -/
def Request.keeps (q : Request) : Bool :=
  q.pooled && decide (q.phase = .relayed) && !q.stopped && !q.beating

inductive Step
  | take (k : Key) (now : ℤ) (quiet : ℕ → Bool)
  /-- A connection to a cell, which is not kept. -/
  | openOwn (k : Key)
  | refuse
  | answer (willClose : Bool)
  /-- The request could not be sent, or was not answered. -/
  | unanswered (stale : Bool)
  | read (m : Meets)
  | nextLeg
  | relay
  | fail
  | stop
  /-- The connection is closed by the thread that stops the request, or by its heartbeat. -/
  | kill
  | beatEnds
  | finish (now since : ℤ)
  | drain (m : Meets)
  | settle (now since : ℤ)

inductive Action
  | arrive (r : ℕ) (streams : Bool)
  | request (r : ℕ) (e : Step)

structure State where
  idle : Idle
  conns : ℕ → Conn
  /-- The connections that were ever opened are the ones before this. -/
  fresh : ℕ
  requests : ℕ → Option Request

/-- The step ends the request, and gives its connection back if that has its socket. -/
def Request.givesBack (q : Request) : Step → Bool
  | .finish _ _ => q.keeps
  | .settle _ _ => decide (q.phase = .settles true)
  | _ => false

namespace State

variable (s : State)

def modify (c : ℕ) (f : Conn → Conn) : State :=
  { s with conns := Function.update s.conns c (f (s.conns c)) }

def closeAll (cs : List ℕ) : State := cs.foldl (fun s c => s.modify c Conn.close) s

def set (r : ℕ) (q : Request) : State :=
  { s with requests := Function.update s.requests r (some q) }

/-- `conn.close()`, where there is one. -/
def closed (q : Request) : State := match q.conn with
  | some c => s.modify c Conn.close
  | none => s

/-- A request goes on with a connection of its own. -/
def openFor (r : ℕ) (q : Request) (k : Key) : State :=
  { s with
    conns := Function.update s.conns s.fresh { key := k }
    fresh := s.fresh + 1 }.set r { q with conn := some s.fresh }

/-- `_alive` -/
def alive (quiet : ℕ → Bool) (c : ℕ) : Bool :=
  (s.conns c).sock && quiet c

/-- `give_back`, once what is left has been read: the connection is kept, or closed. -/
def giveBack (cfg : Config) (now since : ℤ) (r : ℕ) (q : Request) (reusable : Bool) : State :=
  match q.conn with
  | none => s.set r { q with phase := .done }
  | some c =>
    if (s.conns c).sock && reusable then
      let p := s.idle.put cfg now since (s.conns c).key c
      ({ s with idle := p.1 }.closeAll p.2).set r { q with conn := none, phase := .done }
    else (s.modify c Conn.close).set r { q with conn := none, phase := .done }

/-- What a reading in `_drained` comes to: another one, or the end of them. -/
def drained (left : ℕ) : Meets → Phase
  | .part n => if n = 0 ∨ left ≤ n then .settles true else .drains (left - n)
  | .last => .settles true
  | .broken raises => .settles (!raises)
  | .fails => .settles false

/-- The request's connection has its socket. -/
def sock (q : Request) : Bool := q.conn.any fun c => (s.conns c).sock

/-- The last answer on the request's connection. -/
def answer (q : Request) : Option Answer := q.conn.bind fun c => (s.conns c).answer

/-- What a step of the request `r` makes of it all. -/
def request (cfg : Config) (r : ℕ) (q : Request) (e : Step) : Option State :=
  match e with
  | .take k now quiet =>
    if q.phase = .legs then
      let t := s.idle.take cfg now k (s.alive quiet)
      let u := { s with idle := t.2.1 }.closeAll t.2.2
      -- `register_active_control` makes a new control
      let q' := { q with pooled := true, reused := t.1.isSome, phase := .sends, stopped := false }
      match t.1 with
      | some c => some (u.set r { q' with conn := some c })
      | none => some (u.openFor r q' k)
    else none
  | .openOwn k =>
    if q.phase = .legs then
      some (s.openFor r
        { q with pooled := false, reused := false, phase := .sends, stopped := false } k)
    else none
  | .refuse =>
    if q.phase = .legs then
      some (s.set r { q with conn := none, pooled := false, reused := false, phase := .answers })
    else none
  | .answer willClose => match q.phase, q.conn with
    | .sends, some c =>
      some ((s.modify c fun x => x.answered willClose).set r { q with phase := .reads })
    | _, _ => none
  | .unanswered stale => match q.phase, q.conn with
    | .sends, some c =>
      if q.reused && stale then
        -- `reopen`: once, the fresh one is not kept
        some ((s.modify c Conn.close).openFor r { q with reused := false, stopped := false }
          (s.conns c).key)
      else some (s.set r { q with phase := .failed })
    | _, _ => none
  | .read m => match q.phase, q.conn with
    | .reads, some c => some (s.modify c fun x => x.read m)
    | _, _ => none
  | .nextLeg =>
    if q.phase = .sends ∨ q.phase = .reads then
      some ((s.closed q).set r { q with pooled := false, reused := false, phase := .legs })
    else none
  | .relay =>
    if q.phase = .reads ∨ q.phase = .answers then some (s.set r { q with phase := .relayed })
    else none
  | .fail => if q.phase.relays then some (s.set r { q with phase := .failed }) else none
  | .stop => if q.phase.relays then some (s.set r { q with stopped := true }) else none
  | .kill => if q.stopped || q.beating then some (s.closed q) else none
  | .beatEnds => some (s.set r { q with beating := false })
  | .finish now since =>
    if q.phase = .relayed ∨ q.phase = .failed then
      if q.keeps then
        -- `release`: only an answer with bytes still to come is drained
        if s.answer q = some .more ∧ s.sock q then
          let phase := if cfg.drainBytes = 0 then .settles true else .drains cfg.drainBytes
          some (s.set r { q with phase := phase })
        else some (s.giveBack cfg now since r q true)
      else some ((s.closed q).set r { q with conn := none, phase := .done })
    else none
  | .drain m => match q.phase, q.conn with
    | .drains left, some c =>
      some ((s.modify c fun x => x.read m).set r { q with phase := drained left m })
    | _, _ => none
  | .settle now since => match q.phase with
    | .settles quiet =>
      some (s.giveBack cfg now since r q (quiet && (s.answer q).any Answer.isclosed))
    | _ => none

def next (cfg : Config) : Action → Option State
  | .arrive r streams => match s.requests r with
    | some _ => none
    | none => some (s.set r { beating := streams })
  | .request r e => match s.requests r with
    | some q => s.request cfg r q e
    | none => none

end State

/-- The requests of a proxy, and the pool they share. -/
def proxy (cfg : Config) : System State Action where
  init s := s.idle = [] ∧ ∀ r, s.requests r = none
  step s e s' := s.next cfg e = some s'

/-! ### What the pool does with its connections -/

namespace Idle

open scoped List

variable {d : Idle} {cfg : Config} {now since : ℤ} {k : Key}

/-- No place has too many. -/
def Bounded (n : ℕ) (d : Idle) : Prop := ∀ p ∈ d, p.2.length ≤ n

theorem conns_perm (hd : Assoc.Distinct d) (k : Key) :
    d.conns.Perm ((d.kept k).map Prod.fst ++ conns (Assoc.del d k)) := by
  unfold kept
  cases hget : Assoc.get d k with
  | none =>
    rw [Assoc.del_of_get_none hget]
    exact List.Perm.refl _
  | some l => exact (Assoc.perm_of_get hd hget).flatMap_right _

theorem conns_set (hd : Assoc.Distinct d) (k : Key) (l : List (ℕ × ℤ)) :
    (conns (Assoc.set d k l)).Perm (l.map Prod.fst ++ conns (Assoc.del d k)) :=
  (Assoc.perm_set hd k l).flatMap_right _

theorem kept_bounded {n : ℕ} (hb : d.Bounded n) (k : Key) : (d.kept k).length ≤ n := by
  unfold kept
  cases hget : Assoc.get d k with
  | none => exact Nat.zero_le n
  | some l => exact hb _ (Assoc.mem_of_get hget)

theorem sweep_sublist : (d.sweep cfg now).1.conns.Sublist d.conns := by
  unfold sweep
  dsimp only
  induction d with
  | nil => exact List.Sublist.refl _
  | cons p d ih =>
    rw [List.map_cons, List.filter_cons]
    split
    · exact (List.filter_sublist.map _).append ih
    · exact ih.trans (List.sublist_append_right _ _)

theorem sweep_distinct (hd : Assoc.Distinct d) : Assoc.Distinct (d.sweep cfg now).1 := by
  unfold sweep
  refine Assoc.Distinct.filter ?_ _
  unfold Assoc.Distinct
  rw [List.map_map]
  exact hd

theorem sweep_bounded {n : ℕ} (hb : d.Bounded n) : (d.sweep cfg now).1.Bounded n := by
  intro p hp
  obtain ⟨q, hq, rfl⟩ := List.mem_map.mp (List.mem_filter.mp hp).1
  exact (List.length_filter_le _ _).trans (hb q hq)

theorem pop_sublist (alive : ℕ → Bool) (l : List (ℕ × ℤ)) :
    ((pop alive l).1.toList ++ (pop alive l).2.1.map Prod.fst).Sublist (l.map Prod.fst) := by
  induction l with
  | nil => exact List.Sublist.refl _
  | cons e l ih =>
    rw [pop]
    split
    · exact List.Sublist.refl _
    · exact ih.trans (List.sublist_cons_self _ _)

theorem pop_length (alive : ℕ → Bool) (l : List (ℕ × ℤ)) :
    (pop alive l).2.1.length ≤ l.length := by
  induction l with
  | nil => exact le_rfl
  | cons e l ih =>
    rw [pop]
    split
    · exact Nat.le_succ _
    · exact ih.trans (Nat.le_succ _)

/-- **What is taken was idle, and is so no longer.** -/
theorem take_subperm (hd : Assoc.Distinct d) (alive : ℕ → Bool) :
    (d.take cfg now k alive).1.toList ++ (d.take cfg now k alive).2.1.conns <+~ d.conns := by
  have hw : Assoc.Distinct (d.sweep cfg now).1 := sweep_distinct hd
  have hpop := pop_sublist alive ((d.sweep cfg now).1.kept k).reverse
  unfold take
  dsimp only
  generalize pop alive ((d.sweep cfg now).1.kept k).reverse = r at hpop
  generalize hd' : (if r.2.1 = [] then Assoc.del (d.sweep cfg now).1 k
    else Assoc.set (d.sweep cfg now).1 k r.2.1.reverse) = d'
  have hconns : conns d' ~ r.2.1.map Prod.fst ++ conns (Assoc.del (d.sweep cfg now).1 k) := by
    subst hd'
    split
    · next hnil => simp [hnil]
    · refine (conns_set hw k _).trans ?_
      rw [List.map_reverse]
      exact (List.reverse_perm _).append_right _
  have hkept : ((d.sweep cfg now).1.kept k).reverse.map Prod.fst ~
      ((d.sweep cfg now).1.kept k).map Prod.fst := (List.reverse_perm _).map _
  -- what is found and what stays are the place's, which with the other places' are all of them
  refine ((hconns.append_left r.1.toList).subperm).trans ?_
  rw [← List.append_assoc]
  refine ((hpop.append (List.Sublist.refl _)).subperm).trans ?_
  exact ((hkept.append_right _).trans (conns_perm hw k).symm).subperm.trans sweep_sublist.subperm

theorem take_distinct (hd : Assoc.Distinct d) (alive : ℕ → Bool) :
    Assoc.Distinct (d.take cfg now k alive).2.1 := by
  unfold take
  dsimp only
  split
  · exact (sweep_distinct hd).del k
  · exact (sweep_distinct hd).set k _

theorem take_bounded {n : ℕ} (hb : d.Bounded n) (alive : ℕ → Bool) :
    (d.take cfg now k alive).2.1.Bounded n := by
  have hw : (d.sweep cfg now).1.Bounded n := sweep_bounded hb
  unfold take
  dsimp only
  split
  · exact fun p hp => hw p (List.mem_filter.mp hp).1
  · intro p hp
    rcases Assoc.mem_set hp with rfl | hp
    · rw [List.length_reverse]
      refine (pop_length alive _).trans ?_
      rw [List.length_reverse]
      exact kept_bounded hw k
    · exact hw p hp

/-- **What is idle once a connection was given back is that one, or was idle.** -/
theorem put_subperm (hd : Assoc.Distinct d) (c : ℕ) :
    (d.put cfg now since k c).1.conns <+~ c :: d.conns := by
  have hw : Assoc.Distinct (d.sweep cfg now).1 := sweep_distinct hd
  unfold put
  dsimp only
  refine (conns_set hw k _).subperm.trans ?_
  have hdrop := ((List.drop_sublist
    (((d.sweep cfg now).1.kept k ++ [(c, since)]).length - cfg.perHost)
    ((d.sweep cfg now).1.kept k ++ [(c, since)])).map Prod.fst).append_right
      (conns (Assoc.del (d.sweep cfg now).1 k))
  refine hdrop.subperm.trans ?_
  rw [List.map_append, List.append_assoc]
  refine List.perm_middle.subperm.trans ?_
  refine ((conns_perm hw k).symm.cons c).subperm.trans ?_
  exact (sweep_sublist.cons_cons c).subperm

theorem put_distinct (hd : Assoc.Distinct d) (c : ℕ) :
    Assoc.Distinct (d.put cfg now since k c).1 := (sweep_distinct hd).set k _

theorem put_bounded (hb : d.Bounded cfg.perHost) (c : ℕ) :
    (d.put cfg now since k c).1.Bounded cfg.perHost := by
  intro p hp
  rcases Assoc.mem_set hp with rfl | hp
  · rw [List.length_drop]
    omega
  · exact sweep_bounded hb p hp

end Idle

end UpstreamPool
