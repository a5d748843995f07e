import Caravan.Framework.Threads

/-!
# A file that several programs rewrite

A `Proc` is what a request does with a file that is read and written whole: it takes locks,
reads the file as often as it likes, and writes it at most once, what it then holds being let
go (`Tail`). A read may fail; so may a write, which then leaves the file as it was.

Requests in threads of their own do this at the same time, under locks that not all of them
share. If no read fails, and no request writes while another has read and is still to write,
the file is what the requests make of it one after the other, in the order they wrote
(`serial`): what a request has read is then still what the file says when it writes.
-/

namespace Rewrite

/-- What a request does once it has written, or has decided not to. -/
inductive Tail (L R : Type*)
  | unlock (l : L) (k : Tail L R)
  | done (r : R)

/-- What a request does up to its write. -/
inductive Proc (L D R : Type*)
  /-- What it reads, or nothing: the file is missing, or the read fails. -/
  | read (k : Option D → Proc L D R)
  | lock (l : L) (k : Proc L D R)
  /-- A write, and what follows where it succeeds or fails. -/
  | write (d : D) (k : Bool → Tail L R)
  | stop (k : Tail L R)

variable {L D R Q : Type*}

/-- What a request makes of the file when no other one is under way. -/
def Proc.alone : Proc L D R → Option D → Option D
  | .read k, f => (k f).alone f
  | .lock _ k, f => k.alone f
  | .write d _, _ => some d
  | .stop _, f => f

/-- The file, the locks that are held, and the requests in the order they wrote, or decided
not to. -/
structure Shared (L D Q : Type*) where
  file : Option D
  held : L → Bool
  log : List Q

/-- Where a request is: what it has still to do, and whether it has read. -/
inductive Place (L D R Q : Type*)
  | idle
  | doing (q : Q) (p : Proc L D R) (hasRead : Bool)
  | ending (q : Q) (k : Tail L R) (landed : Bool)
  | ended (q : Q) (r : R) (landed : Bool)

inductive Act (Q : Type*)
  | start (q : Q)
  | read (fails : Bool)
  | lock
  | write (fails : Bool)
  | stop
  | unlock
  | finish

variable (proc : Q → Proc L D R)

/-- A request that has read and is still to write. -/
def Place.Pending : Place L D R Q → Prop
  | .doing _ _ hasRead => hasRead = true
  | _ => False

/-- No read fails, and no request writes while another has read and is still to write. -/
def Unhurried (s : Threads (Shared L D Q) (Place L D R Q)) : ℕ × Act Q → Prop
  | (_, .read fails) => fails = false
  | (t, .write fails) => fails = true ∨ ∀ u, u ≠ t → ¬ (s.pc u).Pending
  | _ => True

/-- What the requests of a log make of a file, one after the other. -/
def fold (file : Option D) (log : List Q) : Option D :=
  log.foldl (fun f q => (proc q).alone f) file

variable {proc} {file : Option D}

theorem fold_concat (log : List Q) (q : Q) :
    fold proc file (log ++ [q]) = (proc q).alone (fold proc file log) := by
  simp [fold]

/-- What a place says of the file: a request makes of it now what it would make of it if it
began now; one that is through is in the log. -/
def Place.Sound (proc : Q → Proc L D R) (x : Shared L D Q) : Place L D R Q → Prop
  | .idle => True
  | .doing q p true => p.alone x.file = (proc q).alone x.file
  | .doing q p false => ∀ f, p.alone f = (proc q).alone f
  | .ending q _ landed | .ended q _ landed => landed = true → q ∈ x.log

/-- A place that does not wait to write stays sound, whatever is written. -/
theorem Place.Sound.grow {x : Shared L D Q} {p : Place L D R Q} (h : p.Sound proc x)
    (hp : ¬ p.Pending) (d : Option D) (held : L → Bool) (q : Q) :
    p.Sound proc ⟨d, held, x.log ++ [q]⟩ := by
  cases p with
  | idle => trivial
  | doing q' p b =>
    cases b with
    | true => exact absurd rfl hp
    | false => exact h
  | ending q' k b => exact fun hb => List.mem_append_left _ (h hb)
  | ended q' r b => exact fun hb => List.mem_append_left _ (h hb)

/-- So does any place while the file is not written. -/
theorem Place.Sound.same {x x' : Shared L D Q} {p : Place L D R Q} (h : p.Sound proc x)
    (hfile : x'.file = x.file) (hlog : x.log ⊆ x'.log) : p.Sound proc x' := by
  cases p with
  | idle => trivial
  | doing q' p b =>
    cases b with
    | true =>
      change p.alone x'.file = (proc q').alone x'.file
      rw [hfile]
      exact h
    | false => exact h
  | ending q' k b => exact fun hb => hlog (h hb)
  | ended q' r b => exact fun hb => hlog (h hb)

section Program

variable [DecidableEq L] (proc)

/-- One step of a request. -/
def next (x : Shared L D Q) : Place L D R Q → Act Q → Option (Shared L D Q × Place L D R Q)
  | .idle, .start q => some (x, .doing q (proc q) false)
  | .doing q (.read k) _, .read fails =>
    some (x, .doing q (k (if fails then none else x.file)) true)
  | .doing q (.lock l k) b, .lock =>
    if x.held l then none else some ({ x with held := Function.update x.held l true }, .doing q k b)
  | .doing q (.write d k) _, .write fails =>
    if fails then some (x, .ending q (k false) false)
    else some ({ x with file := some d, log := x.log ++ [q] }, .ending q (k true) true)
  | .doing q (.stop k) _, .stop => some ({ x with log := x.log ++ [q] }, .ending q k true)
  | .ending q (.unlock l k) b, .unlock =>
    some ({ x with held := Function.update x.held l false }, .ending q k b)
  | .ending q (.done r) b, .finish => some (x, .ended q r b)
  | _, _ => none

/-- Requests, each in a thread of its own, on a file. -/
def program (file : Option D) : Program (Shared L D Q) (Place L D R Q) (Act Q) where
  init x := x.file = file ∧ (∀ l, x.held l = false) ∧ x.log = []
  start := .idle
  step x p e x' p' := next proc x p e = some (x', p')

variable {proc}

/-- **Requests that do not write on top of each other** leave the file as they would one after
the other, in the order they wrote; and each that was answered is among them, unless its write
failed. -/
theorem serial {s : Threads (Shared L D Q) (Place L D R Q)}
    (h : (program proc file).system.Reach Unhurried s) :
    s.shared.file = fold proc file s.shared.log ∧ ∀ t, (s.pc t).Sound proc s.shared := by
  refine Program.every (I := fun x => x.file = fold proc file x.log)
    (Q := fun x p => p.Sound proc x) ?_ ?_ h
  · rintro x ⟨hfile, -, hlog⟩
    exact ⟨by rw [hfile, hlog]; rfl, trivial⟩
  · intro s t e x p hI hQ hok hstep
    have hme := hQ t
    obtain ⟨x₀, pc⟩ := s
    simp only at hI hQ hme hstep
    generalize hp : pc t = p₀ at hme hstep
    -- the steps that leave the file and the log
    have hstays : ∀ held, x = ⟨x₀.file, held, x₀.log⟩ → p.Sound proc x →
        x.file = fold proc file x.log ∧ p.Sound proc x ∧ ∀ u, u ≠ t → (pc u).Sound proc x := by
      rintro held rfl hself
      exact ⟨hI, hself, fun u _ => (hQ u).same rfl fun _ hq => hq⟩
    change next proc x₀ p₀ e = some (x, p) at hstep
    unfold next at hstep
    split at hstep
    · next q =>
      cases hstep
      exact hstays _ rfl fun _ => rfl
    · next q k b fails =>
      obtain rfl : fails = false := hok
      cases hstep
      refine hstays _ rfl ?_
      cases b with
      | true => exact hme
      | false => exact hme _
    · next q l k b =>
      split at hstep
      · exact nomatch hstep
      · cases hstep
        refine hstays _ rfl ?_
        cases b with
        | true => exact hme
        | false => exact hme
    · next q d k b fails =>
      split at hstep
      · cases hstep
        exact hstays _ rfl fun hb => nomatch hb
      · next hlands =>
        cases hstep
        have halone : (proc q).alone x₀.file = some d := by
          cases b with
          | true => exact hme.symm
          | false => exact (hme _).symm
        refine ⟨?_, fun _ => by simp, fun u hu => ?_⟩
        · rw [fold_concat, ← hI, halone]
        · exact (hQ u).grow ((hok.resolve_left hlands) u hu) _ _ _
    · next q k b =>
      cases hstep
      have halone : (proc q).alone x₀.file = x₀.file := by
        cases b with
        | true => exact hme.symm
        | false => exact (hme _).symm
      refine ⟨?_, fun _ => by simp, fun u _ => (hQ u).same rfl (List.subset_append_left _ _)⟩
      rw [fold_concat, ← hI, halone]
    · next q l k b =>
      cases hstep
      exact hstays _ rfl hme
    · next q r b =>
      cases hstep
      exact hstays _ rfl hme
    · exact nomatch hstep

/-! ### What a request answers -/

/-- What a request answers at its end. -/
def Tail.answer : Tail L R → R
  | .unlock _ k => k.answer
  | .done r => r

/-- A request whose answer is not one of these where its write fails. -/
def Proc.Owns (P : R → Prop) : Proc L D R → Prop
  | .read k => ∀ f, (k f).Owns P
  | .lock _ k => k.Owns P
  | .write _ k => ¬ P (k false).answer
  | .stop _ => True

/-- What such a request says at each place: an answer like these is one of a write that landed,
or of a request that had none. -/
def Place.Owns (P : R → Prop) (good : Q → Prop) : Place L D R Q → Prop
  | .idle => True
  | .doing q p _ => good q → p.Owns P
  | .ending q k landed => good q → P k.answer → landed = true
  | .ended q r landed => good q → P r → landed = true

/-- A request that was answered so wrote, or had nothing to write. -/
theorem owned {P : R → Prop} {good : Q → Prop} (hproc : ∀ q, good q → (proc q).Owns P)
    {ok : Threads (Shared L D Q) (Place L D R Q) → ℕ × Act Q → Prop}
    {s : Threads (Shared L D Q) (Place L D R Q)} (h : (program proc file).system.Reach ok s)
    (t : ℕ) : (s.pc t).Owns P good := by
  refine (Program.every (I := fun _ => True) (Q := fun _ p => p.Owns P good) ?_ ?_ h).2 t
  · exact fun _ _ => ⟨trivial, trivial⟩
  · intro s t e x p _ hQ _ hstep
    have hme := hQ t
    refine ⟨trivial, ?_, fun u _ => hQ u⟩
    generalize s.pc t = p₀ at hme hstep
    change next proc s.shared p₀ e = some (x, p) at hstep
    unfold next at hstep
    split at hstep
    · cases hstep
      exact hproc _
    · cases hstep
      exact fun hq => hme hq _
    · split at hstep
      · exact nomatch hstep
      · cases hstep
        exact hme
    · split at hstep
      · cases hstep
        exact fun hq hP => absurd hP (hme hq)
      · cases hstep
        exact fun _ _ => rfl
    · cases hstep
      exact fun _ _ => rfl
    · cases hstep
      exact hme
    · cases hstep
      exact hme
    · exact nomatch hstep

/-! ### One request at a time -/

/-- The threads before any request. -/
def before (file : Option D) : Threads (Shared L D Q) (Place L D R Q) :=
  ⟨⟨file, fun _ => false, []⟩, fun _ => .idle⟩

/-- One request's steps while no other one waits to write. -/
theorem reach_alone {t : ℕ} (script : List (Act Q)) (hreads : .read true ∉ script)
    {s s' : Threads (Shared L D Q) (Place L D R Q)}
    (h : (program proc file).system.Reach Unhurried s)
    (hothers : ∀ u, u ≠ t → ¬ (s.pc u).Pending)
    (hf : Program.follow (next proc) s (script.map fun e => (t, e)) = some s') :
    (program proc file).system.Reach Unhurried s' ∧ ∀ u, u ≠ t → ¬ (s'.pc u).Pending := by
  induction script generalizing s with
  | nil => exact Option.some.inj hf ▸ ⟨h, hothers⟩
  | cons e script ih =>
    rw [List.map_cons, Program.follow] at hf
    split at hf
    · next x p hnext =>
      have hok : Unhurried s (t, e) := by
        cases e with
        | read fails =>
          cases fails with
          | true => exact absurd List.mem_cons_self hreads
          | false => rfl
        | write fails => exact .inr hothers
        | start | lock | stop | unlock | finish => trivial
      refine ih (fun he => hreads (List.mem_cons_of_mem e he))
        (h.next (Program.step_update rfl hnext) hok) (fun u hu => ?_) hf
      have hsame : Function.update s.pc t p u = s.pc u := Function.update_of_ne hu ..
      simp only [hsame]
      exact hothers u hu
    · cases hf

theorem reach_before {ok : Threads (Shared L D Q) (Place L D R Q) → ℕ × Act Q → Prop} :
    (program proc file).system.Reach ok (before file) :=
  .init ⟨⟨rfl, fun _ => rfl, rfl⟩, fun _ => rfl⟩

end Program

end Rewrite
