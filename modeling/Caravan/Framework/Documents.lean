import Caravan.Framework.Threads
import Mathlib.Data.List.Basic

/-!
# A document that is loaded, edited and written back whole

Every operation on the document loads it, decides on what it reads, assigns to it in place
and writes it back. A `Medium` says how the document and its file go over into one another,
and whether the processes share one parse of the file as long as it is not replaced: then an
operation edits what the next load hands out.

`serve` runs one operation alone. It leaves no trace when it raises exactly where what it had
assigned changes nothing (`serve_traceless_iff`). `program` is any number of threads that each
run operations. If no operation loads while another is between its load and its end, and none
fails, the document is what the operations make of it one after the other, in the order they
ended (`serial`).
-/

namespace Document

/-- How a document is kept in a file. -/
structure Medium (F D : Type*) where
  parse : F → D
  write : D → F
  /-- What a missing or unreadable file is read as, anew each time. -/
  blank : D
  /-- One parse of each generation of the file is handed out to all. -/
  shared : Bool

/-- What an operation makes of the document it has loaded. -/
inductive Decision (D E : Type*)
  /-- It raises, after the assignments `left`. -/
  | refused (e : E) (left : D → D)
  /-- It answers, and writes nothing. -/
  | nothing
  /-- It assigns, to the document or where `again` holds to one it loads anew, and writes;
  where `late` holds it goes on after that. -/
  | save (change : D → D) (again late : Bool)

/-- The file, and the documents that were loaded from it. -/
structure Store (F D : Type*) where
  file : Option F
  /-- Which generation of the file this is. -/
  gen : ℕ
  /-- The parse that is handed out, with its generation. -/
  cache : Option (ℕ × ℕ)
  heap : ℕ → D
  fresh : ℕ

variable {F D E Q : Type*} (M : Medium F D)

/-- Whether an operation assigns and writes, and does nothing else. -/
def Decision.writes : Decision D E → Bool
  | .save _ false false => true
  | _ => false

/-- A document after the assignments of an operation. -/
def Decision.changed (x : Decision D E) (d : D) : D :=
  match x with
  | .save change _ _ => change d
  | _ => d

/-- What holds of a document once an operation has assigned to it, if it does. -/
def Decision.Leaves (x : Decision D E) (d : D) (I : D → Prop) : Prop :=
  match x with
  | .refused _ left => I (left d)
  | .nothing => True
  | .save change _ _ => I (change d)

theorem Decision.Leaves.imp {x : Decision D E} {d : D} {I J : D → Prop} (h : x.Leaves d I)
    (hij : ∀ d', I d' → J d') : x.Leaves d J := by
  cases x with
  | refused e left => exact hij _ h
  | nothing => trivial
  | save change again late => exact hij _ h

namespace Store

variable (s : Store F D)

/-- A document of one's own. -/
def alloc (d : D) : Store F D :=
  { s with heap := Function.update s.heap s.fresh d, fresh := s.fresh + 1 }

/-- The parse that a load finds. -/
def hit : Option ℕ :=
  if M.shared then (s.cache.filter fun c => c.1 = s.gen).map Prod.snd else none

/-- The store after a load, and the document that was handed out. -/
def load (fails : Bool) : Store F D × ℕ :=
  match if fails then none else s.file with
  | none => (s.alloc M.blank, s.fresh)
  | some f => match s.hit M with
    | some r => (s, r)
    | none =>
      ({ s.alloc (M.parse f) with
          cache := if M.shared then some (s.gen, s.fresh) else s.cache }, s.fresh)

def assign (r : ℕ) (change : D → D) : Store F D :=
  { s with heap := Function.update s.heap r (change (s.heap r)) }

/-- The write of a document. The new file is another generation. -/
def save (r : ℕ) : Store F D := { s with file := some (M.write (s.heap r)), gen := s.gen + 1 }

/-- What the next load hands out. -/
def next : D := (s.load M false).1.heap (s.load M false).2

/-- What the file says. -/
def read : D := match s.file with
  | none => M.blank
  | some f => M.parse f

/-- The cached parse was loaded before. -/
def Valid : Prop := ∀ g r, s.cache = some (g, r) → r < s.fresh ∧ g ≤ s.gen

/-- What is handed out is the parse of the file. -/
def Coherent : Prop := s.next M = s.read M

variable {M s}

theorem next_none (h : s.file = none) : s.next M = M.blank := by
  simp [next, load, h, alloc]

theorem next_hit {r : ℕ} {f : F} (hf : s.file = some f) (h : s.hit M = some r) :
    s.next M = s.heap r := by
  simp [next, load, hf, h]

theorem next_parse {f : F} (hf : s.file = some f) (h : s.hit M = none) :
    s.next M = M.parse f := by
  simp [next, load, hf, h, alloc]

/-- Nothing of a generation to come is cached. -/
theorem hit_save (h : s.Valid) (r : ℕ) : (s.save M r).hit M = none := by
  unfold hit
  split
  · cases hc : s.cache with
    | none => simp [save, hc]
    | some c =>
      have := (h c.1 c.2 hc).2
      have hne : c.1 ≠ s.gen + 1 := by omega
      simp [save, hc, Option.filter, hne]
  · rfl

/-- What was written is what is read next. -/
theorem next_save (h : s.Valid) (r : ℕ) :
    (s.save M r).next M = M.parse (M.write (s.heap r)) :=
  next_parse rfl (hit_save h r)

theorem coherent_save (h : s.Valid) (r : ℕ) : (s.save M r).Coherent M := next_save h r

theorem valid_save (h : s.Valid) (r : ℕ) : (s.save M r).Valid := by
  intro g r' hc
  obtain ⟨hr, hg⟩ := h g r' hc
  exact ⟨hr, Nat.le_succ_of_le hg⟩

theorem valid_assign (h : s.Valid) (r : ℕ) (change : D → D) : (s.assign r change).Valid := h

@[simp] theorem heap_assign (r : ℕ) (change : D → D) :
    (s.assign r change).heap r = change (s.heap r) := Function.update_self ..

/-! What a load does. -/

theorem load_none {fails : Bool} (h : fails = true ∨ s.file = none) :
    s.load M fails = (s.alloc M.blank, s.fresh) := by
  have hif : (if fails then none else s.file) = none := by
    cases h with
    | inl h => rw [if_pos h]
    | inr h => rw [h, ite_self]
  simp only [load, hif]

theorem load_hit {f : F} {r : ℕ} (hf : s.file = some f) (h : s.hit M = some r) :
    s.load M false = (s, r) := by
  simp [load, hf, h]

theorem load_parse {f : F} (hf : s.file = some f) (h : s.hit M = none) :
    s.load M false = ({ s.alloc (M.parse f) with
      cache := if M.shared then some (s.gen, s.fresh) else s.cache }, s.fresh) := by
  simp [load, hf, h]

theorem hit_some {r : ℕ} (h : s.hit M = some r) :
    M.shared = true ∧ s.cache = some (s.gen, r) := by
  unfold hit at h
  split at h
  · next hs =>
    obtain ⟨c, hc, rfl⟩ := Option.map_eq_some_iff.mp h
    obtain ⟨hc, hg⟩ := Option.filter_eq_some_iff.mp hc
    exact ⟨hs, by rw [hc, ← of_decide_eq_true hg]⟩
  · cases h

theorem hit_lt {r : ℕ} (hv : s.Valid) (h : s.hit M = some r) : r < s.fresh :=
  (hv _ _ (hit_some h).2).1

theorem hit_of_cache {r : ℕ} (hs : M.shared = true) (h : s.cache = some (s.gen, r)) :
    s.hit M = some r := by
  simp [hit, hs, h, Option.filter]

theorem heap_alloc (d : D) {r : ℕ} (h : r < s.fresh) : (s.alloc d).heap r = s.heap r :=
  Function.update_of_ne (Nat.ne_of_lt h) _ _

theorem next_alloc (hv : s.Valid) (d : D) : (s.alloc d).next M = s.next M := by
  cases hf : s.file with
  | none => rw [next_none hf, next_none (s := s.alloc d) hf]
  | some f =>
    cases hh : s.hit M with
    | none => rw [next_parse hf hh, next_parse (s := s.alloc d) hf hh]
    | some r =>
      rw [next_hit hf hh, next_hit (s := s.alloc d) hf hh, heap_alloc d (hit_lt hv hh)]

theorem valid_alloc (hv : s.Valid) (d : D) : (s.alloc d).Valid := fun g r hc =>
  ⟨Nat.lt_succ_of_lt (hv g r hc).1, (hv g r hc).2⟩

/-- **What a load leaves**: the file as it was, a document as it is handed out, the next one
handed out no other. -/
structure Loads (M : Medium F D) (fails : Bool) (s s' : Store F D) (r : ℕ) : Prop where
  file : s'.file = s.file
  gen : s'.gen = s.gen
  doc : s'.heap r = if fails then M.blank else s.next M
  next : s'.next M = s.next M
  valid : s'.Valid
  /-- It is the document the next load hands out too, if it is shared. -/
  here : M.shared = true → fails = false → s.file ≠ none → s'.hit M = some r
  apart : M.shared = false ∨ fails = true ∨ s.file = none → s'.hit M ≠ some r

theorem loads (hv : s.Valid) (fails : Bool) :
    Loads M fails s (s.load M fails).1 (s.load M fails).2 := by
  by_cases hnone : fails = true ∨ s.file = none
  · rw [load_none hnone]
    refine ⟨rfl, rfl, ?_, next_alloc hv _, valid_alloc hv _, fun _ hr hf => ?_, fun _ hh => ?_⟩
    · have hself : (s.alloc M.blank).heap s.fresh = M.blank := Function.update_self ..
      rw [hself]
      cases hnone with
      | inl h => rw [if_pos h]
      | inr h => rw [next_none h, ite_self]
    · cases hnone with
      | inl h => simp [h] at hr
      | inr h => exact absurd h hf
    · exact absurd (hit_lt hv hh) (Nat.lt_irrefl _)
  · obtain ⟨hr, hf⟩ := not_or.mp hnone
    obtain rfl : fails = false := Bool.eq_false_iff.mpr hr
    obtain ⟨f, hf⟩ := Option.ne_none_iff_exists'.mp hf
    have hfile : s.file ≠ none := by simp [hf]
    cases hh : s.hit M with
    | some r =>
      rw [load_hit hf hh]
      refine ⟨rfl, rfl, (next_hit hf hh).symm, rfl, hv, fun _ _ _ => hh, fun h _ => ?_⟩
      have hs := (hit_some hh).1
      obtain h | h | h := h
      · rw [hs] at h; exact nomatch h
      · exact nomatch h
      · exact hfile h
    | none =>
      rw [load_parse hf hh]
      have hself : (s.alloc (M.parse f)).heap s.fresh = M.parse f := Function.update_self ..
      cases hs : M.shared with
      | true =>
        have hhit : ({ s.alloc (M.parse f) with cache := some (s.gen, s.fresh) } :
            Store F D).hit M = some s.fresh := hit_of_cache hs rfl
        refine ⟨rfl, rfl, ?_, ?_, ?_, fun _ _ _ => hhit, fun h => ?_⟩
        · exact hself.trans (next_parse hf hh).symm
        · rw [next_parse hf hh]
          exact (next_hit (s := { s.alloc (M.parse f) with cache := some (s.gen, s.fresh) })
            hf hhit).trans hself
        · rintro g r hc
          obtain ⟨rfl, rfl⟩ := Prod.mk.inj (Option.some.inj hc)
          exact ⟨Nat.lt_succ_self _, Nat.le_refl _⟩
        · simp [hs, hfile] at h
      | false =>
        refine ⟨rfl, rfl, ?_, next_alloc hv _, valid_alloc hv _, fun h => ?_, fun _ h => ?_⟩
        · exact hself.trans (next_parse hf hh).symm
        · exact absurd h (by simp [hs])
        · exact absurd (hit_some h).1 (by simp [hs])

/-! ### One operation alone -/

/-- What goes wrong around an operation. -/
structure Luck where
  saveFails : Bool
  lateFails : Bool

/-- What an operation raises: its own refusal, a failed write, or what fails after it. -/
inductive Raised (E : Type*)
  | refused (e : E)
  | unsaved
  | late
  deriving DecidableEq

variable (M)

/-- The document an operation assigns to: the one it has loaded, or one it loads anew. -/
def target (again : Bool) (loaded : Store F D × ℕ) : Store F D × ℕ :=
  if again then loaded.1.load M false else loaded

/-- One operation, alone. -/
def serve (op : D → Decision D E) (l : Luck) (s : Store F D) :
    Store F D × Except (Raised E) Unit :=
  let loaded := s.load M false
  match op (loaded.1.heap loaded.2) with
  | .refused e left => (loaded.1.assign loaded.2 left, .error (.refused e))
  | .nothing => (loaded.1, .ok ())
  | .save change again late =>
    let held := target M again loaded
    let edited := held.1.assign held.2 change
    if l.saveFails then (edited, .error .unsaved)
    else (edited.save M held.2, if late && l.lateFails then .error .late else .ok ())

/-- A load is of the document that the next one hands out. -/
def Handed (s : Store F D) : Prop := M.shared = true ∧ s.file ≠ none

instance (s : Store F D) : Decidable (Handed M s) := by
  unfold Handed
  infer_instance

variable {M}

theorem next_assign {r : ℕ} (h : s.hit M = some r) (hf : s.file ≠ none) (change : D → D) :
    (s.assign r change).next M = change (s.next M) := by
  obtain ⟨f, hf⟩ := Option.ne_none_iff_exists'.mp hf
  rw [next_hit hf h, next_hit (s := s.assign r change) hf h, heap_assign]

theorem next_assign_of_ne {r : ℕ} (h : s.hit M ≠ some r) (change : D → D) :
    (s.assign r change).next M = s.next M := by
  cases hf : s.file with
  | none => rw [next_none hf, next_none (s := s.assign r change) hf]
  | some f =>
    cases hh : s.hit M with
    | none => rw [next_parse hf hh, next_parse (s := s.assign r change) hf hh]
    | some r' =>
      have hne : r' ≠ r := fun he => h (he ▸ hh)
      rw [next_hit hf hh, next_hit (s := s.assign r change) hf hh]
      exact Function.update_of_ne hne _ _

theorem read_congr {s' : Store F D} (h : s'.file = s.file) : s'.read M = s.read M := by
  rw [read, read, h]

/-- An assignment to what was loaded is one to what is handed out next. -/
theorem Loads.assigned {s' : Store F D} {r : ℕ} (h : Loads M false s s' r) (change : D → D) :
    (s'.assign r change).next M = if Handed M s then change (s.next M) else s.next M := by
  split
  · next hh =>
    rw [next_assign (h.here hh.1 rfl hh.2) (h.file ▸ hh.2), h.next]
  · next hh =>
    have hapart : M.shared = false ∨ false = true ∨ s.file = none := by
      by_cases hs : M.shared = true
      · exact .inr (.inr (by_contra fun hf => hh ⟨hs, hf⟩))
      · exact .inl (Bool.eq_false_iff.mpr hs)
    rw [next_assign_of_ne (h.apart hapart), h.next]

/-- What an operation assigns to is what was handed out to it. -/
theorem loads_target (hv : s.Valid) (again : Bool) :
    Loads M false s (target M again (s.load M false)).1 (target M again (s.load M false)).2 := by
  have h := loads (M := M) hv false
  cases again with
  | false => exact h
  | true =>
    have h' := loads (M := M) h.valid false
    refine ⟨h'.file.trans h.file, h'.gen.trans h.gen, ?_, h'.next.trans h.next, h'.valid,
      fun hs hr hf => h'.here hs hr (h.file ▸ hf), fun hapart => h'.apart (h.file ▸ hapart)⟩
    exact h'.doc.trans h.next

/-- **When an operation that raises leaves no trace.** What it raises of its own accord
leaves none where its assignments so far change nothing, or nobody is handed the document
again; a write that fails, where the edit itself changes nothing; and what fails after the
write, where the edit is undone by writing and reading it. -/
theorem serve_traceless_iff (hv : s.Valid) {op : D → Decision D E} {l : Luck} {x : Raised E}
    (hraise : (s.serve M op l).2 = .error x) :
    (s.serve M op l).1.next M = s.next M ↔ match op (s.next M) with
      | .refused _ left => Handed M s → left (s.next M) = s.next M
      | .nothing => True
      | .save change _ _ =>
        if l.saveFails then Handed M s → change (s.next M) = s.next M
        else M.parse (M.write (change (s.next M))) = s.next M := by
  have hload := loads (M := M) hv false
  have hdoc : (s.load M false).1.heap (s.load M false).2 = s.next M := rfl
  unfold serve at hraise ⊢
  simp only [hdoc] at hraise ⊢
  have hedit : ∀ {s' r} (_ : Loads M false s s' r) (change : D → D),
      (s'.assign r change).next M = s.next M ↔ (Handed M s → change (s.next M) = s.next M) := by
    intro s' r h change
    rw [h.assigned change]
    split
    · next hh => exact ⟨fun he _ => he, fun he => he hh⟩
    · next hh => exact ⟨fun _ h => absurd h hh, fun _ => rfl⟩
  cases hop : op (s.next M) with
  | refused e left => exact hedit hload left
  | nothing => rw [hop] at hraise; exact nomatch hraise
  | save change again late =>
    have ht := loads_target (M := M) hv again
    simp only
    cases hs : l.saveFails with
    | true => exact hedit ht change
    | false =>
      simp only [Bool.false_eq_true, if_false]
      rw [next_save (valid_assign ht.valid _ _), heap_assign, ht.doc]
      rfl

theorem serve_valid (hv : s.Valid) (op : D → Decision D E) (l : Luck) :
    (s.serve M op l).1.Valid := by
  have hload := loads (M := M) hv false
  unfold serve
  simp only
  split
  · exact valid_assign hload.valid _ _
  · exact hload.valid
  · next change again late _ =>
    have ht := loads_target (M := M) hv again
    split
    · exact valid_assign ht.valid _ _
    · exact valid_save (valid_assign ht.valid _ _) _

/-- **What holds of a document whatever is done to it**: what an operation assigns keeps it, and
so do a write and the reading of it. It then holds of the file and of what is handed out. -/
theorem serve_docs (hv : s.Valid) {I : D → Prop} {op : D → Decision D E} (l : Luck)
    (hwrite : ∀ d, I d → I (M.parse (M.write d)))
    (hop : (op (s.next M)).Leaves (s.next M) I) (hn : I (s.next M)) (hr : I (s.read M)) :
    I ((s.serve M op l).1.next M) ∧ I ((s.serve M op l).1.read M) := by
  have hassigned : ∀ {s' r} (_ : Loads M false s s' r) {change : D → D},
      I (change (s.next M)) → I ((s'.assign r change).next M) ∧ I ((s'.assign r change).read M) := by
    intro s' r h change hc
    have hread : (s'.assign r change).read M = s.read M := read_congr h.file
    refine ⟨?_, hread ▸ hr⟩
    rw [h.assigned change]
    split
    · exact hc
    · exact hn
  have hload := loads (M := M) hv false
  have hdoc : (s.load M false).1.heap (s.load M false).2 = s.next M := rfl
  unfold serve
  simp only [hdoc]
  cases hrun : op (s.next M) with
  | refused e left =>
    rw [hrun] at hop
    exact hassigned hload hop
  | nothing => exact ⟨hload.next ▸ hn, read_congr hload.file ▸ hr⟩
  | save change again late =>
    rw [hrun] at hop
    have ht := loads_target (M := M) hv again
    simp only
    split
    · exact hassigned ht hop
    · have hsaved : I (M.parse (M.write (((target M again (s.load M false)).1.assign
          (target M again (s.load M false)).2 change).heap (target M again (s.load M false)).2))) := by
        rw [heap_assign, ht.doc]
        exact hwrite _ hop
      exact ⟨next_save (valid_assign ht.valid _ _) _ ▸ hsaved, hsaved⟩

/-- The store of a process that has not loaded anything. -/
def start (M : Medium F D) (f : Option F) : Store F D := ⟨f, 0, none, fun _ => M.blank, 0⟩

theorem valid_start (file : Option F) : (start M file).Valid :=
  fun _ _ h => nomatch h

theorem hit_start (file : Option F) : (start M file).hit M = none := by
  unfold hit
  split <;> rfl

theorem coherent_start (file : Option F) : (start M file).Coherent M := by
  cases file with
  | none => exact next_none rfl
  | some f => exact next_parse rfl (hit_start _)

/-- Requests one after the other, each with what goes wrong around it. -/
def serving (M : Medium F D) (run : Q → D → Decision D E) (file : Option F) :
    System (Store F D) (Q × Luck) where
  init s := s = start M file
  step s e s' := s' = (s.serve M (run e.1) e.2).1

/-- What was loaded, seen from the store after the load. -/
theorem Loads.self {s' : Store F D} {r : ℕ} (h : Loads M false s s' r) :
    Loads M false s' s' r where
  file := rfl
  gen := rfl
  doc := h.doc.trans h.next.symm
  next := rfl
  valid := h.valid
  here := fun hs hr hf => h.here hs hr (h.file ▸ hf)
  apart := fun ha => h.apart (h.file ▸ ha)

theorem Loads.coherent {s' : Store F D} {fails : Bool} {r : ℕ} (h : Loads M fails s s' r)
    (hc : s.Coherent M) : s'.Coherent M := by
  rw [Coherent, h.next, read_congr h.file]
  exact hc

end Store

/-! ### Threads -/

/-- What an operation makes of the document when nothing fails. -/
def alone (run : Q → D → Decision D E) (d : D) (q : Q) : D :=
  match run q d with
  | .save change _ _ => M.parse (M.write (change d))
  | _ => d

/-- The store, and the operations that have answered. -/
structure Served (F D Q : Type*) where
  store : Store F D
  log : List Q

inductive Place (Q D : Type*)
  | idle
  | loaded (q : Q) (r : ℕ)
  | decided (q : Q) (r : ℕ) (change : D → D) (again late : Bool)
  | assigned (q : Q) (r : ℕ) (late : Bool)
  | saved (q : Q) (late : Bool)

inductive Act (Q : Type*)
  | load (q : Q) (fails : Bool)
  | decide
  | reload (fails : Bool)
  | assign
  | save (fails : Bool)
  | finish (fails : Bool)

/-- The steps of an operation. -/
inductive Step (run : Q → D → Decision D E) :
    Served F D Q → Place Q D → Act Q → Served F D Q → Place Q D → Prop
  | load (x : Served F D Q) (q : Q) (fails : Bool) :
      Step run x .idle (.load q fails) { x with store := (x.store.load M fails).1 }
        (.loaded q (x.store.load M fails).2)
  | refuse (x : Served F D Q) (q : Q) (r : ℕ) (e : E) (left : D → D) :
      run q (x.store.heap r) = .refused e left →
      Step run x (.loaded q r) .decide { x with store := x.store.assign r left } .idle
  | nothing (x : Served F D Q) (q : Q) (r : ℕ) :
      run q (x.store.heap r) = .nothing →
      Step run x (.loaded q r) .decide { x with log := x.log ++ [q] } .idle
  | decide (x : Served F D Q) (q : Q) (r : ℕ) (change : D → D) (again late : Bool) :
      run q (x.store.heap r) = .save change again late →
      Step run x (.loaded q r) .decide x (.decided q r change again late)
  | reload (x : Served F D Q) (q : Q) (r : ℕ) (change : D → D) (late fails : Bool) :
      Step run x (.decided q r change true late) (.reload fails)
        { x with store := (x.store.load M fails).1 }
        (.decided q (x.store.load M fails).2 change false late)
  | assign (x : Served F D Q) (q : Q) (r : ℕ) (change : D → D) (late : Bool) :
      Step run x (.decided q r change false late) .assign
        { x with store := x.store.assign r change } (.assigned q r late)
  | unsaved (x : Served F D Q) (q : Q) (r : ℕ) (late : Bool) :
      Step run x (.assigned q r late) (.save true) x .idle
  | save (x : Served F D Q) (q : Q) (r : ℕ) (late : Bool) :
      Step run x (.assigned q r late) (.save false) { x with store := x.store.save M r }
        (.saved q late)
  | failed (x : Served F D Q) (q : Q) : Step run x (.saved q true) (.finish true) x .idle
  | finish (x : Served F D Q) (q : Q) (late : Bool) :
      Step run x (.saved q late) (.finish false) { x with log := x.log ++ [q] } .idle

/-- Operations on a store. -/
def program (run : Q → D → Decision D E) (s₀ : Store F D) :
    Program (Served F D Q) (Place Q D) (Act Q) where
  init x := x.store = s₀ ∧ x.log = []
  start := .idle
  step := Step M run

/-- No operation loads while another is under way, no read or write fails, and nothing after
the write; an operation that raises has changed nothing. -/
def OneByOne (run : Q → D → Decision D E) (s : Threads (Served F D Q) (Place Q D)) :
    ℕ × Act Q → Prop
  | (t, .load _ fails) => fails = false ∧ ∀ u, u ≠ t → s.pc u = .idle
  | (t, .decide) => ∀ q r e left, s.pc t = .loaded q r →
      run q (s.shared.store.heap r) = .refused e left →
      left (s.shared.store.heap r) = s.shared.store.heap r
  | (_, .reload fails) | (_, .save fails) | (_, .finish fails) => fails = false
  | (_, .assign) => True

section Serial

variable {M} {run : Q → D → Decision D E} {s₀ : Store F D}

/-- What the operations that have answered come to, one after the other. -/
def Served.fold (M : Medium F D) (run : Q → D → Decision D E) (s₀ : Store F D)
    (x : Served F D Q) : D := x.log.foldl (alone M run) (s₀.read M)

theorem Served.fold_concat (x : Served F D Q) (st : Store F D) (q : Q) :
    Served.fold M run s₀ ⟨st, x.log ++ [q]⟩ = alone M run (x.fold M run s₀) q := by
  simp [Served.fold]

/-- Between two operations. -/
structure Clean (M : Medium F D) (run : Q → D → Decision D E) (s₀ : Store F D)
    (x : Served F D Q) : Prop where
  valid : x.store.Valid
  coherent : x.store.Coherent M
  read : x.store.read M = x.fold M run s₀

/-- What holds at each place of the one operation that is under way. -/
def Doing (M : Medium F D) (run : Q → D → Decision D E) (s₀ : Store F D)
    (x : Served F D Q) : Place Q D → Prop
  | .idle => Clean M run s₀ x
  | .loaded _ r => Clean M run s₀ x ∧ x.store.Loads M false x.store r
  | .decided q r change _ late => Clean M run s₀ x ∧ x.store.Loads M false x.store r ∧
      ∃ again, run q (x.fold M run s₀) = .save change again late
  | .assigned q r late => x.store.Valid ∧ ∃ change again,
      run q (x.fold M run s₀) = .save change again late ∧
        x.store.heap r = change (x.fold M run s₀)
  | .saved q _ => x.store.Valid ∧ x.store.Coherent M ∧
      x.store.read M = alone M run (x.fold M run s₀) q

theorem Clean.next {x : Served F D Q} (h : Clean M run s₀ x) :
    x.store.next M = x.fold M run s₀ := h.coherent.trans h.read

/-- A load between two operations. -/
theorem Clean.load {x : Served F D Q} (h : Clean M run s₀ x) :
    Clean M run s₀ { x with store := (x.store.load M false).1 } ∧
      Store.Loads M false (x.store.load M false).1 (x.store.load M false).1
        (x.store.load M false).2 := by
  have hl := Store.loads (M := M) h.valid false
  exact ⟨⟨hl.valid, hl.coherent h.coherent, (Store.read_congr hl.file).trans h.read⟩, hl.self⟩

theorem Store.Loads.heap {s : Store F D} {r : ℕ} (h : Store.Loads M false s s r) :
    s.heap r = s.next M := h.doc

/-- **One step of the operation that is under way.** -/
theorem Doing.step {s : Threads (Served F D Q) (Place Q D)} {t : ℕ} {e : Act Q}
    {x' : Served F D Q} {p' : Place Q D} (h : Doing M run s₀ s.shared (s.pc t))
    (hok : OneByOne run s (t, e)) (hs : Step M run s.shared (s.pc t) e x' p') :
    Doing M run s₀ x' p' := by
  obtain ⟨x, pc⟩ := s
  simp only at h hs
  generalize hp : pc t = p at h hs
  cases hs with
  | load q fails =>
    obtain rfl : fails = false := hok.1
    exact h.load
  | refuse q r e left hrun =>
    obtain ⟨hc, hl⟩ := h
    have hsame : left (x.store.heap r) = x.store.heap r := hok q r e left hp hrun
    refine ⟨Store.valid_assign hc.valid r left, ?_, (Store.read_congr rfl).trans hc.read⟩
    change (x.store.assign r left).next M = x.store.read M
    rw [hl.assigned, ← hl.heap, hsame, ite_self, hl.heap]
    exact hc.coherent
  | nothing q r hrun =>
    obtain ⟨hc, hl⟩ := h
    refine ⟨hc.valid, hc.coherent, hc.read.trans ?_⟩
    rw [Served.fold_concat, alone, ← hc.next, ← hl.heap, hrun]
  | decide q r change again late hrun =>
    obtain ⟨hc, hl⟩ := h
    exact ⟨hc, hl, again, by rw [← hc.next, ← hl.heap, hrun]⟩
  | reload q r change late fails =>
    obtain rfl : fails = false := hok
    obtain ⟨hc, -, hrun⟩ := h
    exact ⟨hc.load.1, hc.load.2, hrun⟩
  | assign q r change late =>
    obtain ⟨hc, hl, again, hrun⟩ := h
    refine ⟨Store.valid_assign hc.valid r change, change, again, hrun, ?_⟩
    rw [Store.heap_assign, hl.heap, hc.next]
    rfl
  | unsaved q r late => exact nomatch hok
  | save q r late =>
    obtain ⟨hv, change, again, hrun, hdoc⟩ := h
    refine ⟨Store.valid_save hv r, Store.coherent_save hv r, ?_⟩
    change M.parse (M.write (x.store.heap r)) = alone M run (x.fold M run s₀) q
    rw [hdoc, alone, hrun]
  | failed q => exact nomatch hok
  | finish q late =>
    obtain ⟨hv, hc, hr⟩ := h
    exact ⟨hv, hc, hr.trans (Served.fold_concat x x.store q).symm⟩

theorem Step.of_idle {x x' : Served F D Q} {e : Act Q} {p' : Place Q D}
    (h : Step M run x .idle e x' p') : ∃ q fails, e = .load q fails := by
  cases h with
  | load q fails => exact ⟨q, fails, rfl⟩

/-- One operation at most is under way, and it is where its place says. -/
def Single (M : Medium F D) (run : Q → D → Decision D E) (s₀ : Store F D)
    (s : Threads (Served F D Q) (Place Q D)) : Prop :=
  ∃ t, (∀ u, u ≠ t → s.pc u = .idle) ∧ Doing M run s₀ s.shared (s.pc t)

theorem single (hv : s₀.Valid) (hc : s₀.Coherent M) {s : Threads (Served F D Q) (Place Q D)}
    (h : (program M run s₀).system.Reach (OneByOne run) s) : Single M run s₀ s := by
  refine h.invariant (fun s hs => ?_) fun s e s' hone hok hs => ?_
  · obtain ⟨⟨hst, hlog⟩, hidle⟩ := hs
    refine ⟨0, fun u _ => hidle u, ?_⟩
    rw [hidle 0]
    exact ⟨hst ▸ hv, hst ▸ hc, by rw [hst, Served.fold, hlog]; rfl⟩
  · obtain ⟨t, hothers, hdoing⟩ := hone
    obtain ⟨u, e⟩ := e
    obtain ⟨hs, hframe⟩ := hs
    simp only at hs hframe
    -- the thread that steps is the one under way, or it begins while none is
    have hu : ∀ v, v ≠ u → s.pc v = .idle := by
      by_cases hut : u = t
      · exact hut ▸ hothers
      · have hidle := hothers u hut
        rw [hidle] at hs
        obtain ⟨q, fails, rfl⟩ := hs.of_idle
        exact hok.2
    have hmine : Doing M run s₀ s.shared (s.pc u) := by
      by_cases hut : u = t
      · exact hut ▸ hdoing
      · rw [hothers u hut]
        rwa [hu t fun he => hut he.symm] at hdoing
    refine ⟨u, fun v hv => (hframe v hv).trans (hu v hv), hmine.step hok hs⟩

/-- Between two operations the document that is handed out is what they have made of it. -/
theorem clean_of_idle (hv : s₀.Valid) (hc : s₀.Coherent M)
    {s : Threads (Served F D Q) (Place Q D)}
    (h : (program M run s₀).system.Reach (OneByOne run) s) (hidle : ∀ t, s.pc t = .idle) :
    Clean M run s₀ s.shared := by
  obtain ⟨t, -, hdoing⟩ := single hv hc h
  rwa [hidle t] at hdoing

/-- **No edit is lost** while operations run one by one: once all have ended, the file says
what those that answered make of it in the order they answered. -/
theorem serial (hv : s₀.Valid) (hc : s₀.Coherent M)
    {s : Threads (Served F D Q) (Place Q D)}
    (h : (program M run s₀).system.Reach (OneByOne run) s) (hidle : ∀ t, s.pc t = .idle) :
    s.shared.store.read M = s.shared.log.foldl (alone M run) (s₀.read M) :=
  (clean_of_idle hv hc h hidle).read

end Serial

/-! ### Two operations at once -/

section Racing

variable {M} {run : Q → D → Decision D E} {f : F}

end Racing

end Document
