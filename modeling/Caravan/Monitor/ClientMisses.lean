import Caravan.Framework.Threads
import Caravan.Monitor.Misses
import Caravan.Python.Int

/-!
# The clients' errors, read on

`ClientMisses` keeps of each day's file what was read of it, and reads on from there. Any number of
calls share what is kept; the files grow, a row may be cut short for a while, old files go, and the
day changes, between any two operations.

* `keeps` — what is kept of a day is whole lines of its file, folded;
* `reads_whole` — a call that no other one gets in the way of answers what one reading of the files
  gives, each as it stood when the call took its size;
* `midnight_raises` — two calls after midnight, and the second one takes away a day that the first
  has taken away.

The journal's folder is there. A file that is gone does not come back: the proxy writes to the file
of the day that it is.
-/

namespace ClientMisses

open Python

/-! ### The calls -/

/-- The files, the clock's day, and `_read`. -/
structure Shared where
  /-- What a day's file holds, and held when it went. -/
  written : ℤ → Bytes
  there : ℤ → Bool
  /-- There is or was a file of the day. -/
  made : ℤ → Bool
  today : ℤ
  read : List (ℤ × Seen)

/-- What a call has of a day: the file as it stood when the call took its size, and its errors. -/
structure Taken where
  day : ℤ
  file : Option Bytes
  misses : Option Misses

/-- A call: the ports, its days, the newest first, and what it has of them. -/
structure Call where
  ports : List ℤ
  days : List ℤ
  taken : List Taken

inductive Failure where
  /-- `KeyError` -/
  | key
  /-- `FileNotFoundError` -/
  | file
  | python (e : Error)
  deriving DecidableEq

/-- Where a thread is. The file that stood there when its size was taken is kept for the record: the
call knows the size. -/
inductive Place where
  | idle
  | begun (c : Call)
  /-- the days of `_read` that it has still to look at -/
  | sweeping (c : Call) (keys : List ℤ)
  | walking (c : Call) (days : List ℤ)
  | gone (c : Call) (day : ℤ) (days : List ℤ)
  | sized (c : Call) (day : ℤ) (days : List ℤ) (file : Bytes)
  | opening (c : Call) (day : ℤ) (days : List ℤ) (file : Bytes) (seen : Seen)
  | storing (c : Call) (day : ℤ) (days : List ℤ) (file : Bytes) (seen : Seen)
  | answered (c : Call) (cards : List Card)
  | raised (e : Failure)

inductive Event where
  | call (ports : List ℤ)
  /-- the call's next operation -/
  | goes
  /-- the proxy writes to a day's file -/
  | grows (day : ℤ) (more : Bytes)
  | removed (day : ℤ)
  | clock (today : ℤ)

/-- The last `n` days, the newest first. -/
def window (n : ℕ) (today : ℤ) : List ℤ := (List.range n).map fun back => today - back

/-- What is kept of a day, or nothing if the file is shorter by now. -/
def kept (x : Shared) (day : ℤ) (size : ℕ) : Seen :=
  let seen := (Assoc.get x.read day).getD Seen.none
  if size < seen.offset then Seen.none else seen

variable (I : Interp) (parse : Parse) (n : ℕ)

/-- The next operation of `of`. -/
def goes (x : Shared) : Place → Option (Shared × Place)
  | .begun c => some (x, .sweeping c (x.read.map Prod.fst))
  | .sweeping c [] => some (x, .walking c c.days)
  | .sweeping c (day :: keys) =>
    if day ∈ c.days then some (x, .sweeping c keys)
    else match Assoc.get x.read day with
      | none => some (x, .raised .key)
      | some _ => some ({ x with read := Assoc.del x.read day }, .sweeping c keys)
  | .walking c [] => some (x, .answered c (cards c.ports (c.taken.map Taken.misses)))
  | .walking c (day :: days) =>
    some (x, if x.there day then .sized c day days (x.written day) else .gone c day days)
  | .gone c day days =>
    some ({ x with read := Assoc.del x.read day },
      .walking { c with taken := c.taken ++ [⟨day, none, none⟩] } days)
  | .sized c day days file =>
    let seen := kept x day file.length
    some (x, if seen.offset < file.length then .opening c day days file seen
      else .storing c day days file seen)
  | .opening c day days file seen =>
    if x.there day then
      match readOn I parse seen (((x.written day).take file.length).drop seen.offset) with
      | .ok seen' => some (x, .storing c day days file seen')
      | .error e => some (x, .raised (.python e))
    else some (x, .raised .file)
  | .storing c day days file seen =>
    some ({ x with read := Assoc.set x.read day seen },
      .walking { c with taken := c.taken ++ [⟨day, some file, some seen.misses⟩] } days)
  | _ => none

def next (x : Shared) (p : Place) : Event → Option (Shared × Place)
  | .call ports =>
    match p with
    | .idle | .answered _ _ | .raised _ => some (x, .begun ⟨ports, window n x.today, []⟩)
    | _ => none
  | .goes => goes I parse x p
  | .grows day more =>
    if x.there day then
      some ({ x with written := Function.update x.written day (x.written day ++ more) }, p)
    else if x.made day then none
    else some ({ x with
      written := Function.update x.written day more
      there := Function.update x.there day true
      made := Function.update x.made day true }, p)
  | .removed day => some ({ x with there := Function.update x.there day false }, p)
  | .clock today => some ({ x with today }, p)

/-- Any number of calls, with nothing kept at first. -/
def calls : Program Shared Place Event where
  init x := x.read = [] ∧ ∀ day, x.there day = true → x.made day = true
  start := .idle
  step x p e x' p' := next I parse n x p e = some (x', p')

/-- **The steps at which nobody gets in the way**: a day that a call takes away is still there to
be taken away, a file that it opens is still there, and no whole row of it makes `miss_of` raise
what is no `ValueError`. -/
def Undisturbed (s : Threads Shared Place) (e : ℕ × Event) : Prop :=
  e.2 = .goes →
    (∀ c day keys, s.pc e.1 = .sweeping c (day :: keys) → day ∉ c.days →
      Assoc.get s.shared.read day ≠ none) ∧
    ∀ c day days file seen, s.pc e.1 = .opening c day days file seen →
      s.shared.there day = true ∧
        ∀ line ∈ splitlines (whole file), ∃ m, lineMiss I parse line = .ok m

/-! ### What is kept, and what a call knows -/

/-- What is kept of a day is whole lines of its file, folded. -/
structure SharedInv (x : Shared) : Prop where
  kept : ∀ day seen, Assoc.get x.read day = some seen →
    x.made day = true ∧ Good I parse (x.written day) seen
  made : ∀ day, x.there day = true → x.made day = true

/-- What a call has of a day is right. -/
def Taken.Right (x : Shared) (t : Taken) : Prop :=
  match t.file with
  | none => t.misses = none
  | some file => (x.made t.day = true ∧ file <+: x.written t.day) ∧
    ∃ m, wholeDay I parse file = .ok m ∧ t.misses = some m

/-- A call has its days up to those that are left. -/
structure CallInv (x : Shared) (c : Call) (left : List ℤ) : Prop where
  right : ∀ t ∈ c.taken, t.Right I parse x
  days : c.taken.map Taken.day ++ left = c.days

/-- A file that stood there. -/
def Stood (x : Shared) (day : ℤ) (file : Bytes) : Prop :=
  x.made day = true ∧ file <+: x.written day

def PlaceInv (x : Shared) : Place → Prop
  | .idle => True
  | .begun c => CallInv I parse x c c.days
  | .sweeping c _ => CallInv I parse x c c.days
  | .walking c days => CallInv I parse x c days
  | .gone c day days => CallInv I parse x c (day :: days)
  | .sized c day days file => CallInv I parse x c (day :: days) ∧ Stood x day file
  | .opening c day days file seen =>
    CallInv I parse x c (day :: days) ∧ Stood x day file ∧ Good I parse file seen
  | .storing c day days file seen =>
    CallInv I parse x c (day :: days) ∧ Stood x day file ∧ Good I parse file seen ∧
      wholeDay I parse file = .ok seen.misses
  | .answered c result =>
    CallInv I parse x c [] ∧ result = cards c.ports (c.taken.map Taken.misses)
  | .raised _ => False

/-- The files have grown. -/
def Grown (x x' : Shared) : Prop :=
  ∀ day, x.made day = true → x'.made day = true ∧ x.written day <+: x'.written day

section Steps

variable {I parse n} {x x' : Shared} {p p' : Place}

theorem grown_refl (x : Shared) : Grown x x := fun _ h => ⟨h, List.prefix_rfl⟩

theorem Stood.grown {day : ℤ} {file : Bytes} (h : Stood x day file) (hx : Grown x x') :
    Stood x' day file :=
  ⟨(hx day h.1).1, h.2.trans (hx day h.1).2⟩

theorem CallInv.grown {c : Call} {left : List ℤ} (h : CallInv I parse x c left)
    (hx : Grown x x') : CallInv I parse x' c left := by
  refine ⟨fun t ht => ?_, h.days⟩
  have hright := h.right t ht
  unfold Taken.Right at hright ⊢
  cases hfile : t.file with
  | none =>
    rw [hfile] at hright
    exact hright
  | some file =>
    rw [hfile] at hright
    exact ⟨Stood.grown hright.1 hx, hright.2⟩

/-- What a call knows stays true. -/
theorem PlaceInv.grown (h : PlaceInv I parse x p) (hx : Grown x x') : PlaceInv I parse x' p := by
  cases p with
  | idle => trivial
  | raised e => exact h
  | begun c => exact CallInv.grown h hx
  | sweeping c keys => exact CallInv.grown h hx
  | walking c days => exact CallInv.grown h hx
  | gone c day days => exact CallInv.grown h hx
  | sized c day days file => exact ⟨h.1.grown hx, h.2.grown hx⟩
  | opening c day days file seen => exact ⟨h.1.grown hx, h.2.1.grown hx, h.2.2⟩
  | storing c day days file seen => exact ⟨h.1.grown hx, h.2.1.grown hx, h.2.2⟩
  | answered c result => exact ⟨h.1.grown hx, h.2⟩

/-- A day more. -/
theorem CallInv.take {c : Call} {day : ℤ} {days : List ℤ} (h : CallInv I parse x c (day :: days))
    {t : Taken} (hday : t.day = day) (hright : t.Right I parse x) :
    CallInv I parse x { c with taken := c.taken ++ [t] } days := by
  refine ⟨?_, ?_⟩
  · rw [List.forall_mem_append]
    exact ⟨h.right, fun u hu => List.mem_singleton.mp hu ▸ hright⟩
  · show (c.taken ++ [t]).map Taken.day ++ days = c.days
    rw [List.map_append, List.map_singleton, List.append_assoc, hday]
    exact h.days

/-- What is kept goes, or is another reading of the file. -/
theorem SharedInv.del (h : SharedInv I parse x) (day : ℤ) :
    SharedInv I parse { x with read := Assoc.del x.read day } := by
  refine ⟨fun d seen hget => h.kept d seen ?_, h.made⟩
  change Assoc.get (Assoc.del x.read day) d = some seen at hget
  rw [Assoc.get_del] at hget
  split at hget
  · cases hget
  · exact hget

theorem SharedInv.set (h : SharedInv I parse x) {day : ℤ} {seen : Seen}
    (hmade : x.made day = true) (hgood : Good I parse (x.written day) seen) :
    SharedInv I parse { x with read := Assoc.set x.read day seen } := by
  refine ⟨fun d s hget => ?_, h.made⟩
  change Assoc.get (Assoc.set x.read day seen) d = some s at hget
  rw [Assoc.get_set] at hget
  split at hget
  · next hd =>
    subst hd
    obtain rfl := Option.some.inj hget
    exact ⟨hmade, hgood⟩
  · exact h.kept d s hget

/-- What is taken of what is kept is a reading of the file as it stood. -/
theorem kept_good (hI : SharedInv I parse x) {day : ℤ} {file : Bytes} (h : Stood x day file) :
    Good I parse file (kept x day file.length) := by
  unfold kept
  dsimp only
  cases hget : Assoc.get x.read day with
  | none =>
    rw [Option.getD_none]
    split <;> exact good_none
  | some seen =>
    rw [Option.getD_some]
    split
    · exact good_none
    · next hle => exact (hI.kept day seen hget).2.shorter h.2 (Nat.le_of_not_lt hle)

/-- A file whose rows can all be read can be folded. -/
theorem wholeDay_ok {file : Bytes}
    (h : ∀ line ∈ splitlines (whole file), ∃ m, lineMiss I parse line = .ok m) :
    ∃ m, wholeDay I parse file = .ok m := by
  obtain ⟨m, hm, -⟩ := Except.foldlM_exists (f := addLine I parse) (P := fun _ => True)
    (l := splitlines (whole file)) (b := [])
    (fun misses line hline _ => by
      obtain ⟨found, hfound⟩ := h line hline
      unfold addLine
      rw [hfound]
      cases found with
      | none => exact ⟨misses, rfl, trivial⟩
      | some miss => exact ⟨misses.count miss, rfl, trivial⟩) trivial
  exact ⟨m, hm⟩

/-- **One operation of a call** keeps what is kept right, and brings the call where it knows what
it is to know. -/
theorem goes_step (hI : SharedInv I parse x) (hQ : PlaceInv I parse x p)
    (hkey : ∀ c day keys, p = .sweeping c (day :: keys) → day ∉ c.days →
      Assoc.get x.read day ≠ none)
    (hfile : ∀ c day days file seen, p = .opening c day days file seen →
      x.there day = true ∧ ∀ line ∈ splitlines (whole file), ∃ m, lineMiss I parse line = .ok m)
    (h : goes I parse x p = some (x', p')) :
    SharedInv I parse x' ∧ PlaceInv I parse x' p' ∧ Grown x x' := by
  cases p with
  | idle => cases h
  | answered c result => cases h
  | raised e => cases h
  | begun c =>
    cases h
    exact ⟨hI, hQ, grown_refl x⟩
  | sweeping c keys =>
    cases keys with
    | nil =>
      cases h
      exact ⟨hI, hQ, grown_refl x⟩
    | cons day keys =>
      rw [goes] at h
      split at h
      · cases h
        exact ⟨hI, hQ, grown_refl x⟩
      · next hday =>
        split at h
        · next hnone => exact absurd hnone (hkey c day keys rfl hday)
        · cases h
          exact ⟨hI.del day, CallInv.grown hQ (grown_refl x), grown_refl x⟩
  | walking c days =>
    cases days with
    | nil =>
      cases h
      exact ⟨hI, ⟨hQ, rfl⟩, grown_refl x⟩
    | cons day days =>
      rw [goes] at h
      cases h
      refine ⟨hI, ?_, grown_refl x⟩
      split
      · next hthere => exact ⟨hQ, hI.made day hthere, List.prefix_rfl⟩
      · exact hQ
  | gone c day days =>
    cases h
    refine ⟨hI.del day, ?_, grown_refl x⟩
    have hcall : CallInv I parse { x with read := Assoc.del x.read day } c (day :: days) :=
      CallInv.grown hQ (grown_refl x)
    exact CallInv.take (t := ⟨day, none, none⟩) hcall rfl rfl
  | sized c day days file =>
    obtain ⟨hcall, hstood⟩ := hQ
    have hgood := kept_good hI hstood
    cases h
    refine ⟨hI, ?_, grown_refl x⟩
    split
    · exact ⟨hcall, hstood, hgood⟩
    · next hend =>
      -- the file was read to its end
      have hlen := Nat.le_antisymm hgood.within (Nat.le_of_not_lt hend)
      exact ⟨hcall, hstood, hgood, hgood.whole hlen⟩
  | opening c day days file seen =>
    obtain ⟨hcall, hstood, hgood⟩ := hQ
    obtain ⟨hthere, hrows⟩ := hfile c day days file seen rfl
    have hbytes : (x.written day).take file.length = file :=
      (List.prefix_iff_eq_take.mp hstood.2).symm
    have hwhole := readOn_whole hgood
    obtain ⟨m, hm⟩ := wholeDay_ok hrows
    rw [goes, if_pos hthere, hbytes] at h
    cases hread : readOn I parse seen (file.drop seen.offset) with
    | error e =>
      rw [hread, hm] at hwhole
      cases hwhole
    | ok seen' =>
      rw [hread] at h hwhole
      cases h
      exact ⟨hI, ⟨hcall, hstood, readOn_good hgood hread, hwhole.symm⟩, grown_refl x⟩
  | storing c day days file seen =>
    obtain ⟨hcall, hstood, hgood, hwhole⟩ := hQ
    cases h
    refine ⟨hI.set hstood.1 (hgood.mono hstood.2), ?_, grown_refl x⟩
    have hcall' : CallInv I parse { x with read := Assoc.set x.read day seen } c (day :: days) :=
      hcall.grown (grown_refl x)
    exact CallInv.take (t := ⟨day, some file, some seen.misses⟩) hcall' rfl
      ⟨hstood, seen.misses, hwhole, rfl⟩

/-- **Any step**: an operation of a call, or one of its surroundings. -/
theorem next_step {e : Event} (hI : SharedInv I parse x) (hQ : PlaceInv I parse x p)
    (hkey : e = .goes → ∀ c day keys, p = .sweeping c (day :: keys) → day ∉ c.days →
      Assoc.get x.read day ≠ none)
    (hfile : e = .goes → ∀ c day days file seen, p = .opening c day days file seen →
      x.there day = true ∧ ∀ line ∈ splitlines (whole file), ∃ m, lineMiss I parse line = .ok m)
    (h : next I parse n x p e = some (x', p')) :
    SharedInv I parse x' ∧ PlaceInv I parse x' p' ∧ Grown x x' := by
  cases e with
  | goes => exact goes_step hI hQ (hkey rfl) (hfile rfl) h
  | call ports =>
    have hnew : CallInv I parse x ⟨ports, window n x.today, []⟩ (window n x.today) :=
      ⟨fun _ ht => absurd ht List.not_mem_nil, rfl⟩
    unfold next at h
    dsimp only at h
    split at h <;> cases h <;> exact ⟨hI, hnew, grown_refl x⟩
  | clock today =>
    cases h
    exact ⟨⟨hI.kept, hI.made⟩, hQ.grown (grown_refl x), grown_refl x⟩
  | removed day =>
    cases h
    refine ⟨⟨hI.kept, fun d hd => hI.made d ?_⟩, hQ.grown (grown_refl x), grown_refl x⟩
    change Function.update x.there day false d = true at hd
    by_cases hday : d = day
    · rw [hday, Function.update_self] at hd
      exact nomatch hd
    · rwa [Function.update_of_ne hday] at hd
  | grows day more =>
    unfold next at h
    dsimp only at h
    split at h
    · next hthere =>
      cases h
      have hgrown : Grown x { x with
          written := Function.update x.written day (x.written day ++ more) } := by
        intro d hd
        refine ⟨hd, ?_⟩
        show x.written d <+: Function.update x.written day (x.written day ++ more) d
        by_cases hday : d = day
        · subst hday
          rw [Function.update_self]
          exact List.prefix_append _ _
        · rw [Function.update_of_ne hday]
      refine ⟨⟨fun d seen hget => ?_, hI.made⟩, hQ.grown hgrown, hgrown⟩
      obtain ⟨hmade, hgood⟩ := hI.kept d seen hget
      exact ⟨hmade, hgood.mono (hgrown d hmade).2⟩
    · split at h
      · exact nomatch h
      · next hmade =>
        cases h
        have hgrown : Grown x { x with
            written := Function.update x.written day more
            there := Function.update x.there day true
            made := Function.update x.made day true } := by
          intro d hd
          have hday : d ≠ day := by
            rintro rfl
            exact hmade hd
          show Function.update x.made day true d = true ∧
            x.written d <+: Function.update x.written day more d
          rw [Function.update_of_ne hday, Function.update_of_ne hday]
          exact ⟨hd, List.prefix_rfl⟩
        refine ⟨⟨fun d seen hget => ?_, fun d hd => ?_⟩, hQ.grown hgrown, hgrown⟩
        · obtain ⟨hm, hgood⟩ := hI.kept d seen hget
          exact ⟨(hgrown d hm).1, hgood.mono (hgrown d hm).2⟩
        · show Function.update x.made day true d = true
          by_cases hday : d = day
          · rw [hday, Function.update_self]
          · rw [Function.update_of_ne hday]
            change Function.update x.there day true d = true at hd
            rw [Function.update_of_ne hday] at hd
            exact hI.made d hd

/-- **What is kept** is whole lines folded, and every call knows what it is to know, in every run
in which nobody gets in the way. -/
theorem keeps {s : Threads Shared Place}
    (h : System.Reach (calls I parse n).system (Undisturbed I parse) s) :
    SharedInv I parse s.shared ∧ ∀ t, PlaceInv I parse s.shared (s.pc t) := by
  refine Program.every (I := SharedInv I parse) (Q := PlaceInv I parse)
    (fun x (hx : x.read = [] ∧ ∀ day, x.there day = true → x.made day = true) =>
      ⟨⟨fun day seen hget => ?_, hx.2⟩, show PlaceInv I parse x .idle from trivial⟩)
    (fun s t e x p hI hQ hok hstep => ?_) h
  · rw [hx.1] at hget
    exact nomatch hget
  · obtain ⟨hI', hQ', hgrown⟩ := next_step hI (hQ t)
      (fun he => (hok he).1) (fun he => (hok he).2) hstep
    exact ⟨hI', hQ', fun u _ => (hQ u).grown hgrown⟩

/-! ### What a call answers -/

/-- What is right of each day is what one reading folds. -/
theorem reading_taken {ports : List ℤ} {taken : List Taken}
    (h : ∀ t ∈ taken, t.Right I parse x) :
    reading I parse ports (taken.map Taken.file) =
      .ok (cards ports (taken.map Taken.misses)) := by
  have hdays : (taken.map Taken.file).mapM (readDay I parse) = .ok (taken.map Taken.misses) := by
    induction taken with
    | nil => rfl
    | cons t taken ih =>
      obtain ⟨ht, hrest⟩ := List.forall_mem_cons.mp h
      have hday : readDay I parse t.file = .ok t.misses := by
        unfold Taken.Right at ht
        cases hfile : t.file with
        | none =>
          rw [hfile] at ht
          rw [ht]
          rfl
        | some file =>
          rw [hfile] at ht
          obtain ⟨-, m, hm, hmisses⟩ := ht
          rw [hmisses, readDay, hm]
          rfl
      rw [List.map_cons, List.mapM_cons, hday, ih hrest]
      rfl
  unfold reading
  rw [hdays]
  rfl

end Steps

/-- **The errors read on are the errors read whole.** In every run in which nobody gets in the way,
no call raises, and each answers what one reading gives of the files of its days: of each day the
file that stood there when the call took its size, or none. -/
theorem reads_whole (I : Interp) (parse : Parse) (n : ℕ) {s : Threads Shared Place}
    (h : System.Reach (calls I parse n).system (Undisturbed I parse) s) (t : ℕ) :
    (∀ e, s.pc t ≠ .raised e) ∧
      ∀ c result, s.pc t = .answered c result →
        c.taken.map Taken.day = c.days ∧
        (∀ d ∈ c.taken, ∀ file, d.file = some file → file <+: s.shared.written d.day) ∧
        reading I parse c.ports (c.taken.map Taken.file) = .ok result := by
  have hplace := (keeps h).2 t
  constructor
  · intro e he
    rw [he] at hplace
    exact hplace
  · intro c result he
    rw [he] at hplace
    obtain ⟨hcall, hresult⟩ := hplace
    refine ⟨(List.append_nil _).symm.trans hcall.days, fun d hd file hfile => ?_, ?_⟩
    · have hright := hcall.right d hd
      unfold Taken.Right at hright
      rw [hfile] at hright
      exact hright.1.2
    · rw [hresult]
      exact reading_taken hcall.right

/-! ### Runs -/

/-- A thread's step is what `next` gives. -/
theorem calls_turn {I : Interp} {parse : Parse} {n : ℕ} (s : Threads Shared Place)
    (e : ℕ × Event) (s' : Threads Shared Place) (h : Program.turn (next I parse n) s e = some s') :
    (calls I parse n).system.step s e s' :=
  Program.turn_step (fun _ _ _ _ _ h => h) s e s' h

/-- Nobody gets in the way, as it can be checked. -/
def undisturbed (I : Interp) (parse : Parse) (s : Threads Shared Place) (e : ℕ × Event) : Bool :=
  match s.pc e.1 with
  | .sweeping c (day :: _) => day ∈ c.days || (Assoc.get s.shared.read day).isSome
  | .opening _ day _ file _ => s.shared.there day &&
      (splitlines (whole file)).all fun line => (lineMiss I parse line).toOption.isSome
  | _ => true

theorem undisturbed_met {I : Interp} {parse : Parse} {s : Threads Shared Place} {e : ℕ × Event}
    (h : undisturbed I parse s e = true) : Undisturbed I parse s e := by
  intro _
  unfold undisturbed at h
  constructor
  · intro c day keys hp hday
    rw [hp] at h
    rcases Bool.or_eq_true_iff.mp h with hin | hsome
    · exact absurd (of_decide_eq_true hin) hday
    · exact Option.isSome_iff_ne_none.mp hsome
  · intro c day days file seen hp
    rw [hp] at h
    obtain ⟨hthere, hrows⟩ := Bool.and_eq_true_iff.mp h
    refine ⟨hthere, fun line hline => ?_⟩
    have hone := List.all_eq_true.mp hrows line hline
    cases hmiss : lineMiss I parse line with
    | ok m => exact ⟨m, rfl⟩
    | error e =>
      rw [hmiss] at hone
      exact nomatch hone

/-- A refusal of the entry, whatever the line. -/
def refusal : Parse := fun _ => .ok (.dict [("event", .str "blocked"),
  ("item", .dict [("status", .int 401), ("port", .int 8100)]), ("time", .int 5)])

/-- A journal with one line, on its day. -/
def oneLine : Shared where
  written _ := [0x78, Bytes.LF]
  there day := day = 29
  made day := day = 29
  today := 29
  read := []

/-- The card of the call's port. -/
def firstCards (s : Threads Shared Place) : Option (List ℤ × List Card) :=
  match s.pc 0 with
  | .answered c result => some (c.days, result)
  | _ => none

/-- One call over two days. -/
def oneCall : List (ℕ × Event) := (0, .call [8100]) :: List.replicate 9 (0, .goes)

/-- A call reads the one line and answers with it, as one reading does. -/
theorem oneCall_reads : ∃ s, ∃ c result,
    System.Reach (calls .ascii refusal 2).system (Undisturbed .ascii refusal) s ∧
      s.pc 0 = .answered c result ∧
      result = [⟨8100, [⟨[], [], 401, ⟨1, 5, []⟩⟩], 0⟩] ∧
      reading .ascii refusal c.ports (c.taken.map Taken.file) = .ok result := by
  have hrun : (System.follow (fun s e =>
      if undisturbed .ascii refusal s e then Program.turn (next .ascii refusal 2) s e else none)
      ⟨oneLine, fun _ => .idle⟩ oneCall).map firstCards =
        some (some ([29, 28], [⟨8100, [⟨[], [], 401, ⟨1, 5, []⟩⟩], 0⟩])) := by
    decide +kernel
  obtain ⟨s, hs, hcards⟩ := Option.map_eq_some_iff.mp hrun
  have hinit : (calls .ascii refusal 2).system.init ⟨oneLine, fun _ => .idle⟩ :=
    ⟨⟨rfl, fun _ h => h⟩, fun _ => rfl⟩
  have hreach : System.Reach (calls .ascii refusal 2).system (Undisturbed .ascii refusal) s := by
    refine System.Reach.follow_met (fun s e s' h => ?_) oneCall (.init hinit) hs
    split at h
    · next hcalm => exact ⟨calls_turn s e s' h, undisturbed_met hcalm⟩
    · exact nomatch h
  unfold firstCards at hcards
  split at hcards
  · next c result hp =>
    obtain ⟨-, hresult⟩ := Prod.mk.inj (Option.some.inj hcards)
    exact ⟨s, c, result, hreach, hp, hresult,
      ((reads_whole .ascii refusal 2 hreach 0).2 c result hp).2.2⟩
  · exact nomatch hcards

/-! ### Midnight -/

/-- A journal with an empty file of day 0, on day 29. -/
def oneFile : Shared where
  written _ := []
  there day := day = 0
  made day := day = 0
  today := 29
  read := []

/-- A call reads its thirty days; midnight; two calls look at what is kept, and each takes day 0
away. -/
def midnight : List (ℕ × Event) :=
  (0, .call [8100]) :: List.replicate 64 (0, .goes) ++
    [(0, .clock 30), (0, .call [8100]), (1, .call [8100]), (0, .goes), (1, .goes), (0, .goes),
      (1, .goes)]

/-- The call of the second thread, at its end. -/
def keyRaised (s : Threads Shared Place) : Bool :=
  match s.pc 1 with
  | .raised e => e = .key
  | _ => false

/-- **After midnight** the second of two calls raises a `KeyError`: the first one has taken away
the day that has left the window. -/
theorem midnight_raises : ∃ s,
    System.Reachable (calls .ascii refusal 30).system s ∧ s.pc 1 = .raised .key := by
  have hrun : (System.follow (Program.turn (next .ascii refusal 30)) ⟨oneFile, fun _ => .idle⟩
      midnight).map keyRaised = some true := by
    rfl
  obtain ⟨s, hs, hraised⟩ := Option.map_eq_some_iff.mp hrun
  have hinit : (calls .ascii refusal 30).system.init ⟨oneFile, fun _ => .idle⟩ :=
    ⟨⟨rfl, fun _ h => h⟩, fun _ => rfl⟩
  refine ⟨s, System.Reach.follow calls_turn midnight (.init hinit) hs fun _ _ _ => trivial, ?_⟩
  unfold keyRaised at hraised
  split at hraised
  · next e he => rw [he, of_decide_eq_true hraised]
  · exact nomatch hraised

end ClientMisses
