import Caravan.StoreMoves.Bring

/-!
# A folder, from its scan to its removal

What a walk of a folder found stands for the folder from then on, as far as it
can: its links until one is put in (`Listed.links`), its files until somebody
changes the source (`Listed.files`). The scan makes it the item's plan, `_plant`
puts the links at the target, the last look compares (`Ready`), and the removal
finds every entry at the target (`carried_of_ready`).
-/

namespace StoreMoves

open Crash Prog World Relation Mover Io

variable {D : Type} {orig : Origin} {plain : Prop}

/-! ### Walking -/

/-- The entries of a walk, and what they still say of the source. -/
structure Listed (d : String) (es : List Entry) (w : World D) : Prop where
  walked : d ∈ w.walked
  final : ∀ e ∈ es, ¬ IsPart (within d e.rel)
  links : ∀ p t, Assoc.get w.source.tree p = some (.link t) → (inside? d p).isSome →
    ∃ e ∈ es, e.kind = .link ∧ p = within d e.rel ∧ e.text = t
  files : w.calm = true → ∀ q n, fileAt w.source.tree (within d q) = some n →
    ∃ e ∈ es, e.kind = .file ∧ e.rel = q

theorem stable_listed (d : String) (es : List Entry) :
    Stable orig plain (Quiet plain) (Listed (D := D) d es) := by
  intro w w' hq hf hc h
  have hon := hq.onward hf hc.solid
  refine ⟨hon.walked _ h.walked, h.final, fun p t hp hin => ?_, fun hcalm q n hn => ?_⟩
  · rcases hon.links p t hp with hp | hp
    · exact h.links p t hp hin
    · rw [hp d h.walked] at hin
      exact absurd hin (by simp)
  · obtain ⟨hcalm, hback⟩ := hq.calm hf hc.solid hcalm
    exact h.files hcalm q n (hback _ n hn)

theorem suffix_of_suffix_sep {A : Type} {s : A} {l xs ys : List A} (hs : s ∉ l)
    (h : l <:+ xs ++ s :: ys) : l <:+ ys := by
  rcases List.suffix_or_suffix_of_suffix h (List.suffix_append xs (s :: ys)) with h | h
  · rcases List.suffix_cons_iff.mp h with rfl | h
    · exact absurd List.mem_cons_self hs
    · exact h
  · exact absurd (h.subset List.mem_cons_self) hs

/-- A name in a folder is temporary where its last part is. -/
theorem isPart_within {d rel : String} (h : IsPart (within d rel)) : IsPart rel := by
  unfold IsPart at h ⊢
  refine @suffix_of_suffix_sep Char '/' _ d.toList _ (by decide) ?_
  rw [within_toList] at h
  simpa using h

theorem mem_entries {t : Tree} {d q : String} {n : Node} :
    (q, n) ∈ entries t d ↔ (within d q, n) ∈ t := by
  unfold entries
  simp only [List.mem_filterMap, Option.map_eq_some_iff, Prod.mk.injEq, Prod.exists]
  constructor
  · rintro ⟨p, m, hm, rel, hin, rfl, rfl⟩
    rwa [inside?_eq_some.mp hin] at hm
  · exact fun h => ⟨_, _, h, q, inside?_within d q, rfl, rfl⟩

/-- A walk without a fault listed all of the folder. -/
theorem sound_walk {X : World D → Prop} (hp : ¬ plain) (hX : Stable orig plain (Look plain) X)
    (hXw : ∀ w l c, X w → X { w with walked := l :: w.walked, calm := c }) (d : String) :
    Sound orig plain X (walk d) (fun es w => X w ∧ Listed d es w) X := by
  refine Sound.act fun e w hw => ?_
  have hw := hw.around hX e
  dsimp only
  generalize World.around e w = w at hw ⊢
  cases e.fails with
  | some x => exact hw
  | none =>
    dsimp only
    set found := (entries w.source.cur d).filter fun p => e.unread.all fun d => (inside? d p.1).isNone
      with hfound
    set w₁ := w.faultIf (w.source.here = false ∨ found ≠ entries w.source.cur d) .unread with hw₁
    set w₂ := w₁.faultIf (∃ p ∈ found, IsPart p.1) .tempName with hw₂
    have h₂ : Inv orig plain X w₂ :=
      hw.looks hX ((faultIf_look _ fun _ => hp).trans (faultIf_look _ fun _ => hp))
    refine h₂.write (fun _ => id) rfl rfl rfl fun hf hc hx => ⟨?_, hXw w₂ _ _ hx, ?_⟩
    · refine hc.shrink ⟨fun _ _ h => h, id, id, id, TreeStep.refl _, rfl,
        fun _ h => List.mem_cons_of_mem _ h, rfl⟩ (FromItems.refl _) (FromItems.right _ _)
        fun _ _ _ _ h => .inl h
    · obtain ⟨hpart, h21⟩ := faultIf_nil (w := w₁) hf
      have hf₁ : w₁.faults = [] := by rw [hw₂, h21] at hf; exact hf
      obtain ⟨hall, h1⟩ := faultIf_nil (w := w) hf₁
      have hww : w₂ = w := by rw [hw₂, h21]; exact h1
      rw [not_or, not_not] at hall
      obtain ⟨hhere, hall⟩ := hall
      rw [hww] at hc ⊢
      have htree : w.source.cur = w.source.tree := by
        unfold Store.cur
        rw [if_pos (by simpa using hhere)]
      -- what the tree has at a path of the folder is among the entries
      have hlisted : ∀ q n, Assoc.get w.source.tree (within d q) = some n →
          Entry.of q n ∈ found.map fun p => Entry.of p.1 p.2 := by
        intro q n hn
        refine List.mem_map.mpr ⟨(q, n), ?_, rfl⟩
        rw [hall, mem_entries, htree]
        exact hc.distinct.mem_iff_get.mpr hn
      refine ⟨List.mem_cons_self, ?_, fun p t ht hin => ?_, fun _ q n hn => ?_⟩
      · simp only [List.mem_map]
        rintro _ ⟨p, hp, rfl⟩ hpart'
        have hrel : (Entry.of p.1 p.2).rel = p.1 := by cases p.2 <;> rfl
        exact hpart ⟨p, hp, isPart_within (hrel ▸ hpart')⟩
      · obtain ⟨q, hq⟩ := Option.isSome_iff_exists.mp hin
        obtain rfl := inside?_eq_some.mp hq
        exact ⟨_, hlisted q _ ht, rfl, rfl, rfl⟩
      · exact ⟨_, hlisted q _ (fileAt_eq_some.mp hn), rfl, rfl⟩

/-! ### The scan -/

/-- Item `i` is the folder `d`. -/
def IsFolder (i : ℕ) (d : String) (w : World D) : Prop := (w.job.item i).folder = d

theorem stable_isFolder (i : ℕ) (d : String) :
    Stable orig plain (Quiet plain) (IsFolder (D := D) i d) :=
  Stable.item (P := fun a => a.folder = d) i fun _ _ h hp => h.folder.trans hp

/-- What the sorting of the entries seen so far has come to. -/
structure Sorted (d : String) (es : List Entry) (found : Found D) : Prop where
  files : ∀ f ∈ found.1, f.state = .pending ∧ ∃ e ∈ es, f.rel = within d e.rel
  links : ∀ p ∈ found.2.1, ∃ e ∈ es, p.1 = within d e.rel
  all : ∀ e ∈ es, e.kind = .link → (within d e.rel, e.text) ∈ found.2.1

theorem Sorted.mono {d : String} {es es' : List Entry} {found : Found D}
    (h : Sorted d es found) (hsub : ∀ e ∈ es, e ∈ es')
    (hall : ∀ e ∈ es', e.kind = .link → e ∈ es) : Sorted d es' found where
  files := fun f hf => by
    obtain ⟨hs, e, he, hr⟩ := h.files f hf
    exact ⟨hs, e, hsub e he, hr⟩
  links := fun p hp => by
    obtain ⟨e, he, hr⟩ := h.links p hp
    exact ⟨e, hsub e he, hr⟩
  all := fun e he hk => h.all e (hall e he hk) hk

theorem returns_scanEntry (i : ℕ) (d root : String) {es : List Entry} {found : Found D}
    (h : Sorted d es found) (e : Entry) :
    Holds (fun _ => True) (fun _ => True) (scanEntry i d root found e)
      (fun r _ => ∀ found', r = some found' → Sorted d (es ++ [e]) found')
      (fun _ _ => True) := by
  have hsub : ∀ x ∈ es, x ∈ es ++ [e] := fun x hx => List.mem_append_left _ hx
  have hmem : e ∈ es ++ [e] := List.mem_append_right _ (List.mem_singleton_self e)
  have hsame : e.kind ≠ .link → Sorted d (es ++ [e]) found := fun hk =>
    h.mono hsub fun x hx hl => by
      rcases List.mem_append.mp hx with hx | hx
      · exact hx
      · obtain rfl := List.mem_singleton.mp hx
        exact absurd hl hk
  obtain ⟨files, links, dirs⟩ := found
  unfold scanEntry
  cases hk : e.kind with
  | file =>
    refine holds_bind holds_top fun st => holds_ret fun _ _ => ?_
    rintro _ ⟨⟩
    have hs := hsame (by simp [hk])
    refine ⟨fun f hf => ?_, hs.links, hs.all⟩
    rcases List.mem_append.mp hf with hf | hf
    · exact hs.files f hf
    · obtain rfl := List.mem_singleton.mp hf
      exact ⟨rfl, e, hmem, rfl⟩
  | link =>
    refine holds_ite (fun _ => ?_) fun _ => ?_
    · exact holds_bind holds_top fun _ => holds_ret fun _ _ _ h => absurd h (by simp)
    · refine holds_ret fun _ _ => ?_
      rintro _ ⟨⟩
      refine ⟨fun f hf => ?_, fun p hp => ?_, fun x hx hl => ?_⟩
      · obtain ⟨hs, x, hx, hr⟩ := h.files f hf
        exact ⟨hs, x, hsub x hx, hr⟩
      · rcases List.mem_append.mp hp with hp | hp
        · obtain ⟨x, hx, hr⟩ := h.links p hp
          exact ⟨x, hsub x hx, hr⟩
        · obtain rfl := List.mem_singleton.mp hp
          exact ⟨e, hmem, rfl⟩
      · rcases List.mem_append.mp hx with hx | hx
        · exact List.mem_append_left _ (h.all x hx hl)
        · obtain rfl := List.mem_singleton.mp hx
          exact List.mem_append_right _ (List.mem_singleton_self _)
  | dir =>
    refine holds_ret fun _ _ => ?_
    rintro _ ⟨⟩
    have hs := hsame (by simp [hk])
    exact ⟨hs.files, hs.links, hs.all⟩
  | other => exact holds_bind holds_top fun _ => holds_ret fun _ _ _ h => absurd h (by simp)

theorem returns_scanEntries (i : ℕ) (d root : String) (es : List Entry) {before : List Entry}
    {found : Found D} (h : Sorted d before found) :
    Holds (fun _ => True) (fun _ => True) (scanEntries i d root es found)
      (fun r _ => ∀ found', r = some found' → Sorted d (before ++ es) found')
      (fun _ _ => True) := by
  induction es generalizing before found with
  | nil =>
    refine holds_ret fun _ _ => ?_
    rintro _ ⟨⟩
    simpa using h
  | cons e es ih =>
    refine holds_bind (returns_scanEntry i d root h e) fun r => ?_
    cases r with
    | none => exact holds_ret fun _ _ _ h => absurd h (by simp)
    | some found' =>
      refine Holds.of_pre fun s hs => ?_
      have := ih (hs found' rfl)
      rw [List.append_assoc] at this
      exact this.pre fun _ _ => trivial

theorem moves_scanEntries (i : ℕ) (d root : String) (es : List Entry) (found : Found D) :
    Moves (Quiet plain) (scanEntries i d root es found) := by
  have hne : ItemState.skipped ≠ .done := by decide
  have hclose : ∀ {note detail : String}, Moves (Quiet plain) (do
      let _ ← close i .skipped note detail
      return none : Mover D (Option (Found D))) :=
    (moves_close i hne _ _).bind fun _ => moves_ret
  induction es generalizing found with
  | nil => exact moves_ret
  | cons e es ih =>
    refine Moves.bind ?_ fun r => ?_
    · obtain ⟨files, links, dirs⟩ := found
      unfold scanEntry
      cases e.kind with
      | file => exact (moves_stamp _ _).quiet.bind fun _ => moves_ret
      | link => exact Moves.ite (fun _ => hclose) fun _ => moves_ret
      | dir => exact moves_ret
      | other => exact hclose
    · cases r with
      | none => exact moves_ret
      | some found' => exact ih found'

theorem sound_scanWalk (hp : ¬ plain) (i : ℕ) (d : String) :
    Sound orig plain (IsFolder (D := D) i d) (scanWalk i d)
      (fun r w => IsFolder i d w ∧ ∀ es, r = some es → Listed d es w) (fun _ => True) := by
  have hX : Stable orig plain (Quiet plain) (IsFolder (D := D) i d) := stable_isFolder i d
  have hne : ItemState.skipped ≠ .done := by decide
  refine Sound.loop (J := fun _ => IsFolder i d) (fun _ => hX.look) (fun _ => ?_) ()
  refine Sound.exceptOs (Y := IsFolder i d) ?_ (fun x => ?_) fun _ _ _ => trivial
  · refine (Sound.of_moves moves_storesHere.quiet hX).bind fun _ =>
      (sound_walk hp hX.look (fun _ _ _ h => h) d).bind fun es => Sound.ret fun w _ h => ?_
    refine ⟨h.1, ?_⟩
    rintro _ ⟨⟩
    exact h.2
  · have stay : ∀ {A : Type} {m : Mover D A}, Moves (Quiet plain) m → Sound orig plain
        (IsFolder i d) m (fun _ => IsFolder i d) (fun _ => True) := fun hm =>
      (Sound.of_moves hm hX).conseq (fun _ _ => id) (fun _ _ _ => id) fun _ _ _ => trivial
    refine Sound.ite (fun _ => ?_) fun _ => ?_
    · exact (stay (moves_close i hne _ _)).bind fun _ =>
        Sound.ret fun _ _ h => ⟨h, fun _ he => absurd he (by simp)⟩
    · refine (stay (moves_trouble i x)).bind fun again => Sound.ret fun _ _ h => ?_
      cases again with
      | true => exact h
      | false => exact ⟨h, fun _ he => absurd he (by simp)⟩

/-- The plan of a scan, assigned to the item. -/
theorem sound_setScanned (hp : ¬ plain) (i : ℕ) {d : String} (hd : d ≠ "") (es : List Entry)
    {files : List (MoveFile D)} {links : List (String × String)} {dirs : List String}
    (h : Sorted d es (files, links, dirs)) :
    Sound orig plain (fun w => IsFolder i d w ∧ Listed d es w)
      (setItem i fun item => { item with files, links, dirs, scanned := true })
      (fun _ w => (w.job.item i).folder = d ∧ (w.job.item i).scanned = true) (fun _ => True) := by
  refine holds_assign fun w hw => hw.write (fun hpl => absurd hpl hp) rfl rfl rfl ?_
  rintro - hc ⟨hfold, hl⟩
  refine ⟨hc.setJob (fun item hi => ?_) fun hpl => absurd hpl hp, ?_⟩
  · rcases mem_modify hi with hi | ⟨a, ha, rfl⟩
    · exact hc.job item hi
    · obtain rfl : a.folder = d := by
        rw [← show (w.job.item i).folder = d from hfold]
        simp [MoveJob.item, List.getD_eq_getElem?_getD, ha]
      refine ⟨fun f hf => ?_, fun p hp => ?_, fun f hf hst => ?_, fun _ _ => ⟨hl.walked, ?_⟩,
        fun _ f hf => ?_⟩
      · obtain ⟨-, e, he, hr⟩ := h.files f hf
        exact hr ▸ hl.final e he
      · obtain ⟨e, he, hr⟩ := h.links p hp
        exact hr ▸ hl.final e he
      · exact absurd hst (by simp [(h.files f hf).1])
      · intro p t ht hin
        obtain ⟨e, he, hk, rfl, rfl⟩ := hl.links p t ht hin
        exact h.all e he hk
      · obtain ⟨-, e, -, hr⟩ := h.files f hf
        exact ⟨e.rel, hr⟩
  · have hi : i < w.job.items.length := by
      by_contra hge
      rw [IsFolder, MoveJob.item_of_le (by omega)] at hfold
      exact hd hfold.symm
    change (MoveJob.item (w.job.setItem i _) i).folder = d ∧
      (MoveJob.item (w.job.setItem i _) i).scanned = true
    rw [MoveJob.item_setItem, if_pos hi]
    exact ⟨hfold, rfl⟩

/-- A scan leaves a plan of all the folder has. -/
theorem sound_scan (hp : ¬ plain) (i : ℕ) {d : String} (hd : d ≠ "") :
    Sound orig plain (IsFolder (D := D) i d) (scan i d)
      (fun b w => b = true → (w.job.item i).folder = d ∧ (w.job.item i).scanned = true)
      (fun _ => True) := by
  have no : ∀ {X : World D → Prop}, Sound orig plain X (pure false)
      (fun b w => b = true → (w.job.item i).folder = d ∧ (w.job.item i).scanned = true)
      (fun _ => True) := Sound.ret fun _ _ _ h => absurd h (by simp)
  refine Sound.bind (Q := fun _ => IsFolder i d) (Sound.read fun w _ h => h) fun root =>
    (sound_scanWalk hp i d).bind fun r => ?_
  cases r with
  | none => exact no
  | some es =>
    have hX : Stable orig plain (Quiet plain) (fun w : World D => IsFolder i d w ∧ Listed d es w) :=
      (stable_isFolder i d).and (stable_listed d es)
    have hsort : Sorted (D := D) d [] ([], [], []) := ⟨by simp, by simp, by simp⟩
    refine Sound.bind_of (V := fun r => ∀ found, r = some found → Sorted d es found)
      (Sound.pre ((Sound.of_moves (moves_scanEntries i d root es _) hX).conseq (fun _ _ => id)
        (fun _ _ _ => id) fun _ _ _ => trivial) fun w _ h => ⟨h.1, h.2 es rfl⟩)
      (returns_scanEntries i d root es hsort) fun r hr => ?_
    cases r with
    | none => exact no
    | some found =>
      obtain ⟨files, links, dirs⟩ := found
      have hY : Stable orig plain (Quiet plain) (fun w : World D =>
          (w.job.item i).folder = d ∧ (w.job.item i).scanned = true) :=
        Stable.item (P := fun a => a.folder = d ∧ a.scanned = true) i
          fun _ _ h hp => ⟨h.folder.trans hp.1, h.scanned.trans hp.2⟩
      have hsize : Moves (Quiet plain) (setItem i fun item : MoveItem D =>
          let total := (files.map (·.size)).sum
          { item with size := if total = 0 then item.size else total }) :=
        Moves.quiet (moves_setItem i fun a => ⟨rfl, rfl, rfl, rfl, id, forall₂_refl FileStep.refl _⟩)
      have stay : ∀ {m : Mover D Unit}, Moves (Quiet plain) m → Sound orig plain
          (fun w => (w.job.item i).folder = d ∧ (w.job.item i).scanned = true) m
          (fun _ w => (w.job.item i).folder = d ∧ (w.job.item i).scanned = true)
          (fun _ => True) := fun hm =>
        (Sound.of_moves hm hY).conseq (fun _ _ => id) (fun _ _ _ => id) fun _ _ _ => trivial
      exact (sound_setScanned hp i hd es (hr _ rfl)).bind fun _ => (stay hsize).bind fun _ =>
        (stay moves_save.quiet).bind fun _ => Sound.ret fun _ _ h _ => h

/-! ### Planting the links -/

/-- The link is at the target. -/
def HasLink (p : String × String) (w : World D) : Prop :=
  Assoc.get w.target.tree p.1 = some (.link p.2)

/-- Those of the item's links that are among `done` are at the target. -/
def Planted (i : ℕ) (done : List (String × String)) (w : World D) : Prop :=
  ∀ p ∈ done, p ∈ (w.job.item i).links → HasLink p w

theorem Core.item_links {w : World D} (h : Core orig plain w) {i : ℕ} {p : String × String}
    (hp : p ∈ (w.job.item i).links) : ¬ IsPart p.1 := by
  rcases Nat.lt_or_ge i w.job.items.length with hi | hi
  · exact (h.job _ (MoveJob.item_mem hi)).linkFinal p hp
  · rw [MoveJob.item_of_le hi] at hp
    simp [newItem] at hp

theorem Quiet.link {w w' : World D} (hq : Quiet plain w w') (hf : w'.faults = [])
    (hsolid : AllSolid w.target.tree) {p : String × String} (hp : ¬ IsPart p.1)
    (h : HasLink p w) : HasLink p w' := by
  unfold HasLink at h ⊢
  rcases hq.cases_core hf hsolid with ⟨_, _, he, -⟩ | hs
  · rw [he.target]
    exact h
  · exact hs.shrink.target.link hp h

theorem stable_planted (i : ℕ) (done : List (String × String)) :
    Stable orig plain (Quiet plain) (Planted (D := D) i done) := by
  intro w w' hq hf hc h p hp hl
  rw [(hq.items.1.item i).links] at hl
  exact hq.link hf hc.solid (hc.item_links hl) (h p hp hl)

theorem moves_taken (path : String) : Moves (Look plain) (taken path : Mover D Bool) :=
  (moves_exists _ _).bind fun _ => Moves.ite (fun _ => moves_ret) fun _ => moves_isLink _ _

theorem symlink_quiet (hp : ¬ plain) {w : World D} {path : String} (text : String)
    (h : Assoc.get w.target.cur path = none) :
    ReflTransGen (Quiet plain) w ((w.setStore .target
      (w.target.setCur (Assoc.put w.target.cur path (.link text)))).faultIf
        (w.target.here = false) .linkAstray) := by
  unfold faultIf
  split
  · exact .single (.astray w _ .linkAstray fun hpl => absurd hpl hp)
  · next hh =>
    simp only [Bool.not_eq_false] at hh
    unfold Store.setCur Store.cur at *
    rw [if_pos hh] at h ⊢
    rw [if_pos hh]
    exact .single (.target w _ (TreeStep.put_new h (by simp)))

/-- A link planted, or found where it was to be planted, is at the target. -/
theorem sound_plantLink (hp : ¬ plain) {X : World D → Prop}
    (hX : Stable orig plain (Quiet plain) X) (p : String × String) :
    Sound orig plain X (plantLink p.1 p.2) (fun _ w => X w ∧ HasLink p w) X := by
  refine (Sound.of_moves (moves_taken _).quiet hX).bind fun b =>
    Sound.ite (fun _ => ?_) fun _ => (Sound.of_moves (moves_makedirs _) hX).bind fun _ => ?_
  · refine holds_assign fun w hw => ?_
    refine (hw.looks hX.look (faultIf_look .linkTaken fun _ => hp)).imp fun hf _ hx => ⟨hx, ?_⟩
    obtain ⟨hl, he⟩ := faultIf_nil hf
    rw [he]
    exact not_not.mp hl
  · refine Sound.op hX.look (fun w _ hw hr => ?_) (fun _ _ _ h => h.1) fun _ _ => id
    have hnone : Assoc.get w.target.cur p.1 = none := by
      split at hr
      · simp at hr
      · next hn => exact hn
    refine (hw.quiets hX (symlink_quiet hp p.2 hnone)).imp fun hf _ hx => ⟨hx, ?_⟩
    obtain ⟨hh, he⟩ := faultIf_nil hf
    simp only [Bool.not_eq_false] at hh
    rw [he]
    simp [HasLink, World.setStore, Store.setCur, hh]

theorem sound_plantLinks (hp : ¬ plain) {X : World D → Prop}
    (hX : Stable orig plain (Quiet plain) X) (i : ℕ) (xs done : List (String × String)) :
    Sound orig plain (fun w => X w ∧ Planted i done w) (each xs fun p => plantLink p.1 p.2)
      (fun _ w => X w ∧ Planted i (xs ++ done) w) X := by
  induction xs generalizing done with
  | nil => exact Sound.ret fun _ _ h => h
  | cons p xs ih =>
    have hXd := hX.and (stable_planted i done)
    refine ((sound_plantLink hp hXd p).conseq (fun _ _ => id) (fun _ w _ h => ?_)
      fun _ _ h => h.1).bind fun _ => (ih (p :: done)).post fun _ w _ h => ⟨h.1, ?_⟩
    · refine ⟨h.1.1, fun q hq hl => ?_⟩
      rcases List.mem_cons.mp hq with rfl | hq
      · exact h.2
      · exact h.1.2 q hq hl
    · intro q hq
      refine h.2 q ?_
      simp only [List.cons_append, List.mem_cons, List.mem_append] at hq ⊢
      tauto

/-- Every link of the item is at the target. -/
def AllPlanted (i : ℕ) (w : World D) : Prop := ∀ p ∈ (w.job.item i).links, HasLink p w

theorem stable_allPlanted (i : ℕ) :
    Stable orig plain (Quiet plain) (AllPlanted (D := D) i) := by
  intro w w' hq hf hc h p hl
  rw [(hq.items.1.item i).links] at hl
  exact hq.link hf hc.solid (hc.item_links hl) (h p hl)

theorem sound_plant (hp : ¬ plain) {X : World D → Prop}
    (hX : Stable orig plain (Quiet plain) X) (i : ℕ) :
    Sound orig plain X (plant i) (fun _ w => X w ∧ AllPlanted i w) X := by
  refine sound_jobItem fun item _ => ?_
  have hlinks : Stable orig plain (Quiet plain)
      (fun w : World D => (w.job.item i).links = item.links) :=
    Stable.item (P := fun a => a.links = item.links) i fun _ _ h hp => h.links.trans hp
  have hXl := hX.and hlinks
  refine Sound.pre (X := fun w => X w ∧ (w.job.item i).links = item.links) ?_
    fun w _ h => ⟨h.1, by rw [h.2]⟩
  refine Sound.bind (Q := fun _ w => X w ∧ (w.job.item i).links = item.links) ?_ fun _ => ?_
  · exact (Sound.of_moves (moves_each (fun rel => moves_makedirs rel) _) hXl).conseq
      (fun _ _ => id) (fun _ _ _ => id) fun _ _ h => h.1
  · refine (sound_plantLinks hp hXl i item.links []).conseq (fun w _ h => ⟨h, by simp [Planted]⟩)
      (fun _ w _ h => ⟨h.1.1, fun p hl => h.2 p ?_ hl⟩) fun _ _ h => h.1
    rw [List.append_nil, ← h.1.2]
    exact hl

theorem sound_plantAll (hp : ¬ plain) {X : World D → Prop}
    (hX : Stable orig plain (Quiet plain) X) (i : ℕ) :
    Sound orig plain X (plantAll i) (fun b w => X w ∧ (b = true → AllPlanted i w)) X := by
  refine Sound.loop (J := fun _ => X) (fun _ => hX.look) (fun _ => ?_) ()
  refine Sound.exceptOs (Y := X) ?_ (fun x => ?_) fun _ _ => id
  · exact (sound_plant hp hX i).bind fun _ => Sound.ret fun _ _ h => ⟨h.1, fun _ => h.2⟩
  · refine (Sound.of_moves (moves_trouble i x) hX).bind fun again => Sound.ret fun _ _ h => ?_
    cases again with
    | true => exact h
    | false => exact ⟨h, by simp⟩

/-! ### The last look -/

/-- Until the source changes, the file it has under this name is the planned one. -/
def Checked (f : MoveFile D) (w : World D) : Prop :=
  w.calm = true → ∀ n, fileAt w.source.tree f.rel = some n → f.stamp = some n.stamp

theorem stable_checked (f : MoveFile D) : Stable orig plain (Quiet plain) (Checked f) := by
  intro w w' hq hf hc h hcalm n hn
  obtain ⟨hcalm, hback⟩ := hq.calm hf hc.solid hcalm
  exact h hcalm n (hback _ n hn)

/-- A planned file is asked for and, where it is there, compared. -/
theorem sound_changed {b : Bool} (hb : b = true → ¬ plain) {X : World D → Prop}
    (hX : Stable orig plain (Quiet plain) X) (f : MoveFile D) :
    Sound orig plain X (changed b f)
      (fun r w => X w ∧ (r = false → b = true → Checked f w)) X := by
  have hexists : Sound orig plain X (sourceExists b f.rel) (fun yes w => X w ∧
      (yes = false → b = true → Checked f w)) X := by
    refine Sound.act fun e w hw => ?_
    have hw := hw.around hX.look e
    dsimp only
    generalize World.around e w = w at hw ⊢
    refine (hw.looks hX.look (faultIf_look .unanswered fun hc => hb hc.1)).imp
      fun hf _ hx => ⟨hx, fun hyes hbt _ n hn => ?_⟩
    obtain ⟨hno, he⟩ := faultIf_nil hf
    rw [he] at hn
    refine absurd ⟨hbt, hyes, ?_⟩ hno
    by_cases hh : w.source.here = true
    · left
      unfold Store.cur
      rw [if_pos hh, hn]
      rfl
    · exact .inr (by simpa using hh)
  refine hexists.bind fun yes => Sound.ite (fun _ => ?_) fun hyes => Sound.ret fun _ _ h =>
    ⟨h.1, fun _ => h.2 (by simpa using hyes)⟩
  refine Sound.pre (X := X) ?_ fun _ _ h => h.1
  refine (Sound.reading hX.look).bind fun st => Sound.ret fun w hc h => ⟨h.1, fun hr _ _ n hn => ?_⟩
  obtain ⟨m, hm, rfl⟩ := map_eq_ok h.2
  obtain rfl : n = m := by simpa using hn.symm.trans (hc.lookup_source hm).1
  exact (not_not.mp (of_decide_eq_false hr)).symm

theorem moves_landed (f : MoveFile D) : Moves (Quiet plain) (landed f) :=
  moves_exceptOs ((moves_size _ _).quiet.bind fun _ => moves_ret) fun _ =>
    Moves.ite (fun _ => moves_ret) fun _ => moves_raise

theorem sound_whyKeepFiles {b : Bool} (hb : b = true → ¬ plain) {X : World D → Prop}
    (hX : Stable orig plain (Quiet plain) X) (fs : List (MoveFile D)) :
    Sound orig plain X (whyKeepFiles b fs)
      (fun why w => X w ∧ (why = "" → b = true → ∀ f ∈ fs, Checked f w)) X := by
  induction fs generalizing X with
  | nil => exact Sound.ret fun _ _ h => ⟨h, by simp⟩
  | cons f fs ih =>
    refine (sound_changed hb hX f).bind fun r => Sound.ite (fun _ => ?_) fun hr => ?_
    · exact Sound.ret fun _ _ h => ⟨h.1, by simp⟩
    · have hXf := hX.and (Stable.imp (b = true) (stable_checked f))
      refine Sound.pre (X := fun w => X w ∧ (b = true → Checked f w)) ?_
        fun w _ h => ⟨h.1, h.2 (by simpa using hr)⟩
      refine ((Sound.of_moves (moves_landed f) hXf).conseq (fun _ _ => id) (fun _ _ _ => id)
        fun _ _ h => h.1).bind fun size => Sound.ite (fun _ => ?_) fun _ => ?_
      · exact Sound.ret fun _ _ h => ⟨h.1, by simp⟩
      · refine (ih hXf).conseq (fun _ _ => id) (fun why w _ h => ⟨h.1.1, fun hw hbt g hg => ?_⟩)
          fun _ _ h => h.1
        rcases List.mem_cons.mp hg with rfl | hg
        · exact h.1.2 hbt
        · exact h.2 hw hbt g hg

/-- Until the source changes, every file of the folder is a planned one with its
planned stamp. -/
def Ready (i : ℕ) (d : String) (w : World D) : Prop :=
  w.calm = true → ∀ q n, fileAt w.source.tree (within d q) = some n →
    ∃ f ∈ (w.job.item i).files, f.rel = within d q ∧ f.stamp = some n.stamp

/-- The same of the item's own folder, where it is one. -/
def ReadyItem (i : ℕ) (w : World D) : Prop :=
  (w.job.item i).folder ≠ "" → Ready i (w.job.item i).folder w

theorem stable_readyItem (i : ℕ) :
    Stable orig plain (Quiet plain) (ReadyItem (D := D) i) := by
  intro w w' hq hf hc h hne hcalm q n hn
  have hs := hq.items.1.item i
  rw [hs.folder] at hne hn ⊢
  obtain ⟨hcalm, hback⟩ := hq.calm hf hc.solid hcalm
  obtain ⟨f, hm, hrel, hst⟩ := h hne hcalm q n (hback _ n hn)
  obtain ⟨f', hm', hr, -, hst', -⟩ := List.Forall₂.of_mem_left hs.files hm
  exact ⟨f', hm', hr.trans hrel, hst'.trans hst⟩

/-- A walk that finds the planned names, and stamps that are the planned ones. -/
theorem ready_of_checked {w : World D} {i : ℕ} {item : MoveItem D} {es : List Entry}
    (hc : Core orig plain w) (hs : ItemStep item (w.job.item i))
    (hl : Listed item.folder es w) (hsame : sameFiles item es = true)
    (hchecked : ∀ f ∈ item.files, Checked f w) : ReadyItem i w := by
  intro hne hcalm q n hn
  rw [hs.folder] at hne hn ⊢
  obtain ⟨e, he, hk, rfl⟩ := hl.files hcalm q n hn
  -- the walked name is a planned one
  have hplanned : ∃ f ∈ item.files,
      String.ofList (f.rel.toList.drop (item.folder.length + 1)) = e.rel := by
    unfold sameFiles at hsame
    rw [Bool.and_eq_true, List.all_eq_true] at hsame
    have := hsame.1 e.rel (List.mem_map.mpr ⟨e, List.mem_filter.mpr ⟨he, by simp [hk]⟩, rfl⟩)
    simpa using this
  obtain ⟨f, hf, hdrop⟩ := hplanned
  obtain ⟨f', hf', hr, -, hst, -⟩ := List.Forall₂.of_mem_left hs.files hf
  have hi : i < w.job.items.length := by
    obtain ⟨k, hk, -⟩ := List.mem_iff_getElem.mp hf'
    exact MoveJob.lt_of_file hk
  obtain ⟨q, hq⟩ := (hc.job _ (MoveJob.item_mem hi)).inFolder (hs.folder ▸ hne) f' hf'
  rw [hs.folder] at hq
  have hrel : f.rel = within item.folder q := hr.symm.trans hq
  have hqe : q = e.rel := by
    rw [← hdrop, hrel, ← String.toList_inj, within_toList, String.toList_ofList,
      List.drop_left' (by simp [String.length_toList])]
  subst hqe
  exact ⟨f', hf', hq, hst.trans (hchecked f hf hcalm n (hrel ▸ hn))⟩

theorem stable_itemStep (i : ℕ) (item : MoveItem D) :
    Stable orig plain (Quiet plain) (fun w => ItemStep item (w.job.item i)) :=
  Stable.item (P := fun a => ItemStep item a) i fun _ _ h hp => hp.trans h

theorem sound_whyKeep {X : World D → Prop} (hX : Stable orig plain (Quiet plain) X)
    (hXw : ∀ w l c, X w → X { w with walked := l :: w.walked, calm := c }) (i : ℕ) :
    Sound orig plain X (whyKeep i) (fun why w => X w ∧ (why = "" → ReadyItem i w)) X := by
  refine sound_jobItem fun item hp => ?_
  have hstep : Stable orig plain (Quiet plain)
      (fun w : World D => ItemStep item (w.job.item i)) := stable_itemStep i item
  have hXi := hX.and hstep
  refine Sound.pre (X := fun w => X w ∧ ItemStep item (w.job.item i)) ?_
    fun w _ h => ⟨h.1, h.2 ▸ ItemStep.refl _⟩
  -- what the walk of a folder has found
  let F : World D → Prop := fun w => item.folder ≠ "" → ∃ es, Listed item.folder es w ∧
    sameFiles item es = true
  have hF : Stable orig plain (Quiet plain) F := Stable.imp _ (Stable.ex fun es =>
    (stable_listed item.folder es).and (Stable.const _))
  have hfolder : Sound orig plain (fun w => X w ∧ ItemStep item (w.job.item i))
      (folderChanged item)
      (fun b w => (X w ∧ ItemStep item (w.job.item i)) ∧ (b = false → F w)) X := by
    refine Sound.ite (fun hne => ?_) fun he => Sound.ret fun _ _ h => ⟨h, fun _ hne => absurd hne he⟩
    refine ((sound_walk (fun hpl => hne (hp hpl)) hXi.look (fun w l c h => ⟨hXw w l c h.1, h.2⟩)
      item.folder).conseq (fun _ _ => id) (fun _ _ _ => id) fun _ _ h => h.1).bind fun es =>
      Sound.ret fun _ _ h => ⟨h.1, fun hb _ => ⟨es, h.2, by simpa using hb⟩⟩
  have hXF := hXi.and hF
  refine hfolder.bind fun b => Sound.ite (fun _ => Sound.ret fun _ _ h => ⟨h.1.1, by simp⟩)
    fun hb => ?_
  refine Sound.pre (X := fun w => (X w ∧ ItemStep item (w.job.item i)) ∧ F w) ?_
    fun w _ h => ⟨h.1, h.2 (by simpa using hb)⟩
  have hdir : decide (item.folder ≠ "") = true → ¬ plain := fun hd hpl =>
    of_decide_eq_true hd (hp hpl)
  have hwhy := (sound_whyKeepFiles hdir hXF item.files).conseq (fun _ _ => id) (fun _ _ _ => id)
    fun _ _ h => h.1.1
  refine hwhy.bind fun why => ?_
  refine Sound.ite (fun hne => Sound.ret fun _ _ h => ⟨h.1.1.1, fun he => absurd he hne⟩)
    fun hwhy => ?_
  refine Sound.pre (X := fun w => X w ∧ ReadyItem i w) ?_ fun w hc h => ⟨h.1.1.1, fun hne => ?_⟩
  · have hready : Stable orig plain (Quiet plain) (ReadyItem (D := D) i) := stable_readyItem i
    have hXr := hX.and hready
    refine ((Sound.of_moves moves_ask.quiet hXr).conseq (fun _ _ => id) (fun _ _ _ => id)
      fun _ _ h => h.1).bind fun used => Sound.ite (fun _ => ?_) fun _ => ?_
    · exact Sound.ret fun _ _ h => ⟨h.1, by simp⟩
    · exact Sound.ret fun _ _ h => ⟨h.1, fun _ => h.2⟩
  · have hne' : item.folder ≠ "" := h.1.1.2.folder ▸ hne
    obtain ⟨es, hl, hsame⟩ := h.1.2 hne'
    exact ready_of_checked hc h.1.1.2 hl hsame
      (fun f hf => h.2 (not_not.mp hwhy) (decide_eq_true hne') f hf) hne

theorem sound_lastLook {X : World D → Prop} (hX : Stable orig plain (Quiet plain) X)
    (hXw : ∀ w l c, X w → X { w with walked := l :: w.walked, calm := c }) (i : ℕ) :
    Sound orig plain X (lastLook i)
      (fun r w => X w ∧ (r = some "" → ReadyItem i w)) X := by
  refine Sound.loop (J := fun _ => X) (fun _ => hX.look) (fun _ => ?_) ()
  refine Sound.exceptOs (Y := X) ?_ (fun x => ?_) fun _ _ => id
  · refine (Sound.of_moves moves_storesHere.quiet hX).bind fun _ =>
      (sound_whyKeep hX hXw i).bind fun why => Sound.ret fun _ _ h => ⟨h.1, fun he => h.2 ?_⟩
    simpa using he
  · refine (Sound.of_moves (moves_trouble i x) hX).bind fun again => Sound.ret fun _ _ h => ?_
    cases again with
    | true => exact h
    | false => exact ⟨h, by simp⟩

end StoreMoves
