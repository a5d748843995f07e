import Caravan.Cloud.Edits
import Caravan.Cloud.Names

/-!
# Whether a name is one pool's

The runs of the desks over one file, with writes that fail. In a run in which `migrate` finds
no two blocks of one name, and nothing runs on a file of the old form without blocks before
it, every document that is not of the old form has its pools apart, and a listed name calls
the pool that was listed (`names_unique`). Of two blocks of one name `migrate` makes two pools
that the entry cannot tell apart (`one_name_twice`).
-/

namespace Cloud

open Python Document

variable {fold : Text → Text} {o : Outside} {d : Doc}

/-- **What is listed is what is called.** -/
theorem pick_called (h : d.Named fold) {r : Route} {p : Pool} (hp : p ∈ models d r) :
    pick d r p.called = some p := by
  have hmem : ∀ q ∈ models d r, q ∈ d.pools := fun q hq => h.readPools ▸ mem_models hq
  have hne : p.called ≠ [] := orElse_ne_nil (kept_self (h.apart.kept p (hmem p hp))).1
  rw [pick, if_neg hne]
  cases hfind : (models d r).find? fun q => q.called = p.called with
  | none =>
    have hnone := List.find?_eq_none.mp hfind p hp
    exact absurd (decide_eq_true rfl) hnone
  | some q =>
    have hcalled : q.called = p.called := by simpa using List.find?_some hfind
    have hq := List.mem_of_find?_eq_some hfind
    rw [h.apart.eq_of_key (hmem q hq) (hmem p hp) (by rw [Pool.key, Pool.key, hcalled])]

/-! ### The old form -/

/-- A document of the old form that was read from a file. -/
structure Doc.Old (d : Doc) : Prop where
  ids : ∀ b ∈ d.blocks, b.id ≠ []
  old : d.blocks ≠ [] ∨ ∃ p ∈ d.pools, p.members.isSome ∧ p.id ≠ []

/-- What the desks have before them: the old form, or pools that are apart. -/
def Doc.Fit (fold : Text → Text) (d : Doc) : Prop := d.Old ∨ d.Named fold

theorem Doc.Old.legacy (h : d.Old) : d.legacy = true := by
  unfold Doc.legacy
  cases h.old with
  | inl h => simp [h]
  | inr h =>
    obtain ⟨p, hp, hmembers, -⟩ := h
    have hany : d.pools.any (fun p => p.members.isSome) = true :=
      List.any_eq_true.mpr ⟨p, hp, hmembers⟩
    simp [hany]

theorem old_parse {f : File} (h : (parse f).legacy = true) : (parse f).Old := by
  have hids : ∀ b ∈ (parse f).blocks, b.id ≠ [] := by
    intro b hb
    cases f with
    | current doc => simpa using (List.mem_filter.mp hb).2
    | flat providers =>
      obtain ⟨p, hp, rfl⟩ := List.mem_map.mp hb
      simpa using (List.mem_filter.mp hp).2
    | other => exact absurd hb List.not_mem_nil
  have hpools : ∀ p ∈ (parse f).pools, p.id ≠ [] := by
    intro p hp
    cases f with
    | current doc => simpa using (List.mem_filter.mp hp).2
    | flat providers => exact absurd hp List.not_mem_nil
    | other => exact absurd hp List.not_mem_nil
  refine ⟨hids, ?_⟩
  unfold Doc.legacy at h
  rw [Bool.or_eq_true, List.any_eq_true] at h
  cases h with
  | inl h => exact .inl (of_decide_eq_true h)
  | inr h =>
    obtain ⟨p, hp, hmembers⟩ := h
    exact .inr ⟨p, hp, hmembers, hpools p hp⟩

theorem fit_written (h : d.Fit fold) : (parse (written d)).Fit fold := by
  cases h with
  | inl h =>
    have hblocks : (parse (written d)).blocks = d.blocks :=
      List.filter_eq_self.mpr fun b hb => decide_eq_true (h.ids b hb)
    refine .inl ⟨hblocks ▸ h.ids, ?_⟩
    rw [hblocks]
    refine h.old.imp_right fun ⟨p, hp, hmembers, hid⟩ => ⟨p, ?_, hmembers, hid⟩
    exact List.mem_filter.mpr ⟨hp, decide_eq_true hid⟩
  | inr h =>
    have hpools : (parse (written d)).pools = d.pools :=
      List.filter_eq_self.mpr fun p hp => decide_eq_true (kept_self (h.apart.kept p hp)).1
    refine .inr ⟨?_, hpools ▸ h.apart⟩
    simp [written, parse, h.blocks]

/-! ### The migration -/

theorem byId_subset (ps : List Pool) : byId ps ⊆ ps := by
  have hall : ∀ rest done : List Pool, rest.foldl putById done ⊆ done ++ rest := by
    intro rest
    induction rest with
    | nil => simp
    | cons p rest ih =>
      intro done q hq
      have hput : putById done p ⊆ done ++ [p] := by
        intro q hq
        unfold putById at hq
        split at hq
        · obtain ⟨r, hr, rfl⟩ := List.mem_map.mp hq
          split
          · simp
          · simp [hr]
        · exact hq
      cases List.mem_append.mp (ih _ hq) with
      | inl hq => simpa [or_assoc] using Or.inl (b := q ∈ rest) (List.mem_append.mp (hput hq))
      | inr hq => simp [hq]
  exact hall ps []

/-- Each pool that is read is kept as it is. -/
theorem readPools_kept {p : Pool} (h : p ∈ d.readPools) : p.kept = some p := by
  have hp := byId_subset _ h
  split at hp
  · obtain ⟨b, -, hb⟩ := List.mem_filterMap.mp hp
    exact kept_kept hb
  · obtain ⟨q, -, hq⟩ := List.mem_filterMap.mp hp
    exact kept_kept hq

/-- **The pools that `migrate` makes are apart** where no two blocks have one name. -/
theorem keptBlocks_apart (h : ((keptBlocks o d).map (Pool.key fold)).Nodup) :
    Apart fold (keptBlocks o d) := by
  have hfound : ∀ p ∈ keptBlocks o d, (d.readPools.find? fun q => q.id = p.id) = some p := by
    intro p hp
    obtain ⟨b, -, hb⟩ := List.mem_filterMap.mp hp
    have hid : p.id = b.id := by simpa using List.find?_some hb
    rw [hid]
    exact hb
  refine ⟨fun p hp => readPools_kept (List.mem_of_find?_eq_some (hfound p hp)), ?_, h⟩
  refine h.of_map.map_on fun p hp q hq he => ?_
  have hsame := hfound p hp
  rw [he, hfound q hq] at hsame
  exact (Option.some.inj hsame).symm

/-! ### Runs -/

/-- When an operation may run on a file of the old form: `migrate`, where the pools it makes
have names of their own; another one, where there are blocks. -/
def MayRun (o : Outside) (d : Doc) (q : Request) : Prop := d.legacy = true →
  (q = .migrate → ((keptBlocks o d).map (Pool.key o.casefold)).Nodup) ∧
  (q ≠ .migrate → d.blocks ≠ [])

/-- What an operation assigns keeps a document as the desks expect it. -/
theorem run_fit {q : Request} (hd : d.Fit o.casefold) (hq : MayRun o d q) :
    (q.run o d).Leaves d (Doc.Fit o.casefold) := by
  by_cases hm : q = .migrate
  · subst hm
    rw [Request.run, migrate]
    by_cases hold : d.legacy = true
    · rw [if_neg (by simp [hold])]
      exact .inr ⟨rfl, keptBlocks_apart ((hq hold).1 rfl)⟩
    · rw [if_pos hold]
      trivial
  · refine (Request.keeps hm).imp fun x ⟨hblocks, hapart⟩ => ?_
    cases hd with
    | inl h =>
      -- the blocks stay, and with them the old form
      exact .inl ⟨hblocks ▸ h.ids, .inl (hblocks ▸ (hq h.legacy).2 hm)⟩
    | inr h => exact .inr ⟨hblocks.trans h.blocks, hapart h⟩

/-- What is outside of a document, with this comparison of letters. -/
def Outside.folding (o : Outside) (fold : Text → Text) : Outside := { o with casefold := fold }

/-- The desks at work on a file, with one comparison of letters. -/
def naming (fold : Text → Text) (file : Option File) :
    System (Store File Doc) ((Outside × Request) × Store.Luck) :=
  Store.serving providers (fun q d => q.2.run (q.1.folding fold) d) file

/-- Each step is one that may run. -/
def Named.Step (fold : Text → Text) (s : Store File Doc) (e : (Outside × Request) × Store.Luck) :
    Prop := MayRun (e.1.1.folding fold) (s.next providers) e.1.2

/-- **What is handed out and what the file says stay as the desks expect it.** -/
theorem fit_kept {file : Option File}
    (hfile : ∀ f ∈ file, (parse f).legacy = true ∨ (parse f).Named fold) {s : Store File Doc}
    (h : (naming fold file).Reach (Named.Step fold) s) :
    s.Valid ∧ (s.next providers).Fit fold ∧ (s.read providers).Fit fold := by
  refine h.invariant (I := fun s => s.Valid ∧ (s.next providers).Fit fold ∧
    (s.read providers).Fit fold) ?_ ?_
  · rintro s rfl
    have hread : ((Store.start providers file).read providers).Fit fold := by
      cases file with
      | none => exact .inr ⟨rfl, .nil⟩
      | some f => exact (hfile f rfl).imp_left old_parse
    refine ⟨Store.valid_start _, ?_, hread⟩
    rw [show (Store.start providers file).next providers = _ from Store.coherent_start file]
    exact hread
  · rintro s e s' ⟨hv, hnext, hread⟩ hok rfl
    have hop := run_fit (o := e.1.1.folding fold) hnext hok
    exact ⟨Store.serve_valid hv _ _,
      Store.serve_docs hv e.2 (fun d hd => fit_written hd) hop hnext hread⟩

/-- **Pool names are unique**, in every run in which `migrate` finds no two blocks of one name:
up to case no two pools have one, and a name that a consumer's list has calls the pool that is
listed under it. -/
theorem names_unique {file : Option File}
    (hfile : ∀ f ∈ file, (parse f).legacy = true ∨ (parse f).Named fold) {s : Store File Doc}
    (h : (naming fold file).Reach (Named.Step fold) s) {d : Doc}
    (hd : d = s.next providers ∨ d = s.read providers) (hnew : d.legacy = false) :
    (d.readPools.map (Pool.key fold)).Nodup ∧
      ∀ (r : Route) (p : Pool), p ∈ models d r → pick d r p.called = some p := by
  obtain ⟨-, hnext, hread⟩ := fit_kept hfile h
  have hfit : d.Fit fold := by
    cases hd with
    | inl hd => exact hd ▸ hnext
    | inr hd => exact hd ▸ hread
  cases hfit with
  | inl hold => exact absurd hold.legacy (by simp [hnew])
  | inr hnamed =>
    exact ⟨hnamed.readPools ▸ hnamed.apart.names, fun r p hp => pick_called hnamed hp⟩

/-! ### Two files of the old form -/

/-- A file of the old form with two models on Routing's column. -/
def twoBlocks (name name' : Text) : File := .current {
  accounts := [{ id := "a" }]
  blocks := [
    { id := "m1", accountId := "a", name, model := "gpt", exposed := true,
      contextLength := none, contextAuto := false },
    { id := "m2", accountId := "a", name := name', model := "gpt", exposed := true,
      contextLength := none, contextAuto := false }] }

/-- One request after the other, none of whose writes fails. -/
def served (file : File) (qs : List Request) : Store File Doc :=
  qs.foldl (fun s q => (s.serve providers (q.run plain) ⟨false, false⟩).1)
    (Store.start providers (some file))

theorem reach_more {ok : Store File Doc → (Outside × Request) × Store.Luck → Prop} {file : File}
    {qs : List Request} {q : Request}
    (h : (naming (List.map lowerAscii) (some file)).Reach ok (served file qs))
    (hok : ok (served file qs) ((plain, q), ⟨false, false⟩)) :
    (naming (List.map lowerAscii) (some file)).Reach ok (served file (qs ++ [q])) := by
  have hlast : served file (qs ++ [q]) =
      ((served file qs).serve providers (q.run plain) ⟨false, false⟩).1 := List.foldl_concat ..
  exact h.next (e := ((plain, q), ⟨false, false⟩)) hlast hok

/-- Two models of two names become two pools, and a third pool gets a name of its own. -/
theorem names_unique_migrated :
    let d := (served (twoBlocks "Chat" "Speech")
      [.migrate, .create [] [] [] .absent "chat"]).read providers
    d.readPools.map Pool.called = [("Chat" : Text), "Speech", "chat 2"] ∧
      (d.readPools.map (Pool.key (List.map lowerAscii))).Nodup := by
  refine ⟨by decide, ?_⟩
  have h₀ : (naming (List.map lowerAscii) (some (twoBlocks "Chat" "Speech"))).Reach
      (Named.Step (List.map lowerAscii)) (served (twoBlocks "Chat" "Speech") []) := .init rfl
  have h₁ := reach_more (q := .migrate) h₀ fun _ =>
    ⟨fun _ => by decide, fun hm => absurd rfl hm⟩
  have h₂ := reach_more (q := .create [] [] [] .absent "chat") h₁ fun hold =>
    absurd hold (by decide)
  refine (names_unique (fun f hf => .inl ?_) h₂ (.inr rfl) (by decide)).1
  obtain rfl := Option.some.inj hf
  decide

/-- Both pools of one name, in one set. -/
def bothListed : Store File Doc := served (twoBlocks "Chat" "Chat")
  [.migrate, .createSet "S", .addPool "S" "m1", .addPool "S" "m2"]

/-- A client on the set. -/
def onSet : Route := ⟨"consumer", [], some "S", none, none⟩

/-- **Two models of one name become two pools of one name**, and of a set that has both the
entry calls the first, whichever of the two was listed. -/
theorem one_name_twice : (naming (List.map lowerAscii)
      (some (twoBlocks "Chat" "Chat"))).Reachable bothListed ∧
    (bothListed.read providers).legacy = false ∧
    ¬ ((bothListed.read providers).readPools.map (Pool.key (List.map lowerAscii))).Nodup ∧
    ∃ p ∈ models (bothListed.read providers) onSet,
      pick (bothListed.read providers) onSet p.called ≠ some p := by
  have h₀ : (naming (List.map lowerAscii) (some (twoBlocks "Chat" "Chat"))).Reachable
      (served (twoBlocks "Chat" "Chat") []) := .init rfl
  have h₁ := reach_more (q := .migrate) h₀ trivial
  have h₂ := reach_more (q := .createSet "S") h₁ trivial
  have h₃ := reach_more (q := .addPool "S" "m1") h₂ trivial
  have h₄ := reach_more (q := .addPool "S" "m2") h₃ trivial
  exact ⟨h₄, by decide, by decide, by decide⟩

end Cloud
