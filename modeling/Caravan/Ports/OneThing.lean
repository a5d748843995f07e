import Caravan.Framework.System
import Caravan.Ports.Operations

/-!
# One number means one thing

A number is held by a cell, a route, the entry, an exclusion or the controller itself
(`Holder`). `OneThing` says that no number is held by two of them, nor twice by one.

Each check asks some of the registers and not the others. A cell's check and an exclusion's
never ask the entry's; the save of the routes asks none but the routes it saves. So the
property is kept by the runs that spare what is not asked (`one_thing_of_spared`), and lost
by the others: a cell is reserved on the entry's number, a route is saved on a cell's
(`one_thing_lost`). `mint_agent_port` and the entry's own write ask all registers and need
no such condition.

Every proof changes one holder's numbers and leaves the others' (`OneThing.update`): the
new numbers of that holder are to be nobody else's.
-/

namespace Ports

open Python

/-- Who may hold a number. -/
inductive Holder
  | cell
  | route
  | entry
  | exclusion
  | web
  deriving DecidableEq, Repr

variable (c : Config)

/-- The numbers a holder has. -/
def Store.holds (s : Store) : Holder → List ℤ
  | .cell => s.cellPorts
  | .route => s.routePorts
  | .entry => s.entryPorts
  | .exclusion => s.portExclusions
  | .web => [c.PORT]

/-- No number is held by two. -/
structure OneThing (s : Store) : Prop where
  apart : ∀ a b p, p ∈ s.holds c a → p ∈ s.holds c b → a = b
  once : ∀ a, (s.holds c a).Nodup

/-- A slot stands under the key of its own number, as every writer leaves it. -/
def Store.Keyed (s : Store) : Prop := ∀ e ∈ s.serverSlots, e.2.port = e.1.port

/-- What every run keeps. -/
structure Sound (s : Store) : Prop where
  one : OneThing c s
  keyed : s.Keyed

/-! ### Changing the numbers of one holder -/

variable {c}

/-- **One holder at a time.** -/
theorem OneThing.update {s s' : Store} (h : OneThing c s) (k : Holder)
    (hothers : ∀ a, a ≠ k → s'.holds c a = s.holds c a) (honce : (s'.holds c k).Nodup)
    (hnew : ∀ p ∈ s'.holds c k, p ∈ s.holds c k ∨ ∀ a, a ≠ k → p ∉ s.holds c a) :
    OneThing c s' := by
  -- what `k` holds now is nobody else's
  have hapart {p : ℤ} {a : Holder} (hk : p ∈ s'.holds c k) (ha : p ∈ s'.holds c a) : a = k := by
    by_contra hne
    rw [hothers a hne] at ha
    cases hnew p hk with
    | inl hold => exact hne (h.apart a k p ha hold)
    | inr hfree => exact hfree a hne ha
  refine ⟨fun a b p ha hb => ?_, fun a => ?_⟩
  · by_cases hak : a = k
    · rw [hak] at ha ⊢
      exact (hapart ha hb).symm
    · by_cases hbk : b = k
      · rw [hbk] at hb ⊢
        exact hapart hb ha
      · rw [hothers a hak] at ha
        rw [hothers b hbk] at hb
        exact h.apart a b p ha hb
  · by_cases hak : a = k
    · rw [hak]
      exact honce
    · rw [hothers a hak]
      exact h.once a

theorem holds_of_slots (s : Store) (l : List (SlotKey × Slot)) {a : Holder} (ha : a ≠ .cell) :
    Store.holds c { s with serverSlots := l } a = s.holds c a := by
  cases a with
  | cell => exact absurd rfl ha
  | route => rfl
  | entry => rfl
  | exclusion => rfl
  | web => rfl

/-- A number that is free of every holder but the cells. -/
theorem free_of_cells {s : Store} {p : ℤ} (hweb : p ≠ c.PORT) (hex : p ∉ s.portExclusions)
    (hroute : p ∉ s.routePorts) (hentry : p ∉ s.entryPorts) :
    ∀ a, a ≠ .cell → p ∉ s.holds c a := by
  intro a ha
  cases a with
  | cell => exact absurd rfl ha
  | route => exact hroute
  | entry => exact hentry
  | exclusion => exact hex
  | web => exact fun h => hweb (List.mem_singleton.mp h)

/-- What a check of a cell's number is for, where the number is not the entry's. -/
theorem free_of_available {s : Store} {p : ℤ} {k : Option SlotKey}
    (h : assertServerCellPortAvailable c s p k = .ok ()) (hentry : p ∉ s.entryPorts) :
    p ∉ (s.slotsBut k).map (·.2.port) ∧ ∀ a, a ≠ .cell → p ∉ s.holds c a := by
  obtain ⟨-, -, hweb, hex, hslots, hroute⟩ := assertServerCellPortAvailable_ok h
  exact ⟨hslots, free_of_cells hweb hex hroute hentry⟩

theorem attempt_cases {α : Type} {P : Outcome → Prop} {s : Store} {checks : Except AppError α}
    {write : α → Outcome} (hs : ∀ e, P (.error e, s)) (hw : ∀ a, checks = .ok a → P (write a)) :
    P (attempt s checks write) := by
  cases h : checks with
  | error e => exact hs _
  | ok a => exact hw a h

/-- What holds before, and after each write that may follow the checks, is kept. -/
theorem attempt_keeps {α : Type} {P : Store → Prop} {s : Store} {checks : Except AppError α}
    {write : α → Outcome} (hs : P s) (hw : ∀ a, checks = .ok a → P (write a).2) :
    P (attempt s checks write).2 :=
  attempt_cases (P := fun o => P o.2) (fun _ => hs) hw

/-! ### The cells -/

/-- A slot's number stands in no other slot. -/
theorem port_not_mem_del {l : List (SlotKey × Slot)} {k : SlotKey} {slot : Slot}
    (hn : (l.map (·.2.port)).Nodup) (hget : (k, slot) ∈ l) :
    slot.port ∉ (Assoc.del l k).map (·.2.port) := by
  intro hmem
  obtain ⟨e, he, hport⟩ := List.mem_map.mp hmem
  obtain ⟨he, hkey⟩ := List.mem_filter.mp he
  have heq : e = (k, slot) := List.inj_on_of_nodup_map hn he hget hport
  rw [heq] at hkey
  simp at hkey

theorem del_sublist (l : List (SlotKey × Slot)) (k : SlotKey) : (Assoc.del l k).Sublist l :=
  List.filter_sublist

/-- Fewer cells. -/
theorem Sound.fewer {s : Store} (h : Sound c s) {l : List (SlotKey × Slot)}
    (hl : l.Sublist s.serverSlots) : Sound c { s with serverSlots := l } := by
  have hports : (l.map (·.2.port)).Sublist s.cellPorts := hl.map _
  refine ⟨h.one.update .cell (fun a => holds_of_slots s l) (hports.nodup (h.one.once .cell))
    fun p hp => .inl (hports.subset hp), fun e he => h.keyed e (hl.subset he)⟩

/-- **One cell set down**, under its own number: no other cell has the number, and no other
holder has it unless a cell had it before. -/
theorem Sound.put {s : Store} (h : Sound c s) {l : List (SlotKey × Slot)}
    (hl : l.Sublist s.serverSlots) {k : SlotKey} {slot : Slot} (hport : slot.port = k.port)
    (hcells : slot.port ∉ (Assoc.del l k).map (·.2.port))
    (hnew : slot.port ∈ s.cellPorts ∨ ∀ a, a ≠ .cell → slot.port ∉ s.holds c a) :
    Sound c { s with serverSlots := Assoc.put l k slot } := by
  have hsub : (Assoc.del l k).Sublist s.serverSlots := (del_sublist l k).trans hl
  have hports : ((Assoc.del l k).map (·.2.port)).Sublist s.cellPorts := hsub.map _
  refine ⟨h.one.update .cell (fun a => holds_of_slots s _) ?_ ?_, ?_⟩
  · exact List.nodup_cons.mpr ⟨hcells, hports.nodup (h.one.once .cell)⟩
  · intro p hp
    rcases List.mem_cons.mp hp with rfl | hp
    · exact hnew
    · exact .inl (hports.subset hp)
  · intro e he
    rcases List.mem_cons.mp he with rfl | he
    · exact hport
    · exact h.keyed e (hsub.subset he)

/-- A number checked against the other slots is set down. -/
theorem Sound.putSlot {s : Store} (h : Sound c s) {hostId : Text} {port : ℤ}
    (hcells : port ∉ (Assoc.del s.serverSlots (serverSlotKey hostId port)).map (·.2.port))
    (hnew : port ∈ s.cellPorts ∨ ∀ a, a ≠ .cell → port ∉ s.holds c a) :
    Sound c (s.putSlot hostId port) :=
  h.put (List.Sublist.refl _) rfl hcells hnew

theorem Sound.upsert {s : Store} (h : Sound c s) {hostId : Text} {port : ℤ}
    (hput : Sound c (s.putSlot hostId port)) : Sound c (upsertServerSlot s hostId port).2 :=
  attempt_keeps h fun _ _ => hput

/-- The slots without a key that is not there are the slots. -/
theorem slotsBut_subset (s : Store) (k : SlotKey) :
    (Assoc.del s.serverSlots k).map (·.2.port) ⊆ s.cellPorts :=
  ((del_sublist s.serverSlots k).map _).subset

/-- A cell that exists is written again under its number. -/
theorem Sound.again {s : Store} (h : Sound c s) {hostId : Text} {port : ℤ}
    (hslot : s.hasSlot hostId port = true) : Sound c (s.putSlot hostId port) := by
  obtain ⟨slot, hget⟩ := Option.isSome_iff_exists.mp hslot
  have hmem := Assoc.mem_of_get hget
  have hport : slot.port = port := h.keyed _ hmem
  have hcells := port_not_mem_del (h.one.once .cell) hmem
  rw [hport] at hcells
  refine h.putSlot hcells (.inl (List.mem_map.mpr ⟨_, hmem, hport⟩))

/-- A cell's number, checked with its own key excused where the cell exists. -/
theorem Sound.checked {s : Store} (h : Sound c s) {hostId : Text} {port : ℤ}
    (hcheck : assertServerCellPortAvailable c s port (s.ownKey hostId port) = .ok ())
    (hentry : port ∉ s.entryPorts) : Sound c (s.putSlot hostId port) := by
  obtain ⟨hslots, hfree⟩ := free_of_available hcheck hentry
  unfold Store.ownKey at hslots
  split at hslots
  · exact h.putSlot hslots (.inr hfree)
  · exact h.putSlot (fun hp => hslots (slotsBut_subset s _ hp)) (.inr hfree)

theorem reserve_keeps {s : Store} (h : Sound c s) {b : ReserveBody}
    (hentry : b.number c s ∉ s.entryPorts) : Sound c (reserveServerCell c s b).2 := by
  refine attempt_keeps h fun _ hok => ?_
  obtain ⟨_, -, hok⟩ := Except.bind_eq_ok hok
  obtain ⟨_, -, hok⟩ := Except.bind_eq_ok hok
  obtain ⟨_, -, hcheck⟩ := Except.bind_eq_ok hok
  exact h.upsert (h.checked hcheck hentry)

theorem save_keeps {s : Store} (h : Sound c s) {b : CellBody}
    (hentry : b.port ∉ s.entryPorts) : Sound c (serverCellSaveConfig c s b).2 := by
  refine attempt_keeps h fun _ hok => ?_
  obtain ⟨_, -, hok⟩ := Except.bind_eq_ok hok
  refine h.upsert ?_
  split at hok
  · next hslot => exact h.again hslot
  · obtain ⟨hslots, hfree⟩ := free_of_available hok hentry
    exact h.putSlot (fun hp => hslots (slotsBut_subset s _ hp)) (.inr hfree)

theorem slotAt_ok {s : Store} {k : SlotKey} {slot : Slot} (h : s.slotAt k = .ok slot) :
    (k, slot) ∈ s.serverSlots := by
  unfold Store.slotAt at h
  split at h
  · cases h
  · next hget =>
    cases h
    exact Assoc.mem_of_get hget

theorem cellOn_ok {s : Store} {port : ℤ} {e : SlotKey × Slot} (h : s.cellOn port = .ok e) :
    e ∈ s.serverSlots ∧ e.2.port = port := by
  unfold Store.cellOn at h
  split at h
  · cases h
  · next hfind =>
    cases h
    exact ⟨List.mem_of_find?_eq_some hfind, by simpa using List.find?_some hfind⟩

theorem reassign_keeps {s : Store} (h : Sound c s) {b : ReassignBody}
    (hentry : b.newPort ∉ s.entryPorts) : Sound c (reassignServerSlotPort c s b).2 := by
  refine attempt_keeps h fun slot hok => ?_
  obtain ⟨_, -, hok⟩ := Except.bind_eq_ok hok
  obtain ⟨_, -, hok⟩ := Except.bind_eq_ok hok
  obtain ⟨slot', -, hok⟩ := Except.bind_eq_ok hok
  obtain ⟨_, hcheck, -⟩ := Except.bind_eq_ok hok
  obtain ⟨hslots, hfree⟩ := free_of_available hcheck hentry
  have hsub := del_sublist s.serverSlots (serverSlotKey b.hostId.strip b.port)
  refine h.put hsub rfl (fun hp => hslots ?_) (.inr hfree)
  exact ((del_sublist _ _).map _).subset hp

theorem move_keeps {s : Store} (h : Sound c s) {hostId : Text} {oldPort newPort : ℤ}
    (hentry : newPort ∉ s.entryPorts) :
    Sound c (moveServerCell c s hostId oldPort newPort).2 := by
  refine attempt_keeps h fun _ hcheck => ?_
  obtain ⟨hslots, hfree⟩ := free_of_available hcheck hentry
  have hgone := h.fewer (del_sublist s.serverSlots (serverSlotKey hostId oldPort))
  refine hgone.upsert (hgone.putSlot (fun hp => hslots ?_) (.inr fun a ha => ?_))
  · exact ((del_sublist _ _).map _).subset hp
  · rw [holds_of_slots s _ ha]
    exact hfree a ha

theorem swap_keeps {s : Store} (h : Sound c s) (b : SwapBody) :
    Sound c (swapServerSlotPorts s b).2 := by
  refine attempt_keeps h fun x hok => ?_
  obtain ⟨_, -, hok⟩ := Except.bind_eq_ok hok
  obtain ⟨_, hdiff, hok⟩ := Except.bind_eq_ok hok
  obtain ⟨slotA, hA, hok⟩ := Except.bind_eq_ok hok
  obtain ⟨⟨keyB, slotB⟩, hB, hok⟩ := Except.bind_eq_ok hok
  cases hok
  have hne : b.port ≠ b.targetPort := refuseIf_ok hdiff
  have hmemA := slotAt_ok hA
  obtain ⟨hmemB, hportB⟩ := cellOn_ok hB
  have hportA : slotA.port = b.port := h.keyed _ hmemA
  set keyA := serverSlotKey b.hostId.strip b.port with hkeyA
  have honce := h.one.once .cell
  have hA' : b.port ∉ (Assoc.del s.serverSlots keyA).map (·.2.port) :=
    hportA ▸ port_not_mem_del honce hmemA
  have hB' : b.targetPort ∉ (Assoc.del s.serverSlots keyB).map (·.2.port) :=
    hportB ▸ port_not_mem_del honce hmemB
  have hcellA : b.port ∈ s.cellPorts := List.mem_map.mpr ⟨_, hmemA, hportA⟩
  have hcellB : b.targetPort ∈ s.cellPorts := List.mem_map.mpr ⟨_, hmemB, hportB⟩
  show Sound c (if keyB = keyA then _ else _ : Outcome).2
  split
  · exact h.fewer (del_sublist _ _)
  -- both are off; the first is set down on the other's number, which is nobody's now
  · have hoff : (Assoc.del (Assoc.del s.serverSlots keyA) keyB).Sublist s.serverSlots :=
      (del_sublist _ _).trans (del_sublist _ _)
    have hoffA : (Assoc.del (Assoc.del s.serverSlots keyA) keyB).Sublist
        (Assoc.del s.serverSlots keyA) := del_sublist _ _
    have hoffB : (Assoc.del (Assoc.del s.serverSlots keyA) keyB).Sublist
        (Assoc.del s.serverSlots keyB) := (del_sublist s.serverSlots keyA).filter _
    have h₁ : Sound c { s with
        serverSlots := Assoc.put (Assoc.del (Assoc.del s.serverSlots keyA) keyB)
          (serverSlotKey b.hostId.strip b.targetPort) { slotA with port := b.targetPort } } :=
      h.put hoff rfl (fun hp => hB' ((((del_sublist _ _).trans hoffB).map _).subset hp))
        (.inl hcellB)
    refine h₁.put (List.Sublist.refl _) rfl (fun hp => ?_) (.inr fun a ha => ?_)
    · have hp := ((del_sublist _ _).map _).subset hp
      rcases List.mem_cons.mp hp with heq | hp
      · exact hne heq
      · exact hA' ((((del_sublist _ _).trans hoffA).map _).subset hp)
    · rw [holds_of_slots s _ ha]
      exact fun hp => ha (h.one.apart a .cell b.port hp hcellA)

theorem hasSlot_putSlot (s : Store) (hostId : Text) (port : ℤ) :
    (s.putSlot hostId port).hasSlot hostId port = true := by
  unfold Store.hasSlot Store.putSlot
  rw [Assoc.get_put_self]
  rfl

/-- A start that got its number may write its slot: at once, or again over the moved one. -/
theorem startReserve_keeps {s : Store} (h : Sound c s) {b : StartBody}
    (hentry : b.port ∉ s.entryPorts) :
    Sound c (b.reserve c s).2 ∧ ((b.reserve c s).1 = .ok () →
      Sound c ((b.reserve c s).2.putSlot b.hostId.strip b.port)) := by
  -- a check that passes leaves the registers, and the number is free in them
  have hcheck {k : Option SlotKey}
      (hput : assertServerCellPortAvailable c s b.port k = .ok () →
        Sound c (s.putSlot b.hostId.strip b.port)) :
      let o := attempt s (assertServerCellPortAvailable c s b.port k) fun _ => (.ok (), s)
      Sound c o.2 ∧ (o.1 = .ok () → Sound c (o.2.putSlot b.hostId.strip b.port)) :=
    attempt_cases (P := fun o => Sound c o.2 ∧
        (o.1 = .ok () → Sound c (o.2.putSlot b.hostId.strip b.port)))
      (fun _ => ⟨h, fun he => nomatch he⟩) fun _ hok => ⟨h, fun _ => hput hok⟩
  unfold StartBody.reserve
  split
  · next old _ =>
    split
    · have hmoved : Sound c (moveServerCell c s b.hostId.strip old b.port).2 := move_keeps h hentry
      refine ⟨hmoved, fun hok => hmoved.again ?_⟩
      revert hok
      refine attempt_cases (P := fun o : Outcome => o.1 = .ok () →
        o.2.hasSlot b.hostId.strip b.port = true) (fun _ he => nomatch he) fun _ _ => ?_
      exact attempt_cases (P := fun o : Outcome => o.1 = .ok () →
        o.2.hasSlot b.hostId.strip b.port = true) (fun _ he => nomatch he) fun _ _ _ =>
          hasSlot_putSlot _ _ _
    · refine hcheck fun hok => ?_
      obtain ⟨hslots, hfree⟩ := free_of_available hok hentry
      exact h.putSlot hslots (.inr hfree)
  · exact hcheck fun hok => h.checked hok hentry

theorem start_keeps {s : Store} (h : Sound c s) {b : StartBody}
    (hentry : b.port ∉ s.entryPorts) : Sound c (clientLlamaStart c s b).2 := by
  refine attempt_keeps h fun _ _ => ?_
  obtain ⟨hkept, hput⟩ := startReserve_keeps h hentry
  split
  · next heq =>
    rw [heq] at hkept
    exact hkept
  · next s' heq =>
    rw [heq] at hkept hput
    show Sound c (if b.started then _ else s')
    split
    · exact hkept.upsert (hput rfl)
    · exact hkept

theorem rehost_keeps (src dst : Text) (slots : List Slot) {s : Store} (h : Sound c s) :
    Sound c (rehost src dst slots s).2 := by
  induction slots generalizing s with
  | nil => exact h
  | cons slot slots ih =>
    unfold rehost
    split
    · exact h
    · next found hget =>
      have hmem := Assoc.mem_of_get hget
      have hport : found.port = slot.port := h.keyed _ hmem
      have hcells := port_not_mem_del (h.one.once .cell) hmem
      rw [hport] at hcells
      refine ih (h.put (del_sublist _ _) rfl (fun hp => hcells ?_) (.inl ?_))
      · exact ((del_sublist _ _).map _).subset hp
      · exact List.mem_map.mpr ⟨_, hmem, hport⟩

theorem adoptEach_keeps {hostId : Text} {ports : List ℤ} {s : Store} (h : Sound c s)
    (hentry : ∀ p ∈ ports, p ∉ s.entryPorts) : Sound c (adoptEach c hostId ports s) := by
  induction ports generalizing s with
  | nil => exact h
  | cons p ports ih =>
    have hrest (q : ℤ) (hq : q ∈ ports) : q ∉ s.entryPorts := hentry q (List.mem_cons_of_mem p hq)
    unfold adoptEach
    split
    · exact ih h hrest
    · next hfree =>
      push Not at hfree
      obtain ⟨hp, -, -, hused⟩ := hfree
      rw [mem_usedServerCellPorts] at hused
      push Not at hused
      have hnot (hheld : p = c.PORT ∨ p ∈ s.portExclusions ∨ p ∈ s.cellPorts ∨
          p ∈ s.routePorts) : False := absurd (hused hheld) (by omega)
      refine ih (h.putSlot (fun hq => ?_) (.inr ?_)) hrest
      · exact hnot (.inr (.inr (.inl (slotsBut_subset s _ hq))))
      · exact free_of_cells (fun hq => hnot (.inl hq)) (fun hq => hnot (.inr (.inl hq)))
          (fun hq => hnot (.inr (.inr (.inr hq)))) (hentry p List.mem_cons_self)

/-! ### The exclusions -/

theorem addExclusions_keeps {ports : List ℤ} {s : Store} (h : Sound c s)
    (hentry : ∀ p ∈ ports, p ∉ s.entryPorts) : Sound c (addExclusions c ports s).2 := by
  induction ports generalizing s with
  | nil => exact h
  | cons p ports ih =>
    refine attempt_keeps h fun _ hok => ?_
    obtain ⟨_, hrange, htaken⟩ := Except.bind_eq_ok hok
    have hr := refuseIf_ok hrange
    have ht := refuseIf_ok htaken
    refine ih ?_ fun q hq => hentry q (List.mem_cons_of_mem p hq)
    split
    · exact h
    · next hnew =>
      refine ⟨h.one.update .exclusion (fun a ha => ?_) ?_ ?_, h.keyed⟩
      · cases a with
        | exclusion => exact absurd rfl ha
        | cell => rfl
        | route => rfl
        | entry => rfl
        | web => rfl
      · exact List.nodup_append.mpr ⟨h.one.once .exclusion, List.nodup_singleton p,
          fun q hq r hr => by rw [List.mem_singleton.mp hr]; exact fun heq => hnew (heq ▸ hq)⟩
      · intro q hq
        rcases List.mem_append.mp hq with hq | hq
        · exact .inl hq
        · obtain rfl := List.mem_singleton.mp hq
          -- the number is no cell's, no route's and not the controller's: it is asked
          have hnot (hheld : q = c.PORT ∨ q ∈ s.cellPorts ∨ q ∈ s.routePorts) : False := by
            refine ht (List.mem_filter.mpr ⟨mem_usedServerCellPorts.mpr ⟨?_, by omega⟩, by
              simpa using hnew⟩)
            rcases hheld with hq | hq | hq
            · exact .inl hq
            · exact .inr (.inr (.inl hq))
            · exact .inr (.inr (.inr hq))
          refine .inr fun a ha => ?_
          cases a with
          | exclusion => exact absurd rfl ha
          | cell => exact fun hq => hnot (.inr (.inl hq))
          | route => exact fun hq => hnot (.inr (.inr hq))
          | entry => exact hentry q List.mem_cons_self
          | web => exact fun hq => hnot (.inl (List.mem_singleton.mp hq))

theorem exclude_keeps {s : Store} (h : Sound c s) {b : ExclusionsBody}
    (hentry : ∀ p ∈ b.add, p ∉ s.entryPorts) : Sound c (setExclusions c s b).2 := by
  have hadd := addExclusions_keeps h hentry
  unfold setExclusions
  split
  · next heq =>
    rw [heq] at hadd
    exact hadd
  · next s' heq =>
    have hs' : Sound c s' := by
      rw [heq] at hadd
      exact hadd
    have hsub : (s'.portExclusions.filter (· ∉ b.remove)).Sublist s'.portExclusions :=
      List.filter_sublist
    refine ⟨hs'.one.update .exclusion (fun a ha => ?_) (hsub.nodup (hs'.one.once .exclusion))
      fun p hp => .inl (hsub.subset hp), hs'.keyed⟩
    cases a with
    | exclusion => exact absurd rfl ha
    | cell => rfl
    | route => rfl
    | entry => rfl
    | web => rfl

/-! ### The routes and the entry -/

theorem normalizeAgentProxyRoute_ok {r : Posted} {row : Route}
    (h : normalizeAgentProxyRoute r = .ok row) :
    row.port = r.port ∧ 1024 ≤ row.port ∧ row.port ≤ 65535 := by
  obtain ⟨_, -, h⟩ := Except.bind_eq_ok h
  obtain ⟨_, hport, h⟩ := Except.bind_eq_ok h
  obtain ⟨_, -, h⟩ := Except.bind_eq_ok h
  obtain ⟨_, -, h⟩ := Except.bind_eq_ok h
  obtain ⟨_, -, h⟩ := Except.bind_eq_ok h
  obtain ⟨_, -, h⟩ := Except.bind_eq_ok h
  cases h
  have hr := refuseIf_ok hport
  push Not at hr
  exact ⟨rfl, hr⟩

@[simp] theorem kept_port (stored : List Route) (r : Posted) : (r.kept stored).port = r.port := by
  unfold Posted.kept
  split <;> rfl

/-- The rows that are saved: each a posted one's number, none twice. -/
theorem cleanRoutes_ok {stored : List Route} {posted : List Posted} {seen : List ℤ}
    {rows : List Route} (h : cleanRoutes stored posted seen = .ok rows) :
    (rows.map (·.port)).Nodup ∧ (∀ row ∈ rows, row.port ∉ seen) ∧
      ∀ row ∈ rows, 1024 ≤ row.port ∧ ∃ r ∈ posted, r.port = row.port := by
  induction posted generalizing seen rows with
  | nil =>
    cases h
    exact ⟨List.nodup_nil, by simp, by simp⟩
  | cons r posted ih =>
    obtain ⟨row, hrow, h⟩ := Except.bind_eq_ok h
    obtain ⟨_, hseen, h⟩ := Except.bind_eq_ok h
    obtain ⟨rest, hrest, h⟩ := Except.bind_eq_ok h
    cases h
    obtain ⟨hport, hlow, -⟩ := normalizeAgentProxyRoute_ok hrow
    obtain ⟨honce, hapart, hposted⟩ := ih hrest
    refine ⟨List.nodup_cons.mpr ⟨fun hmem => ?_, honce⟩, fun row' h' => ?_, fun row' h' => ?_⟩
    · obtain ⟨row', h', he⟩ := List.mem_map.mp hmem
      exact hapart row' h' (he ▸ List.mem_cons_self)
    · rcases List.mem_cons.mp h' with rfl | h'
      · exact refuseIf_ok hseen
      · exact fun hs => hapart row' h' (List.mem_cons_of_mem _ hs)
    · rcases List.mem_cons.mp h' with rfl | h'
      · exact ⟨hlow, r, List.mem_cons_self, (hport.trans (kept_port stored r)).symm⟩
      · obtain ⟨hlow', r', hr', he⟩ := hposted row' h'
        exact ⟨hlow', r', List.mem_cons_of_mem r hr', he⟩

/-- The save of the routes, where each number it adds is nobody else's. The controller's own
number is kept out by the proxy's range. -/
theorem writeRoutes_keeps {s : Store} (h : Sound c s) {posted : List Posted}
    (hnew : ∀ r ∈ posted, 1024 ≤ r.port → r.port ∉ s.routePorts →
      r.port ∉ s.cellPorts ∧ r.port ∉ s.portExclusions ∧ r.port ∉ s.entryPorts) :
    Sound c (writeRoutes c s posted).2 := by
  have hload : loadRoutes s.routes [] = s.routes :=
    loadRoutes_eq (h.one.once .route) fun _ _ h => nomatch h
  refine attempt_keeps h fun rows hok => ?_
  obtain ⟨rows', hrows, hok⟩ := Except.bind_eq_ok hok
  obtain ⟨_, hout, hok⟩ := Except.bind_eq_ok hok
  obtain ⟨_, -, hok⟩ := Except.bind_eq_ok hok
  cases hok
  rw [hload] at hrows hout
  obtain ⟨honce, -, hposted⟩ := cleanRoutes_ok hrows
  refine ⟨h.one.update .route (fun a ha => ?_) honce fun p hp => ?_, h.keyed⟩
  · cases a with
    | route => exact absurd rfl ha
    | cell => rfl
    | entry => rfl
    | exclusion => rfl
    | web => rfl
  · obtain ⟨row, hrow, rfl⟩ := List.mem_map.mp hp
    by_cases hold : row.port ∈ s.routePorts
    · exact .inl hold
    obtain ⟨hlow, r, hr, heq⟩ := hposted row hrow
    obtain ⟨hcell, hex, hentry⟩ := heq ▸ hnew r hr (heq ▸ hlow) (heq ▸ hold)
    -- a new number outside the proxy's range is refused
    have hrange : c.proxyHolds row.port = true := by
      by_contra hno
      have hmem : row.port ∈ outsideRange c s.routes rows :=
        List.mem_mergeSort.mpr (List.mem_filter.mpr ⟨hp, decide_eq_true ⟨hold, hno⟩⟩)
      exact refuseIf_ok hout (List.ne_nil_of_mem hmem)
    have hweb : row.port ≠ c.PORT := fun heq =>
      c.valid.proxy_port (heq ▸ of_decide_eq_true hrange)
    refine .inr fun a ha => ?_
    cases a with
    | route => exact absurd rfl ha
    | cell => exact hcell
    | entry => exact hentry
    | exclusion => exact hex
    | web => exact fun hq => hweb (List.mem_singleton.mp hq)

/-- What no register holds is free. -/
theorem free_of_not_taken {s : Store} {routes : List Route} {p : ℤ} (hp : 0 < p)
    (h : p ∉ allTakenPorts c s routes) :
    p ∉ s.cellPorts ∧ p ∉ s.portExclusions ∧ p ∉ s.entryPorts := by
  rw [mem_allTakenPorts, mem_usedServerCellPorts] at h
  refine ⟨fun hq => h ⟨.inl ⟨.inr (.inr (.inl hq)), hp⟩, by omega⟩,
    fun hq => h ⟨.inl ⟨.inr (.inl hq), hp⟩, by omega⟩, fun hq => h ⟨.inr (.inr hq), by omega⟩⟩

theorem mint_keeps {s : Store} (h : Sound c s) (b : MintBody) :
    Sound c (mintAgentPort c s b).2 := by
  have hload : loadRoutes s.routes [] = s.routes :=
    loadRoutes_eq (h.one.once .route) fun _ _ h => nomatch h
  refine attempt_keeps h fun port hok => writeRoutes_keeps h fun r hr hlow hnew => ?_
  obtain ⟨_, -, hnumber⟩ := Except.bind_eq_ok hok
  rcases List.mem_append.mp hr with hr | hr
  · -- a row that stands is posted under its number
    obtain ⟨row, hrow, rfl⟩ := List.mem_map.mp hr
    rw [hload] at hrow
    exact absurd (List.mem_map.mpr ⟨row, hrow, rfl⟩) hnew
  · obtain rfl := List.mem_singleton.mp hr
    have hlow : 1024 ≤ port := hlow
    unfold MintBody.number at hnumber
    split at hnumber
    · have hfree := nextAgentPort_ok hnumber
      exact free_of_not_taken (by omega) fun hp => hfree (List.mem_append_right _ hp)
    · obtain ⟨_, -, hnumber⟩ := Except.bind_eq_ok hnumber
      obtain ⟨_, htaken, hnumber⟩ := Except.bind_eq_ok hnumber
      cases hnumber
      exact free_of_not_taken (by omega) (refuseIf_ok htaken)

theorem entry_keeps {s : Store} (h : Sound c s) (b : EntryBody) :
    Sound c (writeEntry c s b).2 := by
  have hothers (e : Option EntryPort) (a : Holder) (ha : a ≠ .entry) :
      Store.holds c { s with entry := e } a = s.holds c a := by
    cases a with
    | entry => exact absurd rfl ha
    | cell => rfl
    | route => rfl
    | exclusion => rfl
    | web => rfl
  unfold writeEntry
  split
  · next hrange =>
    refine attempt_keeps h fun _ hok => ?_
    obtain ⟨_, -, hok⟩ := Except.bind_eq_ok hok
    obtain ⟨_, htaken, -⟩ := Except.bind_eq_ok hok
    have ht := refuseIf_ok htaken
    refine ⟨h.one.update .entry (hothers _) (List.nodup_singleton _) fun p hp => ?_, h.keyed⟩
    obtain rfl := List.mem_singleton.mp hp
    by_cases hold : b.port ∈ s.entryPorts
    · exact .inl hold
    refine .inr fun a ha hheld => ht (List.mem_filter.mpr ⟨?_, by simpa using hold⟩)
    refine mem_allTakenPorts.mpr ⟨.inl (mem_usedServerCellPorts.mpr ⟨?_, by omega⟩), by omega⟩
    cases a with
    | entry => exact absurd rfl ha
    | cell => exact .inr (.inr (.inl hheld))
    | route => exact .inr (.inr (.inr hheld))
    | exclusion => exact .inr (.inl hheld)
    | web => exact .inl (List.mem_singleton.mp hheld)
  · exact attempt_keeps h fun _ _ =>
      ⟨h.one.update .entry (hothers _) List.nodup_nil fun _ hp => (nomatch hp), h.keyed⟩

/-! ### Runs -/

/-- An operation on the registers, with its request. -/
inductive Op
  | reserve (b : ReserveBody)
  | saveConfig (b : CellBody)
  | reassign (b : ReassignBody)
  | swap (b : SwapBody)
  | start (b : StartBody)
  | rehost (b : RehostBody)
  | delete (b : CellBody)
  | adopt (b : KeptBody)
  | exclude (b : ExclusionsBody)
  | saveRoutes (posted : List Posted)
  | mint (b : MintBody)
  | setEntry (b : EntryBody)

variable (c)

/-- The operation, run. -/
def Op.run (s : Store) : Op → Outcome
  | .reserve b => reserveServerCell c s b
  | .saveConfig b => serverCellSaveConfig c s b
  | .reassign b => reassignServerSlotPort c s b
  | .swap b => swapServerSlotPorts s b
  | .start b => clientLlamaStart c s b
  | .rehost b => moveHostCells s b
  | .delete b => deleteServerSlot s b
  | .adopt b => Ports.adopt c s b
  | .exclude b => setExclusions c s b
  | .saveRoutes posted => writeRoutes c s posted
  | .mint b => mintAgentPort c s b
  | .setEntry b => writeEntry c s b

/-- The operation asks for no number that its check forgets: a cell or an exclusion for none
of the entry's, a save of the routes for no new one of a cell's, an exclusion's or the
entry's. -/
def Op.Spares (s : Store) : Op → Prop
  | .reserve b => b.number c s ∉ s.entryPorts
  | .saveConfig b => b.port ∉ s.entryPorts
  | .reassign b => b.newPort ∉ s.entryPorts
  | .start b => b.port ∉ s.entryPorts
  | .adopt b => ∀ p ∈ b.requests, p ∉ s.entryPorts
  | .exclude b => ∀ p ∈ b.add, p ∉ s.entryPorts
  | .saveRoutes posted => ∀ r ∈ posted, r.port ∉ s.routePorts →
      r.port ∉ s.cellPorts ∧ r.port ∉ s.portExclusions ∧ r.port ∉ s.entryPorts
  | .swap _ | .rehost _ | .delete _ | .mint _ | .setEntry _ => True

/-- The registers, from any in which one number means one thing. -/
def registers : System Store Op where
  init := Sound c
  step s op s' := s' = (op.run c s).2

variable {c}

/-- **One step.** -/
theorem Sound.step {s : Store} (h : Sound c s) {op : Op} (hop : op.Spares c s) :
    Sound c (op.run c s).2 := by
  cases op with
  | reserve b => exact reserve_keeps h hop
  | saveConfig b => exact save_keeps h hop
  | reassign b => exact reassign_keeps h hop
  | swap b => exact swap_keeps h b
  | start b => exact start_keeps h hop
  | rehost b => exact attempt_keeps h fun _ _ => rehost_keeps _ _ _ h
  | delete b => exact h.fewer (del_sublist _ _)
  | adopt b =>
    show Sound c (if _ then _ else _ : Outcome).2
    split
    · exact h
    · exact adoptEach_keeps h fun p hp => hop p (List.mem_mergeSort.mp hp)
  | exclude b => exact exclude_keeps h hop
  | saveRoutes posted => exact writeRoutes_keeps h fun r hr _ hnew => hop r hr hnew
  | mint b => exact mint_keeps h b
  | setEntry b => exact entry_keeps h b

/-- **Where every operation spares the numbers its check forgets, one number means one
thing**, in every state of the run. -/
theorem one_thing_of_spared {s : Store}
    (h : System.Reach (registers c) (fun s op => op.Spares c s) s) : OneThing c s := by
  have hsound : Sound c s :=
    h.invariant (fun _ h => h) fun s op s' hs hop hstep => by
      rw [hstep]
      exact hs.step hop
  exact hsound.one

/-! ### Two runs of a controller as it is shipped -/

def shippedConfig : Config where
  PORT := 7990
  SERVER_CELL_BASE_PORT := 22001
  SERVER_CELL_PORT_SPAN := 998
  AGENT_PROXY_BASE_PORT := 23001
  AGENT_PROXY_PORT_SPAN := 998
  valid := by constructor <;> decide

/-- A controller without cells or routes, its entry on 23500. -/
def emptyBoard : Store where
  serverSlots := []
  portExclusions := []
  routes := []
  entry := some ⟨23500, by decide⟩

theorem emptyBoard_sound : Sound shippedConfig emptyBoard := by
  refine ⟨⟨fun a b p ha hb => ?_, fun a => ?_⟩, fun _ he => nomatch he⟩
  · cases a <;> cases b <;> simp_all [Store.holds, Store.cellPorts, Store.routePorts,
      Store.entryPorts, emptyBoard, shippedConfig]
  · cases a <;> simp [Store.holds, Store.cellPorts, Store.routePorts, Store.entryPorts, emptyBoard]

/-- A cell of the machine "box" is reserved. -/
def reserveOn (port : ℤ) : Op := .reserve ⟨"box", .ok (), some port⟩

/-- An agent's route is saved, the only one. -/
def saveRouteOn (port : ℤ) : Op :=
  .saveRoutes [⟨"hermes", port, [], "127.0.0.1", 8080, none, none, .ok ()⟩]

def afterReserve (port : ℤ) : Store := ((reserveOn port).run shippedConfig emptyBoard).2

def afterBoth (cell route : ℤ) : Store :=
  ((saveRouteOn route).run shippedConfig (afterReserve cell)).2

theorem afterReserve_reached {ok : Store → Op → Prop} {port : ℤ}
    (h : ok emptyBoard (reserveOn port)) :
    System.Reach (registers shippedConfig) ok (afterReserve port) :=
  (System.Reach.init emptyBoard_sound).step h rfl

theorem afterBoth_reached {ok : Store → Op → Prop} {cell route : ℤ}
    (h : ok emptyBoard (reserveOn cell)) (h' : ok (afterReserve cell) (saveRouteOn route)) :
    System.Reach (registers shippedConfig) ok (afterBoth cell route) :=
  (afterReserve_reached h).step h' rfl

theorem one_thing_kept :
    (afterBoth 22001 23001).cellPorts = [22001] ∧ (afterBoth 22001 23001).routePorts = [23001] ∧
      OneThing shippedConfig (afterBoth 22001 23001) := by
  refine ⟨by decide +kernel, by decide +kernel, one_thing_of_spared (afterBoth_reached ?_ ?_)⟩
  · show (22001 : ℤ) ∉ emptyBoard.entryPorts
    decide
  · intro r hr _
    obtain rfl := List.mem_singleton.mp hr
    decide +kernel

/-- A cell is reserved on the entry's number; a route is saved on a cell's. -/
theorem one_thing_lost :
    (∃ s, System.Reachable (registers shippedConfig) s ∧
      23500 ∈ s.holds shippedConfig .cell ∧ 23500 ∈ s.holds shippedConfig .entry) ∧
    (∃ s, System.Reachable (registers shippedConfig) s ∧
      23001 ∈ s.holds shippedConfig .cell ∧ 23001 ∈ s.holds shippedConfig .route) ∧
    ¬ ∀ s, System.Reachable (registers shippedConfig) s → OneThing shippedConfig s := by
  have hcell : 23500 ∈ (afterReserve 23500).holds shippedConfig .cell := by decide +kernel
  have hentry : 23500 ∈ (afterReserve 23500).holds shippedConfig .entry := by decide +kernel
  have hreached : System.Reachable (registers shippedConfig) (afterReserve 23500) :=
    afterReserve_reached trivial
  refine ⟨⟨_, hreached, hcell, hentry⟩,
    ⟨afterBoth 23001 23001, afterBoth_reached trivial trivial, by decide +kernel,
      by decide +kernel⟩, fun hall => ?_⟩
  exact nomatch (hall _ hreached).apart _ _ _ hcell hentry

end Ports
