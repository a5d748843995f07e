import Caravan.Cells.Autostart

/-!
# The places that cells have left

A record is made of a request that a report carries, and the report is older than the moment it is
read at. So a place that was left stays empty where no report makes a record of a request that the
scout no more keeps (`OnTime`); and a request follows its cell where what the host record says of
it, when a request is asked about, is what the scout keeps, and where what is at a port is left
alone while an operation on that port is under way (`Rely`).

`Inv` is what the steps keep: a place that was left has no record, and no request.
-/

namespace Cells

open Python Requests Ports

/-! ### What stands at a port -/

/-- The entries at a port, of every machine. -/
def onPort {α : Type} (port : ℤ) (m : List (SlotKey × α)) : List (SlotKey × α) :=
  m.filter fun e => decide (e.1.port = port)

/-- The same stands at a port. -/
def SamePort (port : ℤ) (x y : Store) : Prop :=
  onPort port x.serverSlots = onPort port y.serverSlots ∧ onPort port x.kept = onPort port y.kept

/-- The ports that an operation names. -/
def Request.ports : Request → List ℤ
  | .delete _ port => [port]
  | .move _ oldPort newPort => [oldPort, newPort]
  | .swap _ portA portB => [portA, portB]
  | .report .. => []

/-- What a request relies on: at the ports that it names, the others change nothing. -/
def Rely (q : Request) (x y : Store) : Prop := ∀ port ∈ q.ports, SamePort port x y

theorem get_onPort {α : Type} (m : List (SlotKey × α)) (key : SlotKey) :
    Assoc.get (onPort key.port m) key = Assoc.get m key := by
  unfold onPort
  rw [Assoc.get_filter_key m fun k => decide (k.port = key.port), if_pos (by simp)]

variable {q : Request} {x y z : Store} {key : SlotKey}

theorem Rely.refl (q : Request) (x : Store) : Rely q x x := fun _ _ => ⟨rfl, rfl⟩

theorem Rely.trans (h : Rely q x y) (h' : Rely q y z) : Rely q x z := fun p hp =>
  ⟨(h p hp).1.trans (h' p hp).1, (h p hp).2.trans (h' p hp).2⟩

theorem Rely.slots (h : Rely q x y) (hkey : key.port ∈ q.ports) :
    Assoc.get x.serverSlots key = Assoc.get y.serverSlots key := by
  rw [← get_onPort x.serverSlots, (h _ hkey).1, get_onPort]

theorem Rely.kept (h : Rely q x y) (hkey : key.port ∈ q.ports) :
    Assoc.get x.kept key = Assoc.get y.kept key := by
  rw [← get_onPort x.kept, (h _ hkey).2, get_onPort]

theorem Rely.keeps (h : Rely q x y) {host : Text} {port : ℤ} (hport : port ∈ q.ports) :
    x.keeps host port = y.keeps host port := by
  have hkept := h.kept (show (scoutKey host port).port ∈ q.ports from hport)
  rw [Store.keeps, hkept, Store.keeps]

/-! ### What the steps rely on -/

/-- The port whose request the next step asks the host record about. -/
def Asks : Request → List Store → Option (Text × ℤ)
  | .delete host port, [] => some (host.strip, port)
  | .move host oldPort _, [] => some (host.strip, oldPort)
  | .swap host portA _, [_] => some (host.strip, portA)
  | .swap _ _ portB, [_, x] => (x.cellOn portB).map fun e => (e.1.hostId, portB)
  | _, _ => none

/-- The moves of an operation that finds this state at first. -/
def Request.moves (first : Store) : Request → List Move
  | .move host oldPort newPort => [⟨host.strip, oldPort, newPort⟩]
  | .swap host portA portB => swapMoves first host portA portB
  | _ => []

variable (O : Outside)

/-- What a step relies on. A report makes a record of what the scout keeps. When a deletion asks
about a request that is kept, the host record says it, and when a move asks about one it says what
the scout keeps; and of a cell whose request is kept the record on the new port can be started. -/
def OnTime (q : Request) (found : List Store) (x x' : Store) : Prop :=
  match q with
  | .report .. => ∀ key, Assoc.get x.serverSlots key = none → Assoc.get x'.serverSlots key ≠ none →
    Assoc.get x.kept key ≠ none
  | .delete .. => ∀ host port, Asks q found = some (host, port) →
    x.keeps host port → x.told host port
  | _ => (∀ host port, Asks q found = some (host, port) → (x.told host port ↔ x.keeps host port)) ∧
    ∀ first, found.getLast? = some first → ∀ m ∈ q.moves first, first.keeps m.host m.oldPort →
      ∀ slot, x' = x.fill (serverSlotKey m.host m.newPort) slot →
        (O.startRequest m.host m.newPort slot).isSome

/-- After a move, a request that was kept is at its cell's new port, as a start of the record there
sends it, and at the old port there is none but of a cell that came there. -/
def Followed (q : Request) (r : Answer) (found : List Store) (x : Store) : Prop :=
  ∀ said, r = .moved said → ∀ first, found.getLast? = some first → ∀ m ∈ q.moves first,
    (first.keeps m.host m.oldPort → ∃ slot request,
      Assoc.get x.serverSlots (serverSlotKey m.host m.newPort) = some slot ∧
        O.startRequest m.host m.newPort slot = some request ∧
        Assoc.get x.kept (scoutKey m.host m.newPort) = some request) ∧
    ((∀ m' ∈ q.moves first, scoutKey m'.host m'.newPort = scoutKey m.host m.oldPort →
      ¬ first.keeps m'.host m'.oldPort) → ¬ x.keeps m.host m.oldPort)

/-! ### The places that were left -/

/-- `canonical_host_id` leaves the id of a key as it is. -/
def Canonical (key : SlotKey) : Prop := canonicalHostId key.hostId = key.hostId

/-- A place that was left is empty, and no scout keeps a request for it. -/
structure Inv (x : Store) : Prop where
  canonical : ∀ e ∈ x.serverSlots, Canonical e.1
  left_canonical : ∀ key ∈ x.left, Canonical key
  empty : ∀ key ∈ x.left, Assoc.get x.serverSlots key = none
  none_kept : ∀ key ∈ x.left, key.hostId = CONTROLLER_HOST_ID ∨ Assoc.get x.kept key = none

theorem canonicalHostId_strip (host : Text) :
    canonicalHostId host.strip = canonicalHostId host := by
  unfold canonicalHostId
  rw [Text.strip_strip]

theorem canonicalHostId_cases (host : Text) :
    canonicalHostId host = CONTROLLER_HOST_ID ∨ canonicalHostId host = host.strip := by
  unfold canonicalHostId
  split
  · exact .inl rfl
  · exact .inr rfl

theorem serverSlotKey_canonical (host : Text) (port : ℤ) :
    Canonical (serverSlotKey host port) := by
  show canonicalHostId (canonicalHostId host) = canonicalHostId host
  cases canonicalHostId_cases host with
  | inl h => rw [h]; decide
  | inr h => rw [h, canonicalHostId_strip, h]

theorem serverSlotKey_strip (host : Text) (port : ℤ) :
    serverSlotKey host.strip port = serverSlotKey host port := by
  unfold serverSlotKey
  rw [canonicalHostId_strip]

/-- Where a record is found is where its scout keeps the request, but for the controller's. -/
theorem key_cases (host : Text) (port : ℤ) :
    (serverSlotKey host port).hostId = CONTROLLER_HOST_ID ∨
      serverSlotKey host port = scoutKey host port :=
  (canonicalHostId_cases host).imp id fun h => congrArg (SlotKey.mk · port) h

theorem Canonical.serverSlotKey (h : Canonical key) :
    Ports.serverSlotKey key.hostId key.port = key :=
  congrArg (SlotKey.mk · key.port) h

@[simp] theorem answered_serverSlots (x : Store) (host : Text) (ports : List ℤ) :
    (x.answered host ports).serverSlots = x.serverSlots := by
  unfold Store.answered
  split <;> rfl

@[simp] theorem answered_kept (x : Store) (host : Text) (ports : List ℤ) :
    (x.answered host ports).kept = x.kept := by
  unfold Store.answered
  split <;> rfl

@[simp] theorem answered_left (x : Store) (host : Text) (ports : List ℤ) :
    (x.answered host ports).left = x.left := by
  unfold Store.answered
  split <;> rfl

theorem rely_answered (q : Request) (x : Store) (host : Text) (ports : List ℤ) :
    Rely q x (x.answered host ports) := fun p _ => by simp [SamePort]

theorem Inv.answered (h : Inv x) (host : Text) (ports : List ℤ) : Inv (x.answered host ports) where
  canonical := by simpa using h.canonical
  left_canonical := by simpa using h.left_canonical
  empty := by simpa using h.empty
  none_kept := by simpa using h.none_kept

theorem Inv.takenOff (h : Inv x) (host : Text) (port : ℤ) : Inv (x.takenOff host port) where
  canonical := h.canonical
  left_canonical := h.left_canonical
  empty := h.empty
  none_kept key hkey := by
    refine (h.none_kept key hkey).imp id fun hnone => ?_
    show Assoc.get (Assoc.del x.kept (scoutKey host port)) key = none
    rw [Assoc.get_del]
    split
    · rfl
    · exact hnone

/-- A request that is put on is of a cell that has a record. -/
theorem Inv.putOn (h : Inv x) {host : Text} {port : ℤ} {request : StartRequest}
    (hslot : Assoc.get x.serverSlots (serverSlotKey host port) ≠ none) :
    Inv (x.putOn host port request) where
  canonical := h.canonical
  left_canonical := h.left_canonical
  empty := h.empty
  none_kept key hkey := by
    refine (h.none_kept key hkey).imp id fun hnone => ?_
    have hne : key ≠ scoutKey host port := by
      rintro rfl
      have hcanon : serverSlotKey host.strip port = scoutKey host port :=
        (h.left_canonical _ hkey).serverSlotKey
      rw [serverSlotKey_strip] at hcanon
      exact hslot (hcanon ▸ h.empty _ hkey)
    show Assoc.get (Assoc.set x.kept (scoutKey host port) request) key = none
    rw [Assoc.get_set, if_neg hne]
    exact hnone

theorem Inv.vacate (h : Inv x) (hkey : Canonical key)
    (hkept : key.hostId = CONTROLLER_HOST_ID ∨ Assoc.get x.kept key = none) :
    Inv (x.vacate key) where
  canonical e he := h.canonical e (List.mem_of_mem_filter he)
  left_canonical k hk := by
    cases List.mem_cons.mp hk with
    | inl he => exact he ▸ hkey
    | inr hk => exact h.left_canonical k hk
  empty k hk := by
    show Assoc.get (Assoc.del x.serverSlots key) k = none
    rw [Assoc.get_del]
    split
    · rfl
    · next hne => exact h.empty k ((List.mem_cons.mp hk).resolve_left hne)
  none_kept k hk := by
    cases List.mem_cons.mp hk with
    | inl he => exact he ▸ hkept
    | inr hk => exact h.none_kept k hk

theorem canonical_set (h : Inv x) (hkey : Canonical key) (slot : Slot) :
    ∀ e ∈ Assoc.set x.serverSlots key slot, Canonical e.1 := by
  intro e he
  unfold Assoc.set at he
  split at he
  · obtain ⟨e', he', rfl⟩ := List.mem_map.mp he
    split
    · exact hkey
    · exact h.canonical e' he'
  · cases List.mem_append.mp he with
    | inl he => exact h.canonical e he
    | inr he => exact List.mem_singleton.mp he ▸ hkey

theorem Inv.fill (h : Inv x) (hkey : Canonical key) (slot : Slot) : Inv (x.fill key slot) where
  canonical := canonical_set h hkey slot
  left_canonical k hk := h.left_canonical k (List.mem_of_mem_filter hk)
  empty k hk := by
    obtain ⟨hk, hne⟩ := List.mem_filter.mp hk
    show Assoc.get (Assoc.set x.serverSlots key slot) k = none
    rw [Assoc.get_set, if_neg (by simpa using hne)]
    exact h.empty k hk
  none_kept k hk := h.none_kept k (List.mem_of_mem_filter hk)

/-- A report's record is of a cell whose scout keeps its request. -/
theorem Inv.make (h : Inv x) (hkey : Canonical key) (hhost : key.hostId ≠ CONTROLLER_HOST_ID)
    (hkept : Assoc.get x.serverSlots key = none → Assoc.get x.kept key ≠ none) (slot : Slot) :
    Inv (x.withSlot key slot) where
  canonical := canonical_set h hkey slot
  left_canonical := h.left_canonical
  empty k hk := by
    have hne : k ≠ key := by
      rintro rfl
      exact hkept (h.empty _ hk) ((h.none_kept _ hk).resolve_left hhost)
    show Assoc.get (Assoc.set x.serverSlots key slot) k = none
    rw [Assoc.get_set, if_neg hne]
    exact h.empty k hk
  none_kept := h.none_kept

end Cells
