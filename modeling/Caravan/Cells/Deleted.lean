import Caravan.Cells.Places

/-!
# A deleted cell does not come back

`Does` is a rule for what is left of an operation after its first step: an assertion about the
ports that it names, which the other requests leave true, and what the operation makes of it, block
by block. `not_made_again` is the theorem about runs in which the steps find what they rely on.
-/

namespace Cells

open Python Requests Ports

variable {O : Outside} {q : Request} {first x y : Store} {P Q Q' : Store → Prop}

/-! ### Assertions about the ports that an operation names -/

/-- What the others leave true. -/
def Stable (q : Request) (P : Store → Prop) : Prop := ∀ x y, P x → Rely q x y → P y

theorem Stable.true : Stable q fun _ => True := fun _ _ _ _ => trivial

theorem Stable.and (h : Stable q P) (h' : Stable q Q) : Stable q fun x => P x ∧ Q x :=
  fun x y hx hy => ⟨h x y hx.1 hy, h' x y hx.2 hy⟩

theorem Stable.imp {a : Prop} (h : a → Stable q P) : Stable q fun x => a → P x :=
  fun x y hx hy ha => h ha x y (hx ha) hy

theorem Stable.slots {key : SlotKey} (hkey : key.port ∈ q.ports) (R : Option Slot → Prop) :
    Stable q fun x => R (Assoc.get x.serverSlots key) := fun _ _ hx hy =>
  (congrArg R (hy.slots hkey)).mp hx

theorem Stable.keeps {host : Text} {port : ℤ} (hport : port ∈ q.ports) (R : Bool → Prop) :
    Stable q fun x => R (x.keeps host port) := fun _ _ hx hy =>
  (congrArg R (hy.keeps hport)).mp hx

/-! ### What is left of an operation -/

/-- From a state of which `P` is true, these steps are sound. -/
def Does (O : Outside) (q : Request) (first : Store) (P : Store → Prop) (p : Steps) : Prop :=
  ∀ found y, found.getLast? = some first → P y →
    p.Sound Inv (Rely q) (OnTime O q) (Followed O q) found y

theorem getLast?_cons {found : List Store} (h : found.getLast? = some first) (x : Store) :
    (x :: found).getLast? = some first := by
  rw [List.getLast?_cons, h]
  rfl

theorem Does.step {f : Store → Store} {k : Store → Steps} {Q : Store → Store → Prop}
    (hP : Stable q P)
    (h : ∀ found x, found.getLast? = some first → Inv x → P x → OnTime O q found x (f x) →
      Inv (f x) ∧ Q x (f x))
    (hk : ∀ x, Does O q first (Q x) (k x)) : Does O q first P (.step f k) := by
  intro found y hfound hy x hx hrely hontime
  obtain ⟨hinv, hpost⟩ := h found x hfound hx (hP y x hy hrely) hontime
  exact ⟨hinv, hk x _ _ (getLast?_cons hfound x) hpost⟩

theorem Does.read {k : Store → Steps} (hP : Stable q P)
    (hk : ∀ x, Inv x → P x → Does O q first P (k x)) : Does O q first P (.read k) := by
  intro found y hfound hy x hx hrely _
  have hPx := hP y x hy hrely
  exact ⟨hx, hk x hx hPx _ _ (getLast?_cons hfound x) hPx⟩

theorem Does.done {r : Answer} (hP : Stable q P)
    (h : ∀ found x, found.getLast? = some first → P x → Followed O q r found x) :
    Does O q first P (.done r) :=
  fun found _ hfound hy x _ hrely => h found x hfound (hP _ x hy hrely)

/-- An answer that says nothing of a move. -/
theorem Does.answer {r : Answer} (h : ∀ said, r ≠ .moved said) : Does O q first P (.done r) :=
  fun _ _ _ _ _ _ _ said hr => absurd hr (h said)

theorem Does.weaken {p : Steps} (h : Does O q first Q p) (hP : ∀ x, P x → Q x) :
    Does O q first P p := fun found y hfound hy => h found y hfound (hP y hy)

/-! ### The requests at the scouts -/

theorem Does.takeOff {host : Text} {port : ℤ} {k : Said → Steps} (hP : Stable q P)
    (hP' : Stable q Q) (h : ∀ x, P x → Q (x.takenOff host port))
    (hk : Does O q first Q (k ⟨port, false, true⟩)) :
    Does O q first P (takeOff host port k) := by
  refine Does.step (Q := fun _ => Q) hP ?_ fun x => ?_
  · exact fun found x _ hx hPx _ => ⟨hx.takenOff host port, h x hPx⟩
  · refine Does.step (Q := fun _ => Q) hP' ?_ fun _ => hk
    intro found y _ hy hPy _
    exact ⟨hy.answered _ _, hP' _ _ hPy (rely_answered q _ _ _)⟩

theorem Does.putOn {host : Text} {port : ℤ} {k : Said → Steps} (hport : port ∈ q.ports)
    (hP : Stable q P) (hP' : Stable q Q)
    (hnone : ∀ x, P x → (Assoc.get x.serverSlots (serverSlotKey host port)).bind
      (O.startRequest host port) = none → Q x)
    (hsome : ∀ x request, P x → (Assoc.get x.serverSlots (serverSlotKey host port)).bind
      (O.startRequest host port) = some request → Q (x.putOn host port request))
    (hk : ∀ said, Does O q first Q (k said)) : Does O q first P (putOn O host port k) := by
  intro found y hfound hy x hx hrely _
  have hPx := hP y x hy hrely
  refine ⟨hx, ?_⟩
  dsimp only
  split
  · next hread => exact hk _ _ _ (getLast?_cons hfound x) (hnone x hPx hread)
  · next request hread =>
    -- the record that was read is still there when the scout is asked
    refine Does.step (P := fun z => P z ∧ (Assoc.get z.serverSlots (serverSlotKey host port)).bind
      (O.startRequest host port) = some request) (Q := fun _ => Q) ?_ ?_ ?_ _ _
      (getLast?_cons hfound x) ⟨hPx, hread⟩
    · exact hP.and (Stable.slots hport fun slot => slot.bind (O.startRequest host port) = _)
    · intro found z _ hz hPz _
      have hslot : Assoc.get z.serverSlots (serverSlotKey host port) ≠ none := by
        intro hno
        rw [hno] at hPz
        exact nomatch hPz.2
      exact ⟨hz.putOn hslot, hsome z request hPz.1 hPz.2⟩
    · intro z
      refine Does.step (Q := fun _ => Q) hP' ?_ fun _ => hk _
      intro found w _ hw hPw _
      exact ⟨hw.answered _ _, hP' _ _ hPw (rely_answered q _ _ _)⟩

/-- One request after the other: `A` says of the state what is still to do. -/
theorem Does.eachSet {set : Text × ℤ → (Said → Steps) → Steps} {k : List Said → Steps}
    (A : List (Text × ℤ) → Store → Prop) (l : List (Text × ℤ))
    (hset : ∀ a l k, (∀ said, Does O q first (A l) (k said)) →
      Does O q first (A (a :: l)) (set a k))
    (hk : ∀ saids, Does O q first (A []) (k saids)) : Does O q first (A l) (eachSet set l k) := by
  induction l generalizing k with
  | nil => exact hk []
  | cons a l ih => exact hset a l _ fun said => ih fun saids => hk _

/-! ### The records' moves -/

/-- The records on the ports are those that the operation found at first. -/
def SameSlots (q : Request) (first x : Store) : Prop :=
  ∀ port ∈ q.ports, onPort port first.serverSlots = onPort port x.serverSlots

/-- No scout keeps a request at the old port of a move. -/
def Off (q : Request) (first x : Store) : Prop :=
  ∀ m ∈ q.moves first, x.keeps m.host m.oldPort = false

/-- The record on a move's new port can be started, if its request was kept. -/
def Startable (O : Outside) (first : Store) (m : Move) (x : Store) : Prop :=
  first.keeps m.host m.oldPort → ∃ slot,
    Assoc.get x.serverSlots (serverSlotKey m.host m.newPort) = some slot ∧
      (O.startRequest m.host m.newPort slot).isSome

/-- No two moves have the same new port. -/
def Apart (ms : List Move) : Prop := ∀ m ∈ ms, ∀ m' ∈ ms, m.newPort = m'.newPort → m = m'

theorem moves_ports {m : Move} (hm : m ∈ q.moves first) :
    m.oldPort ∈ q.ports ∧ m.newPort ∈ q.ports := by
  cases q with
  | delete | report => exact absurd hm List.not_mem_nil
  | move =>
    rw [List.mem_singleton.mp hm]
    exact ⟨List.mem_cons_self, List.mem_cons_of_mem _ List.mem_cons_self⟩
  | swap host a b =>
    cases List.mem_cons.mp hm with
    | inl he =>
      rw [he]
      exact ⟨List.mem_cons_self, List.mem_cons_of_mem _ List.mem_cons_self⟩
    | inr hm =>
      obtain ⟨e, -, rfl⟩ := Option.map_eq_some_iff.mp (Option.mem_toList.mp hm)
      exact ⟨List.mem_cons_of_mem _ List.mem_cons_self, List.mem_cons_self⟩

theorem SameSlots.stable (q : Request) (first : Store) : Stable q (SameSlots q first) :=
  fun _ _ hx hy p hp => (hx p hp).trans (hy p hp).1

theorem Off.stable (q : Request) (first : Store) : Stable q (Off q first) := fun _ _ hx hy m hm =>
  (hy.keeps (moves_ports hm).1).symm.trans (hx m hm)

theorem Startable.stable {m : Move} (hm : m.newPort ∈ q.ports) :
    Stable q (Startable O first m) :=
  have hport : (serverSlotKey m.host m.newPort).port ∈ q.ports := hm
  Stable.imp fun _ => Stable.slots hport fun slot =>
    ∃ s, slot = some s ∧ (O.startRequest m.host m.newPort s).isSome

theorem SameSlots.cellOn (h : SameSlots q first x) {port : ℤ} (hport : port ∈ q.ports) :
    x.cellOn port = first.cellOn port := by
  have hhead : ∀ x : Store, x.cellOn port = (onPort port x.serverSlots).head? := fun x =>
    (List.head?_filter ..).symm
  rw [hhead, hhead, h _ hport]

/-- A place that a move leaves: its scout keeps no request for it. -/
theorem kept_none {host : Text} {port : ℤ} (h : x.keeps host port = false) :
    (serverSlotKey host port).hostId = CONTROLLER_HOST_ID ∨
      Assoc.get x.kept (serverSlotKey host port) = none := by
  refine (key_cases host port).imp id fun hkey => ?_
  rw [hkey]
  exact Option.not_isSome_iff_eq_none.mp (by simpa [Store.keeps] using h)

theorem Does.vacate {key : SlotKey} {k : Except Raised Unit → Steps} (hP : Stable q P)
    (hkey : Canonical key)
    (hkept : ∀ x, P x → key.hostId = CONTROLLER_HOST_ID ∨ Assoc.get x.kept key = none)
    (hP' : ∀ x, P x → Q (x.vacate key))
    (herr : ∀ e, Does O q first (fun _ => True) (k (.error e)))
    (hok : Does O q first Q (k (.ok ()))) : Does O q first P (vacate key k) := by
  refine Does.step (Q := fun _ => Q) hP ?_ fun x => ?_
  · exact fun found x _ hx hPx _ => ⟨hx.vacate hkey (hkept x hPx), hP' x hPx⟩
  · split
    · exact hok
    · exact (herr _).weaken fun _ _ => trivial

theorem reassign_does {host : Text} {oldPort newPort : ℤ} {k : Except Raised Unit → Steps}
    (hq : q = .move host oldPort newPort)
    (herr : ∀ e, Does O q first (fun _ => True) (k (.error e)))
    (hok : Does O q first (fun x => Off q first x ∧ ∀ m ∈ q.moves first, Startable O first m x)
      (k (.ok ()))) :
    Does O q first (Off q first) (reassignServerSlotPort O host oldPort newPort k) := by
  have hrefused : ∀ e, Does O q first (Off q first) (k (.error e)) := fun e =>
    (herr e).weaken fun _ _ => trivial
  unfold reassignServerSlotPort
  dsimp only
  split
  · exact hrefused _
  split
  · exact hrefused _
  refine Does.read (Off.stable q first) fun x _ _ => ?_
  split
  · exact hrefused _
  next slot _ =>
  refine Does.read (Off.stable q first) fun y _ _ => ?_
  split
  · exact hrefused _
  refine Does.vacate (Q := Off q first) (Off.stable q first) (serverSlotKey_canonical ..)
    (fun z hz => ?_) (fun z hz => hz) herr ?_
  · exact kept_none (hz ⟨host.strip, oldPort, newPort⟩ (hq ▸ List.mem_cons_self))
  · refine Does.step (Q := fun _ x => Off q first x ∧ ∀ m ∈ q.moves first, Startable O first m x)
      (Off.stable q first) ?_ fun _ => hok
    intro found z hfound hz hoff hontime
    refine ⟨hz.fill (serverSlotKey_canonical ..) _, hoff, fun m hm hkept => ?_⟩
    subst hq
    have hstart := hontime.2 first hfound m hm hkept (slot.onPort newPort)
    obtain rfl := List.mem_singleton.mp hm
    refine ⟨_, ?_, hstart rfl⟩
    show Assoc.get (Assoc.set z.serverSlots _ _) _ = _
    rw [Assoc.get_set, if_pos rfl]

theorem swap_does {host : Text} {a b : ℤ} {k : Except Raised Unit → Steps}
    (hq : q = .swap host a b)
    (herr : ∀ e, Does O q first (fun _ => True) (k (.error e)))
    (hok : Apart (q.moves first) →
      Does O q first (fun x => Off q first x ∧ ∀ m ∈ q.moves first, Startable O first m x)
        (k (.ok ()))) :
    Does O q first (fun x => SameSlots q first x ∧ Off q first x)
      (swapServerSlotPorts host a b k) := by
  have hP : Stable q fun x => SameSlots q first x ∧ Off q first x :=
    (SameSlots.stable q first).and (Off.stable q first)
  have hrefused : ∀ e, Does O q first (fun x => SameSlots q first x ∧ Off q first x)
      (k (.error e)) := fun e => (herr e).weaken fun _ _ => trivial
  unfold swapServerSlotPorts
  dsimp only
  split
  · exact hrefused _
  split
  · exact hrefused _
  next hab =>
  refine Does.read hP fun x _ _ => ?_
  split
  · exact hrefused _
  next slotA _ =>
  refine Does.read hP fun y hy hPy => ?_
  split
  · exact hrefused _
  next keyB slotB hB =>
  have hbport : keyB.port = b := by simpa using List.find?_some hB
  have hcanon : Canonical keyB := hy.canonical _ (List.mem_of_find?_eq_some hB)
  have hmoves : q.moves first = [⟨host.strip, a, b⟩, ⟨keyB.hostId, b, a⟩] := by
    rw [hPy.1.cellOn (by simp [hq, Request.ports])] at hB
    simp [hq, Request.moves, swapMoves, hB]
  have hports : a ∈ q.ports ∧ b ∈ q.ports := by simp [hq, Request.ports]
  have hkeyB : keyB = serverSlotKey keyB.hostId b := by rw [← hbport, hcanon.serverSlotKey]
  refine Does.vacate (Q := Off q first) hP (serverSlotKey_canonical ..) (fun z hz => ?_)
    (fun z hz => hz.2) herr ?_
  · exact kept_none (hz.2 ⟨host.strip, a, b⟩ (by simp [hmoves]))
  refine Does.vacate (Q := Off q first) (Off.stable q first) hcanon (fun z hz => ?_)
    (fun z hz => hz) herr ?_
  · rw [hkeyB]
    exact kept_none (hz ⟨keyB.hostId, b, a⟩ (by simp [hmoves]))
  -- the one cell on the other's port, then the other on the one's
  refine Does.step (Q := fun _ x => Off q first x ∧ Startable O first ⟨host.strip, a, b⟩ x)
    (Off.stable q first) ?_ fun _ => ?_
  · intro found z hfound hz hoff hontime
    refine ⟨hz.fill (serverSlotKey_canonical ..) _, hoff, fun hkept => ?_⟩
    subst hq
    refine ⟨_, ?_, hontime.2 first hfound ⟨host.strip, a, b⟩ (by simp [hmoves]) hkept _ rfl⟩
    show Assoc.get (Assoc.set z.serverSlots _ _) _ = _
    rw [Assoc.get_set, if_pos rfl]
  · refine Does.step (Q := fun _ x => Off q first x ∧ ∀ m ∈ q.moves first, Startable O first m x)
      ((Off.stable q first).and (Startable.stable hports.2)) ?_ fun _ => hok ?_
    · intro found z hfound hz hPz hontime
      refine ⟨hz.fill (serverSlotKey_canonical ..) _, hPz.1, fun m hm hkept => ?_⟩
      subst hq
      have hstart := hontime.2 first hfound m hm hkept (slotB.onPort a)
      rw [hmoves] at hm
      simp only [List.mem_cons, List.not_mem_nil, or_false] at hm
      obtain rfl | rfl := hm
      · obtain ⟨slot, hslot, hs⟩ := hPz.2 hkept
        refine ⟨slot, ?_, hs⟩
        show Assoc.get (Assoc.set z.serverSlots _ _) _ = _
        rw [Assoc.get_set, if_neg fun he => hab (congrArg SlotKey.port he).symm]
        exact hslot
      · refine ⟨_, ?_, hstart rfl⟩
        show Assoc.get (Assoc.set z.serverSlots _ _) _ = _
        rw [Assoc.get_set, if_pos rfl]
    · intro m hm m' hm' he
      rw [hmoves] at hm hm'
      simp only [List.mem_cons, List.not_mem_nil, or_false] at hm hm'
      obtain rfl | rfl := hm
      · obtain rfl | rfl := hm'
        · rfl
        · exact absurd he.symm hab
      · obtain rfl | rfl := hm'
        · exact absurd he hab
        · rfl

/-! ### The requests follow -/

/-- What is asked of the requests before the records move. -/
def ToTakeOff (q : Request) (first : Store) (todo : List (Text × ℤ)) (x : Store) : Prop :=
  SameSlots q first x ∧ ∀ m ∈ q.moves first, x.keeps m.host m.oldPort → m.old ∈ todo

/-- The request of a move is on its new port. -/
def On (O : Outside) (m : Move) (x : Store) : Prop :=
  ∃ slot request, Assoc.get x.serverSlots (serverSlotKey m.host m.newPort) = some slot ∧
    O.startRequest m.host m.newPort slot = some request ∧
    Assoc.get x.kept (scoutKey m.host m.newPort) = some request

/-- What is asked of the requests after the records have moved. -/
structure ToPutOn (O : Outside) (q : Request) (first : Store) (kept : List Move)
    (todo : List (Text × ℤ)) (x : Store) : Prop where
  startable : ∀ m ∈ q.moves first, Startable O first m x
  of_kept : ∀ a ∈ todo, ∃ m ∈ kept, m.new = a
  on : ∀ m ∈ kept, m.new ∈ todo ∨ On O m x
  old : ∀ m ∈ q.moves first, x.keeps m.host m.oldPort →
    ∃ m' ∈ kept, scoutKey m'.host m'.newPort = scoutKey m.host m.oldPort

theorem ToTakeOff.stable (todo : List (Text × ℤ)) : Stable q (ToTakeOff q first todo) :=
  fun _ _ hx hy => ⟨SameSlots.stable q first _ _ hx.1 hy, fun m hm hkeeps =>
    hx.2 m hm ((hy.keeps (moves_ports hm).1).trans hkeeps)⟩

variable {kept : List Move}

theorem ToPutOn.stable (hkept : ∀ m ∈ kept, m ∈ q.moves first) (todo : List (Text × ℤ)) :
    Stable q (ToPutOn O q first kept todo) := fun x y hx hy =>
  { startable m hm := Startable.stable (moves_ports hm).2 x y (hx.startable m hm) hy
    of_kept := hx.of_kept
    on m hm := (hx.on m hm).imp id fun ⟨slot, request, hslot, hstart, hon⟩ => by
      have hport := (moves_ports (hkept m hm)).2
      refine ⟨slot, request, ?_, hstart, ?_⟩
      · rw [← hy.slots hport]
        exact hslot
      · rw [← hy.kept hport]
        exact hon
    old m hm hkeeps := hx.old m hm ((hy.keeps (moves_ports hm).1).trans hkeeps) }

theorem keeps_takenOff (x : Store) (host : Text) (port : ℤ) (h : Text) (p : ℤ) :
    (x.takenOff h p).keeps host port =
      if scoutKey host port = scoutKey h p then false else x.keeps host port := by
  show (Assoc.get (Assoc.del x.kept (scoutKey h p)) (scoutKey host port)).isSome = _
  rw [Assoc.get_del]
  split <;> rfl

/-- One request is taken off. -/
theorem ToTakeOff.takenOff {a : Text × ℤ} {todo : List (Text × ℤ)}
    (h : ToTakeOff q first (a :: todo) x) : ToTakeOff q first todo (x.takenOff a.1 a.2) := by
  refine ⟨h.1, fun m hm hkeeps => ?_⟩
  rw [keeps_takenOff] at hkeeps
  split at hkeeps
  · exact nomatch hkeeps
  · next hne =>
    cases List.mem_cons.mp (h.2 m hm hkeeps) with
    | inl he =>
      subst he
      exact absurd rfl hne
    | inr hm => exact hm

/-- One request is put on: it is of the record that is found. -/
theorem ToPutOn.putOn (hapart : Apart (q.moves first)) (hkept : ∀ m ∈ kept, m ∈ q.moves first)
    {a : Text × ℤ} {todo : List (Text × ℤ)} (h : ToPutOn O q first kept (a :: todo) x)
    {request : StartRequest}
    (hread : (Assoc.get x.serverSlots (serverSlotKey a.1 a.2)).bind (O.startRequest a.1 a.2) =
      some request) :
    ToPutOn O q first kept todo (x.putOn a.1 a.2 request) := by
  obtain ⟨m₀, hm₀, rfl⟩ := h.of_kept a List.mem_cons_self
  have hget : ∀ key, Assoc.get (x.putOn m₀.host m₀.newPort request).kept key =
      if key = scoutKey m₀.host m₀.newPort then some request else Assoc.get x.kept key := fun key =>
    Assoc.get_set ..
  refine ⟨h.startable, fun a ha => h.of_kept a (List.mem_cons_of_mem _ ha), fun m hm => ?_,
    fun m hm hkeeps => ?_⟩
  · by_cases hm₀' : m = m₀
    · subst hm₀'
      obtain ⟨slot, hslot, hstart⟩ := Option.bind_eq_some_iff.mp hread
      refine .inr ⟨slot, request, hslot, hstart, ?_⟩
      exact (hget _).trans (if_pos rfl)
    · have hport : m.newPort ≠ m₀.newPort := fun he =>
        hm₀' (hapart m (hkept m hm) m₀ (hkept m₀ hm₀) he)
      refine (h.on m hm).imp (fun hmem => ?_) fun ⟨slot, r, hslot, hstart, hon⟩ => ?_
      · refine (List.mem_cons.mp hmem).resolve_left fun he => hport ?_
        exact congrArg Prod.snd he
      · refine ⟨slot, r, hslot, hstart, ?_⟩
        exact (hget _).trans ((if_neg fun he => hport (congrArg SlotKey.port he)).trans hon)
  · unfold Store.keeps at hkeeps
    rw [show Assoc.get (x.putOn m₀.new.1 m₀.new.2 request).kept _ = _ from hget _] at hkeeps
    split at hkeeps
    · next he => exact ⟨m₀, hm₀, he.symm⟩
    · exact h.old m hm hkeeps

/-- What `CellAutostart.moved` does, once it knows which requests are kept. -/
theorem movedKept_does {change : (Except Raised Unit → Steps) → Steps}
    (hkept : ∀ m, m ∈ kept ↔ m ∈ q.moves first ∧ first.keeps m.host m.oldPort = true)
    (hchange : ∀ k, (∀ e, Does O q first (fun _ => True) (k (.error e))) →
      (Apart (q.moves first) →
        Does O q first (fun x => Off q first x ∧ ∀ m ∈ q.moves first, Startable O first m x)
          (k (.ok ()))) →
      Does O q first (fun x => SameSlots q first x ∧ Off q first x) (change k)) :
    Does O q first (Rely q first) (movedKept O kept change) := by
  have hmem : ∀ m ∈ kept, m ∈ q.moves first := fun m hm => ((hkept m).mp hm).1
  refine Does.weaken (Q := ToTakeOff q first (kept.map Move.old)) ?_ fun x hx => ?_
  · refine Does.eachSet (ToTakeOff q first) _ (fun a l k hk => ?_) fun off => ?_
    · exact Does.takeOff (ToTakeOff.stable _) (ToTakeOff.stable _) (fun x hx => hx.takenOff) (hk _)
    · refine Does.weaken (hchange _ (fun e => ?_) fun hapart => ?_) fun x hx => ?_
      · -- refused: each is put back, of its record if it is still there
        refine Does.weaken (Q := fun _ => ∀ a ∈ kept.map Move.old, a.2 ∈ q.ports)
          (Does.eachSet (fun todo _ => ∀ a ∈ todo, a.2 ∈ q.ports) _ (fun a l k hk => ?_)
            fun _ => Does.answer fun _ h => by cases h) fun x _ a ha => ?_
        · intro found y hfound hy
          refine Does.putOn (P := fun _ => ∀ b ∈ a :: l, b.2 ∈ q.ports)
            (Q := fun _ => ∀ b ∈ l, b.2 ∈ q.ports) (hy a List.mem_cons_self)
            (fun _ _ h _ => h) (fun _ _ h _ => h) ?_ ?_ hk found y hfound hy
          · exact fun x hx _ a ha => hx a (List.mem_cons_of_mem _ ha)
          · exact fun x _ hx _ a ha => hx a (List.mem_cons_of_mem _ ha)
        · obtain ⟨m, hm, rfl⟩ := List.mem_map.mp ha
          exact (moves_ports (hmem m hm)).1
      · refine Does.weaken (Q := ToPutOn O q first kept (kept.map Move.new))
          (Does.eachSet (ToPutOn O q first kept) _ (fun a l k hk => ?_) fun on => ?_) fun x hx => ?_
        · intro found y hfound hy
          have hport : a.2 ∈ q.ports := by
            obtain ⟨m, hm, rfl⟩ := hy.of_kept a List.mem_cons_self
            exact (moves_ports (hmem m hm)).2
          refine Does.putOn hport (ToPutOn.stable hmem _) (ToPutOn.stable hmem _) ?_ ?_ hk found y
            hfound hy
          · intro x hx hnone
            obtain ⟨m, hm, rfl⟩ := hx.of_kept a List.mem_cons_self
            obtain ⟨slot, hslot, hstart⟩ := hx.startable m (hmem m hm) ((hkept m).mp hm).2
            have hsome : (Assoc.get x.serverSlots (serverSlotKey m.new.1 m.new.2)).bind
                (O.startRequest m.new.1 m.new.2) = O.startRequest m.host m.newPort slot :=
              congrArg (Option.bind · _) hslot
            rw [← hsome, hnone] at hstart
            exact nomatch hstart
          · exact fun x request hx => hx.putOn hapart hmem
        · refine Does.done (ToPutOn.stable hmem _) fun found x hfound hx said _ f hf m hm => ?_
          obtain rfl := Option.some.inj (hfound.symm.trans hf)
          refine ⟨fun hkeeps => ?_, fun hno hkeeps => ?_⟩
          · exact (hx.on m ((hkept m).mpr ⟨hm, hkeeps⟩)).resolve_left List.not_mem_nil
          · obtain ⟨m', hm', he⟩ := hx.old m hm hkeeps
            exact hno m' (hmem m' hm') he ((hkept m').mp hm').2
        · refine ⟨hx.2, fun a ha => ?_, fun m hm => .inl (List.mem_map_of_mem hm), ?_⟩
          · obtain ⟨m, hm, rfl⟩ := List.mem_map.mp ha
            exact ⟨m, hm, rfl⟩
          · intro m hm hkeeps
            rw [hx.1 m hm] at hkeeps
            exact nomatch hkeeps
      · refine ⟨hx.1, fun m hm => ?_⟩
        exact Bool.eq_false_iff.mpr fun hkeeps => List.not_mem_nil (hx.2 m hm hkeeps)
  · refine ⟨fun p hp => (hx p hp).1, fun m hm hkeeps => ?_⟩
    refine List.mem_map_of_mem ((hkept m).mpr ⟨hm, ?_⟩)
    rw [hx.keeps (moves_ports hm).1]
    exact hkeeps

/-! ### Each request -/

theorem delete_sound (host : Text) (port : ℤ) (x : Store) :
    (clientServerSlotDelete host port).Sound Inv (Rely (.delete host port))
      (OnTime O (.delete host port)) (Followed O (.delete host port)) [] x := by
  unfold clientServerSlotDelete
  dsimp only
  split
  · exact fun _ _ _ said hr => by cases hr
  set q : Request := .delete host port with hq
  intro y hy _ hontime
  refine ⟨hy, ?_⟩
  have hask := hontime host.strip port rfl
  have hport : port ∈ q.ports := List.mem_cons_self
  let gone (x : Store) : Prop := x.keeps host.strip port = false
  have hgone : Stable q gone := Stable.keeps hport (· = false)
  have hremove : ∀ said, Does O q y gone
      (.step (·.vacate (serverSlotKey host.strip port)) fun x =>
        .done (.deleted (Assoc.get x.serverSlots (serverSlotKey host.strip port)).isSome
          said)) := by
    intro said
    refine Does.step (Q := fun _ _ => True) hgone (fun found x _ hx hgone _ => ?_)
      fun x => Does.answer fun _ h => by cases h
    exact ⟨hx.vacate (serverSlotKey_canonical ..) (kept_none hgone), trivial⟩
  dsimp only
  split
  · refine Does.takeOff (P := fun _ => True) Stable.true hgone (fun x _ => ?_) (hremove _) [y] y
      rfl trivial
    show (x.takenOff host.strip port).keeps host.strip port = false
    rw [keeps_takenOff, if_pos rfl]
  · next htold => exact hremove none [y] y rfl (Bool.eq_false_iff.mpr fun h => htold (hask h))

theorem adopt_does {host : Text} {onlyKnown : Bool} (requests : List (ℤ × StartRequest)) :
    Does O (.report host onlyKnown) first (fun _ => True) (adopt O host.strip requests) := by
  unfold adopt
  split
  · exact Does.answer fun _ h => by cases h
  next hhost =>
  have hone : ∀ entry k, (∀ made, Does O (.report host onlyKnown) first (fun _ => True) (k made)) →
      Does O (.report host onlyKnown) first (fun _ => True) (adoptOne O host.strip entry k) := by
    intro entry k hk
    unfold adoptOne
    dsimp only
    split
    · exact hk _
    next config _ =>
    split
    · exact hk _
    refine Does.read Stable.true fun x _ _ => ?_
    split
    · exact hk _
    refine Does.read Stable.true fun y _ _ => ?_
    split
    · exact hk _
    -- the record is made, and put again with what is written in it
    have hmake : ∀ {found : List Store} {x : Store} {slot : Slot}, Inv x →
        OnTime O (.report host onlyKnown) found x
          (x.withSlot (serverSlotKey host.strip (keptPort entry.1)) slot) →
        Inv (x.withSlot (serverSlotKey host.strip (keptPort entry.1)) slot) := by
      intro found x slot hx hontime
      refine hx.make (serverSlotKey_canonical ..)
        (by simpa [isControllerHost, serverSlotKey] using hhost)
        (fun hnone => hontime _ hnone ?_) slot
      simp [Store.withSlot, Assoc.get_set]
    refine Does.step (Q := fun _ _ => True) Stable.true (fun found z _ hz _ hontime => ?_)
      fun z => ?_
    · exact ⟨hmake hz hontime, trivial⟩
    · refine Does.step (Q := fun _ _ => True) Stable.true (fun found z _ hz _ hontime => ?_)
        fun _ => hk _
      exact ⟨hmake hz hontime, trivial⟩
  have hall : ∀ (es : List (ℤ × StartRequest)) k,
      (∀ made, Does O (.report host onlyKnown) first (fun _ => True) (k made)) →
      Does O (.report host onlyKnown) first (fun _ => True) (adoptEach O host.strip es k) := by
    intro es
    induction es with
    | nil => exact fun k hk => hk []
    | cons e es ih => exact fun k hk => hone e _ fun made => ih _ fun more => hk _
  exact hall _ _ fun made => Does.answer fun _ h => by cases h

theorem report_sound (host : Text) (onlyKnown : Bool) (x : Store) :
    (recordHostReport O host onlyKnown).Sound Inv (Rely (.report host onlyKnown))
      (OnTime O (.report host onlyKnown)) (Followed O (.report host onlyKnown)) [] x := by
  intro taken htaken _ _
  refine ⟨htaken, ?_⟩
  suffices hdoes : Does O (.report host onlyKnown) taken (fun _ => True) _ from
    hdoes [taken] taken rfl trivial
  refine Does.read Stable.true fun y _ _ => ?_
  split
  · exact Does.answer fun _ h => by cases h
  · refine Does.step (Q := fun _ _ => True) Stable.true (fun found z _ hz _ _ => ?_) fun _ =>
      adopt_does _
    exact ⟨⟨hz.canonical, hz.left_canonical, hz.empty, hz.none_kept⟩, trivial⟩

/-- One move is asked about, after the others. -/
theorem mem_kept {n : Move} {ms kept : List Move} {told : Bool}
    (htold : told = first.keeps n.host n.oldPort)
    (hkept : ∀ m, m ∈ kept ↔ m ∈ ms ∧ first.keeps m.host m.oldPort = true) (m : Move) :
    m ∈ (if told then n :: kept else kept) ↔
      m ∈ n :: ms ∧ first.keeps m.host m.oldPort = true := by
  rw [List.mem_cons]
  split
  · next h =>
    rw [List.mem_cons, hkept]
    refine ⟨fun hm => ⟨hm.imp id And.left, ?_⟩, fun ⟨hm, hkeeps⟩ => hm.imp id (⟨·, hkeeps⟩)⟩
    cases hm with
    | inl he => rw [he, ← htold, h]
    | inr hm => exact hm.2
  · next h =>
    rw [hkept]
    refine ⟨fun hm => ⟨.inr hm.1, hm.2⟩, fun ⟨hm, hkeeps⟩ => ⟨hm.resolve_left ?_, hkeeps⟩⟩
    rintro rfl
    exact h (htold.trans hkeeps)

theorem mem_kept_nil (m : Move) :
    m ∈ ([] : List Move) ↔ m ∈ ([] : List Move) ∧ first.keeps m.host m.oldPort = true := by simp

/-- What the host record says is what the scout kept at first. -/
theorem told_eq (hx : Rely q first x) {host : Text} {port : ℤ} (hport : port ∈ q.ports)
    (hask : x.told host port ↔ x.keeps host port) : x.told host port = first.keeps host port :=
  (Bool.eq_iff_iff.mpr hask).trans (hx.keeps hport).symm

theorem move_sound (host : Text) (oldPort newPort : ℤ) (x : Store) :
    ((Request.move host oldPort newPort).proc O).Sound Inv (Rely (.move host oldPort newPort))
      (OnTime O (.move host oldPort newPort)) (Followed O (.move host oldPort newPort)) [] x := by
  intro y hy _ hontime
  have htold := told_eq (q := .move host oldPort newPort) (Rely.refl _ y) List.mem_cons_self
    (hontime.1 host.strip oldPort rfl)
  refine ⟨hy, movedKept_does (fun m => ?_) (fun k herr hok => ?_) [y] y rfl
    (Rely.refl _ y)⟩
  · exact mem_kept (n := ⟨host.strip, oldPort, newPort⟩) htold mem_kept_nil m
  · refine (reassign_does rfl herr (hok fun m hm m' hm' _ => ?_)).weaken fun x hx => hx.2
    rw [List.mem_singleton.mp hm, List.mem_singleton.mp hm']

theorem swap_sound (host : Text) (a b : ℤ) (x : Store) :
    ((Request.swap host a b).proc O).Sound Inv (Rely (.swap host a b)) (OnTime O (.swap host a b))
      (Followed O (.swap host a b)) [] x := by
  set q : Request := .swap host a b with hq
  intro x₀ hx₀ _ _
  refine ⟨hx₀, ?_⟩
  have hports : a ∈ q.ports ∧ b ∈ q.ports :=
    ⟨List.mem_cons_self, List.mem_cons_of_mem _ List.mem_cons_self⟩
  have hrest : ∀ kept : List Move,
      (∀ m, m ∈ kept ↔ m ∈ swapMoves x₀ host a b ∧ x₀.keeps m.host m.oldPort = true) →
      Does O q x₀ (Rely q x₀) (movedKept O kept (swapServerSlotPorts host a b)) := fun kept hkept =>
    movedKept_does hkept fun k herr hok => swap_does rfl herr hok
  show (moved O (swapMoves x₀ host a b) _).Sound Inv (Rely q) (OnTime O q) (Followed O q) [x₀] x₀
  unfold moved
  cases hB : x₀.cellOn b with
  | none =>
    have hmoves : swapMoves x₀ host a b = [⟨host.strip, a, b⟩] := by rw [swapMoves, hB]; rfl
    rw [hmoves] at hrest ⊢
    intro x₁ hx₁ hrely hontime
    have htold := told_eq hrely hports.1 (hontime.1 host.strip a rfl)
    refine ⟨hx₁, hrest _ (fun m => ?_) _ _ rfl hrely⟩
    exact mem_kept (n := ⟨host.strip, a, b⟩) htold mem_kept_nil m
  | some e =>
    have hmoves : swapMoves x₀ host a b = [⟨host.strip, a, b⟩, ⟨e.1.hostId, b, a⟩] := by
      rw [swapMoves, hB]; rfl
    rw [hmoves] at hrest ⊢
    intro x₁ hx₁ hrely hontime
    refine ⟨hx₁, ?_⟩
    intro x₂ hx₂ hrely' hontime'
    have hask : Asks q [x₁, x₀] = some (e.1.hostId, b) := by
      show (x₀.cellOn b).map _ = _
      rw [hB]
      rfl
    have hrely₂ : Rely q x₀ x₂ := hrely.trans hrely'
    have htold := told_eq hrely hports.1 (hontime.1 host.strip a rfl)
    have htold' := told_eq hrely₂ hports.2 (hontime'.1 _ _ hask)
    refine ⟨hx₂, hrest _ (fun m => ?_) _ _ rfl hrely₂⟩
    exact mem_kept (n := ⟨host.strip, a, b⟩) htold
      (mem_kept (n := ⟨e.1.hostId, b, a⟩) htold' mem_kept_nil) m

/-! ### The runs -/

/-- The controller at first: the records are under their keys, and none was left yet. -/
def Fresh (x : Store) : Prop := (∀ e ∈ x.serverSlots, Canonical e.1) ∧ x.left = []

/-- The controller: deletions, moves and reports, each in a thread of its own. -/
abbrev controller (O : Outside) := program (Request.proc O) Fresh

/-- **A deleted cell does not come back**, and a request follows its cell, in a run whose steps
find what they rely on. -/
theorem not_made_again {s : Threads Store (Place Store Answer Request)}
    (h : (controller O).system.Reach
      (fun s e => Timely (OnTime O) s e ∧ Requests.Apart Rely s e) s) :
    (∀ key ∈ s.shared.left, Assoc.get s.shared.serverSlots key = none) ∧
      ∀ t q r found, s.pc t = .doing q (.done r) found → Followed O q r found s.shared := by
  have hsound : Inv s.shared ∧ ∀ t q r found, s.pc t = .doing q (.done r) found →
      Followed O q r found s.shared :=
    Requests.sound (fun x hx => ?_) Rely.refl (fun _ _ _ _ => Rely.trans) (fun q x _ => ?_) h
  · exact ⟨hsound.1.empty, hsound.2⟩
  · obtain ⟨hcanonical, hleft⟩ := hx
    have hno : ∀ {p : SlotKey → Prop}, ∀ key ∈ x.left, p key := fun key hkey =>
      absurd (hleft ▸ hkey) List.not_mem_nil
    exact ⟨hcanonical, hno, hno, hno⟩
  · cases q with
    | delete host port => exact delete_sound host port x
    | move host oldPort newPort => exact move_sound host oldPort newPort x
    | swap host a b => exact swap_sound host a b x
    | report host onlyKnown => exact report_sound host onlyKnown x

/-! ### One machine -/

/-- A board on which a start is refused to no record. -/
def plain : Outside where
  reserved _ := false
  startRequest _ _ slot := some ⟨slot.model.getD [], slot.cacheModels, slot.config⟩

/-- The settings of the cell. -/
def settings : Dict := [("PORT", .str "22003")]

/-- A machine with one cell, which starts with it. -/
def oneCell : Store where
  serverSlots := [(⟨"box", 22003⟩, { config := some settings, model := some "m.gguf" })]
  hosts := [("box", [22003])]
  kept := [(⟨"box", 22003⟩, ⟨"m.gguf", false, some settings⟩)]
  left := []

theorem oneCell_fresh : Fresh oneCell :=
  ⟨fun e he => by
    rw [List.mem_singleton.mp he]
    exact serverSlotKey_canonical "box" 22003, rfl⟩

def ledFromOne (script : List (ℕ × Act Request)) :
    Option (Threads Store (Place Store Answer Request)) :=
  Program.follow (Requests.next (Request.proc plain)) (before oneCell) script

theorem ledFromOne_reached {script : List (ℕ × Act Request)}
    {s : Threads Store (Place Store Answer Request)} (h : ledFromOne script = some s) :
    System.Reachable (controller plain).system s :=
  Program.reach_follow (fun _ _ _ _ _ h => h) script (reach_before oneCell_fresh) h
    fun _ _ _ => trivial

/-- The first steps of a request. -/
def turns (t : ℕ) (q : Request) (n : ℕ) : List (ℕ × Act Request) :=
  (t, .start q) :: List.replicate n (t, .step)

/-- A beat is taken before the cell is deleted, and read after. -/
def lateBeat : List (ℕ × Act Request) :=
  turns 0 (.report "box" false) 1 ++ turns 1 (.delete "box" 22003) 4 ++
    List.replicate 5 (0, .step)

/-- A beat is taken while a move has the request off, and read after the move: the host record then
knows nothing of the request, which a deletion leaves where it is, and the next beat brings the cell
back. -/
def blindDeletion : List (ℕ × Act Request) :=
  turns 0 (.move "box" 22003 22009) 2 ++ turns 1 (.report "box" false) 1 ++
    List.replicate 8 (0, .step) ++ List.replicate 2 (1, .step) ++
    turns 2 (.delete "box" 22009) 2 ++ turns 3 (.report "box" false) 6

/-- **A deleted cell comes back**: by a beat that is older than the deletion, and, where one was
older than a move, by one that is not. -/
theorem comes_back :
    (∃ s, System.Reachable (controller plain).system s ∧ ⟨"box", 22003⟩ ∈ s.shared.left ∧
      (Assoc.get s.shared.serverSlots ⟨"box", 22003⟩).isSome) ∧
    ∃ s, System.Reachable (controller plain).system s ∧ ⟨"box", 22009⟩ ∈ s.shared.left ∧
      (Assoc.get s.shared.serverSlots ⟨"box", 22009⟩).isSome := by
  constructor
  · obtain ⟨s, hs, hr⟩ := Program.follow_to (ledFromOne lateBeat)
      (R := fun s => ⟨"box", 22003⟩ ∈ s.shared.left ∧
        (Assoc.get s.shared.serverSlots ⟨"box", 22003⟩).isSome) (by decide)
    exact ⟨s, ledFromOne_reached hs, hr⟩
  · obtain ⟨s, hs, hr⟩ := Program.follow_to (ledFromOne blindDeletion)
      (R := fun s => ⟨"box", 22009⟩ ∈ s.shared.left ∧
        (Assoc.get s.shared.serverSlots ⟨"box", 22009⟩).isSome) (by decide)
    exact ⟨s, ledFromOne_reached hs, hr⟩

/-- A move that has the board for itself: the request is on the new port, and not on the old
one. -/
theorem not_made_again_moved : ∃ s : Threads Store (Place Store Answer Request),
    (∀ key ∈ s.shared.left, Assoc.get s.shared.serverSlots key = none) ∧
      s.shared.left = [⟨"box", 22003⟩] ∧ s.shared.keeps "box" 22003 = false ∧
      ∃ slot request, Assoc.get s.shared.serverSlots ⟨"box", 22009⟩ = some slot ∧
        plain.startRequest "box" 22009 slot = some request ∧
        Assoc.get s.shared.kept ⟨"box", 22009⟩ = some request := by
  let q : Request := .move "box" 22003 22009
  have hlater : ∀ (y : Store) found x x', OnTime plain q (y :: found) x x' := fun _ _ _ _ =>
    ⟨fun _ _ h => (nomatch h), fun _ _ _ _ _ _ _ => rfl⟩
  have hasked : OnTime plain q [] oneCell oneCell := by
    refine ⟨fun host port h => ?_, fun _ h => nomatch h⟩
    cases h
    decide
  have htimely : (q.proc plain).TimelyAlone (OnTime plain q) [] oneCell :=
    ⟨hasked, hlater .., hlater .., hlater .., hlater .., hlater .., hlater .., hlater ..,
      hlater .., hlater .., trivial⟩
  have hbefore : (controller plain).system.Reach
      (fun s e => Timely (OnTime plain) s e ∧ Requests.Apart Rely s e) (before oneCell) :=
    reach_before oneCell_fresh
  have hreach := reach_end (t := 0) hbefore rfl q
    (fun s' e hothers htimely => ⟨htimely, ?_⟩) htimely
  · obtain ⟨hleft, hfollowed⟩ := not_made_again hreach
    have hmoved := hfollowed 0 q ((q.proc plain).alone oneCell).1
      ((q.proc plain).trail [] oneCell) rfl
    have hend := hmoved [⟨22003, false, true⟩, ⟨22009, true, true⟩] (by decide) oneCell
      (by rfl) ⟨"box", 22003, 22009⟩ List.mem_cons_self
    exact ⟨_, hleft, by decide, by decide, hend.1 (by decide)⟩
  · cases e with
    | start | finish => trivial
    | step =>
      intro _ _ _ _ _ u hu _ _ _ hother
      rw [hothers u hu] at hother
      exact nomatch hother

end Cells
