import Caravan.Cells.Places
import Caravan.Cells.Slots
import Caravan.Framework.Turnover
import Caravan.Launch.ReadsBack
import Caravan.Python.Int

/-!
# The records of the cells stay whole

Through any sequence of the operations that move records, each record stands under its own place,
once, and the records are those that were there: with every field but the place, the stamp and the
port in the settings. What a start makes anew keeps its label and its `createdAt`, and is one record
a start (`stay_whole`). A swap finds the other cell by its number alone, so it is for records of
which no two have one number.
-/

namespace ServerCells

open Python Ports

/-! ### What a record keeps -/

/-- The settings without their port. -/
def withoutPort : Value → Value
  | .dict config => .dict (config.filter fun e => e.1 ≠ Text.of "PORT")
  | v => v

/-- What a record says beside its place, the stamp and the port in its settings. -/
def Slot.rest (slot : Slot) : Dict :=
  changed (Text.of "config") withoutPort (slot.fields.filter fun e => e.1 ≠ Text.of "updatedAt")

/-- What names a record: its label, as far as a label is kept, and when it was made. -/
structure Slot.Named (a b : Slot) : Prop where
  label : ∀ t, a.fields.lookup (Text.of "label") = some (.str t) →
    ∃ t', b.fields.lookup (Text.of "label") = some (.str t') ∧ t'.take 120 = t.take 120
  createdAt : ∀ v, a.fields.lookup (Text.of "createdAt") = some v →
    b.fields.lookup (Text.of "createdAt") = some v

theorem filter_set (d : Dict) (k : Text) (v : Value) :
    (d.set k v).filter (fun e => e.1 ≠ k) = d.filter fun e => e.1 ≠ k :=
  d.filter_set (P := fun k' => decide (k' ≠ k)) (by simp) v

theorem filter_stamped (now : ℤ) (fields : Dict) :
    (stamped now fields).filter (fun e => e.1 ≠ Text.of "updatedAt") =
      fields.filter fun e => e.1 ≠ Text.of "updatedAt" :=
  filter_set fields _ _

theorem filter_changed (key k : Text) (f : Value → Value) (fields : Dict) :
    (changed key f fields).filter (fun e => e.1 ≠ k) =
      changed key f (fields.filter fun e => e.1 ≠ k) := by
  unfold changed
  rw [List.filter_map]
  refine congrArg (List.map _) (List.filter_congr fun e _ => ?_)
  simp only [Function.comp_apply]
  split <;> rfl

theorem changed_changed (key : Text) (f g : Value → Value) (fields : Dict) :
    changed key f (changed key g fields) = changed key (f ∘ g) fields := by
  unfold changed
  rw [List.map_map]
  refine List.map_congr_left fun e _ => ?_
  by_cases hk : e.1 = key
  · simp [hk]
  · simp [hk]

theorem withoutPort_withPort (port : ℤ) : withoutPort ∘ withPort port = withoutPort := by
  funext v
  cases v with
  | dict config =>
    cases config with
    | nil => rfl
    | cons e config => exact congrArg Value.dict (filter_set (e :: config) _ _)
  | _ => rfl

/-- A record that gets another port keeps the rest. -/
theorem Slot.rest_onPort (slot : Slot) (now : ℤ) (key : SlotKey) :
    (slot.onPort now key).rest = slot.rest := by
  unfold Slot.rest Slot.onPort
  dsimp only
  rw [filter_changed, filter_stamped, changed_changed, withoutPort_withPort]

/-- A record that goes to another machine keeps the rest. -/
theorem Slot.rest_onHost (slot : Slot) (now : ℤ) (host : Text) :
    (slot.onHost now host).rest = slot.rest := by
  unfold Slot.rest Slot.onHost
  dsimp only
  rw [filter_stamped]

theorem lookup_changed {key k : Text} (hk : k ≠ key) (f : Value → Value) (fields : Dict) :
    (changed key f fields).lookup k = fields.lookup k := by
  induction fields with
  | nil => rfl
  | cons e fields ih =>
    unfold changed at ih ⊢
    obtain ⟨a, v⟩ := e
    rw [List.map_cons, List.lookup_cons]
    by_cases ha : a = key
    · have hne : k ≠ a := fun h => hk (h.trans ha)
      rw [if_pos ha, List.lookup_cons, beq_eq_false_iff_ne.mpr hne, ih]
    · rw [if_neg ha, List.lookup_cons, ih]

theorem Slot.lookup_rest (slot : Slot) {k : Text} (hc : k ≠ Text.of "config")
    (hu : k ≠ Text.of "updatedAt") : slot.rest.lookup k = slot.fields.lookup k := by
  unfold Slot.rest
  rw [lookup_changed hc]
  have h := lookup_filter_key slot.fields (fun k => decide (k ≠ Text.of "updatedAt")) k
  rw [h, if_pos (decide_eq_true hu)]

/-- The records compared: whole, with the rest as it was. -/
def likeness : Turnover.Likeness Slot where
  whole a b := b.rest = a.rest
  named := Slot.Named
  refl _ := rfl
  trans h h' := h'.trans h
  weaken {a b} h := by
    have hlookup (k : Text) (hc : k ≠ Text.of "config") (hu : k ≠ Text.of "updatedAt") :
        b.fields.lookup k = a.fields.lookup k := by
      rw [← b.lookup_rest hc hu, h, a.lookup_rest hc hu]
    refine ⟨fun t ht => ⟨t, ?_, rfl⟩, fun v hv => ?_⟩
    · rw [hlookup _ (by decide) (by decide), ht]
    · rw [hlookup _ (by decide) (by decide), hv]
  named_trans h h' := by
    refine ⟨fun t ht => ?_, fun v hv => h'.createdAt v (h.createdAt v hv)⟩
    obtain ⟨t', ht', heq⟩ := h.label t ht
    obtain ⟨t'', ht'', heq'⟩ := h'.label t' ht'
    exact ⟨t'', ht'', heq'.trans heq⟩

/-! ### What a start makes -/

section

variable (I : Interp) (M : Launch.Machine)

theorem lookup_withCommand (now : ℤ) (config fields : Dict) {k : Text}
    (hk : k ≠ Text.of "commandHistory") :
    (withCommand I M now config fields).lookup k = fields.lookup k := by
  unfold withCommand
  dsimp only
  split
  · rw [Dict.lookup_set, if_neg hk]
  · rfl

theorem label_upsertFields (now : ℤ) (config : Option Dict) (model : Option Text) (t : Text)
    (fields : Dict) :
    (upsertFields I M now config model (.str t) fields).lookup (Text.of "label") =
      some (.str (t.take 120)) := by
  unfold upsertFields
  have hset (d : Dict) :
      (d.set (Text.of "label") (.str ((str I (.str t)).take 120))).lookup (Text.of "label") =
        some (.str (t.take 120)) := by
    rw [Dict.lookup_set, if_pos rfl]
    rfl
  cases config with
  | none => exact hset _
  | some config =>
    show (Dict.set (withCommand I M now config _) _ _).lookup _ = _
    rw [Dict.lookup_set, if_neg (by decide), lookup_withCommand I M now config _ (by decide)]
    exact hset _

/-- **What a start makes of a record names it**: with its label, and its `createdAt`. -/
theorem restarted_named (now : ℤ) (b : StartedBody) (old : Slot) (slots : Slots) :
    old.Named (restarted I M now b (some old) slots) where
  label t ht := by
    refine ⟨t.take 120, ?_, List.take_take.trans (by rw [Nat.min_self])⟩
    show (Dict.set (Dict.set (upsertFields I M now b.config b.model _ _) _ _) _ _).lookup _ = _
    rw [Dict.lookup_set, if_neg (by decide), Dict.lookup_set, if_neg (by decide)]
    have hlabel : (fieldOf (some old) (Text.of "label")).getD .null = .str t := by
      show (old.fields.lookup (Text.of "label")).getD .null = .str t
      rw [ht]
      rfl
    rw [hlabel]
    exact label_upsertFields I M now b.config b.model t _
  createdAt v hv := by
    show (Dict.set (Dict.set _ _ ((old.fields.lookup (Text.of "createdAt")).getD _)) _ _).lookup _ =
      some v
    rw [Dict.lookup_set, if_neg (by decide), Dict.lookup_set, if_pos rfl, hv]
    rfl

end

/-! ### Each record under its place -/

/-- Each record stands under its own place, and no place stands twice. -/
structure Keyed (slots : Slots) : Prop where
  placed : ∀ e ∈ slots, e.1 = serverSlotKey e.2.hostId e.2.port ∧ e.2.id = e.1
  distinct : Assoc.Distinct slots

/-- The records, as a bag. -/
def bag (slots : Slots) : Multiset Slot := (slots.map Prod.snd : List Slot)

/-- No two records have one number. -/
def Apart (slots : Slots) : Prop := ((bag slots).map Slot.port).Nodup

section Records

variable {slots slots' : Slots} {key : SlotKey} {slot : Slot}

theorem mem_bag : slot ∈ bag slots ↔ ∃ key, (key, slot) ∈ slots := by
  unfold bag
  rw [Multiset.mem_coe, List.mem_map]
  constructor
  · rintro ⟨⟨key, slot⟩, he, rfl⟩
    exact ⟨key, he⟩
  · rintro ⟨key, he⟩
    exact ⟨_, he, rfl⟩

theorem Keyed.del (h : Keyed slots) (key : SlotKey) : Keyed (Assoc.del slots key) where
  placed e he := h.placed e (List.mem_filter.mp he).1
  distinct := h.distinct.del key

/-- A record set down under its place. -/
theorem Keyed.set (h : Keyed slots) (hkey : key = serverSlotKey slot.hostId slot.port)
    (hid : slot.id = key) : Keyed (Assoc.set slots key slot) where
  placed e he := by
    rcases Assoc.mem_set he with rfl | he
    · exact ⟨hkey, hid⟩
    · exact h.placed e he
  distinct := h.distinct.set key slot

theorem Keyed.of_get (h : Keyed slots) (hget : Assoc.get slots key = some slot) :
    key = serverSlotKey slot.hostId slot.port :=
  (h.placed _ (Assoc.mem_of_get hget)).1

theorem Keyed.get_port (h : Keyed slots) (hget : Assoc.get slots key = some slot) :
    slot.port = key.port :=
  (congrArg SlotKey.port (h.of_get hget)).symm

/-- Where no record has a number, no place with it is taken. -/
theorem Keyed.free (h : Keyed slots) (hport : ∀ slot ∈ bag slots, slot.port ≠ key.port) :
    Assoc.get slots key = none := by
  refine Option.eq_none_iff_forall_ne_some.mpr fun slot hget => ?_
  exact hport slot (mem_bag.mpr ⟨key, Assoc.mem_of_get hget⟩) (h.get_port hget)

/-- A record stands apart from the others. -/
theorem bag_of_get (h : Keyed slots) (hget : Assoc.get slots key = some slot) :
    bag slots = slot ::ₘ bag (Assoc.del slots key) :=
  Multiset.coe_eq_coe.mpr ((Assoc.perm_of_get h.distinct hget).map Prod.snd)

theorem bag_set (hget : Assoc.get slots key = none) (slot : Slot) :
    bag (Assoc.set slots key slot) = slot ::ₘ bag slots := by
  unfold bag
  rw [Assoc.set_of_get_none hget, List.map_append]
  exact Multiset.coe_eq_coe.mpr (List.perm_append_singleton slot _)

theorem Apart.not_mem {others : Multiset Slot} (h : Apart slots)
    (hbag : bag slots = slot ::ₘ others) : ∀ other ∈ others, other.port ≠ slot.port := by
  unfold Apart at h
  rw [hbag, Multiset.map_cons, Multiset.nodup_cons] at h
  exact fun other ho heq => h.1 (Multiset.mem_map.mpr ⟨other, ho, heq⟩)

end Records

/-! ### What an operation leaves -/

/-- What an operation leaves of keyed records, where it makes `n` of them anew. -/
structure Leaves (n : ℕ) (slots slots' : Slots) : Prop where
  keyed : Keyed slots'
  apart : Apart slots → Apart slots'
  turnover : ∀ m first, Turnover likeness m first (bag slots) →
    Turnover likeness (m + n) first (bag slots')

section Steps

variable {slots slots' slots'' : Slots} {key : SlotKey} {slot slot' : Slot} {n : ℕ}

theorem Leaves.refl (h : Keyed slots) (n : ℕ) : Leaves n slots slots where
  keyed := h
  apart := id
  turnover _ _ ht := ht.mono (Nat.le_add_right _ n)

theorem Leaves.trans (h : Leaves 0 slots slots') (h' : Leaves 0 slots' slots'') :
    Leaves 0 slots slots'' where
  keyed := h'.keyed
  apart := h'.apart ∘ h.apart
  turnover m first ht := h'.turnover m first (h.turnover m first ht)

/-- What holds where the checks refuse, and where they do not. -/
theorem attempt_cases {β : Type} {P : Slots → Prop} {checks : Except AppError β}
    {write : β → Outcome} (hs : P slots) (hw : ∀ b, checks = .ok b → P (write b).2) :
    P (attempt slots checks write).2 := by
  cases hc : checks with
  | error e => exact hs
  | ok b => exact hw b hc

/-- **A record goes to a free place**, with its rest. -/
theorem Leaves.moved (h : Keyed slots) {old : SlotKey} (hget : Assoc.get slots old = some slot)
    (hkey : key = serverSlotKey slot'.hostId slot'.port) (hid : slot'.id = key)
    (hfree : Assoc.get (Assoc.del slots old) key = none) (hrest : slot'.rest = slot.rest)
    (hport : slot'.port = slot.port ∨
      ∀ other ∈ bag (Assoc.del slots old), other.port ≠ slot'.port) :
    Leaves 0 slots (Assoc.set (Assoc.del slots old) key slot') := by
  have hbag := bag_of_get h hget
  have hbag' := bag_set hfree slot'
  refine ⟨(h.del old).set hkey hid, fun ha => ?_, fun m first ht => ?_⟩
  · have hothers : ∀ other ∈ bag (Assoc.del slots old), other.port ≠ slot'.port := by
      rcases hport with hport | hport
      · rw [hport]
        exact ha.not_mem hbag
      · exact hport
    unfold Apart at ha ⊢
    rw [hbag, Multiset.map_cons, Multiset.nodup_cons] at ha
    rw [hbag', Multiset.map_cons, Multiset.nodup_cons]
    refine ⟨fun hmem => ?_, ha.2⟩
    obtain ⟨other, ho, heq⟩ := Multiset.mem_map.mp hmem
    exact hothers other ho heq
  · rw [hbag] at ht
    rw [hbag']
    exact ht.replace hrest

theorem available_free {taken : List ℤ} {port : ℤ} {k : SlotKey}
    (h : assertServerCellPortAvailable taken slots port k = .ok ()) :
    ∀ other ∈ bag (Assoc.del slots k), other.port ≠ port := by
  obtain ⟨_, hrange, hused⟩ := Except.bind_eq_ok h
  have hr := refuseIf_ok hrange
  have hu := refuseIf_ok hused
  intro other ho heq
  obtain ⟨key, he⟩ := mem_bag.mp ho
  refine hu (List.mem_filter.mpr ⟨List.mem_append_right taken ?_, by simp; omega⟩)
  exact List.mem_map.mpr ⟨_, he, heq⟩

theorem slotAt_ok (h : slotAt slots key = .ok slot) : Assoc.get slots key = some slot := by
  unfold slotAt at h
  split at h
  · cases h
  · next hget =>
    obtain rfl := Except.ok.inj h
    exact hget

/-- `reassign_server_slot_port` moves one record, to a number that no other has. -/
theorem reassign_leaves (h : Keyed slots) (now : ℤ) (taken : List ℤ) (b : ReassignBody) :
    Leaves 0 slots (reassignServerSlotPort now taken b slots).2 := by
  refine attempt_cases (P := Leaves 0 slots) (Leaves.refl h 0) fun slot hchecks => ?_
  obtain ⟨_, -, hchecks⟩ := Except.bind_eq_ok hchecks
  obtain ⟨_, -, hchecks⟩ := Except.bind_eq_ok hchecks
  obtain ⟨found, hslot, hchecks⟩ := Except.bind_eq_ok hchecks
  obtain ⟨_, havail, hchecks⟩ := Except.bind_eq_ok hchecks
  obtain rfl := Except.ok.inj hchecks
  have hget := slotAt_ok hslot
  have hfree := available_free havail
  refine Leaves.moved h hget ?_ rfl ((h.del _).free hfree) (Slot.rest_onPort _ _ _) (.inr hfree)
  -- the machine is the one that the record says
  have hhost := congrArg SlotKey.hostId (h.of_get hget)
  exact congrArg (SlotKey.mk · b.newPort) hhost

/-! ### A machine's records -/

/-- The loop of `move_host_cells`, on records of one machine whose numbers the other has free. -/
theorem rehost_leaves (now : ℤ) (src dst : Text) (moving : List Slot) (h : Keyed slots)
    (hfrom : ∀ slot ∈ moving, slot.hostId = src ∧ slot ∈ bag slots)
    (hports : (moving.map Slot.port).Nodup)
    (hfree : ∀ slot ∈ moving, Assoc.get slots (serverSlotKey dst slot.port) = none) :
    Leaves 0 slots (rehost now src dst moving slots).2 := by
  induction moving generalizing slots with
  | nil => exact Leaves.refl h 0
  | cons slot moving ih =>
    have hfound (other : Slot) (ho : other ∈ slot :: moving) :
        Assoc.get slots (serverSlotKey src other.port) = some other := by
      obtain ⟨hsrc, hmem⟩ := hfrom other ho
      obtain ⟨key, he⟩ := mem_bag.mp hmem
      have hkey := (h.placed _ he).1
      rw [hsrc] at hkey
      rw [← hkey]
      exact h.distinct.mem_iff_get.mp he
    have hget := hfound slot List.mem_cons_self
    have hp : slot.port ∉ moving.map Slot.port := (List.nodup_cons.mp hports).1
    have hne (other : Slot) (ho : other ∈ moving) : other.port ≠ slot.port :=
      fun heq => hp (List.mem_map.mpr ⟨other, ho, heq⟩)
    have hnew : Assoc.get (Assoc.del slots (serverSlotKey src slot.port))
        (serverSlotKey dst slot.port) = none := by
      rw [Assoc.get_del]
      split
      · rfl
      · exact hfree slot List.mem_cons_self
    have hkey : serverSlotKey dst slot.port =
        serverSlotKey (slot.onHost now dst).hostId (slot.onHost now dst).port := rfl
    have hrest := slot.rest_onHost now dst
    have hstep := Leaves.moved h hget hkey rfl hnew hrest (.inl rfl)
    rw [rehost, hget]
    -- the others stand where they stood: their numbers are others
    have hothers (host : Text) (other : Slot) (ho : other ∈ moving) :
        Assoc.get (Assoc.set (Assoc.del slots (serverSlotKey src slot.port))
          (serverSlotKey dst slot.port) (slot.onHost now dst)) (serverSlotKey host other.port) =
        Assoc.get slots (serverSlotKey host other.port) := by
      have hkey (host' : Text) : serverSlotKey host other.port ≠ serverSlotKey host' slot.port :=
        fun heq => hne other ho (congrArg SlotKey.port heq)
      rw [Assoc.get_set, if_neg (hkey dst), Assoc.get_del, if_neg (hkey src)]
    refine hstep.trans (ih hstep.keyed (fun other ho => ?_) (List.nodup_cons.mp hports).2
      fun other ho => ?_)
    · have hsrc := (hfrom other (List.mem_cons_of_mem _ ho)).1
      refine ⟨hsrc, mem_bag.mpr ⟨serverSlotKey src other.port, ?_⟩⟩
      refine Assoc.mem_of_get ((hothers src other ho).trans ?_)
      exact hfound other (List.mem_cons_of_mem _ ho)
    · rw [hothers dst other ho]
      exact hfree other (List.mem_cons_of_mem _ ho)

theorem mem_movingFrom {src : Text} (hslot : slot ∈ movingFrom slots src) :
    slot.hostId = src ∧ slot ∈ bag slots := by
  unfold movingFrom at hslot
  rw [List.mem_mergeSort, List.mem_filter, decide_eq_true_iff] at hslot
  exact ⟨hslot.2, hslot.1⟩

/-- One machine has a number once. -/
theorem movingFrom_ports (h : Keyed slots) (src : Text) :
    ((movingFrom slots src).map Slot.port).Nodup := by
  set mine := (slots.map Prod.snd).filter fun slot => slot.hostId = src with hmine
  have hperm : ((movingFrom slots src).map Slot.port).Perm (mine.map Slot.port) :=
    (List.mergeSort_perm mine _).map _
  refine hperm.nodup_iff.mpr ?_
  have hkeys : (slots.map Prod.snd).map (fun slot => serverSlotKey slot.hostId slot.port) =
      slots.map Prod.fst := by
    rw [List.map_map]
    exact List.map_congr_left fun e he => ((h.placed e he).1).symm
  have hnodup : (mine.map fun slot => serverSlotKey slot.hostId slot.port).Nodup := by
    have hsub := (List.filter_sublist (p := fun slot : Slot => decide (slot.hostId = src))
      (l := slots.map Prod.snd)).map fun slot => serverSlotKey slot.hostId slot.port
    rw [hkeys] at hsub
    exact hsub.nodup h.distinct
  have hsame : (mine.map Slot.port).map (serverSlotKey src) =
      mine.map fun slot => serverSlotKey slot.hostId slot.port := by
    rw [List.map_map]
    refine List.map_congr_left fun slot hslot => ?_
    rw [hmine, List.mem_filter, decide_eq_true_iff] at hslot
    rw [Function.comp_apply, hslot.2]
  exact List.Nodup.of_map (serverSlotKey src) (hsame ▸ hnodup)

theorem moveHostCells_leaves (h : Keyed slots) (now : ℤ) (b : RehostBody) :
    Leaves 0 slots (moveHostCells now b slots).2 := by
  refine attempt_cases (P := Leaves 0 slots) (Leaves.refl h 0) fun _ hchecks => ?_
  obtain ⟨_, -, hchecks⟩ := Except.bind_eq_ok hchecks
  obtain ⟨_, -, hchecks⟩ := Except.bind_eq_ok hchecks
  obtain ⟨_, -, hchecks⟩ := Except.bind_eq_ok hchecks
  obtain ⟨_, -, hchecks⟩ := Except.bind_eq_ok hchecks
  obtain ⟨_, -, htaken⟩ := Except.bind_eq_ok hchecks
  have hnone := not_not.mp (refuseIf_ok htaken)
  refine rehost_leaves now _ _ _ h (fun slot hslot => mem_movingFrom hslot)
    (movingFrom_ports h _) fun slot hslot => ?_
  -- no number of theirs is taken on the other machine
  refine Option.not_isSome_iff_eq_none.mp fun hsome => ?_
  refine List.eq_nil_iff_forall_not_mem.mp hnone slot.port (List.mem_filter.mpr ⟨?_, hsome⟩)
  exact List.mem_map.mpr ⟨slot, hslot, rfl⟩

/-! ### Two records that trade ports -/

theorem cellOn_ok {port : ℤ} {e : SlotKey × Slot} (h : cellOn slots port = .ok e) :
    e ∈ slots ∧ e.2.port = port := by
  unfold cellOn at h
  split at h
  · cases h
  · next hfind =>
    obtain rfl := Except.ok.inj h
    exact ⟨List.mem_of_find?_eq_some hfind, of_decide_eq_true (List.find?_some hfind :)⟩

/-- `swap_server_slot_ports` trades two records' ports, and no other record has them. -/
theorem swap_leaves (h : Keyed slots) (ha : Apart slots) (now : ℤ) (b : SwapBody) :
    Leaves 0 slots (swapServerSlotPorts now b slots).2 := by
  refine attempt_cases (P := Leaves 0 slots) (Leaves.refl h 0) fun found hchecks => ?_
  obtain ⟨_, -, hchecks⟩ := Except.bind_eq_ok hchecks
  obtain ⟨_, hsame, hchecks⟩ := Except.bind_eq_ok hchecks
  obtain ⟨slotA, hslotA, hchecks⟩ := Except.bind_eq_ok hchecks
  obtain ⟨⟨keyB, slotB⟩, hother, hchecks⟩ := Except.bind_eq_ok hchecks
  obtain rfl := Except.ok.inj hchecks
  have hports : b.port ≠ b.targetPort := refuseIf_ok hsame
  have hgetA := slotAt_ok hslotA
  obtain ⟨hmemB, hportB⟩ := cellOn_ok hother
  have hgetB := h.distinct.mem_iff_get.mp hmemB
  set keyA := serverSlotKey b.hostId.strip b.port with hkeyA
  have hportA : slotA.port = b.port := h.get_port hgetA
  have hkeyB : keyB = serverSlotKey slotB.hostId b.targetPort := hportB ▸ h.of_get hgetB
  have hne : keyB ≠ keyA := fun heq => hports (congrArg SlotKey.port (hkeyB.symm.trans heq)).symm
  dsimp only
  rw [if_neg hne]
  -- the two records, and the others
  have hdetached := bag_of_get h hgetA
  have hget : Assoc.get (Assoc.del slots keyA) keyB = some slotB := by
    rw [Assoc.get_del, if_neg hne, hgetB]
  have hrest := bag_of_get (h.del keyA) hget
  set rest := Assoc.del (Assoc.del slots keyA) keyB
  have hkeyed : Keyed rest := (h.del keyA).del keyB
  have hbag : bag slots = slotA ::ₘ slotB ::ₘ bag rest := hdetached.trans (hrest ▸ rfl)
  have hfreeA : ∀ other ∈ bag rest, other.port ≠ b.port := fun other ho =>
    hportA ▸ ha.not_mem hbag other (Multiset.mem_cons_of_mem ho)
  have hfreeB : ∀ other ∈ bag rest, other.port ≠ b.targetPort := fun other ho => by
    have hswap : bag slots = slotB ::ₘ slotA ::ₘ bag rest := hbag.trans (Multiset.cons_swap _ _ _)
    exact hportB ▸ ha.not_mem hswap other (Multiset.mem_cons_of_mem ho)
  -- each goes to the other's number, on its own machine
  set newA := serverSlotKey b.hostId.strip b.targetPort with hnewA
  set newB := serverSlotKey (if slotB.hostId = [] then keyB.hostId else slotB.hostId) b.port
    with hnewB
  have hkeyA' : newA = serverSlotKey (slotA.onPort now newA).hostId (slotA.onPort now newA).port :=
    congrArg (SlotKey.mk · b.targetPort) (congrArg SlotKey.hostId (h.of_get hgetA))
  have hkeyB' : newB =
      serverSlotKey (slotB.onPort now newB).hostId (slotB.onPort now newB).port := by
    show newB = serverSlotKey slotB.hostId b.port
    rw [hnewB]
    split
    · next hempty => rw [hkeyB, hempty]; rfl
    · rfl
  have hgetA' : Assoc.get rest newA = none := hkeyed.free hfreeB
  have hbagA := bag_set hgetA' (slotA.onPort now newA)
  have hgetB' : Assoc.get (Assoc.set rest newA (slotA.onPort now newA)) newB = none := by
    have hapart : newB ≠ newA := fun heq => hports (congrArg SlotKey.port heq)
    rw [Assoc.get_set, if_neg hapart]
    exact hkeyed.free hfreeA
  have hbagB := bag_set hgetB' (slotB.onPort now newB)
  rw [hbagA] at hbagB
  refine ⟨(hkeyed.set hkeyA' rfl).set hkeyB' rfl, fun _ => ?_, fun m first ht => ?_⟩
  · -- the numbers are the same
    have hsame : (bag slots).map Slot.port =
        b.port ::ₘ b.targetPort ::ₘ (bag rest).map Slot.port := by
      rw [hbag, Multiset.map_cons, Multiset.map_cons, hportA, hportB]
    unfold Apart at ha ⊢
    rw [hbagB, Multiset.map_cons, Multiset.map_cons]
    exact hsame ▸ ha
  · rw [hbag] at ht
    have hA := ht.replace (slotA.rest_onPort now newA)
    rw [Multiset.cons_swap] at hA
    rw [hbagB]
    exact hA.replace (slotB.rest_onPort now newB)

/-! ### A start on another port -/

variable (I : Interp) (M : Launch.Machine)

/-- `move_server_cell` makes a record on the new port, and takes the one on the old port away. -/
theorem moveServerCell_leaves (h : Keyed slots) (now : ℤ) (taken : List ℤ) (b : StartedBody)
    (hhost : isControllerHost b.hostId = false) :
    Leaves 1 slots (moveServerCell I M now taken b slots).2 := by
  refine attempt_cases (P := Leaves 1 slots) (Leaves.refl h 1) fun _ havail => ?_
  have hother := available_free havail
  have hallowed : refuseControllerHost b.hostId = .ok () := by
    unfold refuseControllerHost refuseIf
    rw [if_neg (by rw [hhost]; exact Bool.false_ne_true)]
  unfold attempt
  rw [hallowed]
  dsimp only
  set old := Assoc.get slots (serverSlotKey b.hostId b.oldPort) with hold
  set popped := Assoc.del slots (serverSlotKey b.hostId b.oldPort) with hpopped
  have hkeyed : Keyed popped := h.del _
  have hnone : Assoc.get popped (serverSlotKey b.hostId b.newPort) = none := hkeyed.free hother
  set made := restarted I M now b old popped with hmade
  have hbag := bag_set hnone made
  have hkey : serverSlotKey b.hostId b.newPort = serverSlotKey made.hostId made.port :=
    (Cells.serverSlotKey_canonical b.hostId b.newPort).serverSlotKey.symm
  refine ⟨hkeyed.set hkey rfl, fun ha => ?_, fun m first ht => ?_⟩
  · unfold Apart at ha ⊢
    rw [hbag, Multiset.map_cons, Multiset.nodup_cons]
    refine ⟨fun hmem => ?_, ?_⟩
    · obtain ⟨other, ho, heq⟩ := Multiset.mem_map.mp hmem
      exact hother other ho heq
    · refine Multiset.nodup_of_le (Multiset.map_le_map ?_) ha
      exact Multiset.coe_le.mpr (List.filter_sublist.map _).subperm
  · rw [hbag]
    cases hget : old with
    | none =>
      have hsame : popped = slots := Assoc.del_of_get_none hget
      rw [hsame]
      exact ht.add made
    | some slot =>
      rw [bag_of_get h hget] at ht
      refine ht.renew ?_
      rw [hmade, hget]
      exact restarted_named I M now b slot popped

/-- What is left of a start that is refused is keyed, too. -/
theorem moveServerCell_keyed (h : Keyed slots) (now : ℤ) (taken : List ℤ) (b : StartedBody) :
    Keyed (moveServerCell I M now taken b slots).2 ∧
      (Apart slots → Apart (moveServerCell I M now taken b slots).2) := by
  by_cases hhost : isControllerHost b.hostId = false
  · have hleaves := moveServerCell_leaves I M h now taken b hhost
    exact ⟨hleaves.keyed, hleaves.apart⟩
  · refine attempt_cases (P := fun s => Keyed s ∧ (Apart slots → Apart s)) ⟨h, id⟩ fun _ _ => ?_
    have hrefused : refuseControllerHost b.hostId = .error ⟨CONTROLLER_RUNS_NO_CELLS, 400⟩ := by
      unfold refuseControllerHost refuseIf
      rw [if_pos (Bool.eq_true_of_not_eq_false hhost)]
    unfold attempt
    rw [hrefused]
    refine ⟨h.del _, fun ha => ?_⟩
    exact Multiset.nodup_of_le (Multiset.map_le_map (Multiset.coe_le.mpr
      (List.filter_sublist.map _).subperm)) ha

end Steps

/-! ### Any sequence of operations -/

section Runs

variable (I : Interp) (M : Launch.Machine)

namespace Op

/-- A start of a cell on another port than its record's. -/
def isStart : Op → Bool
  | .moveServerCell .. => true
  | _ => false

def isSwap : Op → Bool
  | .swap .. => true
  | _ => false

/-- A start that names the controller's own machine, where no cell runs. -/
def ofController : Op → Bool
  | .moveServerCell _ _ b => isControllerHost b.hostId
  | _ => false

end Op

variable {slots : Slots}

/-- One operation. -/
theorem run_leaves (h : Keyed slots) (op : Op) (hswap : op.isSwap = true → Apart slots)
    (hop : op.ofController = false) :
    Leaves (if op.isStart then 1 else 0) slots (op.run I M slots).2 := by
  cases op with
  | reassign now taken b => exact reassign_leaves h now taken b
  | swap now b => exact swap_leaves h (hswap rfl) now b
  | moveHostCells now b => exact moveHostCells_leaves h now b
  | moveServerCell now taken b => exact moveServerCell_leaves I M h now taken b hop

theorem run_keyed (h : Keyed slots) (op : Op) (hswap : op.isSwap = true → Apart slots) :
    Keyed (op.run I M slots).2 ∧ (Apart slots → Apart (op.run I M slots).2) := by
  by_cases hop : op.ofController = false
  · exact ⟨(run_leaves I M h op hswap hop).keyed, (run_leaves I M h op hswap hop).apart⟩
  · cases op with
    | moveServerCell now taken b => exact moveServerCell_keyed I M h now taken b
    | _ => exact absurd rfl hop

/-- A sequence, from the account of what was there first. -/
theorem runs_leave (ops : List Op) (h : Keyed slots)
    (hswap : (∃ op ∈ ops, op.isSwap = true) → Apart slots) :
    Keyed (run I M ops slots) ∧ (Apart slots → Apart (run I M ops slots)) ∧
      ((∀ op ∈ ops, op.ofController = false) → ∀ m first,
        Turnover likeness m first (bag slots) →
          Turnover likeness (m + ops.countP Op.isStart) first (bag (run I M ops slots))) := by
  induction ops generalizing slots with
  | nil => exact ⟨h, id, fun _ m first ht => ht⟩
  | cons op ops ih =>
    have hswap₁ (hop : op.isSwap = true) : Apart slots := hswap ⟨op, List.mem_cons_self, hop⟩
    obtain ⟨hkeyed, hapart⟩ := run_keyed I M h op hswap₁
    obtain ⟨hk, ha, ht⟩ := ih hkeyed fun ⟨op', hop', his⟩ =>
      hapart (hswap ⟨op', List.mem_cons_of_mem _ hop', his⟩)
    refine ⟨hk, ha ∘ hapart, fun hops m first hm => ?_⟩
    have hstep := run_leaves I M h op hswap₁ (hops op List.mem_cons_self)
    have hrun := ht (fun op' hop' => hops op' (List.mem_cons_of_mem _ hop')) _ first
      (hstep.turnover m first hm)
    rw [List.countP_cons]
    exact hrun.mono (by omega)

/-- **The records stay keyed and whole** through any sequence of the operations, whatever they
answer. Each stands under its own `<host>:<port>`, and no key, no place and, where none has been
before, no number stands twice. The records are those that were there, with all but the place, the
stamp and the port in the settings; a start changes one record more than that, and leaves it its
label and its `createdAt`, or makes one where there was none. -/
theorem stay_whole (ops : List Op) (h : Keyed slots)
    (hswap : (∃ op ∈ ops, op.isSwap = true) → Apart slots) :
    Keyed (run I M ops slots) ∧
      ((run I M ops slots).map fun e => (e.2.hostId, e.2.port)).Nodup ∧
      (Apart slots → Apart (run I M ops slots)) ∧
      ((∀ op ∈ ops, op.ofController = false) →
        Turnover likeness (ops.countP Op.isStart) (bag slots) (bag (run I M ops slots))) ∧
      ((∀ op ∈ ops, op.isStart = false) →
        (bag (run I M ops slots)).map Slot.rest = (bag slots).map Slot.rest) := by
  obtain ⟨hk, ha, ht⟩ := runs_leave I M ops h hswap
  have hturn (hops : ∀ op ∈ ops, op.ofController = false) :
      Turnover likeness (ops.countP Op.isStart) (bag slots) (bag (run I M ops slots)) := by
    have hrun := ht hops 0 _ (Turnover.refl likeness (bag slots))
    rwa [Nat.zero_add] at hrun
  refine ⟨hk, ?_, ha, hturn, fun hops => ?_⟩
  · -- the place is what the key is made of
    have hkeys : ((run I M ops slots).map fun e => (e.2.hostId, e.2.port)).map
        (fun p => serverSlotKey p.1 p.2) = (run I M ops slots).map Prod.fst := by
      rw [List.map_map]
      exact List.map_congr_left fun e he => ((hk.placed e he).1).symm
    exact List.Nodup.of_map (fun p : Text × ℤ => serverSlotKey p.1 p.2) (hkeys ▸ hk.distinct)
  · have hnone : ops.countP Op.isStart = 0 :=
      List.countP_eq_zero.mpr fun op hop => by rw [hops op hop]; exact Bool.false_ne_true
    have hcontroller (op : Op) (hop : op ∈ ops) : op.ofController = false := by
      cases op with
      | moveServerCell now taken b => exact nomatch hops _ hop
      | _ => rfl
    have hrun := hturn hcontroller
    rw [hnone] at hrun
    exact hrun.map_eq Slot.rest fun _ _ hwhole => hwhole

end Runs

/-! ### Runs -/

/-- A record of a machine, with its settings. -/
def cell (host : Text) (port : ℤ) : SlotKey × Slot :=
  (serverSlotKey host port,
    { id := serverSlotKey host port
      hostId := host
      port := port
      fields := [(Text.of "createdAt", .int 1), (Text.of "updatedAt", .int 2),
        (Text.of "label", "Coder"), (Text.of "model", "coder"),
        (Text.of "config", .dict [(Text.of "PORT", .str (intRepr port))])] })

def twoCells : Slots := [cell (Text.of "box") 8001, cell (Text.of "box") 8002]

/-- One number on two machines. -/
def oneNumber : Slots :=
  [cell (Text.of "box") 8001, cell (Text.of "den") 8001, cell (Text.of "den") 8002]

def reassignBox : ReassignBody := ⟨Text.of "box", 8001, 8003⟩

def swapBox : SwapBody := ⟨Text.of "box", 8001, 8002⟩

/-- A start of the first cell on another port, with another model. -/
def startBox : StartedBody := ⟨Text.of "box", 8001, 8004, none, some (Text.of "writer")⟩

theorem keyed_of_cells (places : List (Text × ℤ))
    (h : (places.map fun p => serverSlotKey p.1 p.2).Nodup) :
    Keyed (places.map fun p => cell p.1 p.2) where
  placed e he := by
    obtain ⟨p, -, rfl⟩ := List.mem_map.mp he
    exact ⟨rfl, rfl⟩
  distinct := by
    unfold Assoc.Distinct
    rw [List.map_map]
    exact h

theorem twoCells_keyed : Keyed twoCells :=
  keyed_of_cells [(Text.of "box", 8001), (Text.of "box", 8002)] (by decide)

theorem oneNumber_keyed : Keyed oneNumber :=
  keyed_of_cells [(Text.of "box", 8001), (Text.of "den", 8001), (Text.of "den", 8002)] (by decide)

theorem twoCells_apart : Apart twoCells := by
  unfold Apart
  decide

/-- What a record says of its stamp. -/
def stampOf (fields : Dict) : ℤ :=
  match fields.get (Text.of "updatedAt") with
  | .int now => now
  | _ => 0

def modelOf (fields : Dict) : Text :=
  match fields.get (Text.of "model") with
  | .str t => t
  | _ => []

/-- Two cells trade ports, the first is moved, started, and both go to another machine. -/
theorem stay_whole_two :
    let ops := [Op.swap 9 swapBox, .reassign 9 [] ⟨Text.of "box", 8002, 8003⟩,
      .moveServerCell 9 [] startBox, .moveHostCells 9 ⟨Text.of "box", Text.of "den"⟩]
    Keyed (run Interp.ascii Launch.Machine.ascii ops twoCells) ∧
      Turnover likeness 1 (bag twoCells)
        (bag (run Interp.ascii Launch.Machine.ascii ops twoCells)) := by
  intro ops
  have h := stay_whole Interp.ascii Launch.Machine.ascii ops twoCells_keyed fun _ => twoCells_apart
  exact ⟨h.1, h.2.2.2.1 (by decide)⟩

/-- A reassignment changes the stamp and the port in the settings, a start the model, and it makes
a record where there was none; and a swap of records of which two have one number loses one. -/
theorem other_fields_change :
    (Keyed twoCells ∧ (bag (reassignServerSlotPort 9 [] reassignBox twoCells).2).map Slot.fields ≠
      (bag twoCells).map Slot.fields) ∧
    (bag (moveServerCell Interp.ascii Launch.Machine.ascii 9 [] startBox twoCells).2).map
      Slot.rest ≠ (bag twoCells).map Slot.rest ∧
    (moveServerCell Interp.ascii Launch.Machine.ascii 9 [] startBox []).2.length = 1 ∧
    Keyed oneNumber ∧ (swapServerSlotPorts 9 swapBox oneNumber).2.length < oneNumber.length := by
  refine ⟨⟨twoCells_keyed, fun h => ?_⟩, fun h => ?_, by decide, oneNumber_keyed, by decide⟩
  · have hstamps := congrArg (Multiset.map stampOf) h
    revert hstamps
    decide
  · have hmodels := congrArg (Multiset.map modelOf) h
    revert hmodels
    decide

end ServerCells
