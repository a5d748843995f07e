import Caravan.Python.Json

/-!
# Values that fit into a document

`Fits n v`: the value is clean, and has at most `n` containers one in another. A
document is built of fields that fit one level less each, and `json.dumps` writes one
that fits its interpreter (`dumps_fits`).
-/

namespace Python

/-- A value that can stand where `n` levels are left. -/
structure Fits (n : ℕ) (v : Value) : Prop where
  clean : v.clean
  depth : v.depth ≤ n

instance (n : ℕ) (v : Value) : Decidable (Fits n v) :=
  decidable_of_iff (v.clean ∧ v.depth ≤ n) ⟨fun h => ⟨h.1, h.2⟩, fun h => ⟨h.1, h.2⟩⟩

/-- A dictionary whose keys can be written and whose values fit. -/
def DictFits (n : ℕ) (d : Dict) : Prop := ∀ p ∈ d, Text.Encodable p.1 ∧ Fits n p.2

instance (n : ℕ) (d : Dict) : Decidable (DictFits n d) :=
  inferInstanceAs (Decidable (∀ p ∈ d, Text.Encodable p.1 ∧ Fits n p.2))

variable {n m : ℕ} {d : Dict} {k : Text} {v : Value}

theorem Fits.mono (h : Fits n v) (hnm : n ≤ m) : Fits m v := ⟨h.clean, h.depth.trans hnm⟩

/-! ### Scalars and containers -/

@[simp] theorem fits_null : Fits n .null := ⟨rfl, Nat.zero_le n⟩

@[simp] theorem fits_bool (b : Bool) : Fits n (.bool b) := ⟨rfl, Nat.zero_le n⟩

@[simp] theorem fits_int (i : ℤ) : Fits n (.int i) := ⟨rfl, Nat.zero_le n⟩

@[simp] theorem fits_str {t : Text} : Fits n (.str t) ↔ t.Encodable := by
  constructor
  · intro h
    have := h.clean
    rwa [Value.clean, Value.all, decide_eq_true_iff] at this
  · intro h
    refine ⟨?_, Nat.zero_le n⟩
    rwa [Value.clean, Value.all, decide_eq_true_iff]

attribute [simp] Text.of_encodable

@[simp] theorem fits_list {vs : List Value} :
    Fits (n + 1) (.list vs) ↔ ∀ v ∈ vs, Fits n v := by
  have hall : ∀ vs : List Value, (Value.allList (fun t => decide t.Encodable) Float.isFinite vs ∧
      Value.depthList vs ≤ n) ↔ ∀ v ∈ vs, Fits n v := by
    intro vs
    induction vs with
    | nil => simp [Value.allList, Value.depthList]
    | cons v vs ih =>
      rw [List.forall_mem_cons, ← ih, Value.allList, Value.depthList, Bool.and_eq_true, max_le_iff]
      exact ⟨fun h => ⟨⟨h.1.1, h.2.1⟩, h.1.2, h.2.2⟩,
        fun h => ⟨⟨h.1.clean, h.2.1⟩, h.1.depth, h.2.2⟩⟩
  rw [← hall]
  exact ⟨fun h => ⟨h.clean, Nat.le_of_succ_le_succ h.depth⟩,
    fun h => ⟨h.1, Nat.succ_le_succ h.2⟩⟩

@[simp] theorem fits_dict {d : List (Text × Value)} :
    Fits (n + 1) (.dict d) ↔ DictFits n d := by
  have hall : ∀ d : List (Text × Value), (Value.allDict (fun t => decide t.Encodable)
      Float.isFinite d ∧ Value.depthDict d ≤ n) ↔ DictFits n d := by
    intro d
    induction d with
    | nil => simp [Value.allDict, Value.depthDict, DictFits]
    | cons p d ih =>
      obtain ⟨k, v⟩ := p
      unfold DictFits at ih ⊢
      rw [List.forall_mem_cons, ← ih, Value.allDict, Value.depthDict, Bool.and_eq_true,
        Bool.and_eq_true, max_le_iff, decide_eq_true_iff]
      exact ⟨fun h => ⟨⟨h.1.1.1, h.1.1.2, h.2.1⟩, h.1.2, h.2.2⟩,
        fun h => ⟨⟨⟨h.1.1, h.1.2.clean⟩, h.2.1⟩, h.1.2.depth, h.2.2⟩⟩
  rw [← hall]
  exact ⟨fun h => ⟨h.clean, Nat.le_of_succ_le_succ h.depth⟩,
    fun h => ⟨h.1, Nat.succ_le_succ h.2⟩⟩

/-! ### Dictionaries -/

@[simp] theorem dictFits_nil : DictFits n [] := fun _ h => absurd h List.not_mem_nil

@[simp] theorem dictFits_cons :
    DictFits n ((k, v) :: d) ↔ (k.Encodable ∧ Fits n v) ∧ DictFits n d :=
  List.forall_mem_cons

@[simp] theorem dictFits_append {d' : Dict} :
    DictFits n (d ++ d') ↔ DictFits n d ∧ DictFits n d' :=
  List.forall_mem_append

theorem DictFits.mono (h : DictFits n d) (hnm : n ≤ m) : DictFits m d :=
  fun p hp => ⟨(h p hp).1, (h p hp).2.mono hnm⟩

theorem DictFits.filter (h : DictFits n d) (f : Text × Value → Bool) :
    DictFits n (d.filter f) := fun p hp => h p (List.mem_of_mem_filter hp)

theorem DictFits.get (h : DictFits n d) (k : Text) : Fits n (d.get k) := by
  unfold Dict.get
  induction d with
  | nil => exact fits_null
  | cons p d ih =>
    obtain ⟨k', v⟩ := p
    rw [dictFits_cons] at h
    rw [List.lookup_cons]
    split
    · exact h.1.2
    · exact ih h.2

theorem DictFits.set (h : DictFits n d) (hk : k.Encodable) (hv : Fits n v) :
    DictFits n (d.set k v) := by
  unfold Dict.set
  split
  · intro p hp
    obtain ⟨q, hq, rfl⟩ := List.mem_map.mp hp
    split
    · exact ⟨hk, hv⟩
    · exact h q hq
  · exact dictFits_append.mpr ⟨h, dictFits_cons.mpr ⟨⟨hk, hv⟩, dictFits_nil⟩⟩

theorem DictFits.setIf (h : DictFits n d) (c : Bool) (hk : k.Encodable) (hv : Fits n v) :
    DictFits n (d.setIf c k v) := by
  unfold Dict.setIf
  split
  · exact h.set hk hv
  · exact h

theorem DictFits.update {patch : Dict} (h : DictFits n d) (hp : DictFits n patch) :
    DictFits n (d.update patch) := by
  unfold Dict.update
  induction patch generalizing d with
  | nil => exact h
  | cons p patch ih =>
    obtain ⟨k, v⟩ := p
    rw [dictFits_cons] at hp
    exact ih (h.set hp.1.1 hp.1.2) hp.2

theorem Fits.or {w : Value} (hv : Fits n v) (hw : Fits n w) : Fits n (v.or w) := by
  unfold Value.or
  split
  · exact hv
  · exact hw

/-- **A value that fits is written.** -/
theorem dumps_fits {I : Interp} (h : Fits I.dumpsNesting v) :
    ∃ t, dumps I v = .ok t ∧ IsJson t ∧ (encodeUtf8 t).isSome :=
  dumps_clean h.depth h.clean

end Python
