import Caravan.Python.Except
import Caravan.Python.LoadsBack

/-!
# What `json.loads` gives

A value that is read out of a text that can be encoded has no pair of halves left apart, keys that
are distinct, and no more levels than were allowed (`value_reads`). More levels allowed change
nothing in what is read (`value_mono`).
-/

namespace Python.Loads

/-! ### Strings -/

theorem encodable_of_suffix {s t : Text} (ht : t.Encodable) (hs : s <:+ t) : s.Encodable :=
  fun c hc => ht c (hs.subset hc)

theorem skip_suffix (t : Text) : skip t <:+ t := List.dropWhile_suffix _

/-- The characters that stand for themselves are no halves. -/
def Flat (us : List Unit) : Prop := ∀ u ∈ us, u.1 = false → isSurrogate u.2 = false

theorem unescape_encodable {c d : CodePoint} (h : unescape c = some d)
    (hc : isSurrogate c = false) : isSurrogate d = false := by
  unfold unescape at h
  split_ifs at h
  · exact Option.some.inj h ▸ hc
  · exact Option.some.inj h ▸ rfl
  · exact Option.some.inj h ▸ rfl
  · exact Option.some.inj h ▸ rfl
  · exact Option.some.inj h ▸ rfl
  · exact Option.some.inj h ▸ rfl

/-- One character more. -/
theorem flat_cons {u : Unit} {us : List Unit} {t t' r : Text} (hs : t' <:+ t)
    (hu : t.Encodable → u.1 = false → isSurrogate u.2 = false)
    (h : r <:+ t' ∧ (t'.Encodable → Flat us)) : r <:+ t ∧ (t.Encodable → Flat (u :: us)) :=
  ⟨h.1.trans hs, fun ht => List.forall_mem_cons.mpr ⟨hu ht, h.2 (encodable_of_suffix ht hs)⟩⟩

theorem units_reads {t : Text} : ∀ {us : List Unit} {r : Text}, units t = some (us, r) →
    r <:+ t ∧ (t.Encodable → Flat us) := by
  fun_induction units t with
  | case1 | case3 | case5 | case6 | case8 | case9 => exact fun h => nomatch h
  | case2 t =>
    intro us r h
    cases h
    exact ⟨List.suffix_cons _ _, fun _ u hu => absurd hu List.not_mem_nil⟩
  | case4 h₀ h₁ h₂ h₃ t n hn hne ih =>
    intro us r h
    obtain ⟨⟨us, r⟩, hus, he⟩ := Option.map_eq_some_iff.mp h
    cases he
    have hsuffix : t <:+ backslash :: codePoint 'u' :: h₀ :: h₁ :: h₂ :: h₃ :: t :=
      ⟨[backslash, codePoint 'u', h₀, h₁, h₂, h₃], rfl⟩
    exact flat_cons hsuffix (fun _ hf => nomatch hf) (ih hus)
  | case7 e t hu d hd hne ih =>
    intro us r h
    obtain ⟨⟨us, r⟩, hus, he⟩ := Option.map_eq_some_iff.mp h
    cases he
    have hsuffix : t <:+ backslash :: e :: t := ⟨[backslash, e], rfl⟩
    refine flat_cons hsuffix (fun ht _ => unescape_encodable hd ?_) (ih hus)
    exact ht e (List.mem_cons_of_mem _ List.mem_cons_self)
  | case10 c t hq hb hc ih =>
    intro us r h
    obtain ⟨⟨us, r⟩, hus, he⟩ := Option.map_eq_some_iff.mp h
    cases he
    exact flat_cons (List.suffix_cons c t) (fun ht _ => ht c List.mem_cons_self) (ih hus)

theorem joined_val {h l : CodePoint} (hh : isHigh h = true) (hl : isLow l = true) :
    0x10000 ≤ (joined h l).val := by
  rw [isHigh_iff] at hh
  rw [isLow_iff] at hl
  rw [joined, Fin.val_ofNat, Nat.mod_eq_of_lt (by omega)]
  omega

/-- What a text that is put together begins with, if it is a lower half. -/
theorem join_head {us : List Unit} (hflat : Flat us) {c : CodePoint}
    (hc : (join us).head? = some c) (hlow : isLow c = true) : us.head? = some (true, c) := by
  have hno : ∀ d, isSurrogate d = false → ¬ isLow d = true := by
    intro d hd hl
    rw [isLow_iff] at hl
    unfold isSurrogate at hd
    simp only [Bool.and_eq_false_iff, decide_eq_false_iff_not] at hd
    omega
  cases us with
  | nil => cases hc
  | cons u us =>
    obtain ⟨_ | _, d⟩ := u
    · rw [join_plain] at hc
      obtain rfl := Option.some.inj hc
      exact absurd hlow (hno d (hflat _ List.mem_cons_self rfl))
    · cases us with
      | nil => exact congrArg (fun c => some (true, c)) (Option.some.inj hc)
      | cons v us =>
        obtain ⟨_ | _, e⟩ := v
        · have hjoin : join ((true, d) :: (false, e) :: us) = d :: join ((false, e) :: us) :=
            join_alone fun _ h => by cases h
          rw [hjoin] at hc
          exact congrArg (fun c => some (true, c)) (Option.some.inj hc)
        · rw [join] at hc
          split at hc
          · next hpair =>
            obtain rfl := Option.some.inj hc
            rw [Bool.and_eq_true] at hpair
            have hbig := joined_val hpair.1 hpair.2
            rw [isLow_iff] at hlow
            omega
          · exact congrArg (fun c => some (true, c)) (Option.some.inj hc)

theorem not_high_of_encodable {c : CodePoint} (h : isSurrogate c = false) : ¬ isHigh c = true := by
  rw [isHigh_iff]
  unfold isSurrogate at h
  simp only [Bool.and_eq_false_iff, decide_eq_false_iff_not] at h
  omega

/-- **No pair is left apart.** -/
theorem normal_join {us : List Unit} (hflat : Flat us) : Normal (join us) := by
  have hrest : ∀ {u : Unit} {us : List Unit}, Flat (u :: us) → Flat us := fun h v hv =>
    h v (List.mem_cons_of_mem _ hv)
  fun_induction join us with
  | case1 => exact List.isChain_nil
  | case2 => exact List.isChain_singleton _
  | case3 a b us hpair ih =>
    -- a character of a pair is no half
    refine List.isChain_cons.mpr ⟨?_, ih (hrest (hrest hflat))⟩
    rintro d - ⟨hhigh, -⟩
    rw [Bool.and_eq_true] at hpair
    have hbig := joined_val hpair.1 hpair.2
    rw [isHigh_iff] at hhigh
    omega
  | case4 a b us hpair ih =>
    refine List.isChain_cons.mpr ⟨?_, ih (hrest hflat)⟩
    rintro d hd ⟨hhigh, hlow⟩
    have hhead := join_head (hrest hflat) hd hlow
    obtain rfl := (Prod.mk.inj (Option.some.inj hhead)).2
    rw [Bool.and_eq_true] at hpair
    exact hpair ⟨hhigh, hlow⟩
  | case5 b c u us hother ih =>
    refine List.isChain_cons.mpr ⟨?_, ih (hrest hflat)⟩
    rintro d hd ⟨hhigh, hlow⟩
    have hhead := join_head (hrest hflat) hd hlow
    cases b with
    | false => exact not_high_of_encodable (hflat _ List.mem_cons_self rfl) hhigh
    | true =>
      obtain rfl : u = (true, d) := Option.some.inj hhead
      exact hother d rfl rfl

theorem string_reads {t s r : Text} (h : string t = .ok (s, r)) :
    r <:+ t ∧ (t.Encodable → Normal s) := by
  unfold string at h
  split at h
  · next us r' hus =>
    cases h
    obtain ⟨hsuffix, hflat⟩ := units_reads hus
    exact ⟨hsuffix, fun ht => normal_join (hflat ht)⟩
  · cases h

/-! ### Values -/

section

variable {toFloat : Text → Float} {limit : Option ℕ}

/-- What is read at the head of a text: what is left is its end, and the value is sound and of no
more than some levels. -/
structure Read (toFloat : Text → Float) (n : ℕ) (t : Text) (v : Value) (r : Text) : Prop where
  suffix : r <:+ t
  sound : t.Encodable → Sound toFloat v
  depth : v.depth ≤ n

/-- What a reader of a level gives. -/
def Reader (toFloat : Text → Float) (n : ℕ) (value : Text → Except Error (Value × Text)) : Prop :=
  ∀ {t v r}, value t = .ok (v, r) → Read toFloat n t v r

/-- `float(repr(x)) == x`, of every finite `x` that `float` gives. -/
def ReadsBack (toFloat : Text → Float) : Prop :=
  ∀ t, (toFloat t).isFinite = true → toFloat (dumpsFloat (toFloat t)) = toFloat t

theorem number_reads (hfloat : ReadsBack toFloat) {n : ℕ} {t r : Text} {v : Value}
    (h : number toFloat t = some (v, r)) : Read toFloat n t v r := by
  have hdrop : ∀ a b c d, (((t.drop a).drop b).drop c).drop d <:+ t := fun a b c d =>
    (((List.drop_suffix d _).trans (List.drop_suffix c _)).trans (List.drop_suffix b _)).trans
      (List.drop_suffix a _)
  unfold number at h
  dsimp only at h
  generalize (if t.head? = some (codePoint '-') then [codePoint '-'] else []) = minus at h
  split at h
  · cases h
  split at h
  · obtain ⟨rfl, rfl⟩ := Prod.mk.inj (Option.some.inj h)
    exact ⟨hdrop _ _ _ _, fun _ => trivial, Nat.zero_le _⟩
  · obtain ⟨rfl, rfl⟩ := Prod.mk.inj (Option.some.inj h)
    exact ⟨hdrop _ _ _ _, fun _ => hfloat _, Nat.zero_le _⟩

theorem word_reads {n : ℕ} {words : List (Text × Value)} {t r : Text} {v : Value}
    (hwords : ∀ p ∈ words, Sound toFloat p.2 ∧ p.2.depth = 0)
    (h : word words t = some (v, r)) : Read toFloat n t v r := by
  obtain ⟨p, hp, he⟩ := Option.map_eq_some_iff.mp h
  obtain ⟨rfl, rfl⟩ := Prod.mk.inj he
  obtain ⟨hsound, hdepth⟩ := hwords p (List.mem_of_find?_eq_some hp)
  exact ⟨List.drop_suffix _ _, fun _ => hsound, by omega⟩

theorem atom_reads (hfloat : ReadsBack toFloat) {n : ℕ} {t r : Text} {v : Value}
    (h : atom toFloat limit t = .ok (v, r)) : Read toFloat n t v r := by
  unfold atom at h
  split at h
  · next w hw =>
    cases h
    refine word_reads ?_ hw
    simp only [List.forall_mem_cons]
    exact ⟨⟨trivial, rfl⟩, ⟨trivial, rfl⟩, ⟨trivial, rfl⟩, fun _ h => nomatch h⟩
  split at h
  · next w hw =>
    split at h
    · cases h
    cases h
    exact number_reads hfloat hw
  split at h
  · next w hw =>
    cases h
    refine word_reads ?_ hw
    simp only [List.forall_mem_cons]
    exact ⟨⟨fun h => (nomatch h), rfl⟩, ⟨fun h => (nomatch h), rfl⟩, ⟨fun h => (nomatch h), rfl⟩,
      fun _ h => nomatch h⟩
  · cases h

theorem elements_reads {n : ℕ} {value : Text → Except Error (Value × Text)}
    (hvalue : Reader toFloat n value) : ∀ {fuel : ℕ} {t r : Text} {vs : List Value},
    elements value fuel t = .ok (vs, r) →
    r <:+ t ∧ (t.Encodable → SoundList toFloat vs) ∧ Value.depthList vs ≤ n := by
  intro fuel
  induction fuel with
  | zero => exact fun h => nomatch h
  | succ fuel ih =>
    intro t r vs h
    rw [elements] at h
    obtain ⟨⟨v, t₁⟩, hv, h⟩ := Except.bind_eq_ok h
    have hread := hvalue hv
    dsimp only at h
    have hskip := (skip_suffix t₁).trans hread.suffix
    split at h
    · cases h
    next c t₂ hc =>
    rw [hc] at hskip
    have hsuffix : t₂ <:+ t := (List.suffix_cons c t₂).trans hskip
    split at h
    · cases h
      exact ⟨hsuffix, fun ht => ⟨hread.sound ht, trivial⟩, max_le hread.depth (Nat.zero_le _)⟩
    split at h
    · obtain ⟨⟨vs, t₃⟩, hvs, h⟩ := Except.bind_eq_ok h
      cases h
      have hrest := (skip_suffix t₂).trans hsuffix
      obtain ⟨hend, hsound, hdepth⟩ := ih hvs
      exact ⟨hend.trans hrest,
        fun ht => ⟨hread.sound ht, hsound (encodable_of_suffix ht hrest)⟩,
        max_le hread.depth hdepth⟩
    · cases h

theorem members_reads {n : ℕ} {value : Text → Except Error (Value × Text)}
    (hvalue : Reader toFloat n value) : ∀ {fuel : ℕ} {t r : Text} {kvs : List (Text × Value)},
    members value fuel t = .ok (kvs, r) →
    r <:+ t ∧ (t.Encodable → SoundDict toFloat kvs) ∧ Value.depthDict kvs ≤ n := by
  intro fuel
  induction fuel with
  | zero => exact fun h => nomatch h
  | succ fuel ih =>
    intro t r kvs h
    cases t with
    | nil => cases h
    | cons q t =>
      rw [members] at h
      split at h
      · cases h
      obtain ⟨⟨k, t₁⟩, hk, h⟩ := Except.bind_eq_ok h
      obtain ⟨hend, hnormal⟩ := string_reads hk
      have hend' := hend.trans (List.suffix_cons q t)
      dsimp only at h
      split at h
      · cases h
      next colon t₂ hcolon =>
      have hskip := (skip_suffix t₁).trans hend'
      rw [hcolon] at hskip
      have hsuffix : t₂ <:+ q :: t := (List.suffix_cons colon t₂).trans hskip
      split at h
      · cases h
      obtain ⟨⟨v, t₃⟩, hv, h⟩ := Except.bind_eq_ok h
      have hread := hvalue hv
      have hbehind := (skip_suffix t₂).trans hsuffix
      have hread' := hread.suffix.trans hbehind
      have hkey : Text.Encodable (q :: t) → Normal k := fun ht =>
        hnormal (encodable_of_suffix ht (List.suffix_cons q t))
      have hvalue' : Text.Encodable (q :: t) → Sound toFloat v := fun ht =>
        hread.sound (encodable_of_suffix ht hbehind)
      dsimp only at h
      split at h
      · cases h
      next c t₄ hc =>
      have hskip' := (skip_suffix t₃).trans hread'
      rw [hc] at hskip'
      have hsuffix' : t₄ <:+ q :: t := (List.suffix_cons c t₄).trans hskip'
      split at h
      · cases h
        exact ⟨hsuffix', fun ht => ⟨hkey ht, hvalue' ht, trivial⟩,
          max_le hread.depth (Nat.zero_le _)⟩
      split at h
      · obtain ⟨⟨kvs, t₅⟩, hkvs, h⟩ := Except.bind_eq_ok h
        cases h
        have hrest := (skip_suffix t₄).trans hsuffix'
        obtain ⟨hlast, hsound, hdepth⟩ := ih hkvs
        exact ⟨hlast.trans hrest,
          fun ht => ⟨hkey ht, hvalue' ht, hsound (encodable_of_suffix ht hrest)⟩,
          max_le hread.depth hdepth⟩
      · cases h

theorem soundDict_iff {kvs : List (Text × Value)} :
    SoundDict toFloat kvs ↔ ∀ p ∈ kvs, Normal p.1 ∧ Sound toFloat p.2 := by
  induction kvs with
  | nil => exact iff_of_true trivial fun _ h => nomatch h
  | cons p kvs ih =>
    obtain ⟨k, v⟩ := p
    rw [SoundDict, ih, List.forall_mem_cons, and_assoc]

theorem depthDict_le_iff {kvs : List (Text × Value)} {n : ℕ} :
    Value.depthDict kvs ≤ n ↔ ∀ p ∈ kvs, p.2.depth ≤ n := by
  induction kvs with
  | nil => exact iff_of_true (Nat.zero_le _) fun _ h => nomatch h
  | cons p kvs ih =>
    obtain ⟨k, v⟩ := p
    rw [Value.depthDict, max_le_iff, ih, List.forall_mem_cons]

/-- What a dictionary has after a key is set. -/
theorem mem_set {d : Dict} {k : Text} {v : Value} {p : Text × Value} (h : p ∈ d.set k v) :
    p = (k, v) ∨ p ∈ d := by
  unfold Dict.set at h
  split at h
  · obtain ⟨q, hq, he⟩ := List.mem_map.mp h
    split at he
    · exact .inl he.symm
    · exact .inr (he ▸ hq)
  · rcases List.mem_append.mp h with h | h
    · exact .inr h
    · exact .inl (List.mem_singleton.mp h)

theorem mem_update {kvs : List (Text × Value)} : ∀ {d : Dict} {p : Text × Value},
    p ∈ d.update kvs → p ∈ kvs ∨ p ∈ d := by
  induction kvs with
  | nil => exact fun h => .inr h
  | cons q kvs ih =>
    intro d p h
    rcases ih h with h | h
    · exact .inl (List.mem_cons_of_mem q h)
    rcases mem_set h with rfl | h
    · exact .inl List.mem_cons_self
    · exact .inr h

theorem distinct_update {kvs : List (Text × Value)} : ∀ {d : Dict}, Assoc.Distinct d →
    Assoc.Distinct (d.update kvs) := by
  induction kvs with
  | nil => exact fun h => h
  | cons p kvs ih => exact fun h => ih (Dict.distinct_set h p.1 p.2)

/-- Pairs that are put into a dictionary, the last of a key standing. -/
theorem dict_sound {kvs : List (Text × Value)} (hsound : SoundDict toFloat kvs) :
    Sound toFloat (.dict (Dict.update [] kvs)) := by
  refine ⟨distinct_update List.nodup_nil, soundDict_iff.mpr fun p hp => ?_⟩
  exact soundDict_iff.mp hsound p ((mem_update hp).resolve_right List.not_mem_nil)

theorem dict_depth {kvs : List (Text × Value)} {n : ℕ} (hdepth : Value.depthDict kvs ≤ n) :
    (Value.dict (Dict.update [] kvs)).depth ≤ n + 1 := by
  have hlevels := depthDict_le_iff.mp hdepth
  rw [Value.depth]
  refine Nat.succ_le_succ (depthDict_le_iff.mpr fun p hp => hlevels p ?_)
  exact (mem_update hp).resolve_right List.not_mem_nil

theorem scan_reads (hfloat : ReadsBack toFloat) {n : ℕ}
    {below : Option (Text → Except Error (Value × Text))}
    (hbelow : ∀ value ∈ below, ∃ m, n = m + 1 ∧ Reader toFloat m value) :
    Reader toFloat n (scan toFloat limit below) := by
  intro t v r h
  cases t with
  | nil => cases h
  | cons c t =>
    have hcons := List.suffix_cons c t
    unfold scan at h
    dsimp only at h
    split at h
    · obtain ⟨⟨s, t'⟩, hs, h⟩ := Except.bind_eq_ok h
      cases h
      obtain ⟨hsuffix, hnormal⟩ := string_reads hs
      exact ⟨hsuffix.trans hcons, fun ht => hnormal (encodable_of_suffix ht hcons), Nat.zero_le _⟩
    have hskip := (skip_suffix t).trans hcons
    split at h
    · split at h
      · cases h
      next value =>
      obtain ⟨m, rfl, hvalue⟩ := hbelow value rfl
      split at h
      · cases h
      next d u hd =>
      rw [hd] at hskip
      split at h
      · cases h
        exact ⟨(List.suffix_cons d _).trans hskip, fun _ => ⟨List.nodup_nil, trivial⟩,
          Nat.succ_le_succ (Nat.zero_le m)⟩
      · obtain ⟨⟨kvs, t'⟩, hkvs, h⟩ := Except.bind_eq_ok h
        cases h
        obtain ⟨hsuffix, hsound, hdepth⟩ := members_reads hvalue hkvs
        exact ⟨hsuffix.trans hskip, fun ht => dict_sound (hsound (encodable_of_suffix ht hskip)),
          dict_depth hdepth⟩
    split at h
    · split at h
      · cases h
      next value =>
      obtain ⟨m, rfl, hvalue⟩ := hbelow value rfl
      split at h
      · cases h
      next d u hd =>
      rw [hd] at hskip
      split at h
      · cases h
        exact ⟨(List.suffix_cons d _).trans hskip, fun _ => trivial,
          Nat.succ_le_succ (Nat.zero_le m)⟩
      · obtain ⟨⟨vs, t'⟩, hvs, h⟩ := Except.bind_eq_ok h
        cases h
        obtain ⟨hsuffix, hsound, hdepth⟩ := elements_reads hvalue hvs
        exact ⟨hsuffix.trans hskip, fun ht => hsound (encodable_of_suffix ht hskip),
          Nat.succ_le_succ hdepth⟩
    · exact atom_reads hfloat h

/-- **What is read is sound**, at every level. -/
theorem value_reads (hfloat : ReadsBack toFloat) :
    ∀ n, Reader toFloat n (value toFloat limit n) := by
  intro n
  induction n with
  | zero => exact scan_reads hfloat fun _ h => absurd h (Option.not_mem_none _)
  | succ n ih =>
    refine scan_reads hfloat fun value h => ⟨n, rfl, ?_⟩
    obtain rfl := Option.some.inj h
    exact ih

theorem loads_reads (hfloat : ReadsBack toFloat) {n : ℕ} {t : Text} {v : Value}
    (h : loads toFloat limit n t = .ok v) (ht : t.Encodable) : Sound toFloat v ∧ v.depth ≤ n := by
  obtain ⟨⟨v', r⟩, hv, h⟩ := Except.bind_eq_ok h
  dsimp only at h
  split at h
  · cases h
    have hread := value_reads hfloat n hv
    exact ⟨hread.sound (encodable_of_suffix ht (skip_suffix t)), hread.depth⟩
  · cases h

/-! ### Without a limit -/

/-- What is read under a limit to the digits is read without. -/
theorem atom_free {t : Text} {p : Value × Text} (h : atom toFloat limit t = .ok p) :
    atom toFloat none t = .ok p := by
  have hshort : ∀ r, tooLong none t r = false := by
    rintro ⟨_ | _ | _ | _ | _ | _ | _, r⟩ <;> rfl
  unfold atom at h ⊢
  split at h
  · exact h
  split at h
  · next r hr =>
    split at h
    · cases h
    rw [hshort, if_neg Bool.false_ne_true]
    exact h
  · exact h

/-- A reader that gives what another gives. -/
def Extends (f g : Text → Except Error (Value × Text)) : Prop := ∀ {t p}, f t = .ok p → g t = .ok p

theorem elements_extends {f g : Text → Except Error (Value × Text)} (h : Extends f g) :
    ∀ {fuel t p}, elements f fuel t = .ok p → elements g fuel t = .ok p := by
  intro fuel
  induction fuel with
  | zero => exact fun h => nomatch h
  | succ fuel ih =>
    intro t p hp
    rw [elements] at hp ⊢
    obtain ⟨⟨v, t₁⟩, hv, hp⟩ := Except.bind_eq_ok hp
    rw [h hv]
    dsimp only [bind, Except.bind] at hp ⊢
    split at hp
    · cases hp
    split at hp
    · next hc => rw [if_pos hc]; exact hp
    next hbracket =>
    rw [if_neg hbracket]
    split at hp
    · next hc =>
      obtain ⟨q, hq, hp⟩ := Except.bind_eq_ok hp
      rw [if_pos hc, ih hq]
      exact hp
    · cases hp

theorem members_extends {f g : Text → Except Error (Value × Text)} (h : Extends f g) :
    ∀ {fuel t p}, members f fuel t = .ok p → members g fuel t = .ok p := by
  intro fuel
  induction fuel with
  | zero => exact fun h => nomatch h
  | succ fuel ih =>
    intro t p hp
    cases t with
    | nil => cases hp
    | cons q t =>
      rw [members] at hp ⊢
      split at hp
      · cases hp
      next hq =>
      rw [if_neg hq]
      obtain ⟨⟨k, t₁⟩, hk, hp⟩ := Except.bind_eq_ok hp
      rw [hk]
      dsimp only [bind, Except.bind] at hp ⊢
      split at hp
      · cases hp
      split at hp
      · cases hp
      next hcolon =>
      rw [if_neg hcolon]
      obtain ⟨⟨v, t₃⟩, hv, hp⟩ := Except.bind_eq_ok hp
      rw [h hv]
      dsimp only at hp ⊢
      split at hp
      · cases hp
      split at hp
      · next hc => rw [if_pos hc]; exact hp
      next hbrace =>
      rw [if_neg hbrace]
      split at hp
      · next hc =>
        obtain ⟨q, hq, hp⟩ := Except.bind_eq_ok hp
        rw [if_pos hc, ih hq]
        exact hp
      · cases hp

theorem scan_extends {below below' : Option (Text → Except Error (Value × Text))}
    (h : ∀ f ∈ below, ∃ g ∈ below', Extends f g) :
    Extends (scan toFloat limit below) (scan toFloat none below') := by
  intro t p hp
  cases t with
  | nil => cases hp
  | cons c t =>
    unfold scan at hp ⊢
    dsimp only at hp ⊢
    split at hp
    · next hq => rw [if_pos hq]; exact hp
    next hq =>
    rw [if_neg hq]
    split at hp
    · next hbrace =>
      rw [if_pos hbrace]
      split at hp
      · cases hp
      next f =>
      obtain ⟨g, hg, hext⟩ := h f rfl
      rw [hg]
      dsimp only
      split at hp
      · cases hp
      split at hp
      · next hd => rw [if_pos hd]; exact hp
      next hd =>
      rw [if_neg hd]
      obtain ⟨q, hq, hp⟩ := Except.bind_eq_ok hp
      rw [members_extends hext hq]
      exact hp
    next hbrace =>
    rw [if_neg hbrace]
    split at hp
    · next hbracket =>
      rw [if_pos hbracket]
      split at hp
      · cases hp
      next f =>
      obtain ⟨g, hg, hext⟩ := h f rfl
      rw [hg]
      dsimp only
      split at hp
      · cases hp
      split at hp
      · next hd => rw [if_pos hd]; exact hp
      next hd =>
      rw [if_neg hd]
      obtain ⟨q, hq, hp⟩ := Except.bind_eq_ok hp
      rw [elements_extends hext hq]
      exact hp
    · next hbracket => rw [if_neg hbracket]; exact atom_free hp

/-- **More levels and no limit** change nothing in what is read. -/
theorem value_mono {n m : ℕ} (h : n ≤ m) :
    Extends (value toFloat limit n) (value toFloat none m) := by
  induction m generalizing n with
  | zero =>
    obtain rfl : n = 0 := Nat.le_zero.mp h
    exact scan_extends fun _ h => absurd h (Option.not_mem_none _)
  | succ m ih =>
    cases n with
    | zero => exact scan_extends fun _ h => absurd h (Option.not_mem_none _)
    | succ n =>
      refine scan_extends fun f hf => ⟨_, rfl, ?_⟩
      obtain rfl := Option.some.inj hf
      exact ih (Nat.le_of_succ_le_succ h)

theorem loads_mono {n m : ℕ} (h : n ≤ m) {t : Text} {v : Value}
    (hv : loads toFloat limit n t = .ok v) : loads toFloat none m t = .ok v := by
  obtain ⟨p, hp, hv⟩ := Except.bind_eq_ok hv
  rw [loads, value_mono h hp]
  exact hv

/-- **A text is read as one value**, whatever the levels and the limits. -/
theorem loads_unique {limit' : Option ℕ} {n m : ℕ} {t : Text} {v w : Value}
    (hv : loads toFloat limit n t = .ok v) (hw : loads toFloat limit' m t = .ok w) : v = w := by
  have hv' := loads_mono (Nat.le_max_left n m) hv
  rw [loads_mono (Nat.le_max_right n m) hw] at hv'
  exact (Except.ok.inj hv').symm

end

end Python.Loads
