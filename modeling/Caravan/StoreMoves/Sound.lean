import Caravan.StoreMoves.Moves

/-!
# Sound programs

`Sound orig plain X m Q Y`: from the invariant and `X`, the program keeps the
invariant wherever it is cut, returns with `Q` besides and raises with `Y`
besides. It is the crash Hoare triple at the invariant of a move; its rules of
consequence may use the invariant (`Sound.conseq`), and a quiet program keeps
every stable fact (`Sound.of_moves`).
-/

namespace StoreMoves

open Crash Prog World Relation

variable {D : Type} {A B : Type}

section Sound

variable (orig : Origin) (plain : Prop)

def Sound (X : World D → Prop) (m : Mover D A) (Q : A → World D → Prop)
    (Y : World D → Prop) : Prop :=
  Holds (Inv orig plain fun _ => True) (Inv orig plain X) m (fun a => Inv orig plain (Q a))
    (fun _ => Inv orig plain Y)

variable {orig plain} {X X' Y Y' : World D → Prop} {m : Mover D A} {Q Q' : A → World D → Prop}

theorem Inv.imp {w : World D} (h : Inv orig plain X w)
    (hX : w.faults = [] → Core orig plain w → X w → Y w) : Inv orig plain Y w :=
  ⟨h.shape, h.faults, h.core, h.carried, fun hf => hX hf (h.core hf) (h.extra hf)⟩

theorem Inv.any {w : World D} (h : Inv orig plain X w) : Inv orig plain (fun _ => True) w :=
  h.imp fun _ _ _ => trivial

theorem Sound.conseq (h : Sound orig plain X m Q Y)
    (hX : ∀ w, Core orig plain w → X' w → X w) (hQ : ∀ a w, Core orig plain w → Q a w → Q' a w)
    (hY : ∀ w, Core orig plain w → Y w → Y' w) : Sound orig plain X' m Q' Y' :=
  Holds.conseq h (fun w hw => hw.imp fun _ => hX w) (fun a w hw => hw.imp fun _ => hQ a w)
    (fun _ w hw => hw.imp fun _ => hY w) fun _ => id

theorem Sound.pre (h : Sound orig plain X m Q Y)
    (hX : ∀ w, Core orig plain w → X' w → X w) : Sound orig plain X' m Q Y :=
  h.conseq hX (fun _ _ _ => id) fun _ _ => id

theorem Sound.post (h : Sound orig plain X m Q Y)
    (hQ : ∀ a w, Core orig plain w → Q a w → Q' a w) : Sound orig plain X m Q' Y :=
  h.conseq (fun _ _ => id) hQ fun _ _ => id

theorem Sound.ret {a : A} (h : ∀ w, Core orig plain w → X w → Q a w) :
    Sound orig plain X (pure a) Q Y :=
  holds_ret fun w hw => hw.imp fun _ => h w

theorem Sound.bind {k : A → Mover D B} {P : B → World D → Prop} (h₁ : Sound orig plain X m Q Y)
    (h₂ : ∀ a, Sound orig plain (Q a) (k a) P Y) : Sound orig plain X (m >>= k) P Y :=
  holds_bind h₁ h₂

/-- What is known of a result by itself may be used with the invariant. -/
theorem Sound.and (h : Sound orig plain X m Q Y)
    (hv : Holds (fun _ => True) (fun _ => True) m Q' (fun _ _ => True)) :
    Sound orig plain X m (fun a w => Q a w ∧ Q' a w) Y :=
  (Holds.and h hv).conseq (fun _ hw => ⟨hw, trivial⟩)
    (fun _ _ hw => hw.1.imp fun _ _ hq => ⟨hq, hw.2⟩) (fun _ _ hw => hw.1) fun _ hw => hw.1

theorem Sound.bind_of {k : A → Mover D B} {P : B → World D → Prop} {V : A → Prop}
    (h₁ : Sound orig plain X m Q Y)
    (hv : Holds (fun _ => True) (fun _ => True) m (fun a _ => V a) (fun _ _ => True))
    (h₂ : ∀ a, V a → Sound orig plain (Q a) (k a) P Y) : Sound orig plain X (m >>= k) P Y := by
  refine holds_bind (Q := fun a w => V a ∧ Inv orig plain (Q a) w) ?_ fun a =>
    Holds.pure_pre fun ha => h₂ a ha
  exact (Holds.and h₁ hv).conseq (fun _ hw => ⟨hw, trivial⟩) (fun _ _ hw => ⟨hw.2, hw.1⟩)
    (fun _ _ hw => hw.1) fun _ hw => hw.1

/-- The item read is the job's; where the job has no folders it is none. -/
theorem sound_jobItem {i : ℕ} {k : MoveItem D → Mover D B} {P : B → World D → Prop}
    (h : ∀ item, (plain → item.folder = "") →
      Sound orig plain (fun w => X w ∧ w.job.item i = item) (k item) P Y) :
    Sound orig plain X (Mover.jobItem i >>= k) P Y := by
  refine holds_bind (Q := fun item w => (plain → item.folder = "") ∧
    Inv orig plain (fun w => X w ∧ w.job.item i = item) w) (holds_read fun w hw => ?_)
    fun item => Holds.pure_pre (h item)
  refine ⟨fun hp => ?_, hw.imp fun _ _ hx => ⟨hx, rfl⟩⟩
  rcases Nat.lt_or_ge i w.job.items.length with hi | hi
  · exact (hw.shape hp).1.folder _ (MoveJob.item_mem hi)
  · rw [MoveJob.item_of_le hi]
    rfl

theorem Sound.read {f : World D → A} (h : ∀ w, Core orig plain w → X w → Q (f w) w) :
    Sound orig plain X (.read f) Q Y :=
  holds_read fun w hw => hw.imp fun _ => h w

theorem Sound.raise {x : Exn} (h : ∀ w, Core orig plain w → X w → Y w) :
    Sound orig plain X (.raise x : Mover D A) Q Y :=
  holds_raise fun w hw => hw.imp fun _ => h w

theorem Sound.ite {c : Prop} [Decidable c] {m' : Mover D A}
    (ht : c → Sound orig plain X m Q Y) (hf : ¬ c → Sound orig plain X m' Q Y) :
    Sound orig plain X (if c then m else m') Q Y :=
  holds_ite ht hf

theorem Sound.exceptOs {g : OsError → Mover D A} (hm : Sound orig plain X m Q Y)
    (hg : ∀ x, Sound orig plain Y (g x) Q Y') (hY : ∀ w, Core orig plain w → Y w → Y' w) :
    Sound orig plain X (Mover.exceptOs m g) Q Y' := by
  refine holds_handle hm fun x => ?_
  cases x with
  | os x => exact hg x
  | cancelled => exact holds_raise fun w hw => hw.imp fun _ => hY w

/-! ### Quiet programs and operations -/

theorem Sound.of_moves (h : Moves (Quiet plain) m) (hX : Stable orig plain (Quiet plain) X) :
    Sound orig plain X m (fun _ => X) X :=
  Holds.conseq (h.holds (P := Inv orig plain X) fun w w' hr hw => hw.quiet hr (hX w w' hr))
    (fun _ => id) (fun _ _ => id) (fun _ _ => id) fun _ hw => hw.any

theorem Sound.of_looks (h : Moves (Look plain) m) (hX : Stable orig plain (Look plain) X) :
    Sound orig plain X m (fun _ => X) X :=
  Holds.conseq (h.holds (P := Inv orig plain X) fun w w' hr hw => hw.quiet hr.quiet (hX w w' hr))
    (fun _ => id) (fun _ _ => id) (fun _ _ => id) fun _ hw => hw.any

theorem Inv.quiets {w w' : World D} (hX : Stable orig plain (Quiet plain) X)
    (h : Inv orig plain X w) (hr : ReflTransGen (Quiet plain) w w') : Inv orig plain X w' := by
  induction hr with
  | refl => exact h
  | tail _ hr ih => exact ih.quiet hr (hX _ _ hr)

/-- A step that is not quiet: all that is to be shown is the core. -/
theorem Inv.write {w w' : World D} (h : Inv orig plain X w) (hp : plain → Plain orig w → Plain orig w')
    (hf : w'.faults = w.faults) (ht : w'.touched = w.touched) (hr : w'.removals = w.removals)
    (hw : w.faults = [] → Core orig plain w → X w → Core orig plain w' ∧ Y w') :
    Inv orig plain Y w' where
  shape := fun hpl => hp hpl (h.shape hpl)
  faults := fun hpl hto => hf ▸ h.faults hpl (ht ▸ hto)
  core := fun hf' => (hw (hf ▸ hf') (h.core (hf ▸ hf')) (h.extra (hf ▸ hf'))).1
  carried := fun hf' => hr ▸ h.carried (hf ▸ hf')
  extra := fun hf' => (hw (hf ▸ hf') (h.core (hf ▸ hf')) (h.extra (hf ▸ hf'))).2

theorem Inv.looks {w w' : World D} (hX : Stable orig plain (Look plain) X)
    (h : Inv orig plain X w) (hr : ReflTransGen (Look plain) w w') : Inv orig plain X w' := by
  induction hr with
  | refl => exact h
  | tail _ hr ih => exact ih.quiet hr.quiet (hX _ _ hr)

/-- What happens around an operation is looked at, not done. -/
theorem Inv.around {w : World D} (hX : Stable orig plain (Look plain) X)
    (h : Inv orig plain X w) (e : Event) : Inv orig plain X (around e w) :=
  h.looks hX (around_look e w)

theorem Sound.act {f : Event → World D → Except Exn A × World D}
    (h : ∀ e w, Inv orig plain X w → match f e w with
      | (.ok a, w') => Inv orig plain (Q a) w'
      | (.error _, w') => Inv orig plain Y w') : Sound orig plain X (.act f) Q Y := by
  refine holds_act (fun _ hw => hw.any) fun e w hw => ?_
  have := h e w hw
  revert this
  rcases f e w with ⟨r, w'⟩
  cases r <;> exact id

/-- An operation: what its effect establishes where its result allows it. One that
raised may have had the effect. -/
theorem Sound.op {res : World D → Except OsError A} {eff : World D → World D}
    (hX : Stable orig plain (Look plain) X)
    (h : ∀ w a, Inv orig plain X w → res w = .ok a → Inv orig plain (Q a) (eff w))
    (hQ : ∀ a w, Core orig plain w → Q a w → Y w) (hY : ∀ w, Core orig plain w → X w → Y w) :
    Sound orig plain X (Io.op res eff) Q Y := by
  refine Sound.act fun e w hw => ?_
  have hw := hw.around hX e
  dsimp only
  cases e.fails with
  | some x =>
    cases hr : res (World.around e w) with
    | ok a =>
      dsimp only
      split
      · exact (h _ a hw hr).imp fun _ => hQ a _
      · exact hw.imp fun _ => hY _
    | error x' => exact hw.imp fun _ => hY _
  | none =>
    cases hr : res (World.around e w) with
    | ok a => exact h _ a hw hr
    | error x' => exact hw.imp fun _ => hY _

/-- A reading: its result is the state's. -/
theorem Sound.reading {res : World D → Except OsError A}
    (hX : Stable orig plain (Look plain) X) :
    Sound orig plain X (Io.op res id) (fun a w => X w ∧ res w = .ok a) X :=
  Sound.op hX (fun _ _ hw hr => hw.imp fun _ _ hx => ⟨hx, hr⟩) (fun _ _ _ h => h.1)
    fun _ _ => id

theorem Sound.loop {body : B → Mover D (B ⊕ A)} {J : B → World D → Prop}
    (hJ : ∀ b, Stable orig plain (Look plain) (J b))
    (hbody : ∀ b, Sound orig plain (J b) (body b)
      (fun r w => match r with | .inl b' => J b' w | .inr a => Q a w) Y) (b : B) :
    Sound orig plain (J b) (Prog.loop World.around body b) Q Y := by
  refine holds_loop (fun b => Inv orig plain (J b)) (fun _ _ hw => hw.any)
    (fun b e w hw => hw.around (hJ b) e) (fun b => ?_) b
  refine Holds.post (hbody b) fun r w => ?_
  cases r <;> exact id

end Sound

/-! ### Closing -/

open Mover in
/-- `_close` answers no. -/
theorem returns_close (i : ℕ) (state : ItemState) (note detail : String) :
    Holds (fun _ => True) (fun _ => True) (close i state note detail : Mover D Bool)
      (fun b _ => b = false) (fun _ _ => True) := by
  have tail : Holds (fun _ : World D => True) (fun _ => True) (do
      setItem i fun item => { item with state, note, detail }
      Io.save
      return false) (fun b _ => b = false) (fun _ _ => True) :=
    holds_bind holds_top fun _ => holds_bind holds_top fun _ => holds_ret fun _ _ => rfl
  unfold close
  split
  · exact holds_bind holds_top fun _ => holds_bind holds_top fun _ => tail
  · exact tail

/-! ### Stable facts about the job -/

section

variable {orig : Origin} {plain : Prop}

/-- A fact that reads no more of the job than `ItemStep` keeps of item `i`. -/
theorem Stable.item {P : MoveItem D → Prop} (i : ℕ) (h : ∀ a b, ItemStep a b → P a → P b) :
    Stable orig plain (Quiet plain) (fun w => P (w.job.item i)) :=
  fun _ _ hr _ _ hp => h _ _ (hr.items.1.item i) hp

theorem Stable.seen (x : (String × Stamp) × Bytes) :
    Stable orig plain (Quiet plain) (fun w : World D => x ∈ w.seen) :=
  fun _ _ hr hf hc hx => (hr.onward hf hc.solid).seen x hx

theorem Stable.hasFile {p : String} (hp : ¬ IsPart p) (c : Bytes) :
    Stable orig plain (Quiet plain) (fun w : World D => HasFile w.target.tree p c) :=
  fun _ _ hr hf hc hx => (hr.onward hf hc.solid).target p c hp hx

end

end StoreMoves
