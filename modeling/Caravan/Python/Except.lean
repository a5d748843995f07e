import Mathlib.Data.List.Forall2

/-!
# Taking a program that may raise apart

A program that answered went through each of its parts: what `bind` and `mapM` answered,
and what they were made of.
-/

namespace List.Forall₂

variable {α β : Type} {r : α → β → Prop} {l : List α} {l' : List β}

/-- Each item of the one list stands against an item of the other. -/
theorem of_mem_left (h : List.Forall₂ r l l') {a : α} (ha : a ∈ l) : ∃ b ∈ l', r a b := by
  induction h with
  | nil => exact absurd ha List.not_mem_nil
  | cons hr _ ih =>
    cases List.mem_cons.mp ha with
    | inl ha => exact ⟨_, List.mem_cons_self, ha ▸ hr⟩
    | inr ha =>
      obtain ⟨b, hmem, hr⟩ := ih ha
      exact ⟨b, List.mem_cons_of_mem _ hmem, hr⟩

theorem of_mem_right (h : List.Forall₂ r l l') {b : β} (hb : b ∈ l') : ∃ a ∈ l, r a b :=
  h.flip.of_mem_left hb

end List.Forall₂

namespace Except

variable {ε α β γ : Type}

theorem bind_eq_ok {x : Except ε α} {f : α → Except ε β} {b : β} (h : x >>= f = .ok b) :
    ∃ a, x = .ok a ∧ f a = .ok b := by
  cases x with
  | error e => cases h
  | ok a => exact ⟨a, rfl, h⟩

theorem bind_ok_iff {x : Except ε α} {f : α → Except ε β} {b : β} :
    x >>= f = .ok b ↔ ∃ a, x = .ok a ∧ f a = .ok b :=
  ⟨bind_eq_ok, by rintro ⟨a, rfl, h⟩; exact h⟩

theorem map_eq_ok {x : Except ε α} {f : α → β} {b : β} (h : x.map f = .ok b) :
    ∃ a, x = .ok a ∧ f a = b := by
  cases x with
  | error e => cases h
  | ok a => exact ⟨a, rfl, Except.ok.inj h⟩

theorem map_answers {x : Except ε α} (f : α → β) :
    (∃ b, x.map f = .ok b) ↔ ∃ a, x = .ok a := by
  constructor
  · rintro ⟨b, hb⟩
    obtain ⟨a, ha, -⟩ := map_eq_ok hb
    exact ⟨a, ha⟩
  · rintro ⟨a, rfl⟩
    exact ⟨f a, rfl⟩

theorem map_bind (x : Except ε α) (f : α → Except ε β) (g : β → γ) :
    (x >>= f).map g = x >>= fun a => (f a).map g := by
  cases x <;> rfl

/-- What holds of the answer of a program, if it answers. -/
def Yields (x : Except ε α) (P : α → Prop) : Prop := ∀ a, x = .ok a → P a

theorem Yields.ok {a : α} {P : α → Prop} (h : P a) : Yields (.ok a : Except ε α) P :=
  fun _ he => Except.ok.inj he ▸ h

theorem Yields.error {e : ε} {P : α → Prop} : Yields (.error e) P := fun _ he => nomatch he

theorem ok_bind (a : α) (f : α → Except ε β) : (Except.ok a >>= f) = f a := rfl

/-- What a program leads to, whatever its first part answers. -/
theorem Yields.bind {x : Except ε α} {f : α → Except ε β} {P : β → Prop}
    (h : ∀ a, x = .ok a → Yields (f a) P) : Yields (x >>= f) P := by
  intro b hb
  obtain ⟨a, ha, hb⟩ := bind_eq_ok hb
  exact h a ha b hb

/-- A loop that answered did so at each of its turns. -/
theorem mapM_eq_ok {f : α → Except ε β} {l : List α} {l' : List β} (h : l.mapM f = .ok l') :
    List.Forall₂ (fun a b => f a = .ok b) l l' := by
  induction l generalizing l' with
  | nil =>
    rw [List.mapM_nil] at h
    cases h
    exact .nil
  | cons a l ih =>
    rw [List.mapM_cons] at h
    obtain ⟨b, hb, h⟩ := bind_eq_ok h
    obtain ⟨bs, hbs, h⟩ := bind_eq_ok h
    cases h
    exact .cons hb (ih hbs)

/-- Each of the loop's answers was given at one of its turns. -/
theorem mem_mapM {f : α → Except ε β} {l : List α} {l' : List β} (h : l.mapM f = .ok l')
    {b : β} (hb : b ∈ l') : ∃ a ∈ l, f a = .ok b :=
  (mapM_eq_ok h).of_mem_right hb

/-- Each turn of the loop gave one of its answers. -/
theorem mapM_mem {f : α → Except ε β} {l : List α} {l' : List β} (h : l.mapM f = .ok l')
    {a : α} (ha : a ∈ l) : ∃ b ∈ l', f a = .ok b :=
  (mapM_eq_ok h).of_mem_left ha

/-- A loop none of whose turns raises. -/
theorem mapM_ok {f : α → Except ε β} {g : α → β} {l : List α} (h : ∀ a ∈ l, f a = .ok (g a)) :
    l.mapM f = .ok (l.map g) := by
  induction l with
  | nil => rfl
  | cons a l ih =>
    rw [List.mapM_cons, h a List.mem_cons_self, ih fun x hx => h x (List.mem_cons_of_mem a hx)]
    rfl

/-- A loop that answers at each of its turns, with what each of the answers is. -/
theorem mapM_exists {f : α → Except ε β} {P : α → β → Prop} {l : List α}
    (h : ∀ a ∈ l, ∃ b, f a = .ok b ∧ P a b) : ∃ l', l.mapM f = .ok l' ∧ List.Forall₂ P l l' := by
  induction l with
  | nil => exact ⟨[], rfl, .nil⟩
  | cons a l ih =>
    obtain ⟨b, hb, hp⟩ := h a List.mem_cons_self
    obtain ⟨bs, hbs, hps⟩ := ih fun x hx => h x (List.mem_cons_of_mem a hx)
    exact ⟨b :: bs, by rw [List.mapM_cons, hb, hbs]; rfl, .cons hp hps⟩

/-- A loop that another one follows, step by step, through `f`. -/
theorem foldlM_map {step : β → α → Except ε β} {step' : γ → α → Except ε γ} (f : β → γ)
    (h : ∀ b a, step' (f b) a = (step b a).map f) (l : List α) (b : β) :
    l.foldlM step' (f b) = (l.foldlM step b).map f := by
  induction l generalizing b with
  | nil => rfl
  | cons a l ih =>
    rw [List.foldlM_cons, List.foldlM_cons, map_bind, h]
    cases step b a with
    | error e => rfl
    | ok b' => exact ih b'

/-- What each step of a loop that may raise keeps, the loop keeps. -/
theorem foldlM_inv {f : β → α → Except ε β} {P : β → Prop} {l : List α}
    (hstep : ∀ b a b', a ∈ l → P b → f b a = .ok b' → P b') {b b' : β} (hb : P b)
    (h : l.foldlM f b = .ok b') : P b' := by
  induction l generalizing b with
  | nil => exact Except.ok.inj h ▸ hb
  | cons a l ih =>
    rw [List.foldlM_cons] at h
    obtain ⟨next, hnext, h⟩ := bind_eq_ok h
    exact ih (fun c x c' hx => hstep c x c' (List.mem_cons_of_mem _ hx))
      (hstep b a next List.mem_cons_self hb hnext) h

/-- A loop that answers at each of its turns, and keeps what each of them keeps. -/
theorem foldlM_exists {f : β → α → Except ε β} {P : β → Prop} {l : List α}
    (hstep : ∀ b, ∀ a ∈ l, P b → ∃ b', f b a = .ok b' ∧ P b') {b : β} (hb : P b) :
    ∃ b', l.foldlM f b = .ok b' ∧ P b' := by
  induction l generalizing b with
  | nil => exact ⟨b, rfl, hb⟩
  | cons a l ih =>
    obtain ⟨c, hc, hp⟩ := hstep b a List.mem_cons_self hb
    obtain ⟨b', hb', hp'⟩ := ih (fun b x hx => hstep b x (List.mem_cons_of_mem _ hx)) hp
    refine ⟨b', ?_, hp'⟩
    rw [List.foldlM_cons, hc]
    exact hb'

/-- A loop none of whose turns raises. -/
theorem foldlM_ok {f : β → α → Except ε β} {g : β → α → β} {l : List α}
    (h : ∀ b, ∀ a ∈ l, f b a = .ok (g b a)) (b : β) : l.foldlM f b = .ok (l.foldl g b) := by
  induction l generalizing b with
  | nil => rfl
  | cons a l ih =>
    rw [List.foldlM_cons, h b a List.mem_cons_self]
    exact ih (fun c x hx => h c x (List.mem_cons_of_mem _ hx)) (g b a)

/-- A loop that came to its end took each of its turns. -/
theorem foldlM_mem {f : β → α → Except ε β} {l : List α} {b b' : β} (h : l.foldlM f b = .ok b')
    {a : α} (ha : a ∈ l) : ∃ c c', f c a = .ok c' := by
  induction l generalizing b with
  | nil => exact absurd ha List.not_mem_nil
  | cons x l ih =>
    rw [List.foldlM_cons] at h
    obtain ⟨next, hnext, h⟩ := bind_eq_ok h
    rcases List.mem_cons.mp ha with rfl | ha
    · exact ⟨b, next, hnext⟩
    · exact ih h ha

end Except
