import Mathlib.Data.Multiset.MapFold

/-!
# A bag whose members change

The members of a bag are replaced by others, one after the other, and new ones come in. A member
that is replaced by one that is `whole` is as it was; one that is `named` alone is renewed, and says
less of what it was. `Turnover C n first now` is what then holds of a whole run: what is there now
is what was there first, member for member, up to `n` of them that are renewed, or came in since.

One rule for each kind of change carries it (`replace`, `renew`, `add`), so that a run's account is
kept change by change.
-/

namespace Turnover

/-- What a replaced member may have kept: all of it, or what names it. -/
structure Likeness (α : Type*) where
  whole : α → α → Prop
  named : α → α → Prop
  refl : ∀ a, whole a a
  trans : ∀ {a b c}, whole a b → whole b c → whole a c
  weaken : ∀ {a b}, whole a b → named a b
  named_trans : ∀ {a b c}, named a b → named b c → named a c

end Turnover

variable {α : Type*}

/-- **What is there now is what was there first**, member for member: but for `n` that are renewed,
or came in since. -/
def Turnover (C : Turnover.Likeness α) (n : ℕ) (first now : Multiset α) : Prop :=
  ∃ (kept renewed : Multiset (α × α)) (added : Multiset α),
    first = (kept + renewed).map Prod.fst ∧ now = (kept + renewed).map Prod.snd + added ∧
      (∀ p ∈ kept, C.whole p.1 p.2) ∧ (∀ p ∈ renewed, C.named p.1 p.2) ∧
      renewed.card + added.card ≤ n

namespace Turnover

variable {C : Likeness α} {n m : ℕ} {first now : Multiset α} {a b : α}

theorem refl (C : Likeness α) (first : Multiset α) : Turnover C 0 first first := by
  refine ⟨first.map fun a => (a, a), 0, 0, ?_, ?_, ?_, by simp, by simp⟩
  · rw [Multiset.add_zero, Multiset.map_map]
    exact (Multiset.map_id first).symm
  · rw [Multiset.add_zero, Multiset.add_zero, Multiset.map_map]
    exact (Multiset.map_id first).symm
  · intro p hp
    obtain ⟨a, _, rfl⟩ := Multiset.mem_map.mp hp
    exact C.refl a

theorem mono (h : Turnover C n first now) (hn : n ≤ m) : Turnover C m first now := by
  obtain ⟨kept, renewed, added, hfirst, hnow, hk, hr, hle⟩ := h
  exact ⟨kept, renewed, added, hfirst, hnow, hk, hr, hle.trans hn⟩

/-- Where a member of now comes from: it was kept, was renewed, or came in. -/
theorem cons_cases (h : Turnover C n first (a ::ₘ now)) :
    ∃ (kept renewed : Multiset (α × α)) (added : Multiset α),
      (∀ p ∈ kept, C.whole p.1 p.2) ∧ (∀ p ∈ renewed, C.named p.1 p.2) ∧
      ((∃ o, first = o ::ₘ (kept + renewed).map Prod.fst ∧
          now = (kept + renewed).map Prod.snd + added ∧
          ((C.whole o a ∧ renewed.card + added.card ≤ n) ∨
            (C.named o a ∧ renewed.card + added.card + 1 ≤ n))) ∨
        (first = (kept + renewed).map Prod.fst ∧ now = (kept + renewed).map Prod.snd + added ∧
          renewed.card + added.card + 1 ≤ n)) := by
  obtain ⟨kept, renewed, added, hfirst, hnow, hk, hr, hle⟩ := h
  have hmem : a ∈ (kept + renewed).map Prod.snd + added := hnow ▸ Multiset.mem_cons_self a now
  rcases Multiset.mem_add.mp hmem with hpair | hadded
  · obtain ⟨⟨o, a'⟩, hp, rfl⟩ := Multiset.mem_map.mp hpair
    rcases Multiset.mem_add.mp hp with hp | hp
    · obtain ⟨kept, rfl⟩ := Multiset.exists_cons_of_mem hp
      rw [Multiset.cons_add, Multiset.map_cons] at hfirst hnow
      rw [Multiset.cons_add, Multiset.cons_inj_right] at hnow
      exact ⟨kept, renewed, added, fun p hp => hk p (Multiset.mem_cons_of_mem hp), hr,
        .inl ⟨o, hfirst, hnow, .inl ⟨hk _ (Multiset.mem_cons_self _ _), hle⟩⟩⟩
    · obtain ⟨renewed, rfl⟩ := Multiset.exists_cons_of_mem hp
      rw [Multiset.add_cons, Multiset.map_cons] at hfirst hnow
      rw [Multiset.cons_add, Multiset.cons_inj_right] at hnow
      rw [Multiset.card_cons] at hle
      exact ⟨kept, renewed, added, hk, fun p hp => hr p (Multiset.mem_cons_of_mem hp),
        .inl ⟨o, hfirst, hnow, .inr ⟨hr _ (Multiset.mem_cons_self _ _), by omega⟩⟩⟩
  · obtain ⟨added, rfl⟩ := Multiset.exists_cons_of_mem hadded
    rw [Multiset.add_cons, Multiset.cons_inj_right] at hnow
    rw [Multiset.card_cons] at hle
    exact ⟨kept, renewed, added, hk, hr, .inr ⟨hfirst, hnow, by omega⟩⟩

/-- One that came in. -/
theorem add (h : Turnover C n first now) (a : α) : Turnover C (n + 1) first (a ::ₘ now) := by
  obtain ⟨kept, renewed, added, hfirst, hnow, hk, hr, hle⟩ := h
  refine ⟨kept, renewed, a ::ₘ added, hfirst, ?_, hk, hr, ?_⟩
  · rw [hnow, Multiset.add_cons]
  · rw [Multiset.card_cons]
    omega

/-- The member of a pair that was kept. -/
theorem keep {kept renewed : Multiset (α × α)} {added : Multiset α} {o : α}
    (hk : ∀ p ∈ kept, C.whole p.1 p.2) (hr : ∀ p ∈ renewed, C.named p.1 p.2) (ho : C.whole o a)
    (hle : renewed.card + added.card ≤ n) :
    Turnover C n (o ::ₘ (kept + renewed).map Prod.fst)
      (a ::ₘ ((kept + renewed).map Prod.snd + added)) := by
  refine ⟨(o, a) ::ₘ kept, renewed, added, ?_, ?_, ?_, hr, hle⟩
  · rw [Multiset.cons_add, Multiset.map_cons]
  · rw [Multiset.cons_add, Multiset.map_cons, Multiset.cons_add]
  · exact Multiset.forall_mem_cons.mpr ⟨ho, hk⟩

/-- The member of a pair that is renewed. -/
theorem keep_named {kept renewed : Multiset (α × α)} {added : Multiset α} {o : α}
    (hk : ∀ p ∈ kept, C.whole p.1 p.2) (hr : ∀ p ∈ renewed, C.named p.1 p.2) (ho : C.named o a)
    (hle : renewed.card + added.card + 1 ≤ n) :
    Turnover C n (o ::ₘ (kept + renewed).map Prod.fst)
      (a ::ₘ ((kept + renewed).map Prod.snd + added)) := by
  refine ⟨kept, (o, a) ::ₘ renewed, added, ?_, ?_, hk, ?_, ?_⟩
  · rw [Multiset.add_cons, Multiset.map_cons]
  · rw [Multiset.add_cons, Multiset.map_cons, Multiset.cons_add]
  · exact Multiset.forall_mem_cons.mpr ⟨ho, hr⟩
  · rw [Multiset.card_cons]
    omega

/-- **A member is replaced by one that is as it was.** -/
theorem replace (h : Turnover C n first (a ::ₘ now)) (hab : C.whole a b) :
    Turnover C n first (b ::ₘ now) := by
  obtain ⟨kept, renewed, added, hk, hr, ⟨o, rfl, rfl, ho⟩ | ⟨rfl, rfl, hle⟩⟩ := cons_cases h
  · rcases ho with ⟨ho, hle⟩ | ⟨ho, hle⟩
    · exact keep hk hr (C.trans ho hab) hle
    · exact keep_named hk hr (C.named_trans ho (C.weaken hab)) hle
  · have h : Turnover C (renewed.card + added.card) _ _ :=
      ⟨kept, renewed, added, rfl, rfl, hk, hr, le_rfl⟩
    exact (h.add b).mono hle

/-- **A member is replaced by one that names it still.** -/
theorem renew (h : Turnover C n first (a ::ₘ now)) (hab : C.named a b) :
    Turnover C (n + 1) first (b ::ₘ now) := by
  obtain ⟨kept, renewed, added, hk, hr, ⟨o, rfl, rfl, ho⟩ | ⟨rfl, rfl, hle⟩⟩ := cons_cases h
  · rcases ho with ⟨ho, hle⟩ | ⟨ho, hle⟩
    · exact keep_named hk hr (C.named_trans (C.weaken ho) hab) (by omega)
    · exact keep_named hk hr (C.named_trans ho hab) (by omega)
  · have h : Turnover C (renewed.card + added.card) _ _ :=
      ⟨kept, renewed, added, rfl, rfl, hk, hr, le_rfl⟩
    exact (h.add b).mono (by omega)

/-- Where none is renewed and none comes in, what all that is whole shares is the same bag. -/
theorem map_eq {β : Type*} (f : α → β) (hf : ∀ a b, C.whole a b → f b = f a)
    (h : Turnover C 0 first now) : now.map f = first.map f := by
  obtain ⟨kept, renewed, added, rfl, rfl, hk, -, hle⟩ := h
  obtain rfl : renewed = 0 := Multiset.card_eq_zero.mp (by omega)
  obtain rfl : added = 0 := Multiset.card_eq_zero.mp (by omega)
  rw [Multiset.add_zero, Multiset.add_zero, Multiset.map_map, Multiset.map_map]
  exact Multiset.map_congr rfl fun p hp => hf _ _ (hk p hp)

end Turnover
