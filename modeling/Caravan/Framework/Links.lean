import Mathlib.Data.List.Infix

/-!
# Paths and symbolic links

A physical path is the list of the names under the root. A link stands at a physical path
and leads to a target, absolute or from the directory of the link, in which `none` is the
step up, `..`. `resolve` follows a path as the kernel does, through at most a given number
of links.

A path is plain when no link stands on it (`Plain`); a plain path resolves to itself
(`resolve_plain`). Two paths of which neither begins the other stay so whatever is put
behind them (`Apart.append`).
-/

namespace Links

variable {N : Type}

/-- Where a link leads. -/
structure Target (N : Type) where
  absolute : Bool
  parts : List (Option N)

/-- One pass over a path; `again` goes on where a link leads. -/
def walk (link : List N → Option (Target N)) (again : List N → List (Option N) → Option (List N)) :
    List N → List (Option N) → Option (List N)
  | cur, [] => some cur
  | cur, none :: rest => walk link again cur.dropLast rest
  | cur, some name :: rest =>
    match link (cur ++ [name]) with
    | none => walk link again (cur ++ [name]) rest
    | some t => again (if t.absolute then [] else cur) (t.parts ++ rest)

/-- The physical path of a path, through at most `n` links. -/
def resolve (link : List N → Option (Target N)) : ℕ → List N → List (Option N) → Option (List N)
  | 0 => walk link fun _ _ => none
  | n + 1 => walk link (resolve link n)

/-- No link stands on the path. -/
def Plain (link : List N → Option (Target N)) (p : List N) : Prop :=
  ∀ q, q <+: p → link q = none

variable {link : List N → Option (Target N)}

theorem Plain.begins {p q : List N} (h : Plain link p) (hq : q <+: p) : Plain link q :=
  fun _ hr => h _ (hr.trans hq)

theorem walk_plain {again : List N → List (Option N) → Option (List N)} {rest : List N}
    {cur : List N} (h : Plain link (cur ++ rest)) :
    walk link again cur (rest.map some) = some (cur ++ rest) := by
  induction rest generalizing cur with
  | nil => simp [walk]
  | cons name rest ih =>
    have hsplit : cur ++ name :: rest = (cur ++ [name]) ++ rest := by simp
    rw [hsplit] at h
    have hnone : link (cur ++ [name]) = none := h _ (List.prefix_append _ _)
    rw [List.map_cons, walk, hnone, hsplit]
    exact ih h

/-- **A plain path leads where it says.** -/
theorem resolve_plain {p : List N} (h : Plain link p) (n : ℕ) :
    resolve link n [] (p.map some) = some p := by
  have h' : Plain link ([] ++ p) := h
  cases n with
  | zero => exact walk_plain h'
  | succ n => exact walk_plain h'

/-- Neither path begins the other: the two directories hold no file in common. -/
def Apart (p q : List N) : Prop := ¬ p <+: q ∧ ¬ q <+: p

theorem Apart.symm {p q : List N} (h : Apart p q) : Apart q p := ⟨h.2, h.1⟩

/-- What stands under the one does not stand under the other. -/
theorem Apart.append {p q : List N} (h : Apart p q) (r : List N) : ¬ p <+: q ++ r := by
  intro hp
  cases List.prefix_or_prefix_of_prefix hp (List.prefix_append q r) with
  | inl h₁ => exact h.1 h₁
  | inr h₂ => exact h.2 h₂

theorem Apart.append_ne {p q : List N} (h : Apart p q) (r r' : List N) : p ++ r ≠ q ++ r' :=
  fun heq => h.append r' (heq ▸ List.prefix_append p r)

end Links
