import Caravan.Framework.Assoc
import Caravan.Framework.Links

/-!
# A tree of files

A directory tree with files and symbolic links, over any type of names. What stands at a physical
path is `get`; `remove` takes away what stands at a path with everything below it, and nothing
else (`isSome_remove`). `resolve` follows a path as a process does that asks for it.
-/

namespace FileTree

open Links

/-- What stands in a directory; a file is its size. -/
inductive Node (N : Type) where
  | file (size : ℕ)
  | link (target : Target N)
  | dir (entries : List (N × Node N))

variable {N : Type} [DecidableEq N]

/-- What stands at a physical path. -/
def get : List N → Node N → Option (Node N)
  | [], node => some node
  | n :: p, .dir entries => (Assoc.get entries n).bind (get p)
  | _ :: _, _ => none

/-- The tree without what stands at a path. The root stays. -/
def remove : List N → Node N → Node N
  | [n], .dir entries => .dir (Assoc.del entries n)
  | n :: m :: p, .dir entries =>
    match Assoc.get entries n with
    | some node => .dir (Assoc.set entries n (remove (m :: p) node))
    | none => .dir entries
  | _, node => node

/-- Something stands at a path. -/
def Stands (root : Node N) (p : List N) : Prop := (get p root).isSome = true

instance (root : Node N) (p : List N) : Decidable (Stands root p) := by
  unfold Stands
  infer_instance

/-- The link at a physical path. -/
def linkAt (root : Node N) (p : List N) : Option (Target N) :=
  match get p root with
  | some (.link t) => some t
  | _ => none

/-- The physical path of a path, through at most `n` links. -/
def resolve (n : ℕ) (root : Node N) (p : List (Option N)) : Option (List N) :=
  Links.resolve (linkAt root) n [] p

theorem stands_nil (root : Node N) : Stands root [] := rfl

/-- **A removal** takes away what stands at the path and below it, and nothing else. -/
theorem stands_remove {q : List N} (hq : q ≠ []) (root : Node N) (p : List N) :
    Stands (remove q root) p ↔ Stands root p ∧ ¬q <+: p := by
  induction q generalizing root p with
  | nil => exact absurd rfl hq
  | cons n q ih =>
    cases p with
    | nil =>
      refine iff_of_true (stands_nil _) ⟨stands_nil _, fun h => ?_⟩
      exact List.cons_ne_nil _ _ (List.prefix_nil.mp h)
    | cons k p =>
      rw [List.cons_prefix_cons]
      cases root with
      | file size =>
        cases q <;> exact iff_of_false (fun h => by cases h) fun h => by cases h.1
      | link t =>
        cases q <;> exact iff_of_false (fun h => by cases h) fun h => by cases h.1
      | dir entries =>
        cases q with
        | nil =>
          show ((Assoc.get (Assoc.del entries n) k).bind (get p)).isSome = true ↔
            ((Assoc.get entries k).bind (get p)).isSome = true ∧ _
          rw [Assoc.get_del]
          by_cases hk : k = n
          · simp [hk]
          · simp [hk, Ne.symm hk]
        | cons m q =>
          rw [remove]
          cases hn : Assoc.get entries n with
          | none =>
            -- nothing stands at the first name of the path
            refine ⟨fun h => ⟨h, fun hp => ?_⟩, And.left⟩
            have h : ((Assoc.get entries k).bind (get p)).isSome = true := h
            rw [← hp.1, hn] at h
            cases h
          | some node =>
            show ((Assoc.get (Assoc.set entries n (remove (m :: q) node)) k).bind (get p)).isSome =
              true ↔ ((Assoc.get entries k).bind (get p)).isSome = true ∧ _
            rw [Assoc.get_set]
            by_cases hk : k = n
            · subst hk
              rw [if_pos rfl, hn]
              have := ih (List.cons_ne_nil m q) node p
              simpa [Stands] using this
            · simp [hk, Ne.symm hk]

/-- What stands after a removal stood before it. -/
theorem Stands.of_remove {q : List N} {root : Node N} {p : List N}
    (h : Stands (remove q root) p) : Stands root p := by
  cases q with
  | nil => cases root <;> exact h
  | cons n q => exact ((stands_remove (List.cons_ne_nil n q) root p).mp h).1

end FileTree
