import Mathlib.Tactic.Common

/-!
# Names and inodes

A name stands for an inode, and an inode holds data; two names may stand for one inode. What a
program does to names (a hard link, a removal, a renaming, a new file) is said here, and what each
name holds after it. The data of an inode changes in one way only, by a write through a name that
stands for it: a file that is open under its inode is not changed by what happens to its name.

`rename` is that of POSIX, and does nothing where the two names stand for one inode.
-/

namespace Inodes

variable {N B : Type} [DecidableEq N]

/-- Names, what they stand for, and what that holds. -/
structure Disk (N B : Type) where
  node : N → Option ℕ
  data : ℕ → B
  /-- no inode from here on has been given out -/
  free : ℕ
  given : ∀ n i, node n = some i → i < free

namespace Disk

/-- What a name holds. -/
def content (d : Disk N B) (n : N) : Option B := (d.node n).map d.data

/-- Some name holds it. -/
def Holds (d : Disk N B) (b : B) : Prop := ∃ n, d.content n = some b

/-- The names after one of them was set. -/
theorem given_update (d : Disk N B) (n : N) (v : Option ℕ) {free : ℕ} (hfree : d.free ≤ free)
    (hv : ∀ i, v = some i → i < free) :
    ∀ m i, Function.update d.node n v m = some i → i < free := by
  intro m i h
  by_cases hm : m = n
  · rw [hm, Function.update_self] at h
    exact hv i h
  · rw [Function.update_of_ne hm] at h
    exact Nat.lt_of_lt_of_le (d.given m i h) hfree

/-- A hard link: a second name for what `src` stands for. -/
def link (d : Disk N B) (src dst : N) : Disk N B :=
  { d with
    node := Function.update d.node dst (d.node src)
    given := d.given_update dst _ (Nat.le_refl _) fun i h => d.given src i h }

def unlink (d : Disk N B) (n : N) : Disk N B :=
  { d with
    node := Function.update d.node n none
    given := d.given_update n _ (Nat.le_refl _) fun _ h => nomatch h }

/-- What `src` stands for goes under `dst`. -/
def rename (d : Disk N B) (src dst : N) : Disk N B :=
  if d.node src = d.node dst then d else (d.link src dst).unlink src

/-- A new file of the name, in place of what the name stood for. -/
def place (d : Disk N B) (n : N) (b : B) : Disk N B where
  node := Function.update d.node n (some d.free)
  data := Function.update d.data d.free b
  free := d.free + 1
  given := d.given_update n _ (Nat.le_succ _) fun _ h => Option.some.inj h ▸ Nat.lt_succ_self _

/-- A write into what the name stands for. -/
def write (d : Disk N B) (n : N) (f : B → B) : Disk N B :=
  { d with
    data := match d.node n with
      | none => d.data
      | some i => Function.update d.data i (f (d.data i)) }

variable (d : Disk N B) {n m src dst : N} {b : B}

@[simp] theorem node_link_self : (d.link src dst).node dst = d.node src :=
  Function.update_self ..

@[simp] theorem content_link_self : (d.link src dst).content dst = d.content src := by
  unfold content
  rw [node_link_self]
  rfl

@[simp] theorem content_unlink_of_ne (h : m ≠ n) : (d.unlink n).content m = d.content m := by
  have hnode : (d.unlink n).node m = d.node m := Function.update_of_ne h ..
  unfold content
  rw [hnode]
  rfl

@[simp] theorem node_place_self : (d.place n b).node n = some d.free := Function.update_self ..

@[simp] theorem node_place_of_ne (h : m ≠ n) : (d.place n b).node m = d.node m :=
  Function.update_of_ne h ..

/-- A new file changes no other name's content. -/
@[simp] theorem content_place_of_ne (h : m ≠ n) : (d.place n b).content m = d.content m := by
  unfold content
  rw [node_place_of_ne d h]
  cases hnode : d.node m with
  | none => rfl
  | some i => exact congrArg some (Function.update_of_ne (Nat.ne_of_lt (d.given m i hnode)) ..)

omit [DecidableEq N] in
omit [DecidableEq N] in
theorem data_write_of_ne (f : B → B) {i : ℕ} (h : d.node n ≠ some i) :
    (d.write n f).data i = d.data i := by
  unfold write
  dsimp only
  cases hn : d.node n with
  | none => rfl
  | some j => exact Function.update_of_ne (fun heq => h (hn.trans (congrArg some heq.symm))) ..

omit [DecidableEq N] in
/-! ### An open file -/

/-- What an inode holds, only a write changes. -/
theorem data_rename (i : ℕ) : (d.rename src dst).data i = d.data i := by
  unfold rename
  split
  · rfl
  · rfl

theorem data_place {i : ℕ} (h : i < d.free) : (d.place n b).data i = d.data i :=
  Function.update_of_ne (Nat.ne_of_lt h) ..

theorem free_rename : (d.rename src dst).free = d.free := by
  unfold rename
  split
  · rfl
  · rfl

end Disk

end Inodes
