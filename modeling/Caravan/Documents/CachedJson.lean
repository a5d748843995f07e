import Caravan.Framework.Threads
import Caravan.Python.Bytes
import Caravan.Python.Value

/-!
# A document that is read through

`CachedJsonStore.read` keeps one parse, under the inode, the time of change and the size that the
file had when the call looked. Every writer writes a new file and renames it over the old one, and
the number of an inode that is free is given out again.

* `reads_held` — where no file that comes to the path has the inode, time and size of an earlier
  one (`Fresh`), every read gives the parse of a content that the path held during the call, or None
  where the file was missing or unusable at a moment of it;
* `generations` — the path's files are then told apart by what is looked at;
* `inode_again` — three files within one tick of the clock, and the third has the first one's inode:
  the read after it gives the first one's parse.
-/

namespace CachedJson

open Python

/-! ### The file and the calls -/

structure File where
  inode : ℕ
  /-- `st_mtime_ns`: the file clock when it was written. -/
  mtime : ℤ
  content : Bytes

/-- `(st.st_ino, st.st_mtime_ns, st.st_size)` -/
structure Key where
  inode : ℕ
  mtime : ℤ
  size : ℕ
  deriving DecidableEq

def File.key (f : File) : Key := ⟨f.inode, f.mtime, f.content.length⟩

/-- What stands at the path and stood there before, the files that are written and not renamed yet,
the file clock, and `_cache`. -/
structure Shared where
  path : Option File
  earlier : List (Option File)
  temps : List File
  clock : ℤ
  cache : Key → Option Value

/-- What the path has held, the present last. -/
def Shared.held (x : Shared) : List (Option File) := x.earlier ++ [x.path]

/-- The present's place in it. -/
def Shared.now (x : Shared) : ℕ := x.earlier.length

/-- An inode that a file has. -/
def Shared.used (x : Shared) (inode : ℕ) : Bool :=
  (x.path.toList ++ x.temps).any fun f => f.inode = inode

/-- Where a call of `read` is; `since` is how much the path had held when it began. -/
inductive Place where
  | idle
  | called (since : ℕ)
  | existed (since : ℕ)
  | keyed (since : ℕ) (key : Option Key)
  | missed (since : ℕ) (key : Option Key)
  /-- the document is parsed, and `_cache` is cleared next -/
  | parsed (since : ℕ) (key : Key) (value : Value)
  /-- and the value is put into it next -/
  | cleared (since : ℕ) (key : Key) (value : Value)
  /-- what it returned, and how much the path had held by then -/
  | returned (since upto : ℕ) (value : Value)

inductive Event where
  | call
  /-- the call's next operation -/
  | goes
  /-- a writer writes its temporary file -/
  | writes (inode : ℕ) (content : Bytes)
  /-- and renames it over the path -/
  | renames (temp : ℕ)
  | unlinks
  | ticks

def isNone : Value → Bool
  | .null => true
  | _ => false

/-- `json.loads` of a file's text, if it can be read. -/
abbrev Loads := Bytes → Option Value

variable (loads : Loads) (parse : Value → Value)

/-- The next operation of `read`. -/
def read (x : Shared) : Place → Option (Shared × Place)
  | .called since =>
    some (x, if x.path.isSome then .existed since else .returned since x.now .null)
  | .existed since => some (x, .keyed since (x.path.map File.key))
  | .keyed since key =>
    match key.bind x.cache with
    | some hit => some (x, if isNone hit then .missed since key else .returned since x.now hit)
    | none => some (x, .missed since key)
  | .missed since key =>
    match x.path.bind fun f => loads f.content with
    | none => some (x, .returned since x.now .null)
    | some raw =>
      match key with
      | none => some (x, .returned since x.now (parse raw))
      | some key => some (x, .parsed since key (parse raw))
  | .parsed since key value => some ({ x with cache := fun _ => none }, .cleared since key value)
  | .cleared since key value =>
    some ({ x with cache := Function.update x.cache key (some value) },
      .returned since x.now value)
  | _ => none

/-- Another file, or none, at the path. -/
def Shared.become (x : Shared) (file : Option File) (temps : List File) : Shared :=
  { x with path := file, earlier := x.held, temps }

def next (x : Shared) (p : Place) : Event → Option (Shared × Place)
  | .call =>
    match p with
    | .idle | .returned _ _ _ => some (x, .called x.now)
    | _ => none
  | .goes => read loads parse x p
  | .writes inode content =>
    if x.used inode then none
    else some ({ x with temps := x.temps ++ [⟨inode, x.clock, content⟩] }, p)
  | .renames temp =>
    match x.temps[temp]? with
    | none => none
    | some f => some (x.become (some f) (x.temps.eraseIdx temp), p)
  | .unlinks => some (x.become none x.temps, p)
  | .ticks => some ({ x with clock := x.clock + 1 }, p)

/-- Any number of calls, with nothing kept at first. -/
def calls : Program Shared Place Event where
  init x := x.earlier = [] ∧ x.cache = fun _ => none
  start := .idle
  step x p e x' p' := next loads parse x p e = some (x', p')

/-- **The steps at which no generation comes again**: a file that is renamed over the path has not
the inode, time and size of one that stood there. -/
def Fresh (s : Threads Shared Place) (e : ℕ × Event) : Prop :=
  ∀ temp f, e.2 = .renames temp → s.shared.temps[temp]? = some f →
    ∀ g, some g ∈ s.shared.held → g.key ≠ f.key

/-! ### What the path has held -/

/-- The path held a file with the key, as its `i`th. -/
def KeyAt (x : Shared) (i : ℕ) (key : Key) : Prop := ∃ f, x.held[i]? = some (some f) ∧ f.key = key

/-- The path held, as its `i`th, a file that gives the value. -/
def ValueAt (x : Shared) (i : ℕ) (value : Value) : Prop :=
  ∃ f raw, x.held[i]? = some (some f) ∧ loads f.content = some raw ∧ value = parse raw

/-- The path held, as its `i`th, no file, or one that cannot be used. -/
def UnusableAt (x : Shared) (i : ℕ) : Prop :=
  ∃ held, x.held[i]? = some held ∧ ∀ f, held = some f → loads f.content = none

/-- A value that is right for a call: the parse of what the path held from `since` to `upto`, or
None where it held nothing that can be used. -/
def Right (x : Shared) (since upto : ℕ) (value : Value) : Prop :=
  (∃ i, since ≤ i ∧ i ≤ upto ∧ ValueAt loads parse x i value) ∨
    value = .null ∧ ∃ i, since ≤ i ∧ i ≤ upto ∧ UnusableAt loads x i

/-- No two files of the path have one key. -/
def Generations (x : Shared) : Prop := ∀ i j key, KeyAt x i key → KeyAt x j key → i = j

/-- What is kept under a key is the parse of the file with that key, or of a later one. -/
def CacheInv (x : Shared) : Prop :=
  ∀ key value, x.cache key = some value →
    ∃ i j, i ≤ j ∧ j ≤ x.now ∧ KeyAt x i key ∧ ValueAt loads parse x j value

def PlaceInv (x : Shared) : Place → Prop
  | .idle => True
  | .called since | .existed since => since ≤ x.now
  | .keyed since key | .missed since key =>
    since ≤ x.now ∧ ∀ k, key = some k → ∃ i, since ≤ i ∧ i ≤ x.now ∧ KeyAt x i k
  | .parsed since key value | .cleared since key value =>
    ∃ i j, since ≤ i ∧ i ≤ j ∧ j ≤ x.now ∧ KeyAt x i key ∧ ValueAt loads parse x j value
  | .returned since upto value => Right loads parse x since upto value

section Steps

variable {loads parse} {x x' : Shared} {p p' : Place} {i : ℕ} {key : Key} {value : Value}

/-- The path goes on from what it has held. -/
def Follows (x x' : Shared) : Prop := x.held <+: x'.held

theorem held_now (x : Shared) : x.held[x.now]? = some x.path := by
  unfold Shared.held Shared.now
  rw [List.getElem?_append_right le_rfl, Nat.sub_self]
  rfl

theorem Follows.now (h : Follows x x') : x.now ≤ x'.now := by
  have hlen := h.length_le
  simp only [Shared.held, List.length_append, List.length_singleton] at hlen
  exact Nat.le_of_succ_le_succ hlen

/-- What has been stays where it was. -/
theorem Follows.at (h : Follows x x') {held : Option File} (hi : x.held[i]? = some held) :
    x'.held[i]? = some held := by
  obtain ⟨more, hmore⟩ := h
  rw [← hmore, List.getElem?_append_left (List.getElem?_eq_some_iff.mp hi).1]
  exact hi

theorem KeyAt.follows (h : KeyAt x i key) (hx : Follows x x') : KeyAt x' i key := by
  obtain ⟨f, hf, hkey⟩ := h
  exact ⟨f, hx.at hf, hkey⟩

theorem ValueAt.follows (h : ValueAt loads parse x i value) (hx : Follows x x') :
    ValueAt loads parse x' i value := by
  obtain ⟨f, raw, hf, hvalue⟩ := h
  exact ⟨f, raw, hx.at hf, hvalue⟩

theorem Right.follows {since upto : ℕ} (h : Right loads parse x since upto value)
    (hx : Follows x x') : Right loads parse x' since upto value := by
  rcases h with ⟨i, hsince, hupto, hvalue⟩ | ⟨hnone, i, hsince, hupto, held, hheld, hunusable⟩
  · exact .inl ⟨i, hsince, hupto, hvalue.follows hx⟩
  · exact .inr ⟨hnone, i, hsince, hupto, held, hx.at hheld, hunusable⟩

/-- What a call knows stays true. -/
theorem PlaceInv.follows (h : PlaceInv loads parse x p) (hx : Follows x x') :
    PlaceInv loads parse x' p := by
  have hkeys : ∀ {since : ℕ} {key : Option Key}, (since ≤ x.now ∧ ∀ k, key = some k →
      ∃ i, since ≤ i ∧ i ≤ x.now ∧ KeyAt x i k) → since ≤ x'.now ∧ ∀ k, key = some k →
        ∃ i, since ≤ i ∧ i ≤ x'.now ∧ KeyAt x' i k := by
    rintro since key ⟨hsince, hkey⟩
    refine ⟨hsince.trans hx.now, fun k hk => ?_⟩
    obtain ⟨i, hfrom, hto, hat⟩ := hkey k hk
    exact ⟨i, hfrom, hto.trans hx.now, hat.follows hx⟩
  have hvalues : ∀ {since : ℕ} {key : Key} {value : Value},
      (∃ i j, since ≤ i ∧ i ≤ j ∧ j ≤ x.now ∧ KeyAt x i key ∧ ValueAt loads parse x j value) →
        ∃ i j, since ≤ i ∧ i ≤ j ∧ j ≤ x'.now ∧ KeyAt x' i key ∧
          ValueAt loads parse x' j value := by
    rintro since key value ⟨i, j, hsince, hij, hto, hat, hvalue⟩
    exact ⟨i, j, hsince, hij, hto.trans hx.now, hat.follows hx, hvalue.follows hx⟩
  cases p with
  | idle => trivial
  | called since => exact le_trans h hx.now
  | existed since => exact le_trans h hx.now
  | keyed since key => exact hkeys h
  | missed since key => exact hkeys h
  | parsed since key value => exact hvalues h
  | cleared since key value => exact hvalues h
  | returned since upto value => exact Right.follows h hx

theorem CacheInv.follows (h : CacheInv loads parse x) (hx : Follows x x')
    (hcache : x'.cache = x.cache) : CacheInv loads parse x' := by
  intro key value hget
  rw [hcache] at hget
  obtain ⟨i, j, hij, hto, hat, hvalue⟩ := h key value hget
  exact ⟨i, j, hij, hto.trans hx.now, hat.follows hx, hvalue.follows hx⟩

theorem follows_of_held (h : x'.held = x.held) : Follows x x' :=
  ⟨[], (List.append_nil _).trans h.symm⟩

/-- Nothing came to the path. -/
theorem Generations.same (h : Generations x) (hheld : x'.held = x.held) : Generations x' := by
  intro i j key hi hj
  unfold KeyAt at hi hj
  rw [hheld] at hi hj
  exact h i j key hi hj

theorem follows_become (x : Shared) (file : Option File) (temps : List File) :
    Follows x (x.become file temps) := List.prefix_append _ _

/-- **One operation of `read`**, where the path's files are told apart by their keys. -/
theorem read_step (hgen : Generations x) (hI : CacheInv loads parse x)
    (hQ : PlaceInv loads parse x p) (h : read loads parse x p = some (x', p')) :
    CacheInv loads parse x' ∧ PlaceInv loads parse x' p' ∧ x'.held = x.held := by
  have hnow := held_now x
  cases p with
  | idle => exact nomatch h
  | returned since upto value => exact nomatch h
  | called since =>
    cases h
    refine ⟨hI, ?_, rfl⟩
    split
    · exact hQ
    · next hmissing =>
      have hnone : x.path = none := Option.not_isSome_iff_eq_none.mp hmissing
      exact .inr ⟨rfl, x.now, hQ, le_rfl, x.path, hnow, fun f hf =>
        nomatch (hnone.symm.trans hf)⟩
  | existed since =>
    cases h
    refine ⟨hI, ⟨hQ, fun k hk => ?_⟩, rfl⟩
    obtain ⟨f, hf, hkey⟩ := Option.map_eq_some_iff.mp hk
    exact ⟨x.now, hQ, le_rfl, f, hnow.trans (congrArg some hf), hkey⟩
  | keyed since key =>
    rw [read] at h
    cases hhit : key.bind x.cache with
    | none =>
      rw [hhit] at h
      cases h
      exact ⟨hI, hQ, rfl⟩
    | some hit =>
      rw [hhit] at h
      cases h
      refine ⟨hI, ?_, rfl⟩
      split
      · exact hQ
      · -- what is kept is of this generation or a later one, and the call saw this one
        obtain ⟨k, hk, hget⟩ := Option.bind_eq_some_iff.mp hhit
        obtain ⟨i, j, hij, hto, hat, hvalue⟩ := hI k hit hget
        obtain ⟨i', hsince, -, hat'⟩ := hQ.2 k hk
        obtain rfl := hgen i i' k hat hat'
        exact .inl ⟨j, hsince.trans hij, hto, hvalue⟩
  | missed since key =>
    obtain ⟨hsince, hkey⟩ := hQ
    rw [read] at h
    cases hraw : x.path.bind fun f => loads f.content with
    | none =>
      rw [hraw] at h
      cases h
      refine ⟨hI, .inr ⟨rfl, x.now, hsince, le_rfl, x.path, hnow, fun f hf => ?_⟩, rfl⟩
      rw [hf] at hraw
      exact hraw
    | some raw =>
      obtain ⟨f, hf, hloads⟩ := Option.bind_eq_some_iff.mp hraw
      have hvalue : ValueAt loads parse x x.now (parse raw) :=
        ⟨f, raw, hnow.trans (congrArg some hf), hloads, rfl⟩
      rw [hraw] at h
      cases key with
      | none =>
        cases h
        exact ⟨hI, .inl ⟨x.now, hsince, le_rfl, hvalue⟩, rfl⟩
      | some k =>
        cases h
        obtain ⟨i, hfrom, hto, hat⟩ := hkey k rfl
        exact ⟨hI, ⟨i, x.now, hfrom, hto, le_rfl, hat, hvalue⟩, rfl⟩
  | parsed since key value =>
    cases h
    exact ⟨fun _ _ hget => (nomatch hget), hQ, rfl⟩
  | cleared since key value =>
    obtain ⟨i, j, hsince, hij, hto, hat, hvalue⟩ := hQ
    cases h
    refine ⟨fun k v hget => ?_, .inl ⟨j, hsince.trans hij, hto, hvalue⟩, rfl⟩
    change Function.update x.cache key (some value) k = some v at hget
    by_cases hk : k = key
    · subst hk
      rw [Function.update_self] at hget
      obtain rfl := Option.some.inj hget
      exact ⟨i, j, hij, hto, hat, hvalue⟩
    · rw [Function.update_of_ne hk] at hget
      exact hI k v hget

/-- A file that comes to the path and has no earlier one's key. -/
theorem Generations.become (h : Generations x) {file : Option File} (temps : List File)
    (hfresh : ∀ f, file = some f → ∀ g, some g ∈ x.held → g.key ≠ f.key) :
    Generations (x.become file temps) := by
  have hheld : (x.become file temps).held = x.held ++ [file] := rfl
  -- an earlier file, or the new one
  have hcases : ∀ {i : ℕ} {key : Key}, KeyAt (x.become file temps) i key →
      KeyAt x i key ∨ i = x.held.length ∧ ∃ f, file = some f ∧ f.key = key := by
    rintro i key ⟨f, hf, hkey⟩
    rw [hheld] at hf
    rcases Nat.lt_or_ge i x.held.length with hlt | hge
    · rw [List.getElem?_append_left hlt] at hf
      exact .inl ⟨f, hf, hkey⟩
    · rw [List.getElem?_append_right hge, List.getElem?_singleton] at hf
      split at hf
      · exact .inr ⟨by omega, f, Option.some.inj hf, hkey⟩
      · exact nomatch hf
  intro i j key hi hj
  rcases hcases hi with hi | ⟨rfl, f, hf, hfkey⟩ <;> rcases hcases hj with hj | ⟨rfl, g, hg, hgkey⟩
  · exact h i j key hi hj
  · obtain ⟨f, hf, hfkey⟩ := hi
    exact absurd (hfkey.trans hgkey.symm) (hfresh g hg f (List.mem_of_getElem? hf))
  · obtain ⟨g, hg, hgkey⟩ := hj
    exact absurd (hgkey.trans hfkey.symm) (hfresh f hf g (List.mem_of_getElem? hg))
  · rfl

/-- **The path's files are told apart**, what is kept is of its generation or a later one, and
every call knows what it is to know, in every run in which no generation comes again. -/
theorem generations {s : Threads Shared Place}
    (h : System.Reach (calls loads parse).system (Fresh) s) :
    (Generations s.shared ∧ CacheInv loads parse s.shared) ∧
      ∀ t, PlaceInv loads parse s.shared (s.pc t) := by
  refine Program.every (I := fun x => Generations x ∧ CacheInv loads parse x)
    (Q := PlaceInv loads parse)
    (fun x (hx : x.earlier = [] ∧ x.cache = fun _ => none) => ⟨⟨?_, ?_⟩, ?_⟩)
    (fun s t e x p hI hQ hok hstep => ?_) h
  · -- one file, or none
    rintro i j key ⟨f, hf, -⟩ ⟨g, hg, -⟩
    have hone : x.held.length = 1 := by rw [Shared.held, hx.1]; rfl
    have hi := (List.getElem?_eq_some_iff.mp hf).1
    have hj := (List.getElem?_eq_some_iff.mp hg).1
    omega
  · intro key value hget
    rw [hx.2] at hget
    exact nomatch hget
  · exact show PlaceInv loads parse x .idle from trivial
  · obtain ⟨hgen, hcache⟩ := hI
    -- a step that leaves the path and what is kept as they are
    have hsame : ∀ {x : Shared}, x.held = s.shared.held → x.cache = s.shared.cache →
        (Generations x ∧ CacheInv loads parse x) ∧ Follows s.shared x := by
      intro x hheld hc
      exact ⟨⟨hgen.same hheld, hcache.follows (follows_of_held hheld) hc⟩, follows_of_held hheld⟩
    cases e with
    | call =>
      unfold calls next at hstep
      dsimp only at hstep
      split at hstep <;> cases hstep <;>
        exact ⟨⟨hgen, hcache⟩, le_refl s.shared.now, fun u _ => hQ u⟩
    | goes =>
      obtain ⟨hcache', hplace, hheld⟩ := read_step hgen hcache (hQ t) hstep
      exact ⟨⟨hgen.same hheld, hcache'⟩, hplace, fun u _ => (hQ u).follows (follows_of_held hheld)⟩
    | writes inode content =>
      unfold calls next at hstep
      dsimp only at hstep
      split at hstep
      · exact nomatch hstep
      · cases hstep
        obtain ⟨hI', hfollows⟩ := hsame (x := { s.shared with
          temps := s.shared.temps ++ [⟨inode, s.shared.clock, content⟩] }) rfl rfl
        exact ⟨hI', (hQ t).follows hfollows, fun u _ => (hQ u).follows hfollows⟩
    | renames temp =>
      unfold calls next at hstep
      dsimp only at hstep
      split at hstep
      · exact nomatch hstep
      · next f hf =>
        cases hstep
        have hfollows := follows_become s.shared (some f) (s.shared.temps.eraseIdx temp)
        refine ⟨⟨hgen.become _ fun g hg => ?_, hcache.follows hfollows rfl⟩,
          (hQ t).follows hfollows, fun u _ => (hQ u).follows hfollows⟩
        obtain rfl := Option.some.inj hg
        exact hok temp f rfl hf
    | unlinks =>
      cases hstep
      have hfollows := follows_become s.shared none s.shared.temps
      exact ⟨⟨hgen.become _ fun f hf => (nomatch hf), hcache.follows hfollows rfl⟩,
        (hQ t).follows hfollows, fun u _ => (hQ u).follows hfollows⟩
    | ticks =>
      cases hstep
      obtain ⟨hI', hfollows⟩ := hsame (x := { s.shared with clock := s.shared.clock + 1 }) rfl rfl
      exact ⟨hI', (hQ t).follows hfollows, fun u _ => (hQ u).follows hfollows⟩

end Steps

/-- **No read is stale.** In every run in which no file that comes to the path has the inode, time
and size of an earlier one, what a read returns is the parse of a content that the path held between
its begin and its end, or None where the path held no file or an unusable one at some moment between
them. -/
theorem reads_held (loads : Loads) (parse : Value → Value) {s : Threads Shared Place}
    (h : System.Reach (calls loads parse).system Fresh s) (t since upto : ℕ) (value : Value)
    (hreturned : s.pc t = .returned since upto value) :
    Right loads parse s.shared since upto value := by
  have hplace := (generations h).2 t
  rw [hreturned] at hplace
  exact hplace

/-! ### Runs -/

/-- The step's condition, as it can be checked. -/
def fresh (s : Threads Shared Place) (e : ℕ × Event) : Bool :=
  match e.2 with
  | .renames temp =>
    s.shared.temps[temp]?.all fun f => s.shared.held.all fun g => g.all fun g => g.key ≠ f.key
  | _ => true

theorem fresh_met {s : Threads Shared Place} {e : ℕ × Event} (h : fresh s e = true) :
    Fresh s e := by
  intro temp f he hf g hg
  unfold fresh at h
  rw [he] at h
  dsimp only at h
  rw [hf] at h
  exact of_decide_eq_true (List.all_eq_true.mp h (some g) hg)

/-- A document of one digit. -/
def digit : Loads
  | [c] => some (.int (c.toNat - 0x30))
  | _ => none

/-- The document "1" under the inode 1, at the fifth tick. -/
def first : Shared where
  path := some ⟨1, 5, [0x31]⟩
  earlier := []
  temps := []
  clock := 5
  cache _ := none

/-- What the call of thread 0 gave, and when. -/
def given (s : Threads Shared Place) : Option (ℕ × ℕ × ℤ) :=
  match s.pc 0 with
  | .returned since upto (.int n) => some (since, upto, n)
  | _ => none

theorem given_eq {s : Threads Shared Place} {since upto : ℕ} {n : ℤ}
    (h : given s = some (since, upto, n)) : s.pc 0 = .returned since upto (.int n) := by
  unfold given at h
  split at h
  · next hp =>
    cases h
    exact hp
  · exact nomatch h

/-- A thread writes a file and renames it over the path. -/
def replaced (inode : ℕ) (content : Bytes) : List (ℕ × Event) :=
  [(1, .writes inode content), (1, .renames 0)]

/-- A call that has looked at the first document when the second one comes. -/
def overtaken : List (ℕ × Event) :=
  (0, .call) :: List.replicate 3 (0, .goes) ++ replaced 2 [0x32] ++ List.replicate 3 (0, .goes)

/-- It reads the second one, and keeps it under the first one's key. -/
theorem overtaken_reads : ∃ s, System.Reach (calls digit id).system Fresh s ∧
    s.pc 0 = .returned 0 1 (.int 2) ∧ Right digit id s.shared 0 1 (.int 2) := by
  have hrun : (System.follow (fun s e => if fresh s e then Program.turn (next digit id) s e
      else none) ⟨first, fun _ => .idle⟩ overtaken).map given = some (some (0, 1, 2)) := by
    decide +kernel
  obtain ⟨s, hs, hgiven⟩ := Option.map_eq_some_iff.mp hrun
  have hreach : System.Reach (calls digit id).system Fresh s := by
    refine System.Reach.follow_met (fun s e s' h => ?_) overtaken
      (.init ⟨⟨rfl, rfl⟩, fun _ => rfl⟩) hs
    split at h
    · next hfresh => exact ⟨Program.turn_step (fun _ _ _ _ _ h => h) s e s' h, fresh_met hfresh⟩
    · exact nomatch h
  exact ⟨s, hreach, given_eq hgiven, reads_held digit id hreach 0 0 1 (.int 2) (given_eq hgiven)⟩

/-! ### A number that is given out again -/

/-- A call; then the documents "2" and "3", the third under the first one's inode; then a call. -/
def again : List (ℕ × Event) :=
  (0, .call) :: List.replicate 6 (0, .goes) ++ replaced 2 [0x32] ++ replaced 1 [0x33] ++
    (0, .call) :: List.replicate 3 (0, .goes)

/-- What the path has held. -/
def contents (s : Threads Shared Place) : List (Option Bytes) :=
  s.shared.held.map (Option.map File.content)

/-- **Within one tick** the third document has the first one's key: the call that begins after it
came gives the first one. -/
theorem inode_again : ∃ s, System.Reachable (calls digit id).system s ∧
    s.pc 0 = .returned 2 2 (.int 1) ∧ ¬ Right digit id s.shared 2 2 (.int 1) := by
  have hrun : (System.follow (Program.turn (next digit id)) ⟨first, fun _ => .idle⟩ again).map
      (fun s => (given s, contents s)) =
        some (some (2, 2, 1), [some [0x31], some [0x32], some [0x33]]) := by
    decide +kernel
  obtain ⟨s, hs, hsaid⟩ := Option.map_eq_some_iff.mp hrun
  obtain ⟨hgiven, hheld⟩ := Prod.mk.inj hsaid
  refine ⟨s, System.Reach.follow (Program.turn_step fun _ _ _ _ _ h => h) again
    (.init ⟨⟨rfl, rfl⟩, fun _ => rfl⟩) hs fun _ _ _ => trivial, given_eq hgiven, ?_⟩
  rintro (⟨i, hsince, hupto, f, raw, hf, hraw, hvalue⟩ | ⟨hnone, -⟩)
  · -- what stood there is "3"
    obtain rfl := Nat.le_antisymm hupto hsince
    have hcontent : f.content = [0x33] := by
      have hat : (contents s)[2]? = some (some f.content) := by
        unfold contents
        rw [List.getElem?_map, hf]
        rfl
      rw [hheld] at hat
      exact (Option.some.inj (Option.some.inj hat)).symm
    rw [hcontent] at hraw
    obtain rfl := Option.some.inj hraw
    exact absurd (Value.int.inj hvalue) (by decide)
  · exact nomatch hnone

end CachedJson
