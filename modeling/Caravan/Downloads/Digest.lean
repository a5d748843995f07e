import Caravan.Framework.Inodes
import Caravan.Cloud.PoolDesk
import Mathlib.Data.Nat.Digits.Defs

/-!
# A file's digest

`file_digest` answers from a table whose keys are the kind, the path, the size and the time of
change; what is not in the table is read and hashed. The size and the time are read before the file
is opened, under its name, and the name may stand for another file by then: its digest goes into
the table under the older file's key. With the older file back under the name, the table answers
with the other one's digest (`stale_digest`); and a git blob id, which begins with the size, is then
the id of no content at all.

Where every call opens the file whose size and time it has read (`Steady`), each digest that is
returned is that of a content which the path held during the call (`digest_held`), for any number of
calls and whatever is done to the names. What the kernel keeps of a file is here a function of its
content: a content has one size and one time of change.
-/

namespace Digest

open Python Inodes

/-- The kinds of a `HubHash`. -/
inductive Kind
  | SHA256
  | GIT_SHA1
  | HIDDEN
  | NONE
  deriving DecidableEq, Repr

/-- `hashlib`'s two digests of bytes, in hexadecimal digits. -/
structure Hashes where
  sha256 : Bytes → Text
  sha1 : Bytes → Text

/-- `st_size` and the time of change in nanoseconds. -/
structure Stat where
  size : ℕ
  mtime : ℤ
  deriving DecidableEq

/-- A key of `_hash_cache`. -/
structure Key where
  kind : Kind
  path : Text
  stat : Stat
  deriving DecidableEq

/-- `b"blob %d\0" % size` -/
def blobHeader (size : ℕ) : Bytes :=
  (Text.of "blob " ++ Cloud.digits size).map (fun c => UInt8.ofNat c.val) ++ [0]

namespace Hashes

variable (H : Hashes)

/-- What is fed to the hash, with the size that was read, and its digest. -/
def value (kind : Kind) (size : ℕ) (content : Bytes) : Text :=
  match kind with
  | .GIT_SHA1 => H.sha1 (blobHeader size ++ content)
  | _ => H.sha256 content

/-- A content's digest of a kind. -/
def digest (kind : Kind) (content : Bytes) : Text := H.value kind content.length content

end Hashes

/-- `CHUNK` -/
def CHUNK : ℕ := 4 * 1024 * 1024

/-- A call, and how many disks there had been when it began. -/
structure Call where
  path : Text
  kind : Kind
  since : ℕ

/-- Where a call is. -/
inductive Pc
  | idle
  | called (c : Call)
  /-- it has the size and the time, and looks into the table next -/
  | statted (c : Call) (st : Stat)
  /-- the table has nothing, and it opens the file next -/
  | missed (c : Call) (st : Stat)
  | reading (c : Call) (st : Stat) (inode : ℕ) (read : Bytes)
  | hashed (c : Call) (st : Stat) (value : Text)
  /-- what it returned, and how many disks there had been by then -/
  | returned (c : Call) (value : Text) (upto : ℕ)
  | raised

/-- The disk, those before it, and `_hash_cache`. -/
structure Shared where
  disk : Disk Text Bytes
  earlier : List (Disk Text Bytes) := []
  cache : Key → Option Text := fun _ => none

inductive Event
  | call (path : Text) (kind : Kind)
  /-- the call's next operation -/
  | goes
  /-- its next operation raises an `OSError` -/
  | fails
  | unlink (path : Text)
  | link (src dst : Text)
  /-- `os.replace` -/
  | replace (src dst : Text)
  /-- a new file, written under another name, in place of what the path stands for -/
  | lands (path : Text) (content : Bytes)

namespace Shared

variable (x : Shared)

/-- The disks in their order, the present one last. -/
def disks : List (Disk Text Bytes) := x.earlier ++ [x.disk]

def become (d : Disk Text Bytes) : Shared := { x with disk := d, earlier := x.disks }

end Shared

section

variable (H : Hashes) (mtime : Bytes → ℤ)

/-- What `stat` says of a content. -/
def stat (content : Bytes) : Stat := ⟨content.length, mtime content⟩

/-- `file_digest`, operation by operation. -/
def file_digest (x : Shared) : Pc → Option (Shared × Pc)
  | .called c => some (if c.kind ≠ .SHA256 ∧ c.kind ≠ .GIT_SHA1 then (x, .raised)
    else match x.disk.content c.path with
      | none => (x, .raised)
      | some content => (x, .statted c (stat mtime content)))
  | .statted c st => some (match x.cache ⟨c.kind, c.path, st⟩ with
    | some value =>
      if value ≠ [] then (x, .returned c value x.earlier.length) else (x, .missed c st)
    | none => (x, .missed c st))
  | .missed c st => some (match x.disk.node c.path with
    | none => (x, .raised)
    | some inode => (x, .reading c st inode []))
  | .reading c st inode read =>
    let chunk := ((x.disk.data inode).drop read.length).take CHUNK
    some (if chunk = [] then (x, .hashed c st (H.value c.kind st.size read))
      else (x, .reading c st inode (read ++ chunk)))
  | .hashed c st value =>
    some ({ x with cache := Function.update x.cache ⟨c.kind, c.path, st⟩ (some value) },
      .returned c value x.earlier.length)
  | _ => none

def next (x : Shared) (p : Pc) : Event → Option (Shared × Pc)
  | .call path kind => match p with
    | .idle => some (x, .called ⟨path, kind, x.earlier.length⟩)
    | _ => none
  | .goes => file_digest H mtime x p
  | .fails => match p with
    | .called _ | .missed _ _ | .reading _ _ _ _ => some (x, .raised)
    | _ => none
  | .unlink path => some (x.become (x.disk.unlink path), p)
  | .link src dst =>
    if x.disk.node dst = none then some (x.become (x.disk.link src dst), p) else none
  | .replace src dst =>
    if x.disk.node src = none then none else some (x.become (x.disk.rename src dst), p)
  | .lands path content => some (x.become (x.disk.place path content), p)

/-- Any number of calls, on a table that is empty at first. -/
def calls : Program Shared Pc Event where
  init x := x.earlier = [] ∧ x.cache = fun _ => none
  start := .idle
  step x p e x' p' := next H mtime x p e = some (x', p')

end

/-! ### What a path has held -/

/-- The path held the content on one of the disks from `since` to `upto`. -/
def Held (x : Shared) (since upto : ℕ) (path : Text) (b : Bytes) : Prop :=
  ∃ i d, since ≤ i ∧ i ≤ upto ∧ x.disks[i]? = some d ∧ d.content path = some b

/-- A step of the surroundings: the disk is as it was, or a new one whose open files are. -/
def Follows (x x' : Shared) : Prop :=
  (x'.disk = x.disk ∧ x'.earlier = x.earlier) ∨
    (x'.earlier = x.disks ∧ x.disk.free ≤ x'.disk.free ∧
      ∀ i, i < x.disk.free → x'.disk.data i = x.disk.data i)

section Held

variable {x x' : Shared} {since upto upto' : ℕ} {path : Text} {b : Bytes}

theorem held_now (hsince : since ≤ x.earlier.length) (h : x.disk.content path = some b) :
    Held x since x.earlier.length path b := by
  refine ⟨x.earlier.length, x.disk, hsince, le_rfl, ?_, h⟩
  unfold Shared.disks
  rw [List.getElem?_append_right le_rfl, Nat.sub_self]
  rfl

theorem Held.mono (h : Held x since upto path b) (hle : upto ≤ upto') :
    Held x since upto' path b := by
  obtain ⟨i, d, hfrom, hto, hd, hb⟩ := h
  exact ⟨i, d, hfrom, hto.trans hle, hd, hb⟩

/-- What has been stays. -/
theorem Held.follows (h : Held x since upto path b) (hx : Follows x x') :
    Held x' since upto path b := by
  obtain ⟨i, d, hfrom, hto, hd, hb⟩ := h
  refine ⟨i, d, hfrom, hto, ?_, hb⟩
  rcases hx with ⟨hdisk, hearlier⟩ | ⟨hearlier, -, -⟩
  · unfold Shared.disks at hd ⊢
    rw [hdisk, hearlier]
    exact hd
  · have hi : i < x.disks.length := by
      by_contra hge
      rw [List.getElem?_eq_none (Nat.le_of_not_lt hge)] at hd
      cases hd
    rw [show x'.disks = x.disks ++ [x'.disk] by unfold Shared.disks; rw [hearlier]; rfl,
      List.getElem?_append_left hi]
    exact hd

theorem Follows.length (hx : Follows x x') : x.earlier.length ≤ x'.earlier.length := by
  rcases hx with ⟨-, hearlier⟩ | ⟨hearlier, -, -⟩
  · exact hearlier ▸ le_rfl
  · rw [hearlier]
    unfold Shared.disks
    rw [List.length_append]
    exact Nat.le_add_right _ _

end Held

section

variable (H : Hashes) (mtime : Bytes → ℤ)

/-- **The steps at which nothing is mixed up**: the file that a call opens is of the size and time
that the call has read. -/
def Steady (s : Threads Shared Pc) (e : ℕ × Event) : Prop :=
  ∀ c st content, e.2 = .goes → s.pc e.1 = .missed c st →
    s.shared.disk.content c.path = some content → stat mtime content = st

/-- Each entry of the table is the digest of a content of its size and time. -/
def TableInv (x : Shared) : Prop :=
  ∀ k value, x.cache k = some value → ∃ b, stat mtime b = k.stat ∧ value = H.digest k.kind b

/-- What a call knows at each place: of the content whose size and time it has read. -/
def CallInv (x : Shared) : Pc → Prop
  | .idle | .raised => True
  | .called c => c.since ≤ x.earlier.length
  | .statted c st | .missed c st =>
    ∃ b, stat mtime b = st ∧ Held x c.since x.earlier.length c.path b
  | .reading c st inode read =>
    ∃ b, stat mtime b = st ∧ Held x c.since x.earlier.length c.path b ∧
      inode < x.disk.free ∧ x.disk.data inode = b ∧ read <+: b
  | .hashed c st value =>
    ∃ b, stat mtime b = st ∧ Held x c.since x.earlier.length c.path b ∧
      value = H.digest c.kind b
  | .returned c value upto => ∃ b, Held x c.since upto c.path b ∧ value = H.digest c.kind b

end

section Steps

variable {H : Hashes} {mtime : Bytes → ℤ} {x x' : Shared} {p p' : Pc} {e : Event}

/-- What a call knows stays true. -/
theorem CallInv.follows (h : CallInv H mtime x p) (hx : Follows x x') : CallInv H mtime x' p := by
  cases p with
  | idle => trivial
  | raised => trivial
  | called c => exact le_trans h hx.length
  | statted c st =>
    obtain ⟨b, hst, hheld⟩ := h
    exact ⟨b, hst, (hheld.follows hx).mono hx.length⟩
  | missed c st =>
    obtain ⟨b, hst, hheld⟩ := h
    exact ⟨b, hst, (hheld.follows hx).mono hx.length⟩
  | reading c st inode read =>
    obtain ⟨b, hst, hheld, hlt, hdata, hread⟩ := h
    refine ⟨b, hst, (hheld.follows hx).mono hx.length, ?_, ?_, hread⟩
    · rcases hx with ⟨hdisk, -⟩ | ⟨-, hfree, -⟩
      · exact hdisk ▸ hlt
      · exact lt_of_lt_of_le hlt hfree
    · rcases hx with ⟨hdisk, -⟩ | ⟨-, -, hsame⟩
      · exact hdisk ▸ hdata
      · exact (hsame inode hlt).trans hdata
  | hashed c st value =>
    obtain ⟨b, hst, hheld, hvalue⟩ := h
    exact ⟨b, hst, (hheld.follows hx).mono hx.length, hvalue⟩
  | returned c value upto =>
    obtain ⟨b, hheld, hvalue⟩ := h
    exact ⟨b, hheld.follows hx, hvalue⟩

/-- What is done to the names leaves the open files. -/
theorem follows_become {d : Disk Text Bytes} (hfree : x.disk.free ≤ d.free)
    (hdata : ∀ i, i < x.disk.free → d.data i = x.disk.data i) : Follows x (x.become d) :=
  .inr ⟨rfl, hfree, hdata⟩

theorem follows_refl (x : Shared) : Follows x x := .inl ⟨rfl, rfl⟩

/-- **One operation of `file_digest`**: what it puts into the table is the digest of a content of
the key's size and time, and it knows what it is to know where it goes. -/
theorem file_digest_step (hinj : Function.Injective (stat mtime)) (hI : TableInv H mtime x)
    (hQ : CallInv H mtime x p)
    (hok : ∀ c st content, p = .missed c st → x.disk.content c.path = some content →
      stat mtime content = st)
    (h : file_digest H mtime x p = some (x', p')) :
    TableInv H mtime x' ∧ CallInv H mtime x' p' ∧ Follows x x' := by
  unfold file_digest at h
  split at h
  · next c =>
    -- the size and the time
    have hsame : ∀ q, some (x, q) = some (x', p') → CallInv H mtime x q →
        TableInv H mtime x' ∧ CallInv H mtime x' p' ∧ Follows x x' := by
      rintro q hq hcall
      cases hq
      exact ⟨hI, hcall, follows_refl x⟩
    split at h
    · exact hsame _ h trivial
    · split at h
      · exact hsame _ h trivial
      · next content hcontent => exact hsame _ h ⟨content, rfl, held_now hQ hcontent⟩
  · next c st =>
    -- the table
    obtain ⟨b, hst, hheld⟩ := hQ
    split at h
    · next value hcached =>
      split at h
      · cases h
        obtain ⟨b', hst', hvalue⟩ := hI _ _ hcached
        obtain rfl := hinj (hst'.trans hst.symm)
        exact ⟨hI, ⟨b', hheld, hvalue⟩, follows_refl x⟩
      · cases h
        exact ⟨hI, ⟨b, hst, hheld⟩, follows_refl x⟩
    · cases h
      exact ⟨hI, ⟨b, hst, hheld⟩, follows_refl x⟩
  · next c st =>
    -- the file is opened, and is the one whose size and time were read
    obtain ⟨b, hst, hheld⟩ := hQ
    split at h
    · cases h
      exact ⟨hI, trivial, follows_refl x⟩
    · next inode hnode =>
      cases h
      have hcontent : x.disk.content c.path = some (x.disk.data inode) := by
        unfold Disk.content
        rw [hnode]
        rfl
      have hb := hinj ((hok c st _ rfl hcontent).trans hst.symm)
      exact ⟨hI, ⟨b, hst, hheld, x.disk.given _ _ hnode, hb, List.nil_prefix⟩,
        follows_refl x⟩
  · next c st inode read =>
    obtain ⟨b, hst, hheld, hlt, hdata, hread⟩ := hQ
    dsimp only at h
    rw [hdata] at h
    split at h
    · next hend =>
      cases h
      -- an empty chunk is the end of the file
      have hdrop : b.drop read.length = [] := by
        rcases List.take_eq_nil_iff.mp hend with hzero | hnil
        · exact absurd hzero (by decide)
        · exact hnil
      have hall : read = b := hread.eq_of_length_le (List.drop_eq_nil_iff.mp hdrop)
      refine ⟨hI, ⟨b, hst, hheld, ?_⟩, follows_refl x⟩
      rw [hall, ← hst]
      rfl
    · cases h
      refine ⟨hI, ⟨b, hst, hheld, hlt, hdata, ?_⟩, follows_refl x⟩
      obtain ⟨rest, rfl⟩ := hread
      rw [List.drop_left]
      exact (List.prefix_append_right_inj read).mpr (List.take_prefix CHUNK rest)
  · next c st value =>
    obtain ⟨b, hst, hheld, hvalue⟩ := hQ
    cases h
    refine ⟨fun k v hk => ?_, ⟨b, hheld, hvalue⟩, .inl ⟨rfl, rfl⟩⟩
    dsimp only at hk
    by_cases hkey : k = ⟨c.kind, c.path, st⟩
    · rw [hkey, Function.update_self] at hk
      cases hk
      rw [hkey]
      exact ⟨b, hst, hvalue⟩
    · rw [Function.update_of_ne hkey] at hk
      exact hI k v hk
  · cases h

/-- One step of the calls, or of what is done to the names. -/
theorem next_step (hinj : Function.Injective (stat mtime)) (hI : TableInv H mtime x)
    (hQ : CallInv H mtime x p)
    (hok : ∀ c st content, e = .goes → p = .missed c st → x.disk.content c.path = some content →
      stat mtime content = st)
    (h : next H mtime x p e = some (x', p')) :
    TableInv H mtime x' ∧ CallInv H mtime x' p' ∧ Follows x x' := by
  have hnames : ∀ d : Disk Text Bytes, Follows x (x.become d) → (x.become d, p) = (x', p') →
      TableInv H mtime x' ∧ CallInv H mtime x' p' ∧ Follows x x' := by
    rintro d hd heq
    cases heq
    exact ⟨hI, hQ.follows hd, hd⟩
  cases e with
  | goes => exact file_digest_step hinj hI hQ (fun c st content hp => hok c st content rfl hp) h
  | call path kind =>
    simp only [next] at h
    split at h
    · cases h
      exact ⟨hI, le_rfl, follows_refl x⟩
    · cases h
  | fails =>
    simp only [next] at h
    split at h
    all_goals cases h
    all_goals exact ⟨hI, trivial, follows_refl x⟩
  | unlink path =>
    exact hnames (x.disk.unlink path) (follows_become le_rfl fun _ _ => rfl) (Option.some.inj h)
  | link src dst =>
    simp only [next] at h
    split at h
    · exact hnames (x.disk.link src dst) (follows_become le_rfl fun _ _ => rfl)
        (Option.some.inj h)
    · cases h
  | replace src dst =>
    simp only [next] at h
    split at h
    · cases h
    · refine hnames (x.disk.rename src dst) (follows_become ?_ fun i _ => ?_) (Option.some.inj h)
      · rw [x.disk.free_rename]
      · exact x.disk.data_rename i
  | lands path content =>
    exact hnames (x.disk.place path content)
      (follows_become (Nat.le_succ _) fun i hi => x.disk.data_place hi) (Option.some.inj h)

/-- **The digest that is returned is the file's**: that of a content which the path held at a moment
of the call, in a run whose calls open what they have looked at. -/
theorem digest_held (hinj : Function.Injective (stat mtime)) {s : Threads Shared Pc}
    (h : System.Reach (calls H mtime).system (Steady mtime) s) (t : ℕ) {c : Call} {value : Text}
    {upto : ℕ} (hreturned : s.pc t = .returned c value upto) :
    ∃ b, Held s.shared c.since upto c.path b ∧ value = H.digest c.kind b := by
  have hall := Program.every (I := TableInv H mtime) (Q := CallInv H mtime) (fun x hx => ⟨?_, ?_⟩)
    (fun s t e x p hI hQ hok hs => ?_) h
  · have hcall := hall.2 t
    rw [hreturned] at hcall
    exact hcall
  · intro k value hk
    rw [hx.2] at hk
    cases hk
  · trivial
  · obtain ⟨hI', hQ', hfollows⟩ := next_step hinj hI (hQ t)
      (fun c st content he hp => hok c st content he hp) hs
    exact ⟨hI', hQ', fun u _ => (hQ u).follows hfollows⟩

end Steps

/-! ### The older file comes back -/

/-- Digests that tell all contents apart. -/
def written : Hashes where
  sha256 b := Text.of "h" ++ b.map fun c => ⟨c.toNat, byte_lt c⟩
  sha1 b := Text.of "g" ++ b.map fun c => ⟨c.toNat, byte_lt c⟩

/-- A time for each content. -/
def clock (b : Bytes) : ℤ := (Nat.ofDigits 256 (b.map UInt8.toNat) : ℕ)

theorem stat_clock_injective : Function.Injective (stat clock) := by
  intro b b' h
  have hsize : b.length = b'.length := congrArg Stat.size h
  have htime : Nat.ofDigits 256 (b.map UInt8.toNat) = Nat.ofDigits 256 (b'.map UInt8.toNat) :=
    Int.ofNat.inj (congrArg Stat.mtime h)
  have hbytes : ∀ (b : Bytes), ∀ n ∈ b.map UInt8.toNat, n < 256 := fun b n hn => by
    obtain ⟨c, -, rfl⟩ := List.mem_map.mp hn
    exact c.toNat_lt
  have hmap := Nat.ofDigits_inj_of_len_eq (by decide)
    (by rw [List.length_map, List.length_map, hsize])
    (hbytes b) (hbytes b') htime
  exact List.map_injective_iff.mpr (fun _ _ => UInt8.toNat_inj.mp) hmap

/-- A disk with one file. -/
def oneFile (content : Bytes) : Shared where
  disk := {
    node n := if n = Text.of "f" then some 0 else none
    data _ := content
    free := 1
    given n i h := by
      split at h
      · exact Option.some.inj h ▸ Nat.one_pos
      · cases h }

/-- `digest_held` for a call that nothing comes between. -/
theorem digest_held_alone :
    ∃ s : Threads Shared Pc, s.pc 0 = .returned ⟨"f", .SHA256, 0⟩ (written.sha256 [1]) 0 ∧
      ∃ b, Held s.shared 0 0 "f" b ∧ written.sha256 [1] = written.digest .SHA256 b := by
  let c : Call := ⟨"f", .SHA256, 0⟩
  let st := stat clock [1]
  have hother : ∀ {x : Shared} {p : Pc} {e : Event}, (∀ c st, p ≠ .missed c st) →
      Steady clock ((calls written clock).alone x p) (0, e) :=
    fun hp c st content _ hpc _ => absurd hpc (hp c st)
  have h₀ : System.Reach (calls written clock).system (Steady clock)
      ((calls written clock).alone (oneFile [1]) .idle) := .init (Program.alone_init ⟨rfl, rfl⟩)
  have h₁ : System.Reach _ (Steady clock) (Program.alone _ (oneFile [1]) (.called c)) :=
    h₀.next (e := (0, .call "f" .SHA256)) (Program.alone_step rfl) (hother fun _ _ h => nomatch h)
  have h₂ : System.Reach _ (Steady clock) (Program.alone _ (oneFile [1]) (.statted c st)) :=
    h₁.next (e := (0, .goes)) (Program.alone_step rfl) (hother fun _ _ h => nomatch h)
  have h₃ : System.Reach _ (Steady clock) (Program.alone _ (oneFile [1]) (.missed c st)) :=
    h₂.next (e := (0, .goes)) (Program.alone_step rfl) (hother fun _ _ h => nomatch h)
  have h₄ : System.Reach _ (Steady clock) (Program.alone _ (oneFile [1]) (.reading c st 0 [])) :=
    h₃.next (e := (0, .goes)) (Program.alone_step rfl) fun c' st' content _ hpc hcontent => by
      cases hpc
      cases hcontent
      rfl
  have h₅ : System.Reach _ (Steady clock) (Program.alone _ (oneFile [1]) (.reading c st 0 [1])) :=
    h₄.next (e := (0, .goes)) (Program.alone_step rfl) (hother fun _ _ h => nomatch h)
  have h₆ : System.Reach _ (Steady clock)
      (Program.alone _ (oneFile [1]) (.hashed c st (written.sha256 [1]))) :=
    h₅.next (e := (0, .goes)) (Program.alone_step rfl) (hother fun _ _ h => nomatch h)
  let filed : Key → Option Text :=
    Function.update (fun _ => none) ⟨.SHA256, "f", st⟩ (some (written.sha256 [1]))
  have h₇ : System.Reach _ (Steady clock) (Program.alone _ { oneFile [1] with cache := filed }
      (.returned c (written.sha256 [1]) 0)) :=
    h₆.next (e := (0, .goes)) (Program.alone_step rfl) (hother fun _ _ h => nomatch h)
  exact ⟨_, rfl, digest_held stat_clock_injective h₇ 0 rfl⟩

/-- The contents that a path held, on the disks from `since` to `upto`. -/
def contents (x : Shared) (since upto : ℕ) (path : Text) : List Bytes :=
  ((x.disks.take (upto + 1)).drop since).filterMap (·.content path)

theorem mem_contents {x : Shared} {since upto : ℕ} {path : Text} {b : Bytes}
    (h : Held x since upto path b) : b ∈ contents x since upto path := by
  obtain ⟨i, d, hfrom, hto, hd, hb⟩ := h
  refine List.mem_filterMap.mpr ⟨d, List.mem_of_getElem? (i := i - since) ?_, hb⟩
  rw [List.getElem?_drop, Nat.add_sub_cancel' hfrom, List.getElem?_take_of_lt (by omega)]
  exact hd

/-- A call returned the digest of no content that its path held. -/
def Wrong (s : Threads Shared Pc) (t : ℕ) : Bool :=
  match s.pc t with
  | .returned c value upto =>
    ((contents s.shared c.since upto c.path).map (written.digest c.kind)).all (· ≠ value)
  | _ => false

theorem wrong_digest {s : Threads Shared Pc} {t : ℕ} (h : Wrong s t = true) :
    ∃ c value upto, s.pc t = .returned c value upto ∧
      ¬ ∃ b, Held s.shared c.since upto c.path b ∧ value = written.digest c.kind b := by
  unfold Wrong at h
  split at h
  · next c value upto hpc =>
    refine ⟨c, value, upto, hpc, fun ⟨b, hheld, hvalue⟩ => ?_⟩
    have hne := List.all_eq_true.mp h _ (List.mem_map_of_mem (mem_contents hheld))
    exact of_decide_eq_true hne hvalue.symm
  · cases h

/-- The file is replaced between the look and the opening, and comes back. -/
def back : List (ℕ × Event) :=
  [(0, .call "f" .SHA256), (0, .goes), (0, .goes), (2, .link "f" "g"), (2, .lands "f" [2]),
    (0, .goes), (0, .goes), (0, .goes), (0, .goes), (2, .replace "g" "f"),
    (1, .call "f" .SHA256), (1, .goes), (1, .goes)]

/-- The file is replaced by a longer one between the look and the opening. -/
def longer : List (ℕ × Event) :=
  [(0, .call "f" .GIT_SHA1), (0, .goes), (0, .goes), (2, .lands "f" [2, 2]),
    (0, .goes), (0, .goes), (0, .goes), (0, .goes)]

theorem led (script : List (ℕ × Event)) {s : Threads Shared Pc}
    (h : Program.follow (next written clock) ⟨oneFile [1], fun _ => .idle⟩ script = some s) :
    System.Reachable (calls written clock).system s :=
  Program.reach_follow (fun _ _ _ _ _ h => h) script (.init ⟨⟨rfl, rfl⟩, fun _ => rfl⟩) h
    fun _ _ _ => trivial

/-- **A digest that is no content's of the call**: of the file that had been there in between, and
of a blob whose size is another's. -/
theorem stale_digest :
    (∃ s, System.Reachable (calls written clock).system s ∧ ∃ c value upto,
      s.pc 1 = .returned c value upto ∧
        ¬ ∃ b, Held s.shared c.since upto c.path b ∧ value = written.digest c.kind b) ∧
    ∃ s, System.Reachable (calls written clock).system s ∧ ∃ c value upto,
      s.pc 0 = .returned c value upto ∧
        ¬ ∃ b, Held s.shared c.since upto c.path b ∧ value = written.digest c.kind b := by
  constructor
  · obtain ⟨s, hs, hw⟩ := Program.follow_to (R := fun s => Wrong s 1 = true)
      (Program.follow (next written clock) ⟨oneFile [1], fun _ => .idle⟩ back) (by decide)
    exact ⟨s, led back hs, wrong_digest hw⟩
  · obtain ⟨s, hs, hw⟩ := Program.follow_to (R := fun s => Wrong s 0 = true)
      (Program.follow (next written clock) ⟨oneFile [1], fun _ => .idle⟩ longer) (by decide)
    exact ⟨s, led longer hs, wrong_digest hw⟩

end Digest
