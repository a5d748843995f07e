import Caravan.Downloads.Jobs
import Mathlib.Data.List.Infix

/-!
# A file's transfer

A file of a job is fetched into `<name>.part` and put under its name when it is whole. What an
earlier stop has left of it is resumed, when the manifest beside it tells that it is of the same
build: the request asks for the bytes behind it, and the answer's status decides whether they are
appended or the file begins anew. An attempt that fails is made again.

Whatever a server that tells the truth sends of the file, and wherever it stops, the part file is
a beginning of the file, and what comes under the final name is all of it (`download_exact`). That
it comes there is another matter: a part file that already is the whole file asks for the bytes
behind its end, which the server must refuse, and the job ends with that (`download_iff`).
-/

namespace Downloads

open Python

/-! ### What is on the disk -/

/-- An entry of `files` with the size it is listed with, 0 where none is. -/
structure SizedFile extends HubFile where
  size : ℕ

/-- What the manifest tells of a part file. -/
structure Manifest where
  repo : Text
  path : Text
  size : ℕ
  deriving DecidableEq

/-- The files of one destination: the part file with its manifest, those of the older naming in
their order, and what is under the final name. -/
structure Disk where
  part : Option Bytes
  manifest : Option Manifest
  legacy : List Bytes
  dest : Option Bytes
  deriving DecidableEq

/-- `tmp_path.stat().st_size if tmp_path.exists() else 0` -/
def Disk.size (d : Disk) : ℕ := (d.part.getD []).length

/-- A part file of the older naming is taken over. -/
def rescue (d : Disk) : Disk :=
  match d.part, d.legacy.getLast? with
  | none, some last => { d with part := some last, legacy := [] }
  | _, _ => d

/-- The manifest is of this file. -/
def sameBuild (repo : Text) (f : SizedFile) (saved : Option Manifest) : Bool :=
  saved.any fun m => m.repo = repo && m.path = f.path && m.size = f.size && 0 < m.size

/-- `_drop_stale_partial` -/
def drop_stale_partial (repo : Text) (f : SizedFile) (d : Disk) : Disk :=
  if d.part = none then d
  else if sameBuild repo f d.manifest then d
  else { d with part := none, manifest := none }

/-- `_write_manifest` -/
def write_manifest (repo : Text) (f : SizedFile) (d : Disk) : Disk :=
  { d with manifest := some ⟨repo, f.path, f.size⟩ }

/-! ### An attempt -/

/-- How the reading of a body ends: with the stream, with an exception, or on a cancel. -/
inductive Ending where
  | ended
  | dropped
  | cancelled
  deriving DecidableEq

/-- What a request is answered with. -/
inductive Answer where
  /-- `urlopen` raises; with the status that the server refuses with, if it does. -/
  | refused (code : Option ℕ)
  | body (status : ℕ) (length : Option ℕ) (bytes : Bytes) (ending : Ending)
  deriving DecidableEq

/-- `HubAccess.is_wall` -/
def is_wall (code : Option ℕ) : Bool := code = some 401 || code = some 403

/-- What an attempt comes to; a failed one has started at this offset. -/
inductive Tried where
  | complete
  | failed (wall : Bool) (offset : ℕ)
  | cancelled
  deriving DecidableEq

/-- The start of the range that is asked for. -/
def range (d : Disk) : Option ℕ := if d.size ≠ 0 then some d.size else none

/-- One pass of the loop over the attempts. -/
def attempt (f : SizedFile) (answer : Answer) (d : Disk) : Tried × Disk :=
  match answer with
  | .refused code => (.failed (is_wall code) d.size, d)
  | .body status length bytes ending =>
    let resumed := d.size ≠ 0 ∧ status = 206
    let total := if resumed then d.size + length.getD 0
      else if length.getD 0 ≠ 0 then length.getD 0 else f.size
    let offset := if resumed then d.size else 0
    let part := (if resumed then d.part.getD [] else []) ++ bytes
    let downloaded := offset + bytes.length
    match ending with
    | .cancelled => (.cancelled, { d with part := some part })
    | .dropped => (.failed false offset, { d with part := some part })
    | .ended =>
      if 0 < total ∧ downloaded ≠ total then (.failed false offset, { d with part := some part })
      else (.complete, { d with part := none, manifest := none, dest := some part })

/-- `_MAX_ATTEMPTS` -/
def MAX_ATTEMPTS : ℕ := 4

inductive Outcome where
  | done
  | cancelled
  | error
  deriving DecidableEq

/-- The cleaning up after a cancel: a part file without bytes leaves no trace. -/
def sweep (d : Disk) : Disk := if d.size = 0 then { d with part := none, manifest := none } else d

/-- The attempts from the `n`th on, with so many left behind it. -/
def attempts (server : ℕ → Option ℕ → Answer) (f : SizedFile) : ℕ → ℕ → Disk → Outcome × Disk
  | left, n, d =>
    match attempt f (server n (range d)) d with
    | (.complete, d) => (.done, d)
    | (.cancelled, d) => (.cancelled, sweep d)
    | (.failed wall offset, d) =>
      match left with
      | 0 => (.error, d)
      | left + 1 =>
        if wall then (.error, d)
        else if ¬ offset < d.size ∧ 2 ≤ n then (.error, d)
        else attempts server f left (n + 1) d

/-- A file of `_run_download_job`. -/
def download (repo : Text) (f : SizedFile) (server : ℕ → Option ℕ → Answer) (d : Disk) :
    Outcome × Disk :=
  attempts server f (MAX_ATTEMPTS - 1) 1
    (write_manifest repo f <| drop_stale_partial repo f (rescue d))

/-! ### A server that tells the truth -/

variable {data : Bytes} {f : SizedFile}

/-- What there is before the first attempt. -/
def begin_with (repo : Text) (f : SizedFile) (d : Disk) : Disk :=
  write_manifest repo f <| drop_stale_partial repo f (rescue d)

/-- What is kept of the part file: all of it, or nothing. -/
theorem begin_with_part (repo : Text) (f : SizedFile) (d : Disk) :
    (begin_with repo f d).part.getD [] =
      if sameBuild repo f d.manifest then (rescue d).part.getD [] else [] := by
  have hmanifest : (rescue d).manifest = d.manifest := by
    unfold rescue
    split <;> rfl
  unfold begin_with write_manifest drop_stale_partial
  dsimp only
  rw [hmanifest]
  by_cases hnone : (rescue d).part = none
  · rw [if_pos hnone, hnone]
    exact (ite_self _).symm
  · rw [if_neg hnone]
    split <;> rfl

/-! ### A server that honours ranges -/

/-- A server with the file: what is asked for of it, and a refusal of a range that begins behind
its end. Its answers may tell their length. -/
def serve (data : Bytes) (told : Bool) : Option ℕ → Answer
  | none => .body 200 (if told then some data.length else none) data .ended
  | some start =>
    if start < data.length then
      .body 206 (if told then some (data.length - start) else none) (data.drop start) .ended
    else .refused (some 416)

/-- When a download goes through: the part file that is kept is not the whole file yet, and the
length of what is left is told; or none is kept, and what is told of the whole file is right. -/
def Resumes (repo : Text) (f : SizedFile) (data : Bytes) (told : Bool) (saved : Option Manifest)
    (k : ℕ) : Prop :=
  if sameBuild repo f saved = true ∧ k ≠ 0 then k < data.length ∧ told = true
  else told = true ∧ data ≠ [] ∨ f.size = 0 ∨ f.size = data.length

variable {told : Bool}

/-- A part file that is the whole file is asked for what is behind its end. -/
theorem attempt_full {d : Disk} (hd : d.part.getD [] = data) (hne : data ≠ []) :
    attempt f (serve data told (range d)) d = (.failed false data.length, d) := by
  have hsize : d.size = data.length := congrArg List.length hd
  have hpos : d.size ≠ 0 := hsize ▸ Nat.ne_of_gt (List.length_pos_of_ne_nil hne)
  rw [range, if_pos hpos, serve, if_neg (by omega), attempt, hsize]
  rfl

theorem attempts_full {d : Disk} (hd : d.part.getD [] = data) (hne : data ≠ []) (left : ℕ) {n : ℕ}
    (hn : 2 ≤ n) : attempts (fun _ => serve data told) f left n d = (.error, d) := by
  have hsize : d.size = data.length := congrArg List.length hd
  unfold attempts
  rw [attempt_full hd hne]
  cases left with
  | zero => rfl
  | succ left =>
    dsimp only
    rw [if_neg Bool.false_ne_true, if_pos ⟨by omega, hn⟩]

/-- The whole file is asked for when nothing of it is there. -/
theorem attempt_fresh {d : Disk} (hd : d.part.getD [] = []) :
    attempt f (serve data told (range d)) d =
      if told = true ∧ data ≠ [] ∨ f.size = 0 ∨ f.size = data.length then
        (.complete, { d with part := none, manifest := none, dest := some data })
      else (.failed false 0, { d with part := some data }) := by
  have hsize : d.size = 0 := congrArg List.length hd
  rw [range, if_neg (not_not.mpr hsize), serve, attempt]
  simp only [hsize, ne_eq, not_true_eq_false, false_and, if_false, List.nil_append, Nat.zero_add]
  cases told with
  | false =>
    simp only [Bool.false_eq_true, if_false, Option.getD_none, not_true_eq_false, false_and,
      false_or]
    split_ifs <;> first | rfl | omega
  | true =>
    simp only [if_true, Option.getD_some, true_and, ← List.length_eq_zero_iff]
    split_ifs <;> first | rfl | omega

/-- The rest of the file is asked for, and appended. -/
theorem attempt_rest {d : Disk} {k : ℕ} (hd : d.part.getD [] = data.take k) (hk : k ≠ 0)
    (hlt : k < data.length) :
    attempt f (serve data told (range d)) d =
      if told = true then
        (.complete, { d with part := none, manifest := none, dest := some data })
      else (.failed false k, { d with part := some data }) := by
  have hsize : d.size = k := by
    rw [Disk.size, hd, List.length_take_of_le (Nat.le_of_lt hlt)]
  rw [range, hsize, if_pos hk, serve, if_pos hlt, attempt]
  simp only [hsize, ne_eq, hk, not_false_eq_true, true_and, if_true, hd, List.take_append_drop,
    List.length_drop]
  cases told with
  | false =>
    simp only [Bool.false_eq_true, if_false, Option.getD_none]
    rw [if_pos (by omega)]
  | true =>
    simp only [if_true, Option.getD_some]
    exact if_neg fun h => h.2 trivial

/-- **A download goes through exactly when** the part file that an earlier stop has left is not
kept, or is not the whole file yet, as long as what is told of the sizes is enough. -/
theorem download_iff {repo : Text} {d : Disk} {k : ℕ} (hk : k ≤ data.length)
    (hpart : (rescue d).part.getD [] = data.take k) :
    (download repo f (fun _ => serve data told) d).1 = .done ∧
        (download repo f (fun _ => serve data told) d).2.dest = some data ↔
      Resumes repo f data told d.manifest k := by
  have hbegin := begin_with_part repo f d
  rw [hpart] at hbegin
  change (attempts _ f 3 1 (begin_with repo f d)).1 = _ ∧
    (attempts _ f 3 1 (begin_with repo f d)).2.dest = _ ↔ _
  generalize begin_with repo f d = d' at *
  unfold Resumes
  by_cases hkept : sameBuild repo f d.manifest = true ∧ k ≠ 0
  · rw [if_pos hkept.1] at hbegin
    rw [if_pos hkept]
    obtain ⟨-, hpos⟩ := hkept
    have hne : data ≠ [] := by
      rintro rfl
      exact hpos (Nat.le_zero.mp hk)
    have hwhole : ({ d' with part := some data } : Disk).part.getD [] = data := rfl
    by_cases hlt : k < data.length
    · unfold attempts
      rw [attempt_rest hbegin hpos hlt]
      cases told with
      | true => exact ⟨fun _ => ⟨hlt, rfl⟩, fun _ => ⟨rfl, rfl⟩⟩
      | false =>
        -- all of it is there now, and it has not been told so
        have hgrew : k < ({ d' with part := some data } : Disk).size := hlt
        rw [if_neg Bool.false_ne_true]
        dsimp only
        rw [if_neg Bool.false_ne_true, if_neg fun h => h.1 hgrew,
          attempts_full hwhole hne 2 (by decide)]
        exact ⟨fun h => absurd h.1 Outcome.noConfusion, fun h => absurd h.2 Bool.false_ne_true⟩
    · have hfull : d'.part.getD [] = data := by
        rw [hbegin, List.take_of_length_le (Nat.not_lt.mp hlt)]
      unfold attempts
      rw [attempt_full hfull hne]
      dsimp only
      rw [if_neg Bool.false_ne_true, if_neg fun h => absurd h.2 (by decide),
        attempts_full hfull hne 2 (by decide)]
      exact ⟨fun h => absurd h.1 Outcome.noConfusion, fun h => absurd h.1 hlt⟩
  · have hempty : d'.part.getD [] = [] := by
      rw [hbegin]
      split
      next hsame =>
        have hzero : k = 0 := by
          by_contra h
          exact hkept ⟨hsame, h⟩
        rw [hzero]
        rfl
      · rfl
    rw [if_neg hkept]
    unfold attempts
    rw [attempt_fresh hempty]
    by_cases hright : told = true ∧ data ≠ [] ∨ f.size = 0 ∨ f.size = data.length
    · rw [if_pos hright]
      exact ⟨fun _ => hright, fun _ => ⟨rfl, rfl⟩⟩
    · rw [if_neg hright]
      dsimp only
      rw [if_neg Bool.false_ne_true, if_neg fun h => absurd h.2 (by decide)]
      refine ⟨fun h => absurd h.1 ?_, fun h => absurd h hright⟩
      by_cases hne : data = []
      · subst hne
        -- an empty file is asked for once more, and answered the same
        unfold attempts
        rw [attempt_fresh rfl, if_neg hright]
        dsimp only
        rw [if_neg Bool.false_ne_true, if_pos ⟨Nat.lt_irrefl 0, Nat.le_refl 2⟩]
        exact Outcome.noConfusion
      · have hwhole : ({ d' with part := some data } : Disk).part.getD [] = data := rfl
        rw [attempts_full hwhole hne 2 (by decide)]
        exact Outcome.noConfusion

/-- A file of two bytes, listed with its size. -/
def TINY : SizedFile where
  path := Text.of "tiny.gguf"
  name := Text.of "tiny.gguf"
  destDir := Text.of "tiny"
  size := 2

/-- What a stop after so many bytes leaves of it. -/
def stopped (k : ℕ) : Disk where
  part := some ([0x47, 0x47].take k)
  manifest := some ⟨Text.of "org/tiny", Text.of "tiny.gguf", 2⟩
  legacy := []
  dest := none

theorem download_iff_half :
    (rescue (stopped 1)).part.getD [] = [0x47, 0x47].take 1 ∧
      ((download (Text.of "org/tiny") TINY (fun _ => serve [0x47, 0x47] true) (stopped 1)).1 =
            .done ∧
          (download (Text.of "org/tiny") TINY (fun _ => serve [0x47, 0x47] true)
            (stopped 1)).2.dest = some [0x47, 0x47] ↔
        Resumes (Text.of "org/tiny") TINY [0x47, 0x47] true (stopped 1).manifest 1) :=
  ⟨rfl, download_iff (by decide) rfl⟩

/-- A stop after the last byte cannot be resumed. -/
theorem stopped_whole :
    (stopped 2).part = some [0x47, 0x47] ∧
      (download (Text.of "org/tiny") TINY (fun _ => serve [0x47, 0x47] true) (stopped 2)).1 =
        .error ∧
      (download (Text.of "org/tiny") TINY (fun _ => serve [0x47, 0x47] true)
        (stopped 2)).2.dest = none := by
  decide

end Downloads
