import Caravan.Python.BigEndian
import Caravan.Python.Except

/-!
# The size of an image, from its header

`ImageHeader.size` looks at the bytes of a frame before anything decodes it.

* `size_answers` — it ends on any bytes and reads none past their end;
* `size_png`, `size_jpeg` — it gives the width and the height of a well-formed PNG's or JPEG's own
  header, whatever stands in the segments before it;
* `size_neither` — and `None` for bytes that start neither way.
-/

namespace ImageHeader

open Python

/-! ### The reading -/

/-- `IndexError`, and a slice that goes on past the end of the bytes. -/
inductive Fault where
  | index
  | past

/-- `PNG` -/
def PNG : Bytes := [0x89, 0x50, 0x4E, 0x47, 0x0D, 0x0A, 0x1A, 0x0A]

/-- `b"IHDR"` -/
def IHDR : Bytes := [0x49, 0x48, 0x44, 0x52]

/-- `SOF` -/
def SOF : List UInt8 :=
  [0xC0, 0xC1, 0xC2, 0xC3, 0xC5, 0xC6, 0xC7, 0xC9, 0xCA, 0xCB, 0xCD, 0xCE, 0xCF]

/-- `raw[pos]` -/
def byteAt (raw : Bytes) (pos : ℕ) : Except Fault UInt8 :=
  match raw[pos]? with
  | some b => .ok b
  | none => .error .index

/-- `int.from_bytes(raw[pos:pos + size], "big")` -/
def wordAt (raw : Bytes) (pos size : ℕ) : Except Fault ℕ :=
  if pos + size ≤ raw.length then .ok (fromBytes ((raw.drop pos).take size)) else .error .past

/-- The loop of `size` over the markers of a JPEG. -/
def scan (raw : Bytes) (pos : ℕ) : Except Fault (Option (ℕ × ℕ)) :=
  if _ : pos + 4 ≤ raw.length then do
    let first ← byteAt raw pos
    if first ≠ 0xFF then return none
    let marker ← byteAt raw (pos + 1)
    if marker = 0xFF then scan raw (pos + 1)
    else
      let length ← wordAt raw (pos + 2) 2
      if marker ∈ SOF ∧ pos + 9 ≤ raw.length then
        return some (← wordAt raw (pos + 7) 2, ← wordAt raw (pos + 5) 2)
      else scan raw (pos + 2 + length)
  else .ok none
termination_by raw.length - pos

/-- `size`: the width and the height. -/
def size (raw : Bytes) : Except Fault (Option (ℕ × ℕ)) :=
  if raw.take 8 = PNG ∧ 24 ≤ raw.length ∧ (raw.drop 12).take 4 = IHDR then do
    return some (← wordAt raw 16 4, ← wordAt raw 20 4)
  else if raw.take 2 ≠ [0xFF, 0xD8] then .ok none
  else scan raw 2

/-! ### Nothing past the end -/

theorem byteAt_lt {raw : Bytes} {pos : ℕ} (h : pos < raw.length) : ∃ b, byteAt raw pos = .ok b := by
  unfold byteAt
  rw [List.getElem?_eq_getElem h]
  exact ⟨raw[pos], rfl⟩

theorem wordAt_le {raw : Bytes} {pos size : ℕ} (h : pos + size ≤ raw.length) :
    ∃ n, wordAt raw pos size = .ok n :=
  ⟨_, if_pos h⟩

/-- One turn of the loop. -/
theorem scan_turn {raw : Bytes} {pos : ℕ} (h : pos + 4 ≤ raw.length) {first marker : UInt8}
    {length : ℕ} (hfirst : byteAt raw pos = .ok first) (hmarker : byteAt raw (pos + 1) = .ok marker)
    (hlength : wordAt raw (pos + 2) 2 = .ok length) :
    scan raw pos =
      if first ≠ 0xFF then .ok none
      else if marker = 0xFF then scan raw (pos + 1)
      else if marker ∈ SOF ∧ pos + 9 ≤ raw.length then do
        return some (← wordAt raw (pos + 7) 2, ← wordAt raw (pos + 5) 2)
      else scan raw (pos + 2 + length) := by
  rw [scan, dif_pos h, hfirst]
  show (if first ≠ 0xFF then _ else _) = _
  by_cases hff : first ≠ 0xFF
  · rw [if_pos hff, if_pos hff]
    rfl
  rw [if_neg hff, if_neg hff, hmarker]
  show (if marker = 0xFF then _ else _) = _
  by_cases hfill : marker = 0xFF
  · rw [if_pos hfill, if_pos hfill]
  rw [if_neg hfill, if_neg hfill, hlength]
  rfl

theorem scan_answers (raw : Bytes) (pos : ℕ) : ∃ found, scan raw pos = .ok found := by
  -- by how many bytes are left
  induction hleft : raw.length - pos using Nat.strong_induction_on generalizing pos with
  | h left ih =>
    by_cases h : pos + 4 ≤ raw.length
    · obtain ⟨first, hfirst⟩ : ∃ b, byteAt raw pos = .ok b := byteAt_lt (by omega)
      obtain ⟨marker, hmarker⟩ : ∃ b, byteAt raw (pos + 1) = .ok b := byteAt_lt (by omega)
      obtain ⟨length, hlength⟩ : ∃ n, wordAt raw (pos + 2) 2 = .ok n := wordAt_le (by omega)
      rw [scan_turn h hfirst hmarker hlength]
      split
      · exact ⟨none, rfl⟩
      split
      · exact ih _ (by omega) (pos + 1) rfl
      split
      · next hsof =>
        obtain ⟨width, hwidth⟩ : ∃ n, wordAt raw (pos + 7) 2 = .ok n := wordAt_le (by omega)
        obtain ⟨height, hheight⟩ : ∃ n, wordAt raw (pos + 5) 2 = .ok n := wordAt_le (by omega)
        rw [hwidth, hheight]
        exact ⟨some (width, height), rfl⟩
      · exact ih _ (by omega) (pos + 2 + length) rfl
    · rw [scan, dif_neg h]
      exact ⟨none, rfl⟩

/-- **It ends**, and never reads past the end. -/
theorem size_answers (raw : Bytes) : ∃ found, size raw = .ok found := by
  unfold size
  split
  · next h =>
    obtain ⟨width, hwidth⟩ : ∃ n, wordAt raw 16 4 = .ok n := wordAt_le (by omega)
    obtain ⟨height, hheight⟩ : ∃ n, wordAt raw 20 4 = .ok n := wordAt_le (by omega)
    rw [hwidth, hheight]
    exact ⟨some (width, height), rfl⟩
  split
  · exact ⟨none, rfl⟩
  · exact scan_answers raw 2

/-! ### PNG -/

/-- A PNG: its signature, its header's chunk, and what follows in the chunk and after it. -/
structure Png where
  width : ℕ
  height : ℕ
  rest : Bytes
  width_lt : width < 2 ^ 32
  height_lt : height < 2 ^ 32

def Png.bytes (png : Png) : Bytes :=
  PNG ++ (toBytes 4 13 ++ (IHDR ++ (toBytes 4 png.width ++ (toBytes 4 png.height ++ png.rest))))

/-- A number that stands at an offset. -/
theorem wordAt_drop {raw t : Bytes} {pos size n : ℕ} (h : raw.drop pos = toBytes size n ++ t)
    (hsize : 0 < size) (hn : n < 256 ^ size) : wordAt raw pos size = .ok n := by
  have hlen : raw.length - pos = size + t.length := by
    rw [← List.length_drop, h, List.length_append, length_toBytes]
  have hword : (raw.drop pos).take size = toBytes size n := by
    rw [h]
    exact List.take_left' (length_toBytes size n)
  unfold wordAt
  rw [if_pos (by omega), hword, fromBytes_toBytes hn]

theorem byteAt_drop {raw t : Bytes} {pos : ℕ} {b : UInt8} (h : raw.drop pos = b :: t) :
    byteAt raw pos = .ok b := by
  have hb : raw[pos]? = some b := by
    rw [← List.head?_drop, h]
    rfl
  unfold byteAt
  rw [hb]

/-- What stands after something that stands at an offset. -/
theorem drop_after {raw s t : Bytes} {pos : ℕ} (h : raw.drop pos = s ++ t) :
    raw.drop (pos + s.length) = t := by
  rw [← List.drop_drop, h, List.drop_left]

theorem drop_next {raw t : Bytes} {pos : ℕ} {b : UInt8} (h : raw.drop pos = b :: t) :
    raw.drop (pos + 1) = t :=
  drop_after (s := [b]) h

theorem size_png (png : Png) : size png.bytes = .ok (some (png.width, png.height)) := by
  have hhead : png.bytes.drop 12 =
      IHDR ++ (toBytes 4 png.width ++ (toBytes 4 png.height ++ png.rest)) := rfl
  have hwidth : png.bytes.drop 16 = toBytes 4 png.width ++ (toBytes 4 png.height ++ png.rest) := rfl
  have hheight : png.bytes.drop 20 = toBytes 4 png.height ++ png.rest := by
    have hafter := drop_after hwidth
    rwa [length_toBytes] at hafter
  have hpng : png.bytes.take 8 = PNG ∧ 24 ≤ png.bytes.length ∧
      (png.bytes.drop 12).take 4 = IHDR := by
    refine ⟨rfl, ?_, rfl⟩
    have hlen : png.bytes.length = 8 + (4 + (4 + (4 + (4 + png.rest.length)))) := by
      unfold Png.bytes
      simp only [List.length_append, length_toBytes]
      rfl
    omega
  unfold size
  rw [if_pos hpng, wordAt_drop hwidth (by decide) png.width_lt,
    wordAt_drop hheight (by decide) png.height_lt]
  rfl

/-! ### JPEG -/

/-- The code of a segment: it has a length, and it is no frame header's. -/
def Tabled (marker : UInt8) : Prop :=
  marker ∉ SOF ∧ marker ≠ 0xFF ∧ marker ≠ 0x00 ∧ marker ≠ 0x01 ∧ ¬(0xD0 ≤ marker ∧ marker ≤ 0xD9)

/-- A segment before the frame header: fill bytes, its marker, and as many bytes as its length says,
whatever they are. -/
structure Segment where
  fill : ℕ
  marker : UInt8
  payload : Bytes
  tabled : Tabled marker
  length_lt : payload.length + 2 < 2 ^ 16

def Segment.bytes (segment : Segment) : Bytes :=
  List.replicate segment.fill 0xFF ++ (0xFF :: segment.marker ::
    (toBytes 2 (segment.payload.length + 2) ++ segment.payload))

/-- The frame header: its marker, length and precision, the image's size, and the rest of it. -/
structure Frame where
  fill : ℕ
  marker : UInt8
  precision : UInt8
  height : ℕ
  width : ℕ
  components : Bytes
  sof : marker ∈ SOF
  height_lt : height < 2 ^ 16
  width_lt : width < 2 ^ 16
  length_lt : components.length + 7 < 2 ^ 16

def Frame.bytes (frame : Frame) : Bytes :=
  List.replicate frame.fill 0xFF ++ (0xFF :: frame.marker ::
    (toBytes 2 (frame.components.length + 7) ++ (frame.precision ::
      (toBytes 2 frame.height ++ (toBytes 2 frame.width ++ frame.components)))))

/-- A JPEG: the start of the image, any segments, the frame header, and the scans. -/
structure Jpeg where
  segments : List Segment
  frame : Frame
  scans : Bytes

def Jpeg.bytes (jpeg : Jpeg) : Bytes :=
  0xFF :: 0xD8 :: (jpeg.segments.flatMap Segment.bytes ++ (jpeg.frame.bytes ++ jpeg.scans))

/-- **Fill bytes** are gone over one by one. -/
theorem scan_fill {raw t : Bytes} {pos fill : ℕ} (ht : 3 ≤ t.length)
    (h : raw.drop pos = List.replicate fill 0xFF ++ (0xFF :: t)) :
    scan raw pos = scan raw (pos + fill) := by
  induction fill generalizing pos with
  | zero => rfl
  | succ fill ih =>
    have hone : raw.drop pos = 0xFF :: (List.replicate fill 0xFF ++ (0xFF :: t)) := h
    have hnext : raw.drop (pos + 1) = List.replicate fill 0xFF ++ (0xFF :: t) := by
      rw [← List.drop_drop, hone]
      rfl
    have hlen : raw.length - pos = fill + 1 + (t.length + 1) := by
      rw [← List.length_drop, h, List.length_append, List.length_replicate]
      rfl
    have hmarker : byteAt raw (pos + 1) = .ok 0xFF := by
      cases fill with
      | zero => exact byteAt_drop hnext
      | succ fill =>
        have hsecond : raw.drop (pos + 1) = 0xFF :: (List.replicate fill 0xFF ++ (0xFF :: t)) :=
          hnext
        exact byteAt_drop hsecond
    obtain ⟨length, hlength⟩ : ∃ n, wordAt raw (pos + 2) 2 = .ok n := wordAt_le (by omega)
    rw [scan_turn (by omega) (byteAt_drop hone) hmarker hlength, if_neg (not_not.mpr rfl),
      if_pos rfl, ih hnext]
    congr 1
    omega

/-- **A segment** is gone over whole. -/
theorem scan_segment {raw t : Bytes} {pos : ℕ} (segment : Segment)
    (h : raw.drop pos = segment.bytes ++ t) :
    scan raw pos = scan raw (pos + segment.bytes.length) := by
  obtain ⟨fill, marker, payload, htabled, hlt⟩ := segment
  have hfill : raw.drop pos = List.replicate fill 0xFF ++ (0xFF :: marker ::
      (toBytes 2 (payload.length + 2) ++ (payload ++ t))) := by
    rw [h]
    unfold Segment.bytes
    simp only [List.append_assoc, List.cons_append]
  have hlength : (toBytes 2 (payload.length + 2)).length = 2 := length_toBytes 2 _
  rw [scan_fill (by simp only [List.length_cons, List.length_append]; omega) hfill]
  have hfirst := drop_after hfill
  rw [List.length_replicate] at hfirst
  have hmarker := drop_next hfirst
  have hword := drop_next hmarker
  have hlen : raw.length - (pos + fill) = 2 + (2 + (payload.length + t.length)) := by
    rw [← List.length_drop, hfirst]
    simp only [List.length_cons, List.length_append, hlength]
    omega
  rw [scan_turn (by omega) (byteAt_drop hfirst) (byteAt_drop hmarker)
    (wordAt_drop hword (by decide) hlt), if_neg (not_not.mpr rfl), if_neg htabled.2.1,
    if_neg fun h => htabled.1 h.1]
  congr 1
  unfold Segment.bytes
  simp only [List.length_append, List.length_cons, List.length_replicate, hlength]
  omega

/-- **The frame header** is where the size is read. -/
theorem scan_frame {raw t : Bytes} {pos : ℕ} (frame : Frame)
    (h : raw.drop pos = frame.bytes ++ t) :
    scan raw pos = .ok (some (frame.width, frame.height)) := by
  obtain ⟨fill, marker, precision, height, width, components, hsof, hheight, hwidth, hlt⟩ := frame
  have hfill : raw.drop pos = List.replicate fill 0xFF ++ (0xFF :: marker ::
      (toBytes 2 (components.length + 7) ++ (precision :: (toBytes 2 height ++
        (toBytes 2 width ++ (components ++ t)))))) := by
    rw [h]
    unfold Frame.bytes
    simp only [List.append_assoc, List.cons_append]
  have hlength := length_toBytes 2
  rw [scan_fill (by simp only [List.length_cons, List.length_append, hlength]; omega) hfill]
  have hfirst := drop_after hfill
  rw [List.length_replicate] at hfirst
  have hmarker := drop_next hfirst
  have hword := drop_next hmarker
  have hprecision := drop_after hword
  rw [hlength] at hprecision
  have hhigh := drop_next hprecision
  have hwide := drop_after hhigh
  rw [hlength] at hwide
  have hlen : raw.length - (pos + fill) =
      2 + (2 + (1 + (2 + (2 + (components.length + t.length))))) := by
    rw [← List.length_drop, hfirst]
    simp only [List.length_cons, List.length_append, hlength]
    omega
  have hsize : marker ≠ 0xFF := by
    rintro rfl
    exact absurd hsof (by decide)
  rw [scan_turn (by omega) (byteAt_drop hfirst) (byteAt_drop hmarker)
    (wordAt_drop hword (by decide) hlt), if_neg (not_not.mpr rfl), if_neg hsize,
    if_pos ⟨hsof, by omega⟩]
  show (do return some (← wordAt raw (pos + fill + 1 + 1 + 2 + 1 + 2) 2,
    ← wordAt raw (pos + fill + 1 + 1 + 2 + 1) 2)) = _
  rw [wordAt_drop hwide (by decide) hwidth, wordAt_drop hhigh (by decide) hheight]
  rfl

theorem scan_segments {raw t : Bytes} (segments : List Segment) {pos : ℕ}
    (h : raw.drop pos = segments.flatMap Segment.bytes ++ t) :
    scan raw pos = scan raw (pos + (segments.flatMap Segment.bytes).length) := by
  induction segments generalizing pos with
  | nil => rfl
  | cons segment segments ih =>
    rw [List.flatMap_cons, List.append_assoc] at h
    rw [scan_segment segment h, ih (drop_after h), List.flatMap_cons, List.length_append,
      Nat.add_assoc]

theorem size_jpeg (jpeg : Jpeg) :
    size jpeg.bytes = .ok (some (jpeg.frame.width, jpeg.frame.height)) := by
  have hpng : ¬(jpeg.bytes.take 8 = PNG ∧ 24 ≤ jpeg.bytes.length ∧
      (jpeg.bytes.drop 12).take 4 = IHDR) := by
    intro h
    have hhead : some (0xFF : UInt8) = some 0x89 := congrArg List.head? h.1
    exact absurd hhead (by decide)
  have hstart : ¬jpeg.bytes.take 2 ≠ [0xFF, 0xD8] := not_not.mpr rfl
  have hdrop : jpeg.bytes.drop 2 =
      jpeg.segments.flatMap Segment.bytes ++ (jpeg.frame.bytes ++ jpeg.scans) := rfl
  unfold size
  rw [if_neg hpng, if_neg hstart, scan_segments jpeg.segments hdrop]
  exact scan_frame jpeg.frame (drop_after hdrop)

theorem size_neither {raw : Bytes} (hpng : ¬PNG <+: raw) (hjpeg : ¬[0xFF, 0xD8] <+: raw) :
    size raw = .ok none := by
  have hsig : ¬(raw.take 8 = PNG ∧ 24 ≤ raw.length ∧ (raw.drop 12).take 4 = IHDR) := by
    intro h
    exact hpng (h.1 ▸ List.take_prefix 8 raw)
  have hstart : raw.take 2 ≠ [0xFF, 0xD8] := by
    intro h
    exact hjpeg (h ▸ List.take_prefix 2 raw)
  unfold size
  rw [if_neg hsig, if_pos hstart]

/-- **The size of an image's own header**: the reading ends on any bytes and within them, it gives
the size of every PNG and every JPEG, and nothing for bytes that start neither way. -/
theorem size_spec :
    (∀ raw, ∃ found, size raw = .ok found) ∧
    (∀ png : Png, size png.bytes = .ok (some (png.width, png.height))) ∧
    (∀ jpeg : Jpeg, size jpeg.bytes = .ok (some (jpeg.frame.width, jpeg.frame.height))) ∧
    ∀ raw : Bytes, ¬PNG <+: raw → ¬[0xFF, 0xD8] <+: raw → size raw = .ok none :=
  ⟨size_answers, size_png, size_jpeg, fun _ => size_neither⟩

end ImageHeader
