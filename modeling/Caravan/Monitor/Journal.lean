import Caravan.Framework.Assoc
import Caravan.Framework.Pieces
import Caravan.Framework.System
import Caravan.Python.Bytes
import Caravan.Python.Int
import Caravan.Python.Lines
import Caravan.Python.Utf8
import Mathlib.Order.Lattice.Nat

/-!
# When a port was last seen

`_day_seen` reads one day of the proxy's journal: when each port last served a request, and when
the embeddings were last called. A finished day is read once, and today's file from the size it
had at the last reading. The size is taken before the file is read, so bytes may be read twice;
what is gathered are latest times, and these do not mind. But a size, or the end of a reading,
may fall inside a line.

As long as none of these cuts a line that counts (`CutsNothing`), what the last reading answers
is what the ended lines of the whole file say (`seen_whole`). A line that counts and that a size
falls into is lost (`cut_line_lost`).
-/

namespace Journal

open Python Pieces

/-! ### One line -/

variable (I : Interp)

/-- The first digits after a key, as a number: `key(\d+)`, searched. -/
def searchNumber (key : Text) : Text → Option ℕ
  | [] => none
  | c :: t =>
    let ds := (((c :: t).drop key.length).map I.digit).takeWhile Option.isSome
    if key.isPrefixOf (c :: t) ∧ ds ≠ [] then
      some ((ds.filterMap id).foldl (fun n d => 10 * n + d.val) 0)
    else searchNumber key t

/-- `"status":(\d{3})`, searched. -/
def searchStatus : Text → Option Text
  | [] => none
  | c :: t =>
    let status := ((c :: t).drop ("\"status\":" : Text).length).take 3
    if ("\"status\":" : Text).isPrefixOf (c :: t) ∧ status.length = 3 ∧
        status.all (fun d => (I.digit d).isSome) then some status
    else searchStatus t

/-- `"path":"[^"]*/embeddings/?"`, searched. -/
def searchEmbeddings : Text → Bool
  | [] => false
  | c :: t =>
    let value := (c :: t).drop ("\"path\":\"" : Text).length
    let path := value.takeWhile (· ≠ codePoint '"')
    (("\"path\":\"" : Text).isPrefixOf (c :: t) && path.length ≠ value.length &&
      (("/embeddings" : Text).isSuffixOf path || ("/embeddings/" : Text).isSuffixOf path)) ||
      searchEmbeddings t

/-- What a line says: a time, whether it is a call for embeddings, and the port if the call
succeeded. -/
structure Mark where
  time : ℕ
  embeddings : Bool
  port : Option ℕ
  deriving DecidableEq, Repr

def markOf (line : Text) : Option Mark :=
  if line.contains "\"event\":\"finished\"" then
    match searchNumber I "\"time\":" line with
    | none => none
    | some time => some {
        time
        embeddings := searchEmbeddings line
        port := match searchStatus I line with
          | none => none
          | some status =>
            if ("2" : Text).isPrefixOf status then searchNumber I "\"port\":" line else none }
  else none

/-- `ports`, and `embeddings` with zero for none. -/
structure Seen where
  ports : List (ℕ × ℕ) := []
  embeddings : ℕ := 0
  deriving DecidableEq, Repr

/-- `ports.get(port, 0)` -/
def Seen.at (s : Seen) (port : ℕ) : ℕ := (Assoc.get s.ports port).getD 0

def Seen.add (s : Seen) (m : Mark) : Seen where
  embeddings := if m.embeddings && s.embeddings < m.time then m.time else s.embeddings
  ports := match m.port with
    | none => s.ports
    | some port => if s.at port < m.time then Assoc.set s.ports port m.time else s.ports

/-- The body of the loop over the lines. -/
def addLine (s : Seen) (line : Bytes) : Seen :=
  match markOf I (decodeUtf8 line) with
  | none => s
  | some m => s.add m

/-! ### A reading -/

/-- What a line ends at: `\n`, `\r`, or both, which leaves an empty line between. -/
def isEnd (c : UInt8) : Bool := c = Bytes.LF || c = Bytes.CR

/-- The loop over what is read. -/
def readLines (s : Seen) (b : Bytes) : Seen := (pieces isEnd b).foldl (addLine I) s

structure Entry where
  size : ℕ
  seen : Seen
  deriving DecidableEq, Repr

/-- Where a reading starts. -/
def startOf (cache : Option Entry) (size : ℕ) : ℕ :=
  match cache with
  | some e => if e.size ≤ size then e.size else 0
  | none => 0

/-- `_day_seen` of a file that had a size, and has these bytes when it is read. -/
def daySeen (cache : Option Entry) (size : ℕ) (file : Bytes) : Entry :=
  match cache with
  | some e => if e.size = size then e
    else ⟨size, readLines I e.seen (file.drop (startOf cache size))⟩
  | none => ⟨size, readLines I {} (file.drop (startOf cache size))⟩

/-- One parse of the ended lines of a file. -/
def wholeSeen (file : Bytes) : Seen := (complete isEnd file).foldl (addLine I) {}

/-- The same times. -/
def SameTimes (s t : Seen) : Prop :=
  (∀ port, Assoc.get s.ports port = Assoc.get t.ports port) ∧ s.embeddings = t.embeddings

/-! ### The file grows -/

/-- The file, what is cached of it, and what the file was when the last reading ended, which is
there for the statements only. -/
structure State where
  file : Bytes := []
  cache : Option Entry := none
  read : Bytes := []
  deriving DecidableEq, Repr

/-- A call answers from the cache. -/
def State.hit (s : State) : Prop := ∃ e, s.cache = some e ∧ e.size = s.file.length

instance (s : State) : Decidable s.hit :=
  match h : s.cache with
  | none => isFalse fun ⟨_, he, _⟩ => nomatch he.symm.trans h
  | some e =>
    if hsize : e.size = s.file.length then isTrue ⟨e, h, hsize⟩
    else isFalse fun ⟨_, he, hs⟩ => hsize (Option.some.inj (h.symm.trans he) ▸ hs)

/-- A call: the size is taken, some bytes are appended, and the file is read. -/
def State.call (s : State) (late : Bytes) : State :=
  if s.hit then s
  else {
    file := s.file ++ late
    cache := some (daySeen I s.cache s.file.length (s.file ++ late))
    read := s.file ++ late }

inductive Event where
  | append (b : Bytes)
  | call (late : Bytes)

inductive Step (s : State) : Event → State → Prop
  | append (b : Bytes) : Step s (.append b) { s with file := s.file ++ b }
  | call (late : Bytes) : Step s (.call late) (s.call I late)

/-- A day's file that is appended to, and read. -/
def day : System State Event where
  init s := s.file = [] ∧ s.cache = none ∧ s.read = []
  step s e s' := Step I s e s'

/-! ### Latest times -/

/-- The latest times, as numbers. -/
def Seen.times (s : Seen) : (ℕ → ℕ) × ℕ := (s.at, s.embeddings)

/-- What a mark counts for. -/
def Mark.times (m : Mark) : (ℕ → ℕ) × ℕ :=
  (fun port => if m.port = some port then m.time else 0, if m.embeddings then m.time else 0)

/-- What a line counts for. -/
def counts (line : Bytes) : (ℕ → ℕ) × ℕ :=
  match markOf I (decodeUtf8 line) with
  | none => ⊥
  | some m => m.times

/-- Only times that are later than none are kept. -/
def Seen.Positive (s : Seen) : Prop := ∀ port, Assoc.get s.ports port ≠ some 0

/-- What a call reads cuts no line that counts. -/
def CutsNothing (s : State) : Event → Prop
  | .append _ => True
  | .call late => s.hit ∨
      let start := startOf s.cache s.file.length
      Cut isEnd (counts I) (s.file.take start) (s.read.drop start) ((s.file ++ late).drop start)

section Times

variable {I} {s t : Seen}

theorem add_times (s : Seen) (m : Mark) : (s.add m).times = s.times ⊔ m.times := by
  refine Prod.ext (funext fun port => ?_) ?_
  · show (s.add m).at port = max (s.at port) (if m.port = some port then m.time else 0)
    unfold Seen.add
    cases hport : m.port with
    | none =>
      rw [if_neg (Option.some_ne_none _).symm, Nat.max_zero]
      rfl
    | some p =>
      dsimp only
      by_cases hlater : s.at p < m.time
      · rw [if_pos hlater, Seen.at, Assoc.get_set]
        by_cases hp : p = port
        · subst hp
          rw [if_pos rfl, if_pos rfl, Option.getD_some, Nat.max_eq_right hlater.le]
        · rw [if_neg (Ne.symm hp), if_neg fun h => hp (Option.some.inj h), Nat.max_zero]
          rfl
      · rw [if_neg hlater]
        by_cases hp : p = port
        · subst hp
          rw [if_pos rfl, Nat.max_eq_left (Nat.le_of_not_lt hlater)]
          rfl
        · rw [if_neg fun h => hp (Option.some.inj h), Nat.max_zero]
          rfl
  · show (if m.embeddings && s.embeddings < m.time then m.time else s.embeddings) =
      max s.embeddings (if m.embeddings then m.time else 0)
    cases m.embeddings with
    | false => exact (Nat.max_zero _).symm
    | true =>
      rw [Bool.true_and, if_pos rfl]
      by_cases hlater : s.embeddings < m.time
      · rw [decide_eq_true hlater, if_pos rfl, Nat.max_eq_right hlater.le]
      · rw [decide_eq_false hlater, if_neg Bool.false_ne_true,
          Nat.max_eq_left (Nat.le_of_not_lt hlater)]

theorem addLine_times (s : Seen) (line : Bytes) :
    (addLine I s line).times = s.times ⊔ counts I line := by
  unfold addLine counts
  split
  · exact (sup_bot_eq _).symm
  · exact add_times _ _

/-- What is gathered of some lines. -/
theorem foldl_times (s : Seen) (lines : List Bytes) :
    (lines.foldl (addLine I) s).times = s.times ⊔ tally (counts I) lines := by
  induction lines generalizing s with
  | nil => exact (sup_bot_eq _).symm
  | cons l lines ih => rw [List.foldl_cons, ih, addLine_times, tally_cons, sup_assoc]

theorem addLine_positive (h : s.Positive) (line : Bytes) : (addLine I s line).Positive := by
  unfold addLine
  split
  · exact h
  · next m _ =>
    intro port
    unfold Seen.add
    cases hport : m.port with
    | none => exact h port
    | some p =>
      dsimp only
      split
      · next hlater =>
        rw [Assoc.get_set]
        split
        · intro hzero
          rw [Option.some.inj hzero] at hlater
          exact Nat.not_lt_zero _ hlater
        · exact h port
      · exact h port

theorem foldl_positive (h : s.Positive) (lines : List Bytes) :
    (lines.foldl (addLine I) s).Positive := by
  induction lines generalizing s with
  | nil => exact h
  | cons l lines ih => exact ih (addLine_positive h l)

theorem positive_empty : Seen.Positive {} := fun _ h => nomatch h

/-- Among what is kept, the numbers say all. -/
theorem sameTimes_of_eq (hs : s.Positive) (ht : t.Positive) (h : s.times = t.times) :
    SameTimes s t := by
  refine ⟨fun port => ?_, congrArg Prod.snd h⟩
  have hport : (Assoc.get s.ports port).getD 0 = (Assoc.get t.ports port).getD 0 :=
    congrFun (congrArg Prod.fst h) port
  have hs := hs port
  have ht := ht port
  cases hgs : Assoc.get s.ports port with
  | none =>
    rw [hgs] at hport
    cases hgt : Assoc.get t.ports port with
    | none => rfl
    | some b =>
      rw [hgt] at hport ht
      exact absurd (congrArg some hport.symm) ht
  | some a =>
    rw [hgs] at hport hs
    cases hgt : Assoc.get t.ports port with
    | none =>
      rw [hgt] at hport
      exact absurd (congrArg some hport) hs
    | some b =>
      rw [hgt] at hport
      exact congrArg some hport

end Times

/-! ### The readings together -/

section Whole

variable {I} {s : State}

variable (I) in
/-- What is cached is what the ended lines say of the file as it was read last. -/
structure Inv (s : State) : Prop where
  read : s.read <+: s.file
  fresh : s.cache = none → s.read = []
  size : ∀ e ∈ s.cache, e.size ≤ s.read.length
  positive : ∀ e ∈ s.cache, e.seen.Positive
  times : ∀ e ∈ s.cache, e.seen.times = tally (counts I) (complete isEnd s.read)

theorem wholeSeen_times (file : Bytes) :
    (wholeSeen I file).times = tally (counts I) (complete isEnd file) := by
  rw [wholeSeen, foldl_times]
  exact bot_sup_eq _

/-- What a reading leaves, from where it starts on. -/
theorem readLines_times (hinv : Inv I s) {late : Bytes} {seen : Seen} {start : ℕ}
    (hstart : start ≤ s.read.length)
    (hseen : seen.times = tally (counts I) (complete isEnd s.read))
    (hcut : Cut isEnd (counts I) (s.file.take start) (s.read.drop start)
      ((s.file ++ late).drop start)) :
    (readLines I seen ((s.file ++ late).drop start)).times =
      tally (counts I) (complete isEnd (s.file ++ late)) := by
  obtain ⟨more, hmore⟩ := hinv.read
  have htake : s.file.take start = s.read.take start := by
    rw [← hmore, List.take_append_of_le_length hstart]
  have hread : s.file.take start ++ s.read.drop start = s.read := by
    rw [htake, List.take_append_drop]
  have hfile : s.file.take start ++ (s.file ++ late).drop start = s.file ++ late := by
    have hlength : start ≤ s.file.length := hstart.trans hinv.read.length_le
    have hsame : (s.file ++ late).take start = s.file.take start :=
      List.take_append_of_le_length hlength
    rw [← hsame, List.take_append_drop]
  have hpart : s.read.drop start <+: (s.file ++ late).drop start := by
    rw [← hmore, List.append_assoc, List.drop_append_of_le_length hstart]
    exact List.prefix_append _ _
  have hboth := read_on hpart hcut
  rw [hread, hfile] at hboth
  rw [readLines, foldl_times, hseen, hboth]

theorem call_inv (hinv : Inv I s) {late : Bytes} (hcut : CutsNothing I s (.call late)) :
    Inv I (s.call I late) ∧
      ∃ e, (s.call I late).cache = some e ∧ (s.call I late).read = (s.call I late).file := by
  unfold State.call
  by_cases hhit : s.hit
  · rw [if_pos hhit]
    obtain ⟨e, he, hsize⟩ := hhit
    -- the size is that of the last reading, so nothing was appended since
    have hlength := hinv.read.length_le
    have hread := hinv.size e he
    refine ⟨hinv, e, he, hinv.read.eq_of_length ?_⟩
    omega
  · rw [if_neg hhit]
    have hcut := hcut.resolve_left hhit
    have hstart : startOf s.cache s.file.length ≤ s.read.length := by
      unfold startOf
      cases hc : s.cache with
      | none => exact Nat.zero_le _
      | some e =>
        dsimp only
        split
        · exact hinv.size e hc
        · exact Nat.zero_le _
    have hday : (daySeen I s.cache s.file.length (s.file ++ late)).size = s.file.length ∧
        (daySeen I s.cache s.file.length (s.file ++ late)).seen.Positive ∧
        (daySeen I s.cache s.file.length (s.file ++ late)).seen.times =
          tally (counts I) (complete isEnd (s.file ++ late)) := by
      unfold daySeen
      cases hc : s.cache with
      | none =>
        rw [hc] at hstart hcut
        refine ⟨rfl, foldl_positive positive_empty _, readLines_times hinv hstart ?_ hcut⟩
        rw [hinv.fresh hc]
        rfl
      | some e =>
        rw [hc] at hstart hcut
        dsimp only
        rw [if_neg fun hsize => hhit ⟨e, hc, hsize⟩]
        exact ⟨rfl, foldl_positive (hinv.positive e hc) _,
          readLines_times hinv hstart (hinv.times e hc) hcut⟩
    refine ⟨⟨List.prefix_rfl, (fun hnone => nomatch hnone), fun e he => ?_,
      fun e he => ?_, fun e he => ?_⟩, _, rfl, rfl⟩
    all_goals obtain rfl := Option.some.inj he
    · rw [hday.1]
      exact (List.prefix_append _ _).length_le
    · exact hday.2.1
    · exact hday.2.2

theorem reach_inv (h : (day I).Reach (CutsNothing I) s) : Inv I s := by
  refine h.invariant (fun s h₀ => ?_) fun s e s' hinv hok hstep => ?_
  · obtain ⟨hfile, hcache, hread⟩ := h₀
    refine ⟨?_, fun _ => hread, ?_, ?_, ?_⟩
    · rw [hread]
      exact List.nil_prefix
    all_goals
      intro e he
      rw [hcache] at he
      cases he
  · cases hstep with
    | append b =>
      exact ⟨hinv.read.trans (List.prefix_append _ _), hinv.fresh, hinv.size, hinv.positive,
        hinv.times⟩
    | call late => exact (call_inv hinv hok).1

/-- **The last call answers what one parse of the ended lines says**, in the runs whose calls cut
no line that counts. -/
theorem seen_whole (I : Interp) (h : (day I).Reach (CutsNothing I) s) (late : Bytes)
    (hcut : CutsNothing I s (.call late)) :
    ∃ e, (s.call I late).cache = some e ∧
      SameTimes e.seen (wholeSeen I (s.call I late).file) := by
  obtain ⟨hinv, e, he, hread⟩ := call_inv (reach_inv h) hcut
  refine ⟨e, he, sameTimes_of_eq (hinv.positive e he) (foldl_positive positive_empty _) ?_⟩
  rw [hinv.times e he, wholeSeen_times, hread]

end Whole

/-! ### A line that is cut

A line is appended in two parts, and the file is read after each of them. -/

section CutLine

/-- A text of ASCII as bytes. -/
def ascii (t : Text) : Bytes := t.map fun c => c.val.toUInt8

def HEAD : Bytes := ascii "\x7b\"time\":5,\"event\":\"fin"

def TAIL : Bytes := ascii "ished\",\"port\":7,\"status\":200\x7d\n"

def cutRun : State :=
  { file := HEAD ++ TAIL, cache := some ⟨HEAD.length, {}⟩, read := HEAD }

theorem reach_cutRun : (day .ascii).Reachable cutRun := by
  have hstart : (day .ascii).Reachable {} := .init ⟨rfl, rfl, rfl⟩
  have hhead : (day .ascii).Reachable { file := HEAD } :=
    hstart.next (Step.append HEAD) trivial
  have hcall : (day .ascii).step { file := HEAD } (.call [])
      { file := HEAD, cache := some ⟨HEAD.length, {}⟩, read := HEAD } := by
    have hstep := Step.call (I := Interp.ascii) (s := { file := HEAD }) []
    have hafter : State.call .ascii { file := HEAD } [] =
        { file := HEAD, cache := some ⟨HEAD.length, {}⟩, read := HEAD } := by
      decide
    rwa [hafter] at hstep
  exact (hhead.next hcall trivial).next (Step.append TAIL) trivial

/-- **A line that a size falls into is lost**: the port is not seen, though the whole file says
when it was. -/
theorem cut_line_lost : (day .ascii).Reachable cutRun ∧ ∃ e,
    (cutRun.call .ascii []).cache = some e ∧
      ¬ SameTimes e.seen (wholeSeen .ascii (cutRun.call .ascii []).file) := by
  refine ⟨reach_cutRun, _, rfl, fun h => ?_⟩
  have hport := h.1 7
  revert hport
  decide

/-- A line that is appended as a whole is seen. -/
theorem seen_whole_line : ∃ e,
    (State.call .ascii { file := HEAD ++ TAIL } []).cache = some e ∧
      SameTimes e.seen (wholeSeen .ascii (State.call .ascii { file := HEAD ++ TAIL } []).file) := by
  have hstart : (day .ascii).Reach (CutsNothing .ascii) {} := .init ⟨rfl, rfl, rfl⟩
  have hwhole : (day .ascii).Reach (CutsNothing .ascii) { file := HEAD ++ TAIL } :=
    hstart.next (Step.append (HEAD ++ TAIL)) trivial
  -- the line is ended, so that the reading ends in nothing
  have hrest : rest isEnd ((HEAD ++ TAIL ++ []).drop (startOf none (HEAD ++ TAIL).length)) =
      [] := by
    decide
  refine seen_whole .ascii hwhole [] (.inr ⟨?_, fun h => absurd rfl h, fun h => absurd rfl h⟩)
  show counts .ascii (rest isEnd
    ((HEAD ++ TAIL ++ []).drop (startOf none (HEAD ++ TAIL).length))) = ⊥
  rw [hrest]
  rfl

end CutLine

end Journal
