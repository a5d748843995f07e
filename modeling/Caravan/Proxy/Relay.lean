import Caravan.Proxy.Books

/-!
# The relay of a native event stream

The relay reads the upstream's stream by `readline(65536)`, whatever the chunks of the
transfer are, and hands on what it reads until one of these pieces holds the text
`data: [DONE]`. That is a search, not a comparison: a delta in which the model has written
these words ends the relay as the terminal line does.

`terminal` is where the first line of the stream that is exactly the marker ends, by the
line ends of the event stream format. The client gets everything up to there if and only
if no piece before holds the marker, no piece's summary raises and nothing else ends the
relay (`relay_complete_iff`).
-/

namespace Proxy.Relay

open Python

/-- `STREAM_DONE_MARKER` -/
def DONE : Bytes := [0x64, 0x61, 0x74, 0x61, 0x3A, 0x20, 0x5B, 0x44, 0x4F, 0x4E, 0x45, 0x5D]

example : encodeUtf8 "data: [DONE]" = some DONE := by decide

def LF : UInt8 := 0x0A
def CR : UInt8 := 0x0D

/-- The limit of `upstream.readline`. -/
def LIMIT : ℕ := 65536

/-- `a in b` -/
def holds (b a : Bytes) : Bool := b.tails.any a.isPrefixOf

/-! ### The pieces -/

/-- The rest of the pieces: `room` bytes are left to the one that is being read. -/
def piecesFrom (room : ℕ) (piece : Bytes) : Bytes → List Bytes
  | [] => if piece = [] then [] else [piece]
  | c :: cs =>
    if c = LF ∨ room ≤ 1 then (piece ++ [c]) :: piecesFrom LIMIT [] cs
    else piecesFrom (room - 1) (piece ++ [c]) cs

/-- What `upstream.readline(65536)` returns, up to the empty piece at the end. -/
def pieces (b : Bytes) : List Bytes := piecesFrom LIMIT [] b

theorem flatten_piecesFrom (room : ℕ) (piece b : Bytes) :
    (piecesFrom room piece b).flatten = piece ++ b := by
  induction b generalizing room piece with
  | nil =>
    unfold piecesFrom
    split
    · next h => simp [h]
    · simp
  | cons c cs ih =>
    unfold piecesFrom
    split
    · rw [List.flatten_cons, ih]
      simp
    · rw [ih]
      simp

/-- The pieces are the stream. -/
theorem flatten_pieces (b : Bytes) : (pieces b).flatten = b := flatten_piecesFrom LIMIT [] b

/-! ### The loop -/

/-- `bytes.strip()` -/
def isSpaceByte (c : UInt8) : Bool := c = 0x20 ∨ (0x09 ≤ c ∧ c ≤ 0x0D)

def strip (b : Bytes) : Bytes := (b.dropWhile isSpaceByte).rdropWhile isSpaceByte

/-- What a piece is as a line of the stream; `json` is `parse_json_bytes`. -/
def lineOf (json : Bytes → Value) (piece : Bytes) : Line :=
  if (DONE.take 5).isPrefixOf piece then
    let data := strip (piece.drop 5)
    if data = [] then .empty
    else if data = DONE.drop 6 then .done
    else .data (json data)
  else .other

/-- The newlines that end the event where the relay stops. -/
def missing (piece : Bytes) : Bytes :=
  let trailing := piece.length - (piece.rdropWhile fun c => c = LF).length
  List.replicate (2 - trailing) LF

variable (I : Interp) (json : Bytes → Value)

/-- What the client is written, from the `n`th piece on. `halts n` says that something ends
the relay before that piece is written: a stop request, a client that has gone, a write of
the books that raises. -/
def relay (halts : ℕ → Bool) (n : ℕ) (s : Stream) : List Bytes → Bytes
  | [] => []
  | piece :: rest =>
    if halts n then []
    else match s.hear I (lineOf json piece) with
      | .error _ => []
      | .ok s' => piece ++ if holds piece DONE then missing piece else relay halts (n + 1) s' rest

/-- The answer to a client, for a stream of the upstream. -/
def relayed (halts : ℕ → Bool) (b : Bytes) : Bytes := relay I json halts 0 .empty (pieces b)

/-! ### The terminal line -/

/-- The end of the first line from here on that is the marker and nothing else; `start`
says that a line begins here. -/
def terminalFrom (n : ℕ) (start : Bool) : Bytes → Option ℕ
  | [] => none
  | c :: cs =>
    if start ∧ DONE.isPrefixOf (c :: cs) ∧
        ((c :: cs).drop DONE.length).head? ∈ [none, some LF, some CR] then
      some (n + DONE.length)
    else terminalFrom (n + 1) (c = LF ∨ c = CR) cs

/-- The end of the stream's terminal event line. -/
def terminal (b : Bytes) : Option ℕ := terminalFrom 0 true b

/-- The terminal line ends inside the stream, with the bracket. -/
theorem terminalFrom_last {n e : ℕ} {start : Bool} {b : Bytes}
    (h : terminalFrom n start b = some e) : n < e ∧ b[e - n - 1]? = some 0x5D := by
  induction b generalizing n start with
  | nil => cases h
  | cons c cs ih =>
    unfold terminalFrom at h
    split at h
    · next hd =>
      obtain ⟨rest, hrest⟩ := List.isPrefixOf_iff_prefix.mp hd.2.1
      obtain rfl := Option.some.inj h
      refine ⟨Nat.lt_add_of_pos_right (by decide), ?_⟩
      have hidx : n + DONE.length - n - 1 = 11 := by rw [Nat.add_sub_cancel_left]; rfl
      rw [hidx, ← hrest, List.getElem?_append_left (by decide)]
      rfl
    · obtain ⟨hlt, hget⟩ := ih h
      refine ⟨by omega, ?_⟩
      have hidx : e - n - 1 = (e - (n + 1) - 1) + 1 := by omega
      rw [hidx, List.getElem?_cons_succ]
      exact hget

theorem terminalFrom_le {n e : ℕ} {start : Bool} {b : Bytes}
    (h : terminalFrom n start b = some e) : e ≤ n + b.length := by
  induction b generalizing n start with
  | nil => cases h
  | cons c cs ih =>
    unfold terminalFrom at h
    split at h
    · next hd =>
      have hlen := (List.isPrefixOf_iff_prefix.mp hd.2.1).length_le
      have he := Option.some.inj h
      omega
    · have := ih h
      rw [List.length_cons]
      omega

/-! ### When the client gets it -/

/-- The summary of a piece does not raise. -/
def Heard (piece : Bytes) : Prop := ∃ s, Stream.empty.hear I (lineOf json piece) = .ok s

/-- Nothing ends the relay before the first `e` bytes are written: of the pieces that begin
before there none is held back and none raises, and of those that end before there none
holds the marker. -/
def Undisturbed (halts : ℕ → Bool) (n e : ℕ) (ps : List Bytes) : Prop :=
  ∀ before piece after, ps = before ++ piece :: after → before.flatten.length < e →
    halts (n + before.length) = false ∧ Heard I json piece ∧
      (before.flatten.length + piece.length < e → holds piece DONE = false)

/-- What a summary makes of a line does not hang on the tallies so far. -/
theorem hear_isOk {s s' : Stream} {l : Line} {t : Stream} (h : s.hear I l = .ok t) :
    ∃ t', s'.hear I l = .ok t' := by
  cases l with
  | other => exact ⟨_, rfl⟩
  | empty => exact ⟨_, rfl⟩
  | done => exact ⟨_, rfl⟩
  | data v =>
    cases v with
    | dict payload =>
      simp only [Stream.hear] at h ⊢
      cases hc : ((Dict.get payload "choices").asList.mapM (deltaChars I)) with
      | error e =>
        rw [hc] at h
        cases h
      | ok chars => exact ⟨_, rfl⟩
    | _ => exact ⟨_, rfl⟩

variable {I json}

theorem undisturbed_cons {halts : ℕ → Bool} {n e : ℕ} {piece : Bytes} {rest : List Bytes}
    (he : 0 < e) : Undisturbed I json halts n e (piece :: rest) ↔
      halts n = false ∧ Heard I json piece ∧
        (piece.length < e → holds piece DONE = false ∧
          Undisturbed I json halts (n + 1) (e - piece.length) rest) := by
  constructor
  · intro h
    have hhead := h [] piece rest rfl he
    refine ⟨hhead.1, hhead.2.1, fun hlt => ⟨hhead.2.2 (by simpa using hlt), ?_⟩⟩
    intro before p after heq hb
    have hlen : (piece :: before).flatten.length = piece.length + before.flatten.length := by
      rw [List.flatten_cons, List.length_append]
    have hp := h (piece :: before) p after (by rw [heq]; rfl) (by omega)
    refine ⟨?_, hp.2.1, fun hlt' => hp.2.2 (by omega)⟩
    rw [List.length_cons] at hp
    rw [Nat.add_assoc, Nat.add_comm 1]
    exact hp.1
  · rintro ⟨h₁, h₂, h₃⟩ before p after heq hb
    cases before with
    | nil =>
      obtain ⟨rfl, rfl⟩ := List.cons.inj heq
      exact ⟨h₁, h₂, fun hlt => (h₃ (by simpa using hlt)).1⟩
    | cons q before =>
      obtain ⟨rfl, rfl⟩ := List.cons.inj heq
      rw [List.flatten_cons, List.length_append] at hb
      obtain ⟨-, hrest⟩ := h₃ (by omega)
      obtain ⟨h₄, h₅, h₆⟩ := hrest before p after rfl (by omega)
      refine ⟨?_, h₅, fun hlt => h₆ ?_⟩
      · rw [List.length_cons, Nat.add_comm before.length, ← Nat.add_assoc]
        exact h₄
      · rw [List.flatten_cons, List.length_append] at hlt
        omega

/-- **What the relay writes of a stream**, up to a byte that is no newline. -/
theorem relay_iff {halts : ℕ → Bool} {n e : ℕ} {s : Stream} {ps : List Bytes}
    (he : e ≤ ps.flatten.length) (hlast : 0 < e → ps.flatten[e - 1]? ≠ some LF) :
    (ps.flatten.take e <+: relay I json halts n s ps) ↔ Undisturbed I json halts n e ps := by
  induction ps generalizing n e s with
  | nil =>
    obtain rfl : e = 0 := Nat.le_zero.mp he
    exact iff_of_true (List.nil_prefix) fun _ _ _ _ hb => absurd hb (Nat.not_lt_zero _)
  | cons piece rest ih =>
    rcases Nat.eq_zero_or_pos e with rfl | hpos
    · exact iff_of_true (List.nil_prefix) fun _ _ _ _ hb => absurd hb (Nat.not_lt_zero _)
    rw [undisturbed_cons hpos, List.flatten_cons]
    rw [List.flatten_cons, List.length_append] at he
    have hne : (piece ++ rest.flatten).take e ≠ [] := by
      intro h
      have := congrArg List.length h
      rw [List.length_take, List.length_append, List.length_nil] at this
      omega
    unfold relay
    cases hh : halts n with
    | true => simpa using fun h => hne (List.prefix_nil.mp h)
    | false =>
      simp only [Bool.false_eq_true, if_false, true_and]
      cases hs : s.hear I (lineOf json piece) with
      | error x =>
        -- the summary raises before the piece is written
        refine iff_of_false (fun h => hne (List.prefix_nil.mp h)) fun ⟨⟨t, ht⟩, _⟩ => ?_
        obtain ⟨t', ht'⟩ := hear_isOk I ht
        rw [hs] at ht'
        cases ht'
      | ok s' =>
        have hheard : Heard I json piece := hear_isOk I hs
        simp only [hheard, true_and]
        by_cases hlt : piece.length < e
        · have htake : (piece ++ rest.flatten).take e =
              piece ++ rest.flatten.take (e - piece.length) := by
            rw [List.take_append, List.take_of_length_le (le_of_lt hlt)]
          have hlast' : rest.flatten[e - piece.length - 1]? ≠ some LF := by
            have := hlast hpos
            rw [List.flatten_cons, List.getElem?_append_right (by omega)] at this
            rw [show e - piece.length - 1 = e - 1 - piece.length by omega]
            exact this
          rw [htake, List.prefix_append_right_inj]
          simp only [hlt, true_implies]
          cases hd : holds piece DONE with
          | true =>
            -- the relay stops here, and what it adds is newlines
            refine iff_of_false (fun h => ?_) fun h => Bool.noConfusion h.1
            obtain ⟨more, hmore⟩ := h
            have hidx : e - piece.length - 1 <
                (rest.flatten.take (e - piece.length)).length := by
              rw [List.length_take]
              omega
            have hmem : (rest.flatten.take (e - piece.length))[e - piece.length - 1] ∈
                missing piece := by
              simp only [if_true] at hmore
              rw [← hmore]
              exact List.mem_append_left _ (List.getElem_mem hidx)
            have hlf := List.eq_of_mem_replicate hmem
            rw [List.getElem_take] at hlf
            have hin : e - piece.length - 1 < rest.flatten.length := by omega
            exact hlast' (by rw [List.getElem?_eq_getElem hin, hlf])
          | false =>
            simp only [Bool.false_eq_true, if_false, true_and]
            exact ih (by omega) fun _ => hlast'
        · have hle : e ≤ piece.length := not_lt.mp hlt
          rw [List.take_append_of_le_length hle]
          refine iff_of_true ?_ fun h => absurd h hlt
          exact (List.take_prefix e piece).trans (List.prefix_append _ _)

/-- **The relay is complete** exactly where nothing disturbs it: the client gets the stream
up to and including its terminal event line if and only if, of the pieces that begin before
its end, none is held back and none's summary raises, and no piece that ends before it
holds the marker. -/
theorem relay_complete_iff (I : Interp) (json : Bytes → Value) (halts : ℕ → Bool) (b : Bytes)
    (e : ℕ) (h : terminal b = some e) :
    (b.take e <+: relayed I json halts b) ↔ Undisturbed I json halts 0 e (pieces b) := by
  have hle : e ≤ (pieces b).flatten.length := by
    rw [flatten_pieces]
    have := terminalFrom_le h
    omega
  have hlast : 0 < e → (pieces b).flatten[e - 1]? ≠ some LF := by
    intro _ hlf
    obtain ⟨-, hget⟩ := terminalFrom_last h
    rw [flatten_pieces] at hlf
    rw [Nat.sub_zero, hlf] at hget
    exact absurd (Option.some.inj hget) (by decide)
  have key := @relay_iff I json halts 0 e .empty (pieces b) hle hlast
  rw [flatten_pieces] at key
  exact key

/-! ### Two streams -/

/-- The bytes of a text. -/
def bytesOf (t : Text) : Bytes := (encodeUtf8 t).getD []

/-- An event without a choice, then the terminal line. -/
def quiet : Bytes := bytesOf "data: \x7b\"choices\": []\x7d\n\ndata: [DONE]\n\n"

/-- What `parse_json_bytes` makes of the event of `quiet`. -/
def quietJson (_ : Bytes) : Value := .dict [("choices", .list [])]

/-- A stream nothing disturbs: the client has it all, and each of its pieces is heard. -/
theorem relay_complete_iff_quiet :
    quiet.take 35 <+: relayed asciiInterp quietJson (fun _ => false) quiet ∧
      Undisturbed asciiInterp quietJson (fun _ => false) 0 35 (pieces quiet) := by
  have hend : terminal quiet = some 35 := by decide
  have hall : quiet.take 35 <+: relayed asciiInterp quietJson (fun _ => false) quiet := by
    decide
  exact ⟨hall, (relay_complete_iff asciiInterp quietJson (fun _ => false) quiet 35 hend).mp hall⟩

/-- A delta in which the model has written the marker, then the terminal line. -/
def quoting : Bytes :=
  bytesOf "data: \x7b\"choices\": [\x7b\"delta\": \x7b\"content\": " ++
    bytesOf "\"data: [DONE]\"\x7d\x7d]\x7d\n\n" ++ bytesOf "data: [DONE]\n\n"

/-- What `parse_json_bytes` makes of the event of `quoting`. -/
def quotingJson (_ : Bytes) : Value :=
  .dict [("choices", .list [.dict [("delta", .dict [("content", "data: [DONE]")])]])]

/-- The delta ends the relay: the terminal line is at the stream's end, and the client does
not get it. -/
theorem quoting_cut_short :
    terminal quoting = some (quoting.length - 2) ∧
      ¬ quoting.take (quoting.length - 2) <+:
        relayed asciiInterp quotingJson (fun _ => false) quoting := by
  decide

end Proxy.Relay
