import Caravan.Proxy.Noninterference

/-!
# The length of a relayed answer

Which `Content-Length` a client gets, and how many bytes after it. Answers that the proxy
words itself, translates or rewrites have a length of their own. An answer relayed as it came
keeps the upstream's length; of an error the first 4096 bytes are read before the headers go
out, and where the upstream states no length, that part's length is what the client is told.

The rest of such a body follows on the plain relay only, stated or not: a longer error
without a length has one too small (plain), an error with a length one too large (a
subscription's or Anthropic's). `relay_framed_iff` says exactly when neither happens.
-/

namespace Proxy.Framing

open Python Proxy.Pool Proxy.Consumer

/-! ### Lengths -/

def isDigit (c : CodePoint) : Bool := 0x30 ≤ c.val && c.val ≤ 0x39

/-- The number a length header states. -/
def lengthOf (t : Text) : Option ℕ :=
  if t ≠ [] ∧ t.all isDigit then some (Nat.ofDigits 10 (t.reverse.map fun c => c.val - 0x30))
  else none

theorem val_digit {d : ℕ} (h : d < 10) : (digit d).val = 0x30 + d := by
  change 0x30 + d % 10 = 0x30 + d
  rw [Nat.mod_eq_of_lt h]

/-- A length the proxy states is read back as it is. -/
theorem lengthOf_decimal (n : ℕ) : lengthOf (decimal n) = some n := by
  unfold decimal
  split
  · next h =>
    subst h
    decide
  next h =>
  have hlt : ∀ d ∈ Nat.digits 10 n, d < 10 := fun d hd => Nat.digits_lt_base (by decide) hd
  have hne : ((Nat.digits 10 n).map digit).reverse ≠ [] := by
    rw [ne_eq, List.reverse_eq_nil_iff, List.map_eq_nil_iff]
    exact Nat.digits_ne_nil_iff_ne_zero.mpr h
  have hall : ((Nat.digits 10 n).map digit).reverse.all isDigit = true := by
    rw [List.all_eq_true]
    intro c hc
    obtain ⟨d, hd, rfl⟩ := List.mem_map.mp (List.mem_reverse.mp hc)
    have := hlt d hd
    unfold isDigit
    rw [val_digit this, Bool.and_eq_true, decide_eq_true_eq, decide_eq_true_eq]
    omega
  unfold lengthOf
  rw [if_pos ⟨hne, hall⟩, List.reverse_reverse, List.map_map]
  have hback : (Nat.digits 10 n).map ((fun c : CodePoint => c.val - 0x30) ∘ digit) =
      Nat.digits 10 n := by
    refine (List.map_congr_left fun d hd => ?_).trans (List.map_id _)
    rw [Function.comp_apply, val_digit (hlt d hd), Nat.add_sub_cancel_left]
    rfl
  rw [hback, Nat.ofDigits_digits]

/-! ### What goes out -/

/-- A reply as the client gets it: its headers, then its body. -/
structure Wire where
  headers : Headers
  body : Bytes

/-- `key.lower() == "content-length"` -/
def namesLength (name : Text) : Bool := name.map lowerAscii = Text.of "content-length"

def isLength (p : Text × Text) : Bool := namesLength p.1

/-- Each length among some headers is `n`. -/
def States (n : ℕ) (headers : Headers) : Prop :=
  ∀ p ∈ headers, isLength p = true → lengthOf p.2 = some n

/-- Each length the client is told is the length of what it is sent. -/
def Framed (w : Wire) : Prop := States w.body.length w.headers

instance (n : ℕ) (headers : Headers) : Decidable (States n headers) :=
  inferInstanceAs (Decidable (∀ p ∈ headers, _))

instance (w : Wire) : Decidable (Framed w) := inferInstanceAs (Decidable (States _ _))

/-- `Content-Length` of a body. -/
def length (body : Bytes) : Text × Text := (Text.of "Content-Length", decimal body.length)

/-- `HOP_HEADERS` -/
def HOP_HEADERS : List Text :=
  ["connection", "keep-alive", "proxy-authenticate", "proxy-authorization", "te", "trailer",
    "transfer-encoding", "upgrade"]

/-- `OpenAIDialect.HEADERS` -/
def ENTRY_HEADERS : List Text := ["content-type", "content-length", "cache-control"]

/-- The kind of a leg's answers. -/
inductive Kind where
  | cell
  | cloud
  /-- The Codex backend, whose events are passed through to a client of its own API. -/
  | subscription (passthrough : Bool)
  | anthropic
  deriving DecidableEq

/-- Whether the answers of a kind are translated: only these are relayed to no end. -/
def Kind.plain : Kind → Bool
  | .cell => true
  | .cloud => true
  | .subscription _ => false
  | .anthropic => false

/-- A request, as far as the relay of its answer reads it. -/
structure Exchange where
  /-- The dialect: a consumer of the entry, and not a port. -/
  entry : Bool
  model : Text
  requestId : Text
  kind : Kind
  /-- The client asked for a stream. -/
  streaming : Bool
  /-- `GET`, and a path of `PROPS_PATHS`. -/
  props : Bool
  /-- `_rescue_chain_text` -/
  chain : Text

/-- The bodies that the proxy writes itself. -/
structure Writer where
  reader : Reader
  /-- `json.dumps(…).encode("utf-8")` -/
  dumps : Value → Bytes
  /-- A port's failure, with the words of the exception. -/
  failure : Bytes
  /-- `_publish_props_window` -/
  publish : Bytes → Bytes
  /-- A whole answer made of a translated one. -/
  translate : Kind → Consumer.Answer → Bytes

section Relay

variable (W : Writer) (x : Exchange)

namespace Exchange

/-- `extra_headers` -/
def extraHeaders : Headers := if x.entry then [(Text.of "X-Request-Id", x.requestId)] else []

/-- `header_ok` -/
def headerOk (name : Text) : Bool := !x.entry || name.map lowerAscii ∈ ENTRY_HEADERS

end Exchange

/-- `_send_bytes` -/
def sendBytes (body : Bytes) (headers : Headers) : Wire :=
  ⟨[(Text.of "Content-Type", Text.of "application/json"), length body,
    (Text.of "Connection", Text.of "close")] ++ headers, body⟩

/-- An upstream's error in the caravan's own words: a consumer's, and on a port what is told
where reading the error raises. -/
def told (a : Consumer.Answer) : Option Wire :=
  if a.status < 400 then none
  else
    let code := if x.kind = .cell then errorCode W.reader (errorBody W.reader a) else .ok .null
    match failureSummary W.reader a.status (errorBody W.reader a), code with
    | .ok (reason, _), .ok code =>
      if x.entry then
        let e := OpenAIError.upstream a.status x.model reason code
        some (sendBytes (W.dumps e.payload) (e.headers ++ x.extraHeaders))
      else none
    | _, _ =>
      if x.entry then
        let e := Dialect.error x.model a.status "proxy_error"
        some (sendBytes (W.dumps e.payload) (e.headers ++ x.extraHeaders))
      else some (sendBytes W.failure x.extraHeaders)

def isEventStream (a : Consumer.Answer) : Bool :=
  (Text.of "text/event-stream").isPrefixOf
    (((a.headers.lookup (Text.of "Content-Type")).getD []).map lowerAscii)

/-- `upstream_error_raw` -/
def errorRaw (a : Consumer.Answer) : Bytes := if 400 ≤ a.status then a.body.take 4096 else []

/-- `props_body` -/
def propsBody (a : Consumer.Answer) : Option Bytes :=
  if x.kind = .cell ∧ a.status = 200 ∧ isEventStream a = false ∧ x.props then
    some (W.publish a.body) else none

/-- The upstream headers that go on to the client. -/
def relayedHeaders (a : Consumer.Answer) (props : Option Bytes) : Headers :=
  a.headers.filter fun p => p.1.map lowerAscii ∉ HOP_HEADERS && x.headerOk p.1 &&
    !(props.isSome && isLength p)

/-- The headers of an answer that is relayed as it came. -/
def plainHeaders (a : Consumer.Answer) (props : Option Bytes) : Headers :=
  relayedHeaders x a props ++ x.extraHeaders ++
    (if isEventStream a then [(Text.of "X-Accel-Buffering", Text.of "no")] else []) ++
    [(Text.of "Connection", Text.of "close")] ++
    (if x.chain ≠ [] ∧ x.headerOk "X-Agent-Proxy-Chain" then
      [(Text.of "X-Agent-Proxy-Chain", x.chain.take 900)] else []) ++
    (if errorRaw a ≠ [] ∧ a.headers.any isLength = false then [length (errorRaw a)] else []) ++
    (props.map length).toList

/-- The body after them: what was read of an error, and on a plain leg the rest. -/
def plainBody (a : Consumer.Answer) (props : Option Bytes) : Bytes :=
  errorRaw a ++
    if x.kind.plain then props.getD (if 400 ≤ a.status then a.body.drop 4096 else a.body) else []

/-- An answer as it came, where it is no stream. -/
def relayPlain (a : Consumer.Answer) : Option Wire :=
  if x.kind.plain ∧ isEventStream a then none
  else
    let props := propsBody W x a
    some ⟨plainHeaders x a props, plainBody x a props⟩

/-- What the client is sent for an upstream's answer, where it is not a stream. -/
def sent (a : Consumer.Answer) : Option Wire :=
  match x.kind, decide (a.status = 200) with
  | .subscription true, true =>
    if x.streaming then none else some (sendBytes (W.translate x.kind a) [])
  | .subscription false, true =>
    if x.entry && !x.streaming then some (sendBytes (W.translate x.kind a) x.extraHeaders)
    else none
  | .anthropic, true =>
    if isEventStream a then none else some (sendBytes (W.translate x.kind a) [])
  | _, _ =>
    match told W x a with
    | some w => some w
    | none => relayPlain W x a

/-! ### When the length is the body's -/

/-- The relay of an answer as it came keeps its length: a plain leg's when the upstream states
its body's length, or states none and the body is no error of more than 4096 bytes; another
leg's when the upstream states the length of what is sent of it, or none. -/
def Keeps (a : Consumer.Answer) : Prop :=
  if x.kind.plain then
    States a.body.length a.headers ∧
      (a.headers.any isLength = true ∨ a.status < 400 ∨ a.body.length ≤ 4096)
  else States (if 400 ≤ a.status then min 4096 a.body.length else 0) a.headers

/-- The answer is worded, translated or rewritten by the proxy, or relayed with its length. -/
def Sound (a : Consumer.Answer) : Prop :=
  (a.status = 200 ∧ x.kind.plain = false) ∨ (told W x a).isSome = true ∨
    (propsBody W x a).isSome = true ∨ Keeps x a

variable {W x}

theorem states_append {n : ℕ} {hs hs' : Headers} :
    States n (hs ++ hs') ↔ States n hs ∧ States n hs' := List.forall_mem_append

theorem isLength_length (body : Bytes) : isLength (length body) = true := by
  have h : namesLength (Text.of "Content-Length") = true := by decide
  exact h

theorem states_length {n : ℕ} {body : Bytes} : States n [length body] ↔ body.length = n := by
  unfold States
  rw [List.forall_mem_singleton]
  simp only [isLength_length, true_implies]
  unfold length
  rw [lengthOf_decimal]
  exact Option.some_inj

/-- A header with another name states no length. -/
theorem states_other {n : ℕ} {name value : Text} (h : namesLength name = false) :
    States n [(name, value)] := by
  unfold States
  rw [List.forall_mem_singleton]
  intro hl
  rw [show isLength (name, value) = namesLength name from rfl, h] at hl
  cases hl

theorem states_extra (n : ℕ) (x : Exchange) : States n x.extraHeaders := by
  unfold Exchange.extraHeaders
  split
  · exact states_other (by decide)
  · exact List.forall_mem_nil _

theorem states_headers (n : ℕ) (e : OpenAIError) : States n e.headers := by
  unfold OpenAIError.headers
  split
  · exact List.forall_mem_nil _
  · split
    · exact List.forall_mem_cons.mpr ⟨(states_other (by decide)) _ List.mem_cons_self,
        states_other (by decide)⟩
    · exact states_other (by decide)

/-- A whole reply has its body's length. -/
theorem sendBytes_framed {body : Bytes} {headers : Headers}
    (h : States body.length headers) : Framed (sendBytes body headers) := by
  have hown : States body.length [(Text.of "Content-Type", Text.of "application/json"),
      length body, (Text.of "Connection", Text.of "close")] := by
    refine List.forall_mem_cons.mpr ⟨states_other (by decide) _ List.mem_cons_self, ?_⟩
    refine List.forall_mem_cons.mpr ⟨states_length.mpr rfl _ List.mem_cons_self, ?_⟩
    exact states_other (by decide)
  exact states_append.mpr ⟨hown, h⟩

theorem told_framed {a : Consumer.Answer} {w : Wire} (h : told W x a = some w) : Framed w := by
  have he (n : ℕ) (e : OpenAIError) : States n (e.headers ++ x.extraHeaders) :=
    states_append.mpr ⟨states_headers n e, states_extra n x⟩
  unfold told at h
  simp only at h
  split at h
  · cases h
  split at h
  · split at h
    · obtain rfl := Option.some.inj h
      exact sendBytes_framed (he _ _)
    · cases h
  · split at h
    · obtain rfl := Option.some.inj h
      exact sendBytes_framed (he _ _)
    · obtain rfl := Option.some.inj h
      exact sendBytes_framed (states_extra _ x)

/-! ### An answer relayed as it came -/

/-- The lengths among the headers that go on are the upstream's. -/
theorem states_relayed {n : ℕ} {a : Consumer.Answer} {props : Option Bytes} :
    States n (relayedHeaders x a props) ↔ props.isSome = true ∨ States n a.headers := by
  unfold States relayedHeaders
  constructor
  · intro h
    cases hp : props.isSome with
    | true => exact .inl rfl
    | false =>
      -- a length passes the filter: it is no hop header, and each dialect lets it through
      refine .inr fun p hmem hl => h p (List.mem_filter.mpr ⟨hmem, ?_⟩) hl
      have hname : p.1.map lowerAscii = Text.of "content-length" := by
        simpa [isLength, namesLength] using hl
      have hhop : Text.of "content-length" ∉ HOP_HEADERS := by decide
      have hentry : Text.of "content-length" ∈ ENTRY_HEADERS := by decide
      simp [Exchange.headerOk, hname, hhop, hentry, hp]
  · rintro (hp | h) p hmem hl
    · obtain ⟨-, hf⟩ := List.mem_filter.mp hmem
      simp [hp, hl] at hf
    · exact h p (List.mem_filter.mp hmem).1 hl

/-- The lengths an answer goes out with. -/
theorem states_plainHeaders {n : ℕ} {a : Consumer.Answer} {props : Option Bytes} :
    States n (plainHeaders x a props) ↔ (props.isSome = true ∨ States n a.headers) ∧
      (errorRaw a ≠ [] → a.headers.any isLength = false → (errorRaw a).length = n) ∧
      (∀ body, props = some body → body.length = n) := by
  unfold plainHeaders
  have hstream : States n (if isEventStream a then
      [(Text.of "X-Accel-Buffering", Text.of "no")] else []) := by
    split
    · exact states_other (by decide)
    · exact List.forall_mem_nil _
  have hclose : States n [(Text.of "Connection", Text.of "close")] := states_other (by decide)
  have hchain : States n (if x.chain ≠ [] ∧ x.headerOk "X-Agent-Proxy-Chain" then
      [(Text.of "X-Agent-Proxy-Chain", x.chain.take 900)] else []) := by
    split
    · exact states_other (by decide)
    · exact List.forall_mem_nil _
  have hprops : States n (props.map length).toList ↔ ∀ body, props = some body → body.length = n := by
    cases props with
    | none => exact iff_of_true (List.forall_mem_nil _) fun _ h => by cases h
    | some body =>
      refine states_length.trans ⟨fun h b hb => ?_, fun h => h body rfl⟩
      obtain rfl := Option.some.inj hb
      exact h
  have hraw : States n (if errorRaw a ≠ [] ∧ a.headers.any isLength = false then
      [length (errorRaw a)] else []) ↔
        (errorRaw a ≠ [] → a.headers.any isLength = false → (errorRaw a).length = n) := by
    split
    · next h => exact states_length.trans ⟨fun h _ _ => h, fun h' => h' h.1 h.2⟩
    · next h => exact iff_of_true (List.forall_mem_nil _) fun h₁ h₂ => absurd ⟨h₁, h₂⟩ h
  rw [states_append, states_append, states_append, states_append, states_append, states_append,
    states_relayed, hprops, hraw]
  simp only [states_extra, hstream, hclose, hchain, and_true, and_assoc]

theorem errorRaw_append (a : Consumer.Answer) :
    errorRaw a ++ (if 400 ≤ a.status then a.body.drop 4096 else a.body) = a.body := by
  unfold errorRaw
  split
  · exact List.take_append_drop 4096 a.body
  · rfl

theorem length_errorRaw (a : Consumer.Answer) :
    (errorRaw a).length = if 400 ≤ a.status then min 4096 a.body.length else 0 := by
  unfold errorRaw
  split
  · exact List.length_take
  · rfl

/-- The part of an error that is read is the whole of it. -/
theorem errorRaw_whole {a : Consumer.Answer} (h : errorRaw a ≠ []) :
    (errorRaw a).length = a.body.length ↔ a.status < 400 ∨ a.body.length ≤ 4096 := by
  have hge : 400 ≤ a.status := by
    by_contra hlt
    unfold errorRaw at h
    rw [if_neg hlt] at h
    exact h rfl
  rw [length_errorRaw, if_pos hge]
  omega

/-- A rewritten body is no error's. -/
theorem propsBody_some {a : Consumer.Answer} {body : Bytes} (h : propsBody W x a = some body) :
    errorRaw a = [] ∧ x.kind.plain = true := by
  unfold propsBody at h
  split at h
  · next hc =>
    refine ⟨?_, by rw [hc.1]; rfl⟩
    unfold errorRaw
    rw [if_neg (by omega)]
  · cases h

/-- **When an answer as it came is framed**: it is rewritten, or keeps its length. -/
theorem relayPlain_framed_iff {a : Consumer.Answer} {w : Wire} (h : relayPlain W x a = some w) :
    Framed w ↔ (propsBody W x a).isSome = true ∨ Keeps x a := by
  unfold relayPlain at h
  split at h
  · cases h
  obtain rfl := Option.some.inj h
  unfold Framed
  simp only
  rw [states_plainHeaders]
  cases hp : propsBody W x a with
  | some body =>
    obtain ⟨hraw, hplain⟩ := propsBody_some hp
    refine iff_of_true ⟨.inl rfl, fun hne => absurd hraw hne, fun b hb => ?_⟩ (.inl rfl)
    obtain rfl := Option.some.inj hb
    unfold plainBody
    rw [hraw, if_pos hplain]
    rfl
  | none =>
    simp only [Option.isSome_none, Bool.false_eq_true, false_or, reduceCtorEq, false_implies,
      implies_true, and_true]
    unfold Keeps plainBody
    cases hplain : x.kind.plain with
    | true =>
      simp only [if_true, Option.getD_none]
      rw [errorRaw_append]
      refine and_congr_right fun hstates => ?_
      constructor
      · intro hlen
        cases hany : a.headers.any isLength with
        | true => exact .inl rfl
        | false =>
          by_cases hraw : errorRaw a = []
          · -- no error, or one without a body
            have hl := length_errorRaw a
            rw [hraw, List.length_nil] at hl
            split at hl <;> omega
          · exact .inr ((errorRaw_whole hraw).mp (hlen hraw hany))
      · rintro (hany | hwhole) hraw hnone
        · rw [hany] at hnone
          cases hnone
        · exact (errorRaw_whole hraw).mpr hwhole
    | false =>
      simp only [Bool.false_eq_true, if_false, List.append_nil, implies_true, and_true]
      rw [length_errorRaw]

/-- **When a relayed answer is framed.** The lengths a client is told are the length of what
it is sent if and only if the answer is worded, translated or rewritten by the proxy, or
keeps its length as it comes. -/
theorem relay_framed_iff (W : Writer) (x : Exchange) (a : Consumer.Answer) (w : Wire)
    (h : sent W x a = some w) : Framed w ↔ Sound W x a := by
  have hother (h : (match told W x a with | some w => some w | none => relayPlain W x a) = some w)
      (hn : ¬ (a.status = 200 ∧ x.kind.plain = false)) : Framed w ↔ Sound W x a := by
    unfold Sound
    cases ht : told W x a with
    | some w' =>
      rw [ht] at h
      obtain rfl := Option.some.inj h
      exact iff_of_true (told_framed ht) (.inr (.inl rfl))
    | none =>
      rw [ht] at h
      rw [relayPlain_framed_iff h]
      simp [hn]
  unfold sent at h
  split at h
  · next hk h200 =>
    split at h
    · cases h
    · obtain rfl := Option.some.inj h
      exact iff_of_true (sendBytes_framed (List.forall_mem_nil _))
        (.inl ⟨of_decide_eq_true h200, by rw [hk]; rfl⟩)
  · next hk h200 =>
    split at h
    · obtain rfl := Option.some.inj h
      exact iff_of_true (sendBytes_framed (states_extra _ x))
        (.inl ⟨of_decide_eq_true h200, by rw [hk]; rfl⟩)
    · cases h
  · next hk h200 =>
    split at h
    · cases h
    · obtain rfl := Option.some.inj h
      exact iff_of_true (sendBytes_framed (List.forall_mem_nil _))
        (.inl ⟨of_decide_eq_true h200, by rw [hk]; rfl⟩)
  · next h₁ h₂ h₃ =>
    refine hother h fun ⟨h200, hplain⟩ => ?_
    cases hk : x.kind with
    | cell => rw [hk] at hplain; cases hplain
    | cloud => rw [hk] at hplain; cases hplain
    | subscription p => cases p <;> simp_all
    | anthropic => simp_all

end Relay

/-! ### Three answers -/

/-- A writer of one byte for whatever it writes. -/
def oneByte : Writer := ⟨asciiReader, fun _ => [0], [0], fun b => b, fun _ _ => [0]⟩

/-- A request of a port. -/
def ofPort (kind : Kind) : Exchange := ⟨false, [], "1", kind, false, false, []⟩

/-- An error of `n` bytes. -/
def refused (status : ℤ) (headers : Headers) (n : ℕ) : Consumer.Answer :=
  ⟨status, headers, List.replicate n 0x78⟩

/-- An error of three bytes, relayed with the length its upstream states. -/
theorem relay_framed_iff_short : ∃ w,
    sent oneByte (ofPort .cell) (refused 500 [("Content-Length", "3")] 3) = some w ∧ Framed w ∧
      Sound oneByte (ofPort .cell) (refused 500 [("Content-Length", "3")] 3) := by
  refine ⟨_, rfl, by decide +kernel, ?_⟩
  exact (relay_framed_iff oneByte (ofPort .cell) (refused 500 [("Content-Length", "3")] 3) _ rfl).mp
    (by decide +kernel)

/-- A cell's error of 5000 bytes without a length goes out with the length of its first part;
a subscription's, with its length, goes out without its rest. -/
theorem relay_unframed :
    (sent oneByte (ofPort .cell) (refused 500 [] 5000)).any (fun w => !decide (Framed w)) = true ∧
      (sent oneByte (ofPort (.subscription false))
        (refused 429 [("Content-Length", "5000")] 5000)).any (fun w => !decide (Framed w)) =
          true := by
  decide +kernel

end Proxy.Framing
