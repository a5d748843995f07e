import Caravan.Framework.Replay
import Caravan.Framework.System
import Caravan.Python.Text
import Mathlib.Data.Rat.Floor

/-!
# The credential vault

`CredentialVault`, as any number of threads of any number of processes run its calls. A call
is taken apart where the others can come between: at each lock, at the read of the document,
at the request to the provider, at the write. Locks are files, known by their names: one for
the document, one for each account. A thread that raises, or whose process dies, lets its
locks go (`Step.die`).

`State.log` and `State.done` are not in the source and no step reads them: the operations in
the order they took effect, and the calls that were answered.
-/

namespace Vault

open Python

/-! ### The document -/

/-- What is kept of a sign-in. -/
structure OAuth where
  accessToken : Text
  refreshToken : Text
  expiresAt : ℤ
  obtainedAt : ℤ
  deriving DecidableEq

def OAuth.empty : OAuth := ⟨[], [], 0, 0⟩

/-- An account's value: an old one is its key alone. -/
inductive Stored where
  | text (key : Text)
  | entry (apiKey : Option Text) (oauth : Option OAuth)
  deriving DecidableEq

abbrev Doc := Text → Option Stored

/-- `dict(entry) if isinstance(entry, dict) else {}` -/
def fields : Option Stored → Option Text × Option OAuth
  | some (.entry key oauth) => (key, oauth)
  | _ => (none, none)

/-- `dict(self.entry(account_id).get("oauth") or {})` -/
def oauthOf (e : Option Stored) : OAuth := (fields e).2.getD OAuth.empty

/-- What a renewal answers with; nothing where it names none. -/
structure Tokens where
  accessToken : Text
  refreshToken : Text
  expiresIn : ℤ
  deriving DecidableEq

/-- The sign-in after a renewal. -/
def OAuth.renew (o : OAuth) (t : Tokens) (now now' : ℚ) : OAuth where
  accessToken := t.accessToken
  refreshToken := if t.refreshToken = [] then o.refreshToken else t.refreshToken
  obtainedAt := ⌊now⌋
  expiresAt := if t.expiresIn = 0 then o.expiresAt else ⌊now'⌋ + t.expiresIn

/-! ### Operations -/

/-- What takes effect. -/
inductive Op where
  | putApiKey (id key : Text)
  | putOauth (id : Text) (oauth : OAuth)
  | delete (id : Text)
  /-- A renewal of the sign-in `read`. -/
  | refresh (id : Text) (read : OAuth) (tokens : Tokens) (now now' : ℚ)
  /-- A sign-in that needs no renewal, or can have none. -/
  | look (id : Text)
  deriving DecidableEq

inductive Answer where
  | done
  | removed (e : Option Stored)
  | oauth (o : OAuth)
  deriving DecidableEq

def Op.id : Op → Text
  | .putApiKey id _ => id
  | .putOauth id _ => id
  | .delete id => id
  | .refresh id _ _ _ _ => id
  | .look id => id

/-- What a writer makes of its account's value. -/
def Op.effect : Op → Option Stored → Option Stored
  | .putApiKey _ key, e => some (.entry (some key) (fields e).2)
  | .putOauth _ oauth, e => some (.entry (fields e).1 (some oauth))
  | .delete _, _ => none
  | .refresh _ read tokens now now', e =>
    some (.entry (fields e).1 (some (read.renew tokens now now')))
  | .look _, e => e

/-- What it makes of the document it has read. -/
def Op.apply (op : Op) (d : Doc) : Doc := Function.update d op.id (op.effect (d op.id))

def Op.answer : Op → Doc → Answer
  | .putApiKey _ _, _ => .done
  | .putOauth _ oauth, _ => .oauth oauth
  | .delete id, d => .removed (d id)
  | .refresh _ read tokens now now', _ => .oauth (read.renew tokens now now')
  | .look id, d => .oauth (oauthOf (d id))

/-- The vault as one thread alone would see it. -/
def vault : Object Doc Op Answer := ⟨Op.apply, Op.answer⟩

/-- A renewal is one of the sign-in that is stored, and that has a refresh token. -/
def Relies : Op → Doc → Prop
  | .refresh id read _ _ _, d => oauthOf (d id) = read ∧ read.refreshToken ≠ []
  | _, _ => True

/-! ### Calls -/

/-- A call; the refresh's `url` says that its configuration names one. -/
inductive Call where
  | putApiKey (id key : Text)
  | putOauth (id : Text) (oauth : OAuth)
  | delete (id : Text)
  | oauth (id : Text) (url force : Bool)
  deriving DecidableEq

def Call.id : Call → Text
  | .putApiKey id _ => id
  | .putOauth id _ => id
  | .delete id => id
  | .oauth id _ _ => id

/-- Whether it runs under the account's lock: a key's write has no reason to wait one out. -/
def Call.locksAccount : Call → Bool
  | .putApiKey _ _ => false
  | _ => true

/-- `locked(".write")` -/
def docLock : Text := ".write"

/-- `locked("." + account_id)` -/
def accountLock (id : Text) : Text := Text.of "." ++ id

/-- Whether `oauth` goes on to ask the provider. -/
def renews (o : OAuth) (url force : Bool) (now : ℚ) : Bool :=
  (force || (o.expiresAt ≠ 0 && (o.expiresAt : ℚ) - now < 60)) && o.refreshToken ≠ [] && url

/-- Where a thread is in its call; `began` is the log's length when it was called. -/
inductive Pc where
  | idle
  | called (call : Call) (began : ℕ)
  /-- Under the account's lock. -/
  | locked (call : Call) (began : ℕ)
  /-- The request to the provider is out. -/
  | asking (call : Call) (id : Text) (read : OAuth) (began : ℕ)
  /-- A renewal was answered. -/
  | renewed (call : Call) (op : Op) (began : ℕ)
  /-- Under the document's lock, the document read. -/
  | writing (call : Call) (op : Op) (data : Doc) (began : ℕ)
  /-- The call has taken effect. -/
  | finished (call : Call) (op : Op) (answer : Answer) (began place : ℕ)

structure State where
  doc : Doc
  locks : Text → Option ℕ
  pc : ℕ → Pc
  log : List Op
  done : List (Object.Answered Op Answer)

namespace State

def setPc (s : State) (t : ℕ) (pc : Pc) : State := { s with pc := Function.update s.pc t pc }

def lock (s : State) (t : ℕ) (name : Text) : State :=
  { s with locks := Function.update s.locks name (some t) }

def unlock (s : State) (name : Text) : State :=
  { s with locks := Function.update s.locks name none }

/-- Every lock of a thread let go. -/
def release (s : State) (t : ℕ) : State :=
  { s with locks := fun name => if s.locks name = some t then none else s.locks name }

end State

/-- A thread that is ready to write, past the locks of its account. -/
inductive Ready : Pc → Call → Op → ℕ → Prop where
  | putApiKey (id key : Text) (began : ℕ) :
    Ready (.called (.putApiKey id key) began) (.putApiKey id key) (.putApiKey id key) began
  | putOauth (id : Text) (oauth : OAuth) (began : ℕ) :
    Ready (.locked (.putOauth id oauth) began) (.putOauth id oauth) (.putOauth id oauth) began
  | delete (id : Text) (began : ℕ) :
    Ready (.locked (.delete id) began) (.delete id) (.delete id) began
  | refresh (call : Call) (op : Op) (began : ℕ) : Ready (.renewed call op began) call op began

/-- One step of a thread. -/
inductive Step : State → ℕ → State → Prop where
  | call {s : State} {t : ℕ} (call : Call) : s.pc t = .idle →
    Step s t (s.setPc t (.called call s.log.length))
  | lockAccount {s : State} {t : ℕ} {call : Call} {began : ℕ} :
    s.pc t = .called call began → call.locksAccount = true →
    s.locks (accountLock call.id) = none →
    Step s t ((s.lock t (accountLock call.id)).setPc t (.locked call began))
  /-- The document is read under its lock. -/
  | lockDoc {s : State} {t : ℕ} {call : Call} {op : Op} {began : ℕ} :
    Ready (s.pc t) call op began → s.locks docLock = none →
    Step s t ((s.lock t docLock).setPc t (.writing call op s.doc began))
  /-- The document is written, whole, and its lock let go. -/
  | write {s : State} {t : ℕ} {call : Call} {op : Op} {data : Doc} {began : ℕ} :
    s.pc t = .writing call op data began →
    Step s t (({ s with doc := op.apply data, log := s.log ++ [op] }.unlock docLock).setPc t
      (.finished call op (op.answer data) began s.log.length))
  /-- `oauth` reads the document without its lock, and answers with what is there. -/
  | look {s : State} {t : ℕ} {id : Text} {url force : Bool} {began : ℕ} {now : ℚ} :
    s.pc t = .locked (.oauth id url force) began →
    renews (oauthOf (s.doc id)) url force now = false →
    Step s t ({ s with log := s.log ++ [Op.look id] }.setPc t
      (.finished (.oauth id url force) (.look id) (.oauth (oauthOf (s.doc id))) began
        s.log.length))
  /-- It asks the provider. -/
  | ask {s : State} {t : ℕ} {id : Text} {url force : Bool} {began : ℕ} {now : ℚ} :
    s.pc t = .locked (.oauth id url force) began →
    renews (oauthOf (s.doc id)) url force now = true →
    Step s t (s.setPc t (.asking (.oauth id url force) id (oauthOf (s.doc id)) began))
  | renewed {s : State} {t : ℕ} {call : Call} {id : Text} {read : OAuth} {began : ℕ}
    (tokens : Tokens) (now now' : ℚ) :
    s.pc t = .asking call id read began → tokens.accessToken ≠ [] →
    Step s t (s.setPc t (.renewed call (.refresh id read tokens now now') began))
  | answer {s : State} {t : ℕ} {call : Call} {op : Op} {a : Answer} {began place : ℕ} :
    s.pc t = .finished call op a began place →
    Step s t (({ s with done := ⟨op, a, began, place, s.log.length⟩ :: s.done }.release t).setPc t
      .idle)
  /-- The call raises, or its process dies. -/
  | die {s : State} {t : ℕ} : Step s t ((s.release t).setPc t .idle)

/-- The vault over the document as it stands, with no call under way. -/
def system (init : Doc) : System State ℕ where
  init s := s.doc = init ∧ (∀ name, s.locks name = none) ∧ (∀ t, s.pc t = .idle) ∧ s.log = [] ∧
    s.done = []
  step := Step

end Vault
