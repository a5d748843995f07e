import Caravan.Framework.Assoc
import Caravan.Framework.Documents
import Caravan.Python.Text

/-!
# Signing in by a code

`start_device_login` gets a code, ends the account's pending logins, registers its own and
leaves it to a thread. The thread asks the provider until the code was entered, looks whether
the account is still there, marks itself as completing, trades the code for tokens and stores
them. A deletion takes the account out of the document and its entry out of the vault, and ends
its pending logins. Any number of these run at once, and each of the steps here is one that no
other falls into.
-/

namespace SignIn

open Python

variable {α κ δ : Type} [DecidableEq α] [DecidableEq κ] [DecidableEq δ]

/-! ### Accounts and the vault -/

/-- What the sign-in reads of an account. -/
structure Account (α : Type) where
  id : α
  testAliasOf : Option α := none
  authMode : Text
  accountType : Text
  tokenUrl : Text
  clientId : Text
  deriving DecidableEq, Repr

/-- `AppError` -/
structure AppError where
  message : String
  status : ℕ
  deriving DecidableEq, Repr

/-- `_oauth_account` -/
def oauthAccount (accounts : List (Account α)) (id : α) : Except AppError (Account α) :=
  match accounts.find? fun a => a.id = id with
  | none => .error ⟨"unknown account", 404⟩
  | some a =>
    if a.testAliasOf.isSome then
      .error ⟨"a test alias uses its original account login", 400⟩
    else if a.authMode ≠ Text.of "oauth" then
      .error ⟨"account authMode is not oauth", 400⟩
    else if a.tokenUrl = [] ∨ a.clientId = [] then
      .error ⟨"account oauthConfig incomplete (tokenUrl/clientId)", 400⟩
    else .ok a

/-- `start_device_login`, up to the login; `plan` says which types of account have a sign-in by
code in their provider's preset. -/
def deviceAccount (plan : Text → Bool) (accounts : List (Account α)) (id : α) :
    Except AppError (Account α) := do
  let a ← oauthAccount accounts id
  if ¬ plan a.accountType then
    throw ⟨"this account's provider has no sign-in by code", 400⟩
  return a

/-- The document with the accounts, as one parse of its file is handed out to all. -/
def providers : Document.Medium (List (Account α)) (List (Account α)) where
  parse := id
  write := id
  blank := []
  shared := true

/-- What a token answer has that is kept. -/
structure Tokens where
  accessToken : Text
  refreshToken : Text := []
  tokenType : Text := []
  scope : Text := []
  expiresIn : Option ℤ := none
  /-- What its `id_token` says, as `_decode_jwt_email` reads it. -/
  email : Text := []
  deriving DecidableEq, Repr

/-- `entry["oauth"]` -/
structure OAuth where
  accessToken : Text
  refreshToken : Text
  tokenType : Text
  scope : Text
  expiresAt : ℤ
  obtainedAt : ℤ
  email : Text
  deriving DecidableEq, Repr

/-- `_store_oauth_tokens`, up to the write. -/
def Tokens.oauth (t : Tokens) (now : ℤ) : OAuth where
  accessToken := t.accessToken
  refreshToken := t.refreshToken
  tokenType := if t.tokenType = [] then Text.of "Bearer" else t.tokenType
  scope := t.scope
  expiresAt := match t.expiresIn with
    | some n => if n = 0 then 0 else now + n
    | none => 0
  obtainedAt := now
  email := t.email

/-- An entry of the vault: a bare key in the oldest form. -/
inductive Entry
  | key (apiKey : Text)
  | fields (apiKey : Option Text) (oauth : Option OAuth)
  deriving DecidableEq, Repr

/-- `CredentialVault._put_oauth`, on the account's entry. -/
def putOauth (e : Option Entry) (o : OAuth) : Entry :=
  match e with
  | some (.fields apiKey _) => .fields apiKey (some o)
  | _ => .fields none (some o)

/-! ### Logins -/

inductive Reason
  | expired | replaced | removed
  deriving DecidableEq, Repr

/-- `session["result"]` -/
inductive Result
  | pending
  | done (email : Text)
  | error (reason : Option Reason) (error : String)
  deriving DecidableEq, Repr

def REPLACED : Result :=
  .error (some .replaced) "a newer sign-in replaced this code — use the code shown last"

def REMOVED : Result :=
  .error (some .removed) "the account was removed during the sign-in"

def Result.isPending : Result → Bool
  | .pending => true
  | _ => false

/-- It says that the login was ended by another. -/
def Result.isEnd : Result → Bool
  | .error (some .replaced) _ => true
  | .error (some .removed) _ => true
  | _ => false

/-- Where a login is: in the request that starts it, and then in its thread. -/
inductive Phase (κ : Type)
  /-- `begin`: the code is asked for. -/
  | begins
  /-- `_end_pending(account["id"], REPLACED)` -/
  | replaces
  /-- The logins that were ended are told to stop. -/
  | stops (left : List κ)
  /-- It is registered, and its thread is not started yet. -/
  | starts
  /-- `self.stopped.wait(self.interval)` -/
  | waits
  /-- `step`: the provider is asked. -/
  | asks
  /-- The code was entered. -/
  | entered
  /-- `_account_kept` said yes. -/
  | kept
  /-- `_exchange_oauth_code` -/
  | trades
  /-- `_finish_login` -/
  | stores (tokens : Tokens)
  /-- `_end` -/
  | ends (result : Result)
  | over
  deriving DecidableEq, Repr

/-- The login has been registered, or has no more to do. -/
def Phase.launched : Phase κ → Bool
  | .begins | .replaces | .stops _ => false
  | _ => true

/-- The code is being traded for tokens that will be stored. -/
def Phase.trading : Phase κ → Bool
  | .trades | .stores _ => true
  | _ => false

/-- `DeviceLogin`, with its session. -/
structure Login (α κ : Type) where
  account : Account α
  phase : Phase κ := .begins
  result : Result := .pending
  completing : Bool := false
  stopped : Bool := false
  expiresAt : ℤ := 0
  failures : ℕ := 0
  deriving DecidableEq, Repr

/-- The clock's readings are whole nanoseconds here. -/
def SECOND : ℤ := 1000000000

def LIFETIME : ℤ := 15 * 60 * SECOND

def PATIENCE : ℕ := 5

/-- What is read of the provider's answer to `begin`; an expiry it does not state is 0. -/
structure CodeAnswer where
  deviceAuthId : Text
  userCode : Text
  expiresAt : ℤ := 0
  deriving DecidableEq, Repr

/-- How asking whether the code was entered ends. -/
inductive Poll
  /-- An HTTP error, as `LoginFailure.describe` puts it. -/
  | refused (code : ℕ) (why : String)
  /-- No answer, or none that is JSON. -/
  | silent (why : String)
  | answered (authorizationCode codeVerifier : Text)
  /-- JSON that is no object: `step` raises. -/
  | shapeless
  deriving DecidableEq, Repr

/-- How `_finish_login` ends once it has the tokens. -/
inductive Storing
  | stored
  /-- They were stored, and what comes then raised. -/
  | late (why : String)
  /-- Storing them raised. -/
  | unstored (why : String)
  deriving DecidableEq, Repr

def Storing.isStored : Storing → Bool
  | .unstored _ => false
  | _ => true

namespace Login

variable (l : Login α κ)

/-- The rest of `begin`; where it raises, the start is over. -/
def begun (now : ℤ) : Option CodeAnswer → Login α κ
  | none => { l with phase := .over }
  | some answer =>
    if answer.deviceAuthId = [] ∨ answer.userCode = [] then { l with phase := .over }
    else
      { l with
        phase := .replaces
        expiresAt := if now < answer.expiresAt ∧ answer.expiresAt < now + LIFETIME
          then answer.expiresAt else now + LIFETIME }

/-- `run`, once its wait is over, and `step` up to the question. -/
def woken (now : ℤ) : Login α κ :=
  if l.stopped then { l with phase := .over }
  else if ¬ l.result.isPending then { l with phase := .over }
  else if l.expiresAt ≤ now then
    { l with phase := .ends (.error (some .expired) "the code expired; start the sign-in again") }
  else { l with phase := .asks }

/-- `step`, from the answer to the look for the account. -/
def polled : Poll → Login α κ
  | .refused code why =>
    if code = 403 ∨ code = 404 then { l with phase := .waits, failures := 0 }
    else { l with phase := .ends (.error none ("OpenAI refused the sign-in (" ++ why ++ ")")) }
  | .silent why =>
    if l.failures + 1 < PATIENCE then { l with phase := .waits, failures := l.failures + 1 }
    else
      { l with
        failures := l.failures + 1
        phase := .ends (.error none ("OpenAI did not answer (" ++ why ++ ")")) }
  | .answered code verifier =>
    if code = [] ∨ verifier = [] then
      { l with
        failures := 0
        phase := .ends (.error none "OpenAI accepted the code but sent no login") }
    else { l with failures := 0, phase := .entered }
  | .shapeless => { l with failures := 0, phase := .over }

/-- `step`, once `_account_kept` has answered. -/
def checked (kept : Bool) : Login α κ :=
  if kept then { l with phase := .kept }
  else { l with phase := .ends (.error none "the subscription was removed during login") }

/-- A login that was not taken. -/
def untaken (why : String) : Login α κ :=
  { l with
    phase := .ends (.error none
      ("the login was not taken (" ++ why ++ "); start the sign-in again")) }

/-- The tokens are there, or `_exchange_oauth_code` raised. -/
def exchanged : Except String Tokens → Login α κ
  | .error why => l.untaken why
  | .ok tokens =>
    if tokens.accessToken = [] then l.untaken "the provider returned no login token"
    else { l with phase := .stores tokens }

/-- `_finish_login` answers or raises. -/
def finished (tokens : Tokens) : Storing → Login α κ
  | .stored => { l with phase := .ends (.done tokens.email) }
  | .late why => l.untaken why
  | .unstored why => l.untaken why

/-- `_end`; the thread is over then. -/
def ended (result : Result) : Login α κ :=
  { l with result := result, completing := false, stopped := true, phase := .over }

/-- The login waits for its code: it is pending, and does not complete. -/
def awaits : Bool := l.result.isPending && !l.completing

end Login

/-! ### Deletions -/

/-- Where `delete_cloud_account` is. -/
inductive Leaving (κ : Type)
  /-- The account was looked up, for its sign-out. -/
  | found
  /-- `remove_account` has loaded the document. -/
  | loaded (r : ℕ)
  | assigned (r : ℕ)
  | saved
  /-- The vault's entry is removed. -/
  | forgotten
  /-- The logins that were ended are told to stop. -/
  | stops (left : List κ)
  /-- The provider is told, where a sign-in is left to end. -/
  | leaves
  | returned
  | raised
  deriving DecidableEq, Repr

/-- The vault has been told. -/
def Leaving.forgets : Leaving κ → Bool
  | .forgotten | .stops _ | .leaves | .returned => true
  | _ => false

structure Deletion (α κ : Type) where
  account : α
  phase : Leaving κ := .found
  deriving DecidableEq, Repr

/-! ### All of it -/

/-- `EndedLogins` -/
abbrev EndedLogins (κ : Type) := List (κ × ℤ × Result)

def KEEP : ℤ := 30 * 60 * SECOND

/-- `EndedLogins.note` -/
def EndedLogins.note (e : EndedLogins κ) (now : ℤ) (id : κ) (result : Result) : EndedLogins κ :=
  Assoc.set (e.filter fun p => now - p.2.1 < KEEP) id (now, result)

/-- `EndedLogins.result` -/
def EndedLogins.result (e : EndedLogins κ) (now : ℤ) (id : κ) : Option Result :=
  match Assoc.get e id with
  | some (noted, result) => if KEEP ≤ now - noted then none else some result
  | none => none

/-- The files and what the controller keeps in memory. A login's session is part of it, for
each login that was ever started. -/
structure State (α κ δ : Type) where
  accounts : Document.Store (List (Account α)) (List (Account α))
  vault : α → Option Entry
  logins : κ → Option (Login α κ)
  /-- The keys of `_oauth_sessions`. -/
  registered : List κ
  ended : EndedLogins κ
  deletions : δ → Option (Deletion α κ)

/-- What a login does next, with what it is answered. -/
inductive LoginStep (κ : Type)
  | begun (now : ℤ) (answer : Option CodeAnswer)
  | replace (now : κ → ℤ)
  | stop
  | register
  | launch
  | wake (now : ℤ)
  | poll (answer : Poll)
  | check (fails : Bool)
  | complete
  | exchange (answer : Except String Tokens)
  | store (now : ℤ) (outcome : Storing)
  | finish

/-- What a deletion does next, and whether it fails there. -/
inductive DeletionStep (κ : Type)
  | load (fails : Bool)
  | assign
  | save (fails : Bool)
  | forget (fails : Bool)
  | endPending (now : κ → ℤ)
  | stop
  | leave

inductive Action (α κ δ : Type)
  /-- `start_device_login`, up to the request for a code. -/
  | start (id : κ) (a : α) (fails : Bool)
  | login (id : κ) (e : LoginStep κ)
  /-- `delete_cloud_account`, up to the look for the account. -/
  | delete (d : δ) (a : α) (fails : Bool)
  | deletion (d : δ) (e : DeletionStep κ)

namespace State

variable (s : State α κ δ)

/-- `oauth_login_status`; `none` is "unknown". -/
def status (now : ℤ) (id : κ) : Option Result :=
  if id ∈ s.registered then (s.logins id).map Login.result else s.ended.result now id

def modify (id : κ) (f : Login α κ → Login α κ) : State α κ δ :=
  { s with logins := Function.update s.logins id ((s.logins id).map f) }

def moved (d : δ) (phase : Leaving κ) : State α κ δ :=
  { s with
    deletions := Function.update s.deletions d
      ((s.deletions d).map fun x => { x with phase := phase }) }

/-- Whether `_end_pending` ends it. -/
def endable (a : α) (id : κ) : Bool := match s.logins id with
  | some l => l.account.id = a && !l.completing
  | none => false

/-- What an ended login's board is told: why it was ended, or how it had ended on its own. -/
def told (why : Result) (id : κ) : Result := match s.logins id with
  | some l => if l.result.isPending then why else l.result
  | none => why

/-- `_end_pending`, and the logins that are to be stopped. -/
def endPending (a : α) (why : Result) (now : κ → ℤ) : State α κ δ × List κ :=
  let old := s.registered.filter fun id => s.endable a id
  ({ s with
      registered := s.registered.filter fun id => !s.endable a id
      ended := old.foldl (fun e id => e.note (now id) id (s.told why id)) s.ended }, old)

def load (fails : Bool) : State α κ δ × List (Account α) :=
  let r := s.accounts.load providers fails
  ({ s with accounts := r.1 }, r.1.heap r.2)

/-- What a step of the login `id` makes of it all. -/
def loginNext (id : κ) (l : Login α κ) (e : LoginStep κ) : Option (State α κ δ) :=
  match l.phase, e with
  | .begins, .begun now answer => some (s.modify id fun l => l.begun now answer)
  | .replaces, .replace now =>
    let r := s.endPending l.account.id REPLACED now
    some (r.1.modify id fun l => { l with phase := .stops r.2 })
  | .stops (k :: left), .stop =>
    some ((s.modify k fun l => { l with stopped := true }).modify id fun l =>
      { l with phase := .stops left })
  | .stops [], .register =>
    some ({ s with registered := s.registered ++ [id] }.modify id fun l =>
      { l with phase := .starts })
  | .starts, .launch => some (s.modify id fun l => { l with phase := .waits })
  | .waits, .wake now => some (s.modify id fun l => l.woken now)
  | .asks, .poll answer => some (s.modify id fun l => l.polled answer)
  | .entered, .check fails =>
    let r := s.load fails
    some (r.1.modify id fun l => l.checked (r.2.any fun a => a.id = l.account.id))
  | .kept, .complete =>
    some (s.modify id fun l => { l with completing := true, phase := .trades })
  | .trades, .exchange answer => some (s.modify id fun l => l.exchanged answer)
  | .stores tokens, .store now outcome =>
    let t := s.modify id fun l => l.finished tokens outcome
    if outcome.isStored then
      some { t with
        vault := Function.update t.vault l.account.id
          (some (putOauth (t.vault l.account.id) (tokens.oauth now))) }
    else some t
  | .ends result, .finish => some (s.modify id fun l => l.ended result)
  | _, _ => none

/-- What a step of the deletion `d` makes of it all. -/
def deletionNext (d : δ) (x : Deletion α κ) (e : DeletionStep κ) : Option (State α κ δ) :=
  match x.phase, e with
  | .found, .load fails =>
    let r := s.accounts.load providers fails
    let t := { s with accounts := r.1 }
    if (r.1.heap r.2).any fun a => a.testAliasOf = some x.account then some (t.moved d .raised)
    else some (t.moved d (.loaded r.2))
  | .loaded r, .assign =>
    let accounts := s.accounts.assign r fun as => as.filter fun a => a.id ≠ x.account
    some ({ s with accounts := accounts }.moved d (.assigned r))
  | .assigned r, .save fails =>
    if fails then some (s.moved d .raised)
    else some ({ s with accounts := s.accounts.save providers r }.moved d .saved)
  | .saved, .forget fails =>
    if fails then some (s.moved d .raised)
    else some ({ s with vault := Function.update s.vault x.account none }.moved d .forgotten)
  | .forgotten, .endPending now =>
    let r := s.endPending x.account REMOVED now
    some (r.1.moved d (.stops r.2))
  | .stops (k :: left), .stop =>
    some ((s.modify k fun l => { l with stopped := true }).moved d (.stops left))
  | .stops [], .stop => some (s.moved d .leaves)
  | .leaves, .leave => some (s.moved d .returned)
  | _, _ => none

def next (plan : Text → Bool) (s : State α κ δ) : Action α κ δ → Option (State α κ δ)
  | .start id a fails =>
    match s.logins id with
    -- the token of a login is drawn anew
    | some _ => none
    | none =>
      let r := s.load fails
      match deviceAccount plan r.2 a with
      | .error _ => some r.1
      | .ok account =>
        some { r.1 with logins := Function.update r.1.logins id (some { account := account }) }
  | .login id e => match s.logins id with
    | some l => s.loginNext id l e
    | none => none
  | .delete d a fails =>
    match s.deletions d with
    | some _ => none
    | none =>
      some { (s.load fails).1 with
        deletions := Function.update s.deletions d (some { account := a }) }
  | .deletion d e => match s.deletions d with
    | some x => s.deletionNext d x e
    | none => none

/-- Nothing has been started; the files say what they like. -/
def Fresh : Prop :=
  (∀ id, s.logins id = none) ∧ s.registered = [] ∧ s.ended = [] ∧ ∀ d, s.deletions d = none

end State

/-- Logins, deletions and the files they share. -/
def controller (plan : Text → Bool) : System (State α κ δ) (Action α κ δ) where
  init := State.Fresh
  step s e s' := s.next plan e = some s'

end SignIn
