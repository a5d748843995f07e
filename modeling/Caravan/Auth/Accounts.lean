import Caravan.Ports.Registers

/-!
# The accounts

The table `users` of the accounts database, with what the statements of `auth.py` read of
it and write to it. Ids and usernames are unique: the table's declaration says so, and a
`Table` carries it.

A call first makes the checks that need no database; what is left of it is its statements,
one after the other (`Call.begin`, `Todo`). A SELECT is a transaction of its own, and the
first write of a call opens the transaction that its end commits: between two statements of
a call, other calls may write.
-/

namespace Auth

open Python Ports

inductive Role where
  | admin
  | viewer
  deriving DecidableEq, Repr

/-- What is kept of a password. -/
structure Secret where
  salt : Bytes
  hash : Bytes
  iters : ℕ
  deriving DecidableEq, Repr

/-- A row of `users`. -/
structure Account where
  id : ℤ
  username : Text
  secret : Secret
  created_at : ℤ
  role : Role
  deriving DecidableEq, Repr

/-- `users` -/
structure Table where
  rows : List Account
  ids : (rows.map Account.id).Nodup
  names : (rows.map Account.username).Nodup

namespace Table

/-- `SELECT … WHERE username=?` -/
def find? (t : Table) (username : Text) : Option Account :=
  t.rows.find? fun a => decide (a.username = username)

/-- `SELECT COUNT(*) FROM users` -/
def count (t : Table) : ℕ := t.rows.length

/-- `SELECT COUNT(*) FROM users WHERE role='admin' AND username != ?` -/
def otherAdmins (t : Table) (username : Text) : ℕ :=
  t.rows.countP fun a => decide (a.role = .admin ∧ a.username ≠ username)

/-- A write to some rows that leaves the ids and the usernames. -/
def modify (t : Table) (f : Account → Account) (hid : ∀ a, (f a).id = a.id)
    (hname : ∀ a, (f a).username = a.username) : Table where
  rows := t.rows.map f
  ids := by
    have hmap : (t.rows.map f).map Account.id = t.rows.map Account.id := by
      rw [List.map_map]
      exact List.map_congr_left fun a _ => hid a
    rw [hmap]
    exact t.ids
  names := by
    have hmap : (t.rows.map f).map Account.username = t.rows.map Account.username := by
      rw [List.map_map]
      exact List.map_congr_left fun a _ => hname a
    rw [hmap]
    exact t.names

/-- `UPDATE users SET role=? WHERE username=?` -/
def setRole (t : Table) (role : Role) (username : Text) : Table :=
  t.modify (fun a => if a.username = username then { a with role := role } else a)
    (fun a => by split <;> rfl) fun a => by split <;> rfl

/-- `UPDATE users SET salt=?, hash=?, iters=? WHERE username=?` -/
def setSecret (t : Table) (secret : Secret) (username : Text) : Table :=
  t.modify (fun a => if a.username = username then { a with secret := secret } else a)
    (fun a => by split <;> rfl) fun a => by split <;> rfl

/-- `DELETE FROM users WHERE id=?` -/
def delete (t : Table) (id : ℤ) : Table where
  rows := t.rows.filter fun a => decide (a.id ≠ id)
  ids := t.ids.sublist (List.filter_sublist.map _)
  names := t.names.sublist (List.filter_sublist.map _)

/-- `INSERT INTO users`: the table refuses a name it has, and gives an id it has not. -/
def insert (t : Table) (a : Account) (hid : a.id ∉ t.rows.map Account.id)
    (hname : a.username ∉ t.rows.map Account.username) : Table where
  rows := t.rows ++ [a]
  ids := by
    rw [List.map_append]
    exact t.ids.append (List.pairwise_singleton _ _) fun _ h₁ h₂ =>
      hid (List.mem_singleton.mp h₂ ▸ h₁)
  names := by
    rw [List.map_append]
    exact t.names.append (List.pairwise_singleton _ _) fun _ h₁ h₂ =>
      hname (List.mem_singleton.mp h₂ ▸ h₁)

end Table

/-! ### The calls -/

/-- A call, with its arguments as they came. -/
inductive Call where
  | createUser (username password role : Text)
  | setRole (username role : Text)
  | setPassword (username password : Text)
  | deleteUser (username : Text)

/-- The statement a call comes to next. -/
inductive Todo where
  | insert (username : Text) (secret : Secret) (role : Role)
  | countAdmins (username : Text)
  | updateRole (role : Role) (username : Text)
  | updateSecret (secret : Secret) (username : Text)
  | selectId (username : Text)
  | countUsers (id : ℤ)
  | delete (id : ℤ)
  deriving DecidableEq

/-- `str(role).strip().lower()`, which is to be one of the two. No letter outside ASCII
lowers to one of theirs. -/
def Role.parse (role : Text) : Except AppError Role :=
  let role := role.strip.map lowerAscii
  if role = "admin" then .ok .admin
  else if role = "viewer" then .ok .viewer
  else .error ⟨"role must be admin or viewer", 400⟩

/-- What a call does before its first statement; `secret` is the salt it draws, and the
password's hash with it. -/
def Call.begin (secret : Secret) : Call → Except AppError Todo
  | .createUser username password role => do
    let username := username.strip
    let role ← Role.parse (if role = [] then "admin" else role)
    refuseIf (username = [] ∨ 64 < username.length) ⟨"username is required (max 64 chars)", 400⟩
    refuseIf (password.length < 8) ⟨"password must be at least 8 characters", 400⟩
    .ok (.insert username secret role)
  | .setRole username role => do
    match ← Role.parse role with
    | .viewer => .ok (.countAdmins username)
    | .admin => .ok (.updateRole .admin username)
  | .setPassword username password => do
    refuseIf (password.length < 8) ⟨"password must be at least 8 characters", 400⟩
    .ok (.updateSecret secret username)
  | .deleteUser username => .ok (.selectId username)

def noSuchUser (username : Text) : AppError := ⟨"no such user: " ++ username, 404⟩

/-- What comes of a statement. -/
inductive Next where
  | goesOn (todo : Todo)
  | raises (e : AppError)
  /-- The call's write, and with it the call's transaction. -/
  | commits (t : Table)

/-- One statement of a call on the table. -/
inductive Exec (t : Table) : Todo → Next → Prop where
  | insert {username : Text} {secret : Secret} {role : Role} (id now : ℤ)
    (hid : id ∉ t.rows.map Account.id) (hname : username ∉ t.rows.map Account.username) :
    Exec t (.insert username secret role)
      (.commits (t.insert ⟨id, username, secret, now, role⟩ hid hname))
  | nameTaken {username : Text} {secret : Secret} {role : Role} :
    username ∈ t.rows.map Account.username →
    Exec t (.insert username secret role)
      (.raises ⟨"user " ++ username ++ " already exists", 409⟩)
  | otherAdmin {username : Text} : t.otherAdmins username ≠ 0 →
    Exec t (.countAdmins username) (.goesOn (.updateRole .viewer username))
  | lastAdmin {username : Text} : t.otherAdmins username = 0 →
    Exec t (.countAdmins username) (.raises ⟨"cannot demote the last admin", 400⟩)
  | updateRole {role : Role} {username : Text} : (t.find? username).isSome →
    Exec t (.updateRole role username) (.commits (t.setRole role username))
  | roleOfNobody {role : Role} {username : Text} : t.find? username = none →
    Exec t (.updateRole role username) (.raises (noSuchUser username))
  | updateSecret {secret : Secret} {username : Text} : (t.find? username).isSome →
    Exec t (.updateSecret secret username) (.commits (t.setSecret secret username))
  | secretOfNobody {secret : Secret} {username : Text} : t.find? username = none →
    Exec t (.updateSecret secret username) (.raises (noSuchUser username))
  | selectId {username : Text} {a : Account} : t.find? username = some a →
    Exec t (.selectId username) (.goesOn (.countUsers a.id))
  | deleteNobody {username : Text} : t.find? username = none →
    Exec t (.selectId username) (.raises (noSuchUser username))
  | countUsers {id : ℤ} : 1 < t.count → Exec t (.countUsers id) (.goesOn (.delete id))
  | lastUser {id : ℤ} : t.count ≤ 1 →
    Exec t (.countUsers id) (.raises
      ⟨"cannot delete the last user — disable auth is not supported from the UI", 400⟩)
  | delete {id : ℤ} : Exec t (.delete id) (.commits (t.delete id))

/-- One account, an admin since the beginning of time. -/
def root : Table where
  rows := [⟨1, "root", ⟨[], [], 200000⟩, 0, .admin⟩]
  ids := by decide
  names := by decide

end Auth
