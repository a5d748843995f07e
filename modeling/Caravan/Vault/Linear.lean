import Caravan.Vault.Vault

/-!
# The vault is linearizable

Every call takes effect at one place of the log, while it runs, and is answered as the log
up to there has it (`Inv`). The document's lock makes a write's read the current document; an
account's lock keeps its sign-in as it was read while its renewal is under way, since the
one writer that does without this lock leaves the sign-in alone (`oauthOf_apply`).

What was put, deleted or renewed lasts until the log says otherwise (`vault_keeps`).
-/

namespace Vault

open Python

variable {init : Doc}

/-! ### Operations -/

/-- The account whose lock an operation is made under. -/
def Op.owner : Op → Option Text
  | .putApiKey _ _ => none
  | op => some op.id

theorem apply_of_ne {op : Op} {id : Text} (h : id ≠ op.id) (d : Doc) : op.apply d id = d id :=
  Function.update_of_ne h _ _

theorem apply_self (op : Op) (d : Doc) : op.apply d op.id = op.effect (d op.id) :=
  Function.update_self _ _ _

theorem apply_look (id : Text) (d : Doc) : (Op.look id).apply d = d :=
  Function.update_eq_self _ _

/-- A sign-in is changed under its account's lock only. -/
theorem oauthOf_apply {op : Op} {id : Text} (h : op.owner ≠ some id) (d : Doc) :
    oauthOf (op.apply d id) = oauthOf (d id) := by
  by_cases heq : id = op.id
  · cases op with
    | putApiKey id' key =>
      obtain rfl : id = id' := heq
      rw [show (Op.putApiKey id key).apply d id = _ from apply_self (.putApiKey id key) d]
      rfl
    | _ => exact absurd (congrArg some heq.symm) h
  · rw [apply_of_ne heq]

/-! ### The invariant -/

/-- The account's lock of an operation is the thread's. -/
def Owns (s : State) (t : ℕ) (op : Op) : Prop :=
  ∀ id, op.owner = some id → s.locks (accountLock id) = some t

/-- What holds of a thread, by where it is. -/
def Good (init : Doc) (s : State) (t : ℕ) : Pc → Prop
  | .idle => True
  | .called _ began => began ≤ s.log.length
  | .locked call began => began ≤ s.log.length ∧ s.locks (accountLock call.id) = some t
  | .asking _ id read began => began ≤ s.log.length ∧ s.locks (accountLock id) = some t ∧
      oauthOf (s.doc id) = read ∧ read.refreshToken ≠ []
  | .renewed _ op began => began ≤ s.log.length ∧ Owns s t op ∧ Relies op s.doc
  | .writing _ op data began => began ≤ s.log.length ∧ Owns s t op ∧ Relies op s.doc ∧
      s.locks docLock = some t ∧ data = s.doc
  | .finished _ op a began place =>
    Object.Answered.In vault init s.log ⟨op, a, began, place, s.log.length⟩

/-- Each thread is good, and the log tells how the document came about. -/
structure Inv (init : Doc) (s : State) : Prop where
  good : ∀ t, Good init s t (s.pc t)
  doc : s.doc = vault.replay init s.log
  legal : vault.Legal Relies init s.log
  done : ∀ c ∈ s.done, c.In vault init s.log

/-- What a step of another thread leaves to thread `u`. -/
structure Leaves (s s' : State) (u : ℕ) : Prop where
  locks : ∀ name, s.locks name = some u → s'.locks name = some u
  doc : s.locks docLock = some u → s'.doc = s.doc
  oauth : ∀ id, s.locks (accountLock id) = some u → oauthOf (s'.doc id) = oauthOf (s.doc id)
  log : ∃ ops, s'.log = s.log ++ ops

theorem In.ended {init : Doc} {log : List Op} {op : Op} {a : Answer} {began place : ℕ}
    (h : Object.Answered.In vault init log ⟨op, a, began, place, log.length⟩) (ops : List Op) :
    Object.Answered.In vault init (log ++ ops) ⟨op, a, began, place, (log ++ ops).length⟩ := by
  have hlt : place < log.length := h.ended
  refine ⟨h.began, ?_, le_refl _, ?_, ?_⟩
  · rw [List.length_append]
    exact Nat.lt_add_right _ hlt
  · rw [List.getElem?_append_left hlt]
    exact h.op
  · rw [List.take_append_of_le_length hlt.le]
    exact h.answer

theorem Relies.of_oauth {op : Op} {d d' : Doc} (h : Relies op d)
    (hd : ∀ id, op.owner = some id → oauthOf (d' id) = oauthOf (d id)) : Relies op d' := by
  cases op with
  | refresh id read tokens now now' => exact ⟨(hd id rfl).trans h.1, h.2⟩
  | _ => trivial

/-- A thread stays good while another one takes its step. -/
theorem Good.of_leaves {s s' : State} {u : ℕ} {pc : Pc} (h : Good init s u pc)
    (hl : Leaves s s' u) : Good init s' u pc := by
  obtain ⟨hlocks, hdoc, hoauth, ops, hlog⟩ := hl
  have hlen : s.log.length ≤ s'.log.length := by
    rw [hlog, List.length_append]
    exact Nat.le_add_right _ _
  have howns {op : Op} (ho : Owns s u op) : Owns s' u op := fun id hid => hlocks _ (ho id hid)
  cases pc with
  | idle => trivial
  | called call began => exact le_trans h hlen
  | locked call began => exact ⟨h.1.trans hlen, hlocks _ h.2⟩
  | asking call id read began =>
    obtain ⟨hb, hlock, hread, hne⟩ := h
    exact ⟨hb.trans hlen, hlocks _ hlock, (hoauth id hlock).trans hread, hne⟩
  | renewed call op began =>
    obtain ⟨hb, ho, hr⟩ := h
    exact ⟨hb.trans hlen, howns ho, hr.of_oauth fun id hid => hoauth id (ho id hid)⟩
  | writing call op data began =>
    obtain ⟨hb, ho, hr, hlock, hdata⟩ := h
    exact ⟨hb.trans hlen, howns ho, hr.of_oauth fun id hid => hoauth id (ho id hid),
      hlocks _ hlock, hdata.trans (hdoc hlock).symm⟩
  | finished call op a began place =>
    unfold Good at h ⊢
    rw [hlog]
    exact In.ended h ops

/-- The invariant, thread by thread: the stepping one is good, the others are left alone. -/
theorem Inv.of_step {s s' : State} {t : ℕ} {pc : Pc} (h : Inv init s)
    (hpc : s'.pc = Function.update s.pc t pc) (hgood : Good init s' t pc)
    (hl : ∀ u, u ≠ t → Leaves s s' u) (hdoc : s'.doc = vault.replay init s'.log)
    (hlegal : vault.Legal Relies init s'.log) (hdone : ∀ c ∈ s'.done, c.In vault init s'.log) :
    Inv init s' := by
  refine ⟨fun u => ?_, hdoc, hlegal, hdone⟩
  rw [hpc, Function.update_apply]
  split
  · next heq =>
    subst heq
    exact hgood
  · next hne => exact (h.good u).of_leaves (hl u hne)

/-- A step that changes neither document nor log. -/
theorem Inv.of_quiet {s s' : State} {t : ℕ} {pc : Pc} (h : Inv init s)
    (hpc : s'.pc = Function.update s.pc t pc) (hgood : Good init s' t pc)
    (hlocks : ∀ u, u ≠ t → ∀ name, s.locks name = some u → s'.locks name = some u)
    (hdoc : s'.doc = s.doc) (hlog : s'.log = s.log)
    (hdone : ∀ c ∈ s'.done, c.In vault init s.log) : Inv init s' := by
  refine h.of_step hpc hgood (fun u hu => ⟨hlocks u hu, fun _ => hdoc, fun id _ => by rw [hdoc],
    [], by rw [hlog, List.append_nil]⟩) ?_ ?_ ?_
  · rw [hdoc, hlog]
    exact h.doc
  · rw [hlog]
    exact h.legal
  · rw [hlog]
    exact hdone

theorem lock_self (s : State) (t : ℕ) (name : Text) : (s.lock t name).locks name = some t :=
  Function.update_self _ _ _

/-- A free lock that is taken is nobody else's. -/
theorem locks_of_free {s : State} {name : Text} (hfree : s.locks name = none) (t : ℕ) {u : ℕ}
    {name' : Text} (h : s.locks name' = some u) :
    Function.update s.locks name (some t) name' = some u := by
  have hne : name' ≠ name := fun heq => by rw [heq, hfree] at h; cases h
  rw [Function.update_of_ne hne]
  exact h

theorem locks_release {s : State} {t u : ℕ} (hne : u ≠ t) {name : Text}
    (h : s.locks name = some u) : (s.release t).locks name = some u := by
  have hother : ¬ s.locks name = some t := fun heq => hne (Option.some.inj (h.symm.trans heq))
  change (if s.locks name = some t then none else s.locks name) = some u
  rw [if_neg hother]
  exact h

theorem Inv.initial {s : State} (h : (system init).init s) : Inv init s := by
  obtain ⟨hdoc, -, hpc, hlog, hdone⟩ := h
  refine ⟨fun t => by rw [hpc t]; trivial, ?_, ?_, ?_⟩
  · rw [hdoc, hlog]
    rfl
  · rw [hlog]
    exact Object.Legal.nil vault Relies init
  · rw [hdone]
    exact fun c hc => absurd hc List.not_mem_nil

/-- A thread that is ready to write owns what it writes, and knows what it relies on. -/
theorem ready_good {s : State} {t : ℕ} {pc : Pc} {call : Call} {op : Op} {began : ℕ}
    (h : Ready pc call op began) (hg : Good init s t pc) :
    began ≤ s.log.length ∧ Owns s t op ∧ Relies op s.doc := by
  cases h with
  | putApiKey id key =>
    exact ⟨hg, fun id hid => (by cases hid), trivial⟩
  | putOauth id oauth =>
    refine ⟨hg.1, fun id' hid => ?_, trivial⟩
    obtain rfl := Option.some.inj hid
    exact hg.2
  | delete id =>
    refine ⟨hg.1, fun id' hid => ?_, trivial⟩
    obtain rfl := Option.some.inj hid
    exact hg.2
  | refresh => exact hg

/-- An operation that takes effect now does so within its call, and is answered rightly. -/
theorem In.last {s : State} (h : Inv init s) {began : ℕ} (hb : began ≤ s.log.length) (op : Op) :
    Object.Answered.In vault init (s.log ++ [op])
      ⟨op, op.answer s.doc, began, s.log.length, (s.log ++ [op]).length⟩ where
  began := hb
  ended := by simp
  known := le_refl _
  op := List.getElem?_concat_length
  answer := by
    rw [List.take_left, ← h.doc]
    rfl

/-- Only a sign-in with a refresh token is renewed. -/
theorem renews_token {o : OAuth} {url force : Bool} {now : ℚ} (h : renews o url force now = true) :
    o.refreshToken ≠ [] := by
  unfold renews at h
  simp only [Bool.and_eq_true, decide_eq_true_eq] at h
  exact h.1.2

theorem Inv.step {s s' : State} {t : ℕ} (h : Inv init s) (hs : Step s t s') : Inv init s' := by
  have hg := h.good t
  cases hs with
  | call call hpc =>
    exact h.of_quiet rfl (le_refl _) (fun _ _ _ hl => hl) rfl rfl h.done
  | lockAccount hpc hc hfree =>
    rw [hpc] at hg
    exact h.of_quiet rfl ⟨hg, lock_self s t (accountLock _)⟩
      (fun u _ name hl => locks_of_free hfree t hl) rfl rfl h.done
  | lockDoc hready hfree =>
    obtain ⟨hb, ho, hr⟩ := ready_good hready hg
    exact h.of_quiet rfl ⟨hb, fun id hid => locks_of_free hfree t (ho id hid), hr,
      lock_self s t docLock, rfl⟩ (fun u _ name hl => locks_of_free hfree t hl) rfl rfl h.done
  | @write call op data began hpc =>
    rw [hpc] at hg
    obtain ⟨hb, ho, hr, hlock, rfl⟩ := hg
    refine h.of_step rfl ?_ (fun u hu => ⟨fun name hl => ?_, fun hl => ?_, fun id hl => ?_,
      [op], rfl⟩) ?_ ?_ fun c hc => (h.done c hc).concat op
    · -- its own call took effect at the log's end
      exact In.last h hb op
    · -- the lock it lets go was its own
      have hne : name ≠ docLock := fun heq => hu (Option.some.inj (hl.symm.trans (heq ▸ hlock)))
      exact (Function.update_of_ne hne _ _).trans hl
    · exact absurd (Option.some.inj (hl.symm.trans hlock)) hu
    · -- no other thread owns the account that is written
      refine oauthOf_apply (fun hid => hu ?_) s.doc
      exact Option.some.inj (hl.symm.trans (ho id hid))
    · exact (congrArg op.apply h.doc).trans (Object.replay_concat vault init s.log op).symm
    · exact h.legal.concat (h.doc ▸ hr)
  | @look id url force began now hpc hn =>
    rw [hpc] at hg
    refine h.of_step rfl (In.last h hg.1 (.look id)) (fun u hu => ⟨fun _ hl => hl, fun _ => rfl,
      fun _ _ => rfl, [.look id], rfl⟩) ?_ ?_ fun c hc => (h.done c hc).concat _
    · refine Eq.trans ?_ (Object.replay_concat vault init s.log (.look id)).symm
      rw [← h.doc]
      exact (apply_look id s.doc).symm
    · exact h.legal.concat trivial
  | @ask id url force began now hpc hr =>
    rw [hpc] at hg
    exact h.of_quiet rfl ⟨hg.1, hg.2, rfl, renews_token hr⟩ (fun _ _ _ hl => hl) rfl rfl h.done
  | renewed tokens now now' hpc ha =>
    rw [hpc] at hg
    obtain ⟨hb, hlock, hread, hne⟩ := hg
    refine h.of_quiet rfl ⟨hb, fun id hid => ?_, hread, hne⟩ (fun _ _ _ hl => hl) rfl rfl h.done
    obtain rfl := Option.some.inj hid
    exact hlock
  | @answer call op a began place hpc =>
    rw [hpc] at hg
    refine h.of_quiet rfl trivial (fun u hu name hl => locks_release hu hl) rfl rfl fun c hc => ?_
    rcases List.mem_cons.mp hc with rfl | hc
    · exact hg
    · exact h.done c hc
  | die => exact h.of_quiet rfl trivial (fun u hu name hl => locks_release hu hl) rfl rfl h.done

theorem reachable_inv {s : State} (h : System.Reachable (system init) s) : Inv init s :=
  h.invariant (fun _ h₀ => Inv.initial h₀) fun _ _ _ hi _ hs => hi.step hs

/-! ### What lasts -/

/-- It sets or removes the account's key. -/
def Op.setsKey : Op → Bool
  | .putApiKey _ _ => true
  | .delete _ => true
  | _ => false

/-- It sets or removes the account's sign-in. -/
def Op.setsOauth : Op → Bool
  | .putOauth _ _ => true
  | .delete _ => true
  | _ => false

def Op.isPut : Op → Bool
  | .putApiKey _ _ => true
  | .putOauth _ _ => true
  | _ => false

def Op.isRefresh : Op → Bool
  | .refresh _ _ _ _ _ => true
  | _ => false

/-- No operation on the account after the place is of the kind. -/
def Lasting (log : List Op) (place : ℕ) (id : Text) (kind : Op → Bool) : Prop :=
  ∀ j op, place < j → log[j]? = some op → op.id = id → kind op = false

/-- A sign-in and what renewals made of it. -/
inductive Renewed (o : OAuth) : OAuth → Prop where
  | refl : Renewed o o
  | renew {o' : OAuth} (tokens : Tokens) (now now' : ℚ) : Renewed o o' →
    Renewed o (o'.renew tokens now now')

/-- What an operation of the log brings about in its account, and none on the account takes
away, is there at the end. -/
theorem lasts {s : State} (h : Inv init s) {place : ℕ} {op : Op}
    (hop : s.log[place]? = some op) {P : Option Stored → Prop} {kind : Op → Bool}
    (hlast : Lasting s.log place op.id kind) (hP : ∀ e, P (op.effect e))
    (hkeep : ∀ op' : Op, op'.id = op.id → kind op' = false → ∀ d : Doc, Relies op' d →
      P (d op.id) → P (op'.effect (d op.id))) : P (s.doc op.id) := by
  rw [h.doc]
  refine Object.replay_after (P := fun d => P (d op.id)) h.legal hop (fun d _ => ?_)
    fun j op' hj hop' d hr hd => ?_
  · rw [show vault.apply op d op.id = _ from apply_self op d]
    exact hP _
  · by_cases hid : op'.id = op.id
    · have happ : vault.apply op' d op.id = op'.effect (d op.id) := by
        rw [← hid]
        exact apply_self op' d
      rw [happ]
      exact hkeep op' hid (hlast j op' hj hop' hid) d hr hd
    · rw [show vault.apply op' d op.id = d op.id from apply_of_ne (Ne.symm hid) d]
      exact hd

/-- **The vault is linearizable, and keeps what it acknowledged.** A key stays until another
one or a delete, a sign-in until another one or a delete, renewed at most; a deleted account
comes back by a put alone; and the sign-in after a renewal is the one it brought, asked for
with the one that was stored. -/
theorem vault_keeps (init : Doc) (s : State) (h : System.Reachable (system init) s) :
    (s.doc = vault.replay init s.log ∧ ∀ c ∈ s.done, c.In vault init s.log) ∧
    (∀ c ∈ s.done, ∀ id key, c.op = .putApiKey id key →
      Lasting s.log c.place id Op.setsKey → (fields (s.doc id)).1 = some key) ∧
    (∀ c ∈ s.done, ∀ id oauth, c.op = .putOauth id oauth →
      Lasting s.log c.place id Op.setsOauth →
        ∃ oauth', (fields (s.doc id)).2 = some oauth' ∧ Renewed oauth oauth') ∧
    (∀ c ∈ s.done, ∀ id, c.op = .delete id →
      Lasting s.log c.place id Op.isPut → s.doc id = none) ∧
    (∀ c ∈ s.done, ∀ id read tokens now now', c.op = .refresh id read tokens now now' →
      oauthOf (vault.replay init (s.log.take c.place) id) = read ∧
        (Lasting s.log c.place id (fun op => op.setsOauth || op.isRefresh) →
          (fields (s.doc id)).2 = some (read.renew tokens now now'))) := by
  have hinv := reachable_inv h
  refine ⟨⟨hinv.doc, hinv.done⟩, fun c hc id key hop hl => ?_, fun c hc id oauth hop hl => ?_,
    fun c hc id hop hl => ?_, fun c hc id read tokens now now' hop => ?_⟩
  · have hplace := (hinv.done c hc).op
    rw [hop] at hplace
    refine lasts hinv hplace (P := fun e => (fields e).1 = some key) hl (fun _ => rfl) ?_
    intro op' hid hkind d _ hd
    cases op' with
    | putApiKey id' key' => cases hkind
    | delete id' => cases hkind
    | _ => exact hd
  · have hplace := (hinv.done c hc).op
    rw [hop] at hplace
    refine lasts hinv hplace (P := fun e => ∃ o', (fields e).2 = some o' ∧ Renewed oauth o') hl
      (fun _ => ⟨oauth, rfl, .refl⟩) ?_
    rintro op' hid hkind d hr ⟨o', ho', hren⟩
    cases op' with
    | putOauth id' oauth' => cases hkind
    | delete id' => cases hkind
    | putApiKey id' key => exact ⟨o', ho', hren⟩
    | look id' => exact ⟨o', ho', hren⟩
    | refresh id' read tokens now now' =>
      -- it renewed the sign-in that was there
      obtain rfl : id' = id := hid
      have hread : read = o' := by
        have hstored : oauthOf (d id') = read := hr.1
        unfold oauthOf at hstored
        rw [show (fields (d id')).2 = some o' from ho'] at hstored
        exact hstored.symm
      subst hread
      exact ⟨_, rfl, hren.renew tokens now now'⟩
  · have hplace := (hinv.done c hc).op
    rw [hop] at hplace
    refine lasts hinv hplace (P := fun e => e = none) hl (fun _ => rfl) ?_
    intro op' hid hkind d hr hd
    cases op' with
    | putApiKey id' key => cases hkind
    | putOauth id' oauth => cases hkind
    | delete id' => rfl
    | look id' => exact hd
    | refresh id' read tokens now now' =>
      -- there is no sign-in to renew
      obtain rfl : id' = id := hid
      obtain ⟨hread, hne⟩ := hr
      rw [show d id' = none from hd] at hread
      exact absurd (hread ▸ rfl) hne
  · have hplace := (hinv.done c hc).op
    rw [hop] at hplace
    refine ⟨(hinv.legal _ _ hplace).1, fun hl => ?_⟩
    refine lasts hinv hplace (P := fun e => (fields e).2 = some (read.renew tokens now now')) hl
      (fun _ => rfl) ?_
    intro op' hid hkind d _ hd
    cases op' with
    | putOauth id' oauth => cases hkind
    | delete id' => cases hkind
    | refresh id' read' tokens' => cases hkind
    | _ => exact hd

/-! ### One key -/

/-- No account is known. -/
def noAccounts : Doc := fun _ => none

def atRest : State := ⟨noAccounts, fun _ => none, fun _ => .idle, [], []⟩

/-- A run in which one thread sets a key. -/
theorem vault_keeps_key : ∃ s, System.Reachable (system noAccounts) s ∧
    (fields (s.doc "a")).1 = some (Text.of "k") := by
  have h₀ : System.Reachable (system noAccounts) atRest :=
    .init ⟨rfl, fun _ => rfl, fun _ => rfl, rfl, rfl⟩
  have h₁ := h₀.next (e := 0) (.call (.putApiKey "a" "k") rfl) trivial
  have h₂ := h₁.next (e := 0) (.lockDoc (.putApiKey "a" "k" 0) rfl) trivial
  have h₃ := h₂.next (e := 0) (.write rfl) trivial
  have h₄ := h₃.next (e := 0) (.answer rfl) trivial
  refine ⟨_, h₄, ?_⟩
  have hkeeps := (vault_keeps noAccounts _ h₄).2.1 _ List.mem_cons_self "a" "k" rfl
  refine hkeeps fun j op hj hop _ => ?_
  -- its operation is the only one
  cases j with
  | zero => exact absurd hj (Nat.lt_irrefl 0)
  | succ j => cases hop

end Vault
