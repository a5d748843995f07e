import Caravan.Proxy.UpstreamPool

/-!
# Kept connections are no one's

Whatever the order of the steps of any number of requests, a connection is idle once or held by
one request, and no more than `per_host` are idle for one place. What a step does to these is
said in one way for all of them: what the request holds and what is idle then are among what it
held, what was idle, and the connection it has opened (`State.Inv.moves`).

An idle connection's answer was read to its end as long as `isclosed()` says so. It says so of a
cut answer, too: `http.client` closes a response where the connection ends inside it, or where a
chunk's size is none (`cut_answer_kept`). So that part holds in the runs in which no connection
is given back with a cut answer (`kept_apart`).
-/

namespace UpstreamPool

/-! ### Who has a connection -/

section Apart

open scoped List

variable {cfg : Config} {s s' : State} {r : ℕ}

/-- The connection that a request holds. -/
def State.held (s : State) (r : ℕ) : Option ℕ := (s.requests r).bind Request.conn

/-- The last answer of each idle connection was read to its end. -/
def State.Whole (s : State) : Prop := ∀ c ∈ s.idle.conns, (s.conns c).answer = some .whole

/-- What holds in every state of a run. -/
structure State.Inv (cfg : Config) (s : State) : Prop where
  distinct : Assoc.Distinct s.idle
  bounded : s.idle.Bounded cfg.perHost
  once : s.idle.conns.Nodup
  apart : ∀ r c, s.held r = some c → c ∉ s.idle.conns
  alone : ∀ r r' c, s.held r = some c → s.held r' = some c → r = r'
  idle_old : ∀ c ∈ s.idle.conns, c < s.fresh
  held_old : ∀ r c, s.held r = some c → c < s.fresh
  answered : ∀ r q c, s.requests r = some q → q.conn = some c → q.phase.answered = true →
    (s.conns c).answer ≠ none

/-- A connection's answer is one still, and is read to its end if it was. -/
def Conn.Stays (x x' : Conn) : Prop :=
  (x.answer ≠ none → x'.answer ≠ none) ∧ (x.answer = some .whole → x'.answer = some .whole)

theorem Conn.Stays.rfl {x : Conn} : x.Stays x := ⟨id, id⟩

theorem Conn.Stays.trans {x y z : Conn} (h : x.Stays y) (h' : y.Stays z) : x.Stays z :=
  ⟨fun hx => h'.1 (h.1 hx), fun hx => h'.2 (h.2 hx)⟩

theorem Conn.stays_close (x : Conn) : x.Stays x.close := by
  unfold Conn.close
  refine ⟨fun hx => ?_, fun hx => ?_⟩
  · cases ha : x.answer with
    | none => exact absurd ha hx
    | some a => exact Option.some_ne_none _
  · rw [hx]
    rfl

/-- All connections but one stay what they were. -/
def State.Stays (s s' : State) (o : Option ℕ) : Prop :=
  ∀ c < s.fresh, o ≠ some c → (s.conns c).Stays (s'.conns c)

/-- **A step of one request moves connections between it and the pool.** What it holds then and
what is idle then are, together and once each, of what it held, what was idle, and the
connection it has opened. -/
theorem State.Inv.moves (h : s.Inv cfg) {q' : Request} {new : List ℕ}
    (hr : s'.requests = Function.update s.requests r (some q'))
    (hd : Assoc.Distinct s'.idle) (hb : s'.idle.Bounded cfg.perHost)
    (hnew : new = [] ∧ s'.fresh = s.fresh ∨ new = [s.fresh] ∧ s'.fresh = s.fresh + 1)
    (hperm : q'.conn.toList ++ s'.idle.conns <+~ (s.held r).toList ++ (s.idle.conns ++ new))
    (hstays : s.Stays s' (s.held r))
    (hans : ∀ c, q'.conn = some c → q'.phase.answered = true →
      (s'.conns c).answer ≠ none) : s'.Inv cfg := by
  have hfresh : s.fresh ≤ s'.fresh := by
    rcases hnew with ⟨-, hf⟩ | ⟨-, hf⟩ <;> omega
  have hself : s'.held r = q'.conn := by
    unfold State.held
    rw [hr, Function.update_self]
    rfl
  have hother : ∀ u, u ≠ r → s'.held u = s.held u := fun u hu => by
    unfold State.held
    rw [hr, Function.update_of_ne hu]
  -- the places are told apart before, and so after
  have hnodup : ((s.held r).toList ++ (s.idle.conns ++ new)).Nodup := by
    refine List.nodup_append.mpr ⟨?_, List.nodup_append.mpr ⟨h.once, ?_, ?_⟩, ?_⟩
    · cases s.held r <;> simp
    · rcases hnew with ⟨rfl, -⟩ | ⟨rfl, -⟩ <;> simp
    · rintro c hc e he rfl
      rcases hnew with ⟨rfl, -⟩ | ⟨rfl, -⟩
      · cases he
      · obtain rfl := List.mem_singleton.mp he
        exact absurd (h.idle_old _ hc) (lt_irrefl _)
    · rintro c hc e he rfl
      have hc := Option.mem_toList.mp hc
      rcases List.mem_append.mp he with he | he
      · exact h.apart r c hc he
      · rcases hnew with ⟨rfl, -⟩ | ⟨rfl, -⟩
        · cases he
        · obtain rfl := List.mem_singleton.mp he
          exact absurd (h.held_old r _ hc) (lt_irrefl _)
  obtain ⟨l, hl, hsub⟩ := hperm
  have hafter : (q'.conn.toList ++ s'.idle.conns).Nodup :=
    hl.nodup_iff.mp (hsub.nodup hnodup)
  obtain ⟨-, honce, happart⟩ := List.nodup_append.mp hafter
  -- where what is there now came from
  have hfrom : ∀ c, c ∈ q'.conn.toList ++ s'.idle.conns →
      s.held r = some c ∨ c ∈ s.idle.conns ∨ c = s.fresh ∧ s'.fresh = s.fresh + 1 := by
    intro c hc
    rcases List.mem_append.mp (hsub.subset (hl.mem_iff.mpr hc)) with hc | hc
    · exact .inl (Option.mem_toList.mp hc)
    · rcases List.mem_append.mp hc with hc | hc
      · exact .inr (.inl hc)
      · rcases hnew with ⟨rfl, -⟩ | ⟨rfl, hf⟩
        · cases hc
        · exact .inr (.inr ⟨List.mem_singleton.mp hc, hf⟩)
  have hold : ∀ c, c ∈ q'.conn.toList ++ s'.idle.conns → c < s'.fresh := by
    intro c hc
    rcases hfrom c hc with hc | hc | ⟨rfl, hf⟩
    · exact (h.held_old r c hc).trans_le hfresh
    · exact (h.idle_old c hc).trans_le hfresh
    · omega
  have hothers : ∀ u c, u ≠ r → s.held u = some c → c ∉ q'.conn.toList ++ s'.idle.conns := by
    intro u c hu hc hmem
    rcases hfrom c hmem with hm | hm | ⟨rfl, -⟩
    · exact hu (h.alone u r c hc hm)
    · exact h.apart u c hc hm
    · exact absurd (h.held_old u _ hc) (lt_irrefl _)
  refine ⟨hd, hb, honce, fun u c hc hidle => ?_, fun u v c hu hv => ?_, fun c hc =>
    hold c (List.mem_append_right _ hc), fun u c hc => ?_, fun u q c hq hc hp => ?_⟩
  · by_cases hu : u = r
    · subst hu
      rw [hself] at hc
      exact happart c (Option.mem_toList.mpr hc) c hidle rfl
    · rw [hother u hu] at hc
      exact hothers u c hu hc (List.mem_append_right _ hidle)
  · by_cases hur : u = r
    · by_cases hvr : v = r
      · exact hur.trans hvr.symm
      · rw [hur, hself] at hu
        rw [hother v hvr] at hv
        exact absurd (List.mem_append_left _ (Option.mem_toList.mpr hu)) (hothers v c hvr hv)
    · rw [hother u hur] at hu
      by_cases hvr : v = r
      · rw [hvr, hself] at hv
        exact absurd (List.mem_append_left _ (Option.mem_toList.mpr hv)) (hothers u c hur hu)
      · rw [hother v hvr] at hv
        exact h.alone u v c hu hv
  · by_cases hu : u = r
    · subst hu
      rw [hself] at hc
      exact hold c (List.mem_append_left _ (Option.mem_toList.mpr hc))
    · rw [hother u hu] at hc
      exact (h.held_old u c hc).trans_le hfresh
  · rw [hr] at hq
    by_cases hu : u = r
    · subst hu
      rw [Function.update_self] at hq
      obtain rfl := Option.some.inj hq
      exact hans c hc hp
    · rw [Function.update_of_ne hu] at hq
      have hheld : s.held u = some c := by
        unfold State.held
        rw [hq]
        exact hc
      have hne : s.held r ≠ some c := fun hr => hu (h.alone u r c hheld hr)
      exact (hstays c (h.held_old u c hheld) hne).1 (h.answered u q c hq hc hp)

/-- The idle connections are whole, as they were, and the one that is given back. -/
theorem State.Whole.moves (h : s.Inv cfg) (hw : s.Whole) (hstays : s.Stays s' (s.held r))
    (hidle : ∀ c ∈ s'.idle.conns, (s'.conns c).answer = some .whole ∨ c ∈ s.idle.conns) :
    s'.Whole := by
  intro c hc
  rcases hidle c hc with hx | hmem
  · exact hx
  · have hne : s.held r ≠ some c := fun hr => h.apart r c hr hmem
    exact (hstays c (h.idle_old c hmem) hne).2 (hw c hmem)

/-! ### The steps -/

namespace State

variable {c : ℕ} {f : Conn → Conn} {o : Option ℕ} {q : Request}

theorem modify_self (f : Conn → Conn) : (s.modify c f).conns c = f (s.conns c) :=
  Function.update_self ..

theorem modify_of_ne {e : ℕ} (he : e ≠ c) : (s.modify c f).conns e = s.conns e :=
  Function.update_of_ne he ..

theorem stays_refl : s.Stays s o := fun _ _ _ => .rfl

/-- The connection that a request holds may become anything. -/
theorem stays_modify : s.Stays (s.modify c f) (some c) := by
  intro e _ he
  rw [modify_of_ne fun h => he (congrArg some h.symm)]
  exact .rfl

theorem stays_close : s.Stays (s.modify c Conn.close) o := by
  intro e _ _
  by_cases he : e = c
  · subst he
    rw [modify_self]
    exact Conn.stays_close _
  · rw [modify_of_ne he]
    exact .rfl

theorem closeAll_spec (cs : List ℕ) (s : State) :
    (∀ e, (s.conns e).Stays ((s.closeAll cs).conns e)) ∧ (s.closeAll cs).idle = s.idle ∧
      (s.closeAll cs).requests = s.requests ∧ (s.closeAll cs).fresh = s.fresh := by
  induction cs generalizing s with
  | nil => exact ⟨fun _ => .rfl, rfl, rfl, rfl⟩
  | cons c cs ih =>
    obtain ⟨hstays, hidle, hrequests, hfresh⟩ := ih (s.modify c Conn.close)
    refine ⟨fun e => .trans ?_ (hstays e), hidle, hrequests, hfresh⟩
    by_cases he : e = c
    · subst he
      rw [modify_self]
      exact Conn.stays_close _
    · rw [modify_of_ne he]
      exact .rfl

theorem stays_set {t : State} {q' : Request} (h : s.Stays t o) : s.Stays (t.set r q') o := h

theorem set_self {t : State} (h : t.requests r = some q) : t.set r q = t := by
  unfold set
  rw [show Function.update t.requests r (some q) = t.requests from
    Function.update_eq_self_iff.mpr h.symm]

/-- What a step brings about. -/
def Brings (cfg : Config) (s s' : State) : Prop := s'.Inv cfg ∧ (s.Whole → s'.Whole)

theorem held_eq (hq : s.requests r = some q) : s.held r = q.conn := by
  unfold held
  rw [hq]
  rfl

/-- A step that leaves the pool as it is, and opens no connection. -/
theorem goes (h : s.Inv cfg) (hq : s.requests r = some q) {q' : Request}
    (hr : s'.requests = Function.update s.requests r (some q')) (hi : s'.idle = s.idle)
    (hf : s'.fresh = s.fresh) (hconn : q'.conn = q.conn ∨ q'.conn = none)
    (hstays : s.Stays s' q.conn)
    (hans : ∀ c, q'.conn = some c → q'.phase.answered = true → (s'.conns c).answer ≠ none) :
    s.Brings cfg s' := by
  have hheld := held_eq hq
  refine ⟨h.moves hr (hi ▸ h.distinct) (hi ▸ h.bounded) (.inl ⟨rfl, hf⟩) ?_ (hheld ▸ hstays)
    hans, fun hw => hw.moves h (hheld ▸ hstays) fun c hc => .inr (hi ▸ hc)⟩
  rw [hheld, hi, List.append_nil]
  rcases hconn with hc | hc
  · rw [hc]
  · rw [hc]
    exact (List.sublist_append_right _ _).subperm

/-- A step that only moves the request on. -/
theorem set_brings (h : s.Inv cfg) (hq : s.requests r = some q) (q' : Request)
    (hconn : q'.conn = q.conn ∨ q'.conn = none)
    (hans : q'.phase.answered = true → q.phase.answered = true ∨ q'.conn = none) :
    s.Brings cfg (s.set r q') := by
  refine goes h hq rfl rfl rfl hconn stays_refl fun c hc hp => ?_
  rcases hans hp with hp | hnone
  · rcases hconn with heq | hnone
    · exact h.answered r q c hq (heq ▸ hc) hp
    · rw [hnone] at hc
      cases hc
  · rw [hnone] at hc
    cases hc

/-- A step that closes the connection, where there is one, and moves the request on. -/
theorem closed_brings (h : s.Inv cfg) (hq : s.requests r = some q) (q' : Request)
    (hconn : q'.conn = q.conn ∨ q'.conn = none)
    (hans : q'.phase.answered = true → q.phase.answered = true) :
    s.Brings cfg ((s.closed q).set r q') := by
  unfold closed
  cases hc : q.conn with
  | none => exact set_brings h hq q' hconn fun hp => .inl (hans hp)
  | some c =>
    refine goes h hq rfl rfl rfl hconn (stays_set stays_close) fun e he hp => ?_
    rcases hconn with heq | hnone
    · have hlt : e < s.fresh := h.held_old r e ((held_eq hq).trans (heq ▸ he))
      have hanswer := h.answered r q e hq (heq ▸ he) (hans hp)
      exact (stays_close (c := c) (o := none) e hlt (by simp)).1 hanswer
    · rw [hnone] at he
      cases he

/-- **A connection is opened** for the request, and what else was done took the pool's
connections out at most. -/
theorem openFor_brings (h : s.Inv cfg) (hq : s.requests r = some q) (t : State) (q' : Request)
    (hr : t.requests = s.requests) (hd : Assoc.Distinct t.idle)
    (hb : t.idle.Bounded cfg.perHost) (hf : t.fresh = s.fresh)
    (hsub : t.idle.conns <+~ s.idle.conns) (hstays : s.Stays t q.conn)
    (hp : q'.phase.answered = false) (k : Key) : s.Brings cfg (t.openFor r q' k) := by
  have hheld := held_eq hq
  have hstays' : s.Stays (t.openFor r q' k) (s.held r) := by
    rw [hheld]
    intro c hlt hc
    have hne : c ≠ t.fresh := by omega
    have hsame : (t.openFor r q' k).conns c = t.conns c := Function.update_of_ne hne ..
    rw [hsame]
    exact hstays c hlt hc
  have hrequests : (t.openFor r q' k).requests =
      Function.update s.requests r (some { q' with conn := some t.fresh }) := by
    rw [← hr]
    rfl
  refine ⟨h.moves hrequests hd hb (.inr ⟨rfl, congrArg (· + 1) hf⟩) ?_ hstays'
    fun c _ hp' => ?_, fun hw => hw.moves h hstays' fun c hc => .inr (hsub.subset hc)⟩
  · show [t.fresh] ++ t.idle.conns <+~ _
    rw [hf]
    have hperm : [s.fresh] ++ t.idle.conns ~ t.idle.conns ++ [s.fresh] := List.perm_append_comm
    refine hperm.subperm.trans (((List.subperm_append_right _).mpr hsub).trans ?_)
    exact (List.sublist_append_right _ _).subperm
  · exact absurd (hp.symm.trans hp') Bool.false_ne_true

/-- **`take`**: what is found was idle, and is the request's now. -/
theorem take_brings (h : s.Inv cfg) (r : ℕ) (q' : Request) (hp : q'.phase.answered = false)
    (now : ℤ) (k : Key) (alive : ℕ → Bool) {c : ℕ}
    (hc : (s.idle.take cfg now k alive).1 = some c) :
    s.Brings cfg
      ((State.closeAll { s with idle := (s.idle.take cfg now k alive).2.1 }
        (s.idle.take cfg now k alive).2.2).set r { q' with conn := some c }) := by
  obtain ⟨hstays, hidle, hrequests, hfresh⟩ := closeAll_spec
    (s.idle.take cfg now k alive).2.2 { s with idle := (s.idle.take cfg now k alive).2.1 }
  have hsub : (s.idle.take cfg now k alive).1.toList ++
      (s.idle.take cfg now k alive).2.1.conns <+~ s.idle.conns :=
    Idle.take_subperm h.distinct alive
  generalize State.closeAll { s with idle := (s.idle.take cfg now k alive).2.1 }
    (s.idle.take cfg now k alive).2.2 = u at hstays hidle hrequests hfresh
  rw [hc] at hsub
  have hsub' : [c] ++ u.idle.conns <+~ s.idle.conns := by
    rw [hidle]
    exact hsub
  have hr : (u.set r { q' with conn := some c }).requests =
      Function.update s.requests r (some { q' with conn := some c }) := by
    show Function.update u.requests r _ = _
    rw [hrequests]
  refine ⟨h.moves hr (hidle ▸ Idle.take_distinct h.distinct alive)
    (hidle ▸ Idle.take_bounded h.bounded alive) (.inl ⟨rfl, hfresh⟩) ?_
    (fun e _ _ => hstays e) fun e _ hp' => absurd (hp.symm.trans hp') Bool.false_ne_true,
    fun hw => hw.moves (r := r) h (fun e _ _ => hstays e) fun e he =>
      .inr (hsub'.subset (List.mem_append_right _ he))⟩
  rw [List.append_nil]
  exact hsub'.trans (List.sublist_append_right _ _).subperm

/-- **`give_back`**: the connection is idle then and no longer the request's, or it is closed. -/
theorem giveBack_brings (h : s.Inv cfg) (hq : s.requests r = some q) (now since : ℤ)
    (reusable : Bool) : (s.giveBack cfg now since r q reusable).Inv cfg ∧
      ((s.sock q = true → reusable = true → s.answer q = some .whole) → s.Whole →
        (s.giveBack cfg now since r q reusable).Whole) := by
  unfold giveBack
  split
  · have hset := set_brings h hq { q with phase := .done } (.inl rfl)
      fun hp => absurd hp Bool.false_ne_true
    exact ⟨hset.1, fun _ => hset.2⟩
  · next c hc =>
    split
    · next hkeep =>
      obtain ⟨hsock, hreusable⟩ := Bool.and_eq_true_iff.mp hkeep
      dsimp only
      obtain ⟨hstays, hidle, hrequests, hfresh⟩ := closeAll_spec
        (s.idle.put cfg now since (s.conns c).key c).2
        { s with idle := (s.idle.put cfg now since (s.conns c).key c).1 }
      have hsub : (s.idle.put cfg now since (s.conns c).key c).1.conns <+~ c :: s.idle.conns :=
        Idle.put_subperm h.distinct c
      generalize State.closeAll
        { s with idle := (s.idle.put cfg now since (s.conns c).key c).1 }
        (s.idle.put cfg now since (s.conns c).key c).2 = u at hstays hidle hrequests hfresh
      change u.idle = (s.idle.put cfg now since (s.conns c).key c).1 at hidle
      rw [← hidle] at hsub
      have hheld : s.held r = some c := (held_eq hq).trans hc
      have hr : (u.set r { q with conn := none, phase := .done }).requests =
          Function.update s.requests r (some { q with conn := none, phase := .done }) := by
        show Function.update u.requests r _ = _
        rw [hrequests]
      refine ⟨h.moves hr (hidle ▸ Idle.put_distinct h.distinct c)
        (hidle ▸ Idle.put_bounded h.bounded c) (.inl ⟨rfl, hfresh⟩) ?_ (fun e _ _ => hstays e)
        (fun e he _ => nomatch he),
        fun hanswer hw => hw.moves (r := r) h (fun e _ _ => hstays e) fun e he => ?_⟩
      · rw [hheld, List.append_nil]
        exact hsub
      · rcases List.mem_cons.mp (hsub.subset he) with rfl | he
        · -- the one that is given back
          have hwhole : s.answer q = some .whole := by
            refine hanswer ?_ hreusable
            unfold sock
            rw [hc]
            exact hsock
          unfold answer at hwhole
          rw [hc] at hwhole
          exact .inl ((hstays e).2 hwhole)
        · exact .inr he
    · have hclosed := closed_brings h hq { q with conn := none, phase := .done } (.inr rfl)
        fun hp => absurd hp Bool.false_ne_true
      unfold closed at hclosed
      rw [hc] at hclosed
      exact ⟨hclosed.1, fun _ => hclosed.2⟩

/-- Where the step gives a connection back, its answer was not cut. -/
def Unbroken (s : State) (q : Request) (e : Step) : Prop :=
  q.givesBack e = true → s.sock q = true → s.answer q ≠ some .cut

theorem keeps_answered (h : q.keeps = true) : q.phase.answered = true := by
  simp only [Request.keeps, Bool.and_eq_true, decide_eq_true_eq] at h
  rw [h.1.1.2]
  rfl

theorem Inv.answer_ne_none (h : s.Inv cfg) (hq : s.requests r = some q)
    (hp : q.phase.answered = true) (hsock : s.sock q = true) : s.answer q ≠ none := by
  obtain ⟨c, hc, -⟩ := (Option.any_eq_true _ _).mp hsock
  unfold answer
  rw [hc]
  exact h.answered r q c hq hc hp

theorem answer_whole {a : Option Answer} (h₀ : a ≠ none) (hmore : a ≠ some .more)
    (hcut : a ≠ some .cut) : a = some .whole := by
  cases a with
  | none => exact absurd rfl h₀
  | some a =>
    cases a with
    | more => exact absurd rfl hmore
    | whole => rfl
    | cut => exact absurd rfl hcut

/-- A reading of the answer that the connection has. -/
theorem read_brings (h : s.Inv cfg) (hq : s.requests r = some q) (hc : q.conn = some c)
    (m : Meets) (q' : Request) (hconn : q'.conn = q.conn)
    (hp : q.phase.answered = true) :
    s.Brings cfg ((s.modify c fun x => x.read m).set r q') := by
  refine goes h hq rfl rfl rfl (.inl hconn) (hc ▸ stays_set stays_modify) fun e he _ => ?_
  obtain rfl := Option.some.inj (hc.symm.trans (hconn ▸ he))
  show ((s.modify c fun x => x.read m).conns c).answer ≠ none
  rw [modify_self]
  have hanswer := h.answered r q c hq hc hp
  unfold Conn.read
  cases ha : (s.conns c).answer with
  | none => exact absurd ha hanswer
  | some a => exact Option.some_ne_none _

theorem request_brings (h : s.Inv cfg) (hq : s.requests r = some q) {e : Step}
    (hs : s.request cfg r q e = some s') :
    s'.Inv cfg ∧ (s.Unbroken q e → s.Whole → s'.Whole) := by
  have hfree : ∀ {t : State}, s.Brings cfg t →
      t.Inv cfg ∧ (s.Unbroken q e → s.Whole → t.Whole) := fun ht => ⟨ht.1, fun _ => ht.2⟩
  unfold request at hs
  cases e with
  | take k now quiet =>
    dsimp only at hs
    split at hs
    · cases hfound : (s.idle.take cfg now k (s.alive quiet)).1 with
      | some c =>
        rw [hfound] at hs
        obtain rfl := Option.some.inj hs
        exact hfree (take_brings h r { q with
          pooled := true, reused := true, phase := .sends, stopped := false } rfl now k _ hfound)
      | none =>
        rw [hfound] at hs
        obtain rfl := Option.some.inj hs
        obtain ⟨hstays, hidle, hrequests, hfresh⟩ := closeAll_spec
          (s.idle.take cfg now k (s.alive quiet)).2.2
          { s with idle := (s.idle.take cfg now k (s.alive quiet)).2.1 }
        have hsub : (s.idle.take cfg now k (s.alive quiet)).1.toList ++
            (s.idle.take cfg now k (s.alive quiet)).2.1.conns <+~ s.idle.conns :=
          Idle.take_subperm h.distinct (s.alive quiet)
        rw [hfound] at hsub
        exact hfree (openFor_brings h hq _ _ hrequests
          (hidle ▸ Idle.take_distinct h.distinct (s.alive quiet))
          (hidle ▸ Idle.take_bounded h.bounded (s.alive quiet)) hfresh (hidle ▸ hsub)
          (fun e _ _ => hstays e) rfl k)
    · cases hs
  | openOwn k =>
    dsimp only at hs
    split at hs
    · obtain rfl := Option.some.inj hs
      exact hfree (openFor_brings h hq s _ rfl h.distinct h.bounded rfl (List.Subperm.refl _)
        stays_refl rfl k)
    · cases hs
  | refuse =>
    dsimp only at hs
    split at hs
    · obtain rfl := Option.some.inj hs
      exact hfree (set_brings h hq _ (.inr rfl) fun _ => .inr rfl)
    · cases hs
  | answer willClose =>
    dsimp only at hs
    split at hs
    · next c hp hc =>
      obtain rfl := Option.some.inj hs
      refine hfree (goes h hq rfl rfl rfl (.inl rfl) (hc ▸ stays_set stays_modify) fun e he _ => ?_)
      obtain rfl := Option.some.inj (hc.symm.trans he)
      show ((s.modify c fun x => x.answered willClose).conns c).answer ≠ none
      rw [modify_self]
      exact Option.some_ne_none _
    · cases hs
  | unanswered stale =>
    dsimp only at hs
    split at hs
    · next c hp hc =>
      split at hs
      · obtain rfl := Option.some.inj hs
        exact hfree (openFor_brings h hq (s.modify c Conn.close) _ rfl h.distinct h.bounded rfl
          (List.Subperm.refl _) stays_close (by rw [hp]; rfl) _)
      · obtain rfl := Option.some.inj hs
        exact hfree (set_brings h hq _ (.inl rfl) fun hp => absurd hp Bool.false_ne_true)
    · cases hs
  | read m =>
    dsimp only at hs
    split at hs
    · next c hp hc =>
      obtain rfl := Option.some.inj hs
      have hread := read_brings h hq hc m q rfl (by rw [hp]; rfl)
      rw [set_self (t := s.modify c fun x => x.read m) hq] at hread
      exact hfree hread
    · cases hs
  | nextLeg =>
    dsimp only at hs
    split at hs
    · obtain rfl := Option.some.inj hs
      exact hfree (closed_brings h hq _ (.inl rfl) fun hp => absurd hp Bool.false_ne_true)
    · cases hs
  | relay =>
    dsimp only at hs
    split at hs
    · next hp =>
      obtain rfl := Option.some.inj hs
      refine hfree (set_brings h hq _ (.inl rfl) fun _ => .inl ?_)
      rcases hp with hp | hp
      · rw [hp]
        rfl
      · rw [hp]
        rfl
    · cases hs
  | fail =>
    dsimp only at hs
    split at hs
    · obtain rfl := Option.some.inj hs
      exact hfree (set_brings h hq _ (.inl rfl) fun hp => absurd hp Bool.false_ne_true)
    · cases hs
  | stop =>
    dsimp only at hs
    split at hs
    · obtain rfl := Option.some.inj hs
      exact hfree (set_brings h hq _ (.inl rfl) fun hp => .inl hp)
    · cases hs
  | kill =>
    dsimp only at hs
    split at hs
    · obtain rfl := Option.some.inj hs
      have hclosed := closed_brings h hq q (.inl rfl) fun hp => hp
      have hsame : (s.closed q).requests r = some q := by
        unfold closed
        split <;> exact hq
      rw [set_self hsame] at hclosed
      exact hfree hclosed
    · cases hs
  | beatEnds =>
    obtain rfl := Option.some.inj hs
    exact hfree (set_brings h hq _ (.inl rfl) fun hp => .inl hp)
  | finish now since =>
    dsimp only at hs
    split at hs
    · next hp =>
      split at hs
      · next hkeep =>
        have hrelayed := keeps_answered hkeep
        split at hs
        · obtain rfl := Option.some.inj hs
          exact hfree (set_brings h hq _ (.inl rfl) fun _ => .inl hrelayed)
        · next hmore =>
          obtain rfl := Option.some.inj hs
          obtain ⟨hinv, hwhole⟩ := giveBack_brings h hq now since true
          refine ⟨hinv, fun hcut => hwhole fun hsock _ => ?_⟩
          exact answer_whole (h.answer_ne_none hq hrelayed hsock)
            (fun hm => hmore ⟨hm, hsock⟩) (hcut hkeep hsock)
      · obtain rfl := Option.some.inj hs
        exact hfree (closed_brings h hq _ (.inr rfl) fun hp => absurd hp Bool.false_ne_true)
    · cases hs
  | drain m =>
    dsimp only at hs
    split at hs
    · next left c hp hc =>
      obtain rfl := Option.some.inj hs
      exact hfree (read_brings h hq hc m _ rfl (by rw [hp]; rfl))
    · cases hs
  | settle now since =>
    dsimp only at hs
    split at hs
    · next quiet hp =>
      obtain rfl := Option.some.inj hs
      obtain ⟨hinv, hwhole⟩ := giveBack_brings h hq now since
        (quiet && (s.answer q).any Answer.isclosed)
      refine ⟨hinv, fun hcut => hwhole fun hsock hreusable => ?_⟩
      obtain ⟨hquiet, hclosed⟩ := Bool.and_eq_true_iff.mp hreusable
      have hsettles : q.phase.answered = true := by
        rw [hp]
        rfl
      refine answer_whole (h.answer_ne_none hq hsettles hsock) (fun hm => ?_)
        (hcut (decide_eq_true (hquiet ▸ hp)) hsock)
      rw [hm] at hclosed
      exact Bool.false_ne_true hclosed
    · cases hs

/-- No connection is given back with a cut answer. -/
def Uncut (s : State) : Action → Prop
  | .arrive _ _ => True
  | .request r e => ∀ q, s.requests r = some q → s.Unbroken q e

theorem next_brings (h : s.Inv cfg) {a : Action} (hs : s.next cfg a = some s') :
    s'.Inv cfg ∧ (s.Uncut a → s.Whole → s'.Whole) := by
  cases a with
  | arrive r streams =>
    simp only [next] at hs
    split at hs
    · cases hs
    · next hfree =>
      obtain rfl := Option.some.inj hs
      have hheld : s.held r = none := by
        unfold held
        rw [hfree]
        rfl
      refine ⟨h.moves rfl h.distinct h.bounded (.inl ⟨rfl, rfl⟩) ?_ stays_refl
        (fun c hc => nomatch hc), fun _ hw => hw⟩
      rw [hheld, List.append_nil]
      exact List.Subperm.refl _
  | request r e =>
    simp only [next] at hs
    split at hs
    · next q hq =>
      obtain ⟨hinv, hwhole⟩ := request_brings h hq hs
      exact ⟨hinv, fun hu => hwhole (hu q hq)⟩
    · cases hs

theorem init_inv (h : (proxy cfg).init s) : s.Inv cfg := by
  obtain ⟨hidle, hrequests⟩ := h
  have hconns : s.idle.conns = [] := by
    rw [hidle]
    rfl
  have hheld : ∀ r, s.held r = none := fun r => by
    unfold held
    rw [hrequests]
    rfl
  refine ⟨?_, ?_, ?_, fun r c hc => ?_, fun r r' c hc => ?_, fun c hc => ?_, fun r c hc => ?_,
    fun r q c hq => ?_⟩
  · rw [hidle]
    exact List.nodup_nil
  · rw [hidle]
    exact fun p hp => absurd hp List.not_mem_nil
  · rw [hconns]
    exact List.nodup_nil
  · rw [hheld] at hc
    cases hc
  · rw [hheld] at hc
    cases hc
  · rw [hconns] at hc
    cases hc
  · rw [hheld] at hc
    cases hc
  · rw [hrequests] at hq
    cases hq

theorem reach_inv (h : System.Reachable (proxy cfg) s) : s.Inv cfg :=
  h.invariant (fun _ hs => init_inv hs) fun _ _ _ hinv _ hs => (next_brings hinv hs).1

theorem reach_whole (h : System.Reach (proxy cfg) Uncut s) : s.Whole := by
  refine h.invariant_of (fun t ht => reach_inv ht.reachable) (fun t ht c hc => ?_)
    fun t a t' hinv hw hu hs => (next_brings hinv hs).2 hu hw
  rw [ht.1] at hc
  cases hc

end State

/-- **A connection is idle once or held by one request**, and no place has too many that are
idle, in every run; and in the runs in which none is given back with a cut answer, the last
answer of each idle one was read to its end. -/
theorem kept_apart (h : System.Reachable (proxy cfg) s) :
    s.idle.conns.Nodup ∧ (∀ r c, s.held r = some c → c ∉ s.idle.conns) ∧
      (∀ r r' c, s.held r = some c → s.held r' = some c → r = r') ∧
      (∀ k, (s.idle.kept k).length ≤ cfg.perHost) ∧
      (System.Reach (proxy cfg) State.Uncut s →
        ∀ c ∈ s.idle.conns, (s.conns c).answer = some .whole) := by
  have hinv := State.reach_inv h
  exact ⟨hinv.once, hinv.apart, hinv.alone, Idle.kept_bounded hinv.bounded, State.reach_whole⟩

end Apart

/-! ### An answer that is cut

A provider ends its connection after a whole chunk, and `http.client` closes the response and
answers no bytes; or it ends it as it should. -/

section CutAnswer

def CONFIG : Config := ⟨60000000000, 8, 65536⟩

def HOST : Key := ⟨true, [], 443⟩

def START : State := ⟨[], fun _ => ⟨HOST, false, none⟩, 0, fun _ => none⟩

/-- A request that relays an answer, whose end is read as `m`. -/
def relayed (m : Meets) : List Step :=
  [.take HOST 0 fun _ => true, .answer false, .read (.part 10), .read m, .relay]

/-- What the steps of the request 0 lead to, as far as they can be taken. -/
def State.follow (cfg : Config) (s : State) : List Step → Option State
  | [] => some s
  | e :: script => match s.next cfg (.request 0 e) with
    | some t => t.follow cfg script
    | none => none

theorem reach_follow {cfg : Config} {ok : State → Action → Prop} (script : List Step)
    {s t : State} (h : System.Reach (proxy cfg) ok s) (hf : s.follow cfg script = some t)
    (hok : ∀ s, ∀ e ∈ script, ok s (.request 0 e)) : System.Reach (proxy cfg) ok t := by
  induction script generalizing s with
  | nil => exact Option.some.inj hf ▸ h
  | cons e script ih =>
    rw [State.follow] at hf
    split at hf
    · next u hu =>
      exact ih (h.next hu (hok s e List.mem_cons_self)) hf
        fun s e he => hok s e (List.mem_cons_of_mem _ he)
    · cases hf

theorem State.follow_append (cfg : Config) (s : State) (script script' : List Step) :
    s.follow cfg (script ++ script') =
      (s.follow cfg script).bind fun t => t.follow cfg script' := by
  induction script generalizing s with
  | nil => rfl
  | cons e script ih =>
    rw [List.cons_append, State.follow, State.follow]
    split
    · exact ih _
    · rfl

def arrived : State := START.set 0 { beating := false }

theorem arrived_reach (ok : State → Action → Prop) (hok : ∀ s r b, ok s (.arrive r b)) :
    System.Reach (proxy CONFIG) ok arrived :=
  have hstart : System.Reach (proxy CONFIG) ok START := .init ⟨rfl, fun _ => rfl⟩
  hstart.next (show START.next CONFIG (.arrive 0 false) = some arrived from rfl) (hok _ _ _)

/-- **A connection with a cut answer is kept.** -/
theorem cut_answer_kept : ∃ s, System.Reachable (proxy CONFIG) s ∧
    ∃ c ∈ s.idle.conns, (s.conns c).answer = some .cut := by
  obtain ⟨s, hs, h⟩ := (Option.any_eq_true _ _).mp
    (show (arrived.follow CONFIG (relayed (.broken false) ++ [.finish 0 0])).any
      (fun s => decide (∃ c ∈ s.idle.conns, (s.conns c).answer = some .cut)) = true by decide)
  exact ⟨s, reach_follow _ (arrived_reach _ fun _ _ _ => trivial) hs fun _ _ _ => trivial,
    of_decide_eq_true h⟩

/-- A connection is kept with an answer that was read to its end. -/
theorem whole_answer_kept : ∃ s, System.Reachable (proxy CONFIG) s ∧ s.idle.conns = [0] ∧
    (s.conns 0).answer = some .whole := by
  obtain ⟨s, hs, hidle⟩ := (Option.any_eq_true _ _).mp
    (show (arrived.follow CONFIG (relayed .last ++ [.finish 0 0])).any
      (fun s => decide (s.idle.conns = [0])) = true by decide)
  have hidle := of_decide_eq_true hidle
  obtain ⟨t, ht, huncut⟩ := (Option.any_eq_true _ _).mp
    (show (arrived.follow CONFIG (relayed .last)).any
      (fun t => (t.requests 0).any fun q => decide (t.answer q ≠ some .cut)) = true by decide)
  obtain ⟨q, hq, huncut⟩ := (Option.any_eq_true _ _).mp huncut
  have hrelayed : System.Reach (proxy CONFIG) State.Uncut t := by
    refine reach_follow _ (arrived_reach _ fun _ _ _ => trivial) ht fun s e he q _ hgive => ?_
    -- none of these steps gives a connection back
    simp only [relayed, List.mem_cons, List.not_mem_nil, or_false] at he
    rcases he with rfl | rfl | rfl | rfl | rfl <;> exact absurd hgive Bool.false_ne_true
  have hreach : System.Reach (proxy CONFIG) State.Uncut s := by
    rw [State.follow_append, ht] at hs
    change (match t.next CONFIG (.request 0 (.finish 0 0)) with
      | some u => u.follow CONFIG []
      | none => none) = some s at hs
    split at hs
    · next u hu =>
      obtain rfl := Option.some.inj hs
      refine hrelayed.next hu fun q' hq' _ _ => ?_
      obtain rfl := Option.some.inj (hq.symm.trans hq')
      exact of_decide_eq_true huncut
    · cases hs
  refine ⟨s, hreach.reachable, hidle, ?_⟩
  refine (kept_apart hreach.reachable).2.2.2.2 hreach 0 ?_
  rw [hidle]
  exact List.mem_singleton_self 0

end CutAnswer

end UpstreamPool
