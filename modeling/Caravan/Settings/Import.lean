import Caravan.Python.Except
import Caravan.Settings.Bundle

/-!
# What an import leaves behind

The sections of a file are written one after another, and none of them reads what another
one wrote: each document after an import is a function of the document before it
(`docAfter`), the accounts and the cloud keys apart.
-/

namespace Settings

open Python

variable {I : Interp} {b : Bundle} {m m' : Machine} {d : Doc}

/-! ### The file -/

/-- What an export that went through put in the file. -/
structure Exported (I : Interp) (includeSecrets : Bool) (m : Machine) (b : Bundle) : Prop where
  valid : validateBundle b = .ok ()
  script : given b.controllerConfig = m.startScript.map universalNewlines
  doc : ∀ d ∈ SETTINGS, ∃ v hits, exportDoc I includeSecrets m d = .ok (v, hits) ∧
    given (b.docs d) = contentOf v
  secrets : ∃ e, exportSecrets includeSecrets m = .ok e ∧ b.docs .providerSecrets = some e
  authDb : b.authDb = some (exportAuthDb includeSecrets m)

theorem exportBundle_exported {now : ℤ} {s : Bool} (h : exportBundle I now s m = .ok b) :
    Exported I s m b := by
  unfold exportBundle at h
  obtain ⟨⟨admin, ha⟩, hadmin, h⟩ := Except.bind_eq_ok h
  obtain ⟨⟨proxies, hp⟩, hproxies, h⟩ := Except.bind_eq_ok h
  obtain ⟨⟨providers, hc⟩, hproviders, h⟩ := Except.bind_eq_ok h
  obtain ⟨⟨catalog, hm⟩, hcatalog, h⟩ := Except.bind_eq_ok h
  obtain ⟨secrets, hsecrets, h⟩ := Except.bind_eq_ok h
  cases h
  refine ⟨rfl, rfl, fun d hd => ?_, ⟨secrets, hsecrets, rfl⟩, rfl⟩
  cases d with
  | adminState => exact ⟨admin, ha, hadmin, rfl⟩
  | agentProxies => exact ⟨proxies, hp, hproxies, rfl⟩
  | cloudProviders => exact ⟨providers, hc, hproviders, rfl⟩
  | modelCatalog => exact ⟨catalog, hm, hcatalog, rfl⟩
  | providerSecrets => exact absurd hd (by decide)

/-! ### One document after another -/

/-- A document of `_files()` after the import. -/
def docAfter (I : Interp) (b : Bundle) (m : Machine) (d : Doc) : Except Failure Document :=
  match given (b.docs d) with
  | none => .ok (m.docs d)
  | some v => do
    let current ← readJson m d
    let merged ← lift (mergeSecrets I d v (current.or (.dict [])))
    return .holds merged

/-- A machine with one of its files put in another state. -/
def Machine.put (m : Machine) (d : Doc) (x : Document) : Machine :=
  { m with docs := Function.update m.docs d x }

theorem restoreDoc_eq : restoreDoc I b m d = (docAfter I b m d).map (m.put d) := by
  unfold restoreDoc docAfter
  cases given (b.docs d) with
  | none =>
    show Except.ok m = Except.ok (m.put d (m.docs d))
    unfold Machine.put
    rw [Function.update_eq_self]
  | some v =>
    simp only [Except.map_bind]
    rfl

theorem docAfter_congr (h : m'.docs d = m.docs d) : docAfter I b m' d = docAfter I b m d := by
  unfold docAfter readJson
  rw [h]

theorem put_docs_of_ne {d' : Doc} (x : Document) (h : d ≠ d') : (m.put d' x).docs d = m.docs d := by
  unfold Machine.put
  exact Function.update_of_ne h x m.docs

theorem put_docs_self (x : Document) : (m.put d x).docs d = x := by
  unfold Machine.put
  exact Function.update_self d x m.docs

/-- Every document of `ds` is written as if it were the only one, and nothing else is. -/
structure Wrote (I : Interp) (b : Bundle) (ds : List Doc) (m m' : Machine) : Prop where
  script : m'.startScript = m.startScript
  authDb : m'.authDb = m.authDb
  other : ∀ d ∉ ds, m'.docs d = m.docs d
  doc : ∀ d ∈ ds, docAfter I b m d = .ok (m'.docs d)

theorem restoreDocs_wrote {ds : List Doc} (hnd : ds.Nodup) {names : List Text}
    (h : restoreDocs I b ds m = (m', .ok names)) : Wrote I b ds m m' := by
  induction ds generalizing m names with
  | nil =>
    obtain ⟨rfl, -⟩ := Prod.mk.inj h
    exact ⟨rfl, rfl, fun _ _ => rfl, fun d hd => absurd hd List.not_mem_nil⟩
  | cons d ds ih =>
    obtain ⟨hd, hnd⟩ := List.nodup_cons.mp hnd
    unfold restoreDocs at h
    rw [restoreDoc_eq] at h
    cases hx : docAfter I b m d with
    | error e =>
      rw [hx] at h
      cases h
    | ok x =>
      rw [hx] at h
      simp only [Except.map] at h
      obtain ⟨hm, hn⟩ := Prod.mk.inj h
      cases hr : (restoreDocs I b ds (m.put d x)).2 with
      | error e =>
        rw [hr] at hn
        cases hn
      | ok ns =>
        have hw := ih hnd (Prod.ext hm hr)
        refine ⟨hw.script, hw.authDb, fun a ha => ?_, fun a ha => ?_⟩
        · obtain ⟨hne, ha⟩ := List.ne_and_not_mem_of_not_mem_cons ha
          rw [hw.other a ha, put_docs_of_ne x hne]
        · rcases List.mem_cons.mp ha with rfl | ha
          · -- the later ones leave `a` as it was written
            rw [hx, hw.other a hd, put_docs_self]
          · have hne : a ≠ d := fun heq => hd (heq ▸ ha)
            rw [← hw.doc a ha, docAfter_congr (put_docs_of_ne x hne)]

/-- The documents are all written when none of them fails by itself. -/
theorem restoreDocs_ok {ds : List Doc} (hnd : ds.Nodup)
    (h : ∀ d ∈ ds, ∃ x, docAfter I b m d = .ok x) :
    ∃ m' names, restoreDocs I b ds m = (m', .ok names) := by
  induction ds generalizing m with
  | nil => exact ⟨m, [], rfl⟩
  | cons d ds ih =>
    obtain ⟨hd, hnd⟩ := List.nodup_cons.mp hnd
    obtain ⟨x, hx⟩ := h d List.mem_cons_self
    obtain ⟨m', names, hm⟩ := ih (m := m.put d x) hnd fun a ha => by
      have hne : a ≠ d := fun heq => hd (heq ▸ ha)
      rw [docAfter_congr (put_docs_of_ne x hne)]
      exact h a (List.mem_cons_of_mem d ha)
    unfold restoreDocs
    rw [restoreDoc_eq, hx]
    simp only [Except.map, hm]
    exact ⟨_, _, rfl⟩

theorem settings_nodup : SETTINGS.Nodup := by decide

/-- **What an import that went through leaves.** The launch script of the file, each of
the four documents on its own, and the credentials by their own rules. -/
structure Applied (I : Interp) (C : Cipher) (passphrase : Text) (b : Bundle) (m m' : Machine) :
    Prop where
  script : m'.startScript = (given b.controllerConfig).or m.startScript
  doc : ∀ d ∈ SETTINGS, docAfter I b m d = .ok (m'.docs d)
  credentials : ∃ m₂ names, m₂.docs .providerSecrets = m.docs .providerSecrets ∧
    m₂.authDb = m.authDb ∧ restoreCredentials C passphrase b m₂ = (m', .ok names)

theorem restoreSecrets_frame {C : Cipher} {p : Text} {w s : List Text}
    (h : restoreSecrets C p b m = .ok (m', w, s)) :
    m'.startScript = m.startScript ∧ m'.authDb = m.authDb ∧
      ∀ d ≠ Doc.providerSecrets, m'.docs d = m.docs d := by
  unfold restoreSecrets at h
  split at h
  · cases h
    exact ⟨rfl, rfl, fun _ _ => rfl⟩
  · obtain ⟨o, -, h⟩ := Except.bind_eq_ok h
    split at h
    · cases h
      exact ⟨rfl, rfl, fun _ _ => rfl⟩
    · cases h
      exact ⟨rfl, rfl, fun d hd => Function.update_of_ne hd _ _⟩
    · cases h
      exact ⟨rfl, rfl, fun _ _ => rfl⟩

theorem restoreAuthDb_frame {C : Cipher} {p : Text} {w s : List Text}
    (h : restoreAuthDb C p b m = .ok (m', w, s)) :
    m'.startScript = m.startScript ∧ m'.docs = m.docs := by
  unfold restoreAuthDb at h
  split at h
  · cases h
    exact ⟨rfl, rfl⟩
  · cases h
    exact ⟨rfl, rfl⟩
  · split at h
    · cases h
      exact ⟨rfl, rfl⟩
    · obtain ⟨o, -, h⟩ := Except.bind_eq_ok h
      cases h
      exact ⟨rfl, rfl⟩

theorem restoreCredentials_frame {C : Cipher} {p : Text} {names : List Text × List Text}
    (h : restoreCredentials C p b m = (m', .ok names)) :
    m'.startScript = m.startScript ∧ ∀ d ≠ Doc.providerSecrets, m'.docs d = m.docs d := by
  unfold restoreCredentials at h
  split at h
  · cases h
  next m₁ w s hs =>
    split at h
    · cases h
    next m₂ w' s' ha =>
      cases h
      obtain ⟨h₁, -, h₂⟩ := restoreSecrets_frame hs
      obtain ⟨h₃, h₄⟩ := restoreAuthDb_frame ha
      exact ⟨h₃.trans h₁, fun d hd => by rw [h₄, h₂ d hd]⟩

theorem applyBundle_applied {C : Cipher} {p : Text} {now : ℤ} {report : Report}
    (h : applyBundle I C now b p m = (m', .ok report)) : Applied I C p b m m' := by
  unfold applyBundle at h
  split at h
  · cases h
  split at h
  · cases h
  simp only at h
  split at h
  · cases h
  next m₂ written hdocs =>
  split at h
  · cases h
  next m₃ w s hcred =>
  cases h
  have hw := restoreDocs_wrote settings_nodup hdocs
  obtain ⟨hscript, hother⟩ := restoreCredentials_frame hcred
  have hrs : (restoreScript b m).docs = m.docs ∧ (restoreScript b m).authDb = m.authDb ∧
      (restoreScript b m).startScript = (given b.controllerConfig).or m.startScript := by
    unfold restoreScript
    cases given b.controllerConfig <;> exact ⟨rfl, rfl, rfl⟩
  obtain ⟨hd₁, ha₁, hs₁⟩ := hrs
  refine ⟨hscript.trans (hw.script.trans hs₁), fun d hd => ?_, m₂, _, ?_, hw.authDb.trans ha₁, hcred⟩
  · have hne : d ≠ Doc.providerSecrets := fun heq => absurd (heq ▸ hd) (by decide)
    rw [hother d hne, ← hw.doc d hd]
    exact docAfter_congr (congrFun hd₁ d).symm
  · rw [hw.other _ (by decide), hd₁]

/-! ### The grafted keys -/

/-- What is nothing is no placeholder. -/
theorem not_redacted {v : Value} (h : v.truthy = false) : isRedacted v = false := by
  cases v with
  | str t =>
    refine decide_eq_false fun ht => ?_
    rw [ht] at h
    exact absurd h (by decide)
  | _ => rfl

/-- The donor of a port is the last route under it. -/
theorem donor_spec {rs : List Value} {donors : List (Text × Dict)} (h : byPort I rs = .ok donors)
    (port : Text) :
    (donors.reverse.lookup port = none ∧
      ∀ x, .dict x ∈ rs → strOf I (Dict.get x "port") ≠ .ok port) ∨
    ∃ pre d post, donors.reverse.lookup port = some d ∧ rs = pre ++ .dict d :: post ∧
      strOf I (Dict.get d "port") = .ok port ∧
      ∀ x, .dict x ∈ post → strOf I (Dict.get x "port") ≠ .ok port := by
  induction rs generalizing donors with
  | nil =>
    cases h
    exact .inl ⟨rfl, fun x hx => absurd hx List.not_mem_nil⟩
  | cons v rs ih =>
    by_cases hv : ∃ r, v = .dict r
    · obtain ⟨r, rfl⟩ := hv
      obtain ⟨p, hp, h⟩ := Except.bind_eq_ok h
      obtain ⟨ds, hds, h⟩ := Except.bind_eq_ok h
      cases h
      rw [List.reverse_cons, List.lookup_append]
      rcases ih hds with ⟨hnone, hno⟩ | ⟨pre, d, post, hd, rfl, hport, hpost⟩
      · rw [hnone, Option.none_or, List.lookup_cons]
        by_cases hpp : port = p
        · subst hpp
          refine .inr ⟨[], r, rs, ?_, rfl, hp, hno⟩
          rw [beq_self_eq_true]
        · refine .inl ⟨by rw [beq_eq_false_iff_ne.mpr hpp]; rfl, fun x hx => ?_⟩
          rcases List.mem_cons.mp hx with heq | hx
          · cases heq
            rw [hp]
            exact fun heq => hpp (Except.ok.inj heq).symm
          · exact hno x hx
      · exact .inr ⟨.dict r :: pre, d, post, by rw [hd]; rfl, rfl, hport, hpost⟩
    · have hbyPort : byPort I (v :: rs) = byPort I rs := by
        cases v with
        | dict r => exact absurd ⟨r, rfl⟩ hv
        | _ => rfl
      rw [hbyPort] at h
      rcases ih h with ⟨hnone, hno⟩ | ⟨pre, d, post, hd, rfl, hport, hpost⟩
      · refine .inl ⟨hnone, fun x hx => ?_⟩
        rcases List.mem_cons.mp hx with heq | hx
        · exact absurd ⟨x, heq.symm⟩ hv
        · exact hno x hx
      · exact .inr ⟨v :: pre, d, post, hd, rfl, hport, hpost⟩

end Settings
