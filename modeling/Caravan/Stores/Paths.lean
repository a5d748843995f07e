import Caravan.Framework.Links
import Caravan.Python.Text

/-!
# The paths of the stores, as texts

`os.path.normpath` of an absolute path, and the comparison of two of them that
`StoreRegistry` makes: a root is another store's, or one of the two is nested in the other.
The comparison is one of texts; `apart_of_text` says what it tells of the names.

A normalised path keeps two leading slashes where it was written with two, as POSIX lets it.
-/

namespace Stores

open Python

/-- A path of the file system, physical or as it is walked. -/
abbrev Path := List Text

def slash : CodePoint := codePoint '/'

/-- A name that a normalised path may hold. -/
def IsName (t : Text) : Prop := t ≠ [] ∧ slash ∉ t ∧ t ≠ "." ∧ t ≠ ".."

instance (t : Text) : Decidable (IsName t) := by
  unfold IsName
  infer_instance

/-- A normalised absolute path. -/
structure Root where
  /-- it is written with two slashes in front -/
  double : Bool
  parts : Path
  names : ∀ t ∈ parts, IsName t
  deriving DecidableEq

/-- `"/".join(…)` -/
def join : Path → Text
  | [] => []
  | [t] => t
  | t :: u :: ts => t ++ slash :: join (u :: ts)

namespace Root

def slashes (r : Root) : Text := if r.double then [slash, slash] else [slash]

/-- The path as it is written. -/
def text (r : Root) : Text := r.slashes ++ join r.parts

end Root

/-- `os.path.isabs` -/
def isabs (raw : Text) : Bool := raw.head? = some slash

/-- The loop of `os.path.normpath` over the parts of an absolute path; the names kept stand
last first. -/
def normParts : List Text → List Text → List Text
  | [], kept => kept
  | t :: ts, kept =>
    if t = [] ∨ t = "." then normParts ts kept
    else if t = ".." then normParts ts kept.tail
    else normParts ts (t :: kept)

theorem slash_not_mem_splitOn {l : Text} {t : Text} (h : t ∈ l.splitOn slash) : slash ∉ t := by
  induction l generalizing t with
  | nil =>
    rw [List.splitOn_nil, List.mem_singleton] at h
    rw [h]
    exact List.not_mem_nil
  | cons c l ih =>
    rw [List.splitOn_cons_eq_if_modifyHead] at h
    split at h
    · rcases List.mem_cons.mp h with rfl | h
      · exact List.not_mem_nil
      · exact ih h
    · next hc =>
      -- the character goes in front of the first part
      cases hs : l.splitOn slash with
      | nil =>
        rw [hs] at h
        exact absurd h List.not_mem_nil
      | cons u us =>
        rw [hs, List.modifyHead_cons] at h
        rw [hs] at ih
        rcases List.mem_cons.mp h with rfl | h
        · intro hmem
          rcases List.mem_cons.mp hmem with heq | hmem
          · exact hc (by simp [heq])
          · exact ih List.mem_cons_self hmem
        · exact ih (List.mem_cons_of_mem u h)

theorem normParts_names {ts kept : List Text} (hts : ∀ t ∈ ts, slash ∉ t)
    (hkept : ∀ t ∈ kept, IsName t) : ∀ t ∈ normParts ts kept, IsName t := by
  induction ts generalizing kept with
  | nil => exact hkept
  | cons t ts ih =>
    have hts' : ∀ u ∈ ts, slash ∉ u := fun u hu => hts u (List.mem_cons_of_mem t hu)
    unfold normParts
    split
    · exact ih hts' hkept
    · next hskip =>
      split
      · exact ih hts' fun u hu => hkept u (List.mem_of_mem_tail hu)
      · next hup =>
        push Not at hskip
        refine ih hts' fun u hu => ?_
        rcases List.mem_cons.mp hu with rfl | hu
        · exact ⟨hskip.1, hts u List.mem_cons_self, hskip.2, hup⟩
        · exact hkept u hu

/-- `os.path.normpath` of an absolute path -/
def normpath (raw : Text) : Root where
  double := [slash, slash].isPrefixOf raw && !List.isPrefixOf [slash, slash, slash] raw
  parts := (normParts (raw.splitOn slash) []).reverse
  names := fun t ht => normParts_names (fun _ h => slash_not_mem_splitOn h) (by simp) t
    (List.mem_reverse.mp ht)

/-! ### The comparison -/

/-- `other.rstrip("/") + "/"` -/
def Root.under (r : Root) : Text := r.text.rdropWhile (· = slash) ++ [slash]

/-- `root == other`, or one of the two is nested in the other. -/
def sameOrNested (root other : Root) : Bool :=
  root = other || other.under.isPrefixOf root.text || root.under.isPrefixOf other.text

theorem join_append {ps ts : Path} (hp : ps ≠ []) (ht : ts ≠ []) :
    join (ps ++ ts) = join ps ++ slash :: join ts := by
  induction ps with
  | nil => exact absurd rfl hp
  | cons p ps ih =>
    cases ps with
    | nil =>
      cases ts with
      | nil => exact absurd rfl ht
      | cons t ts => rfl
    | cons q ps =>
      have ih := ih (by simp)
      show p ++ slash :: join (q :: ps ++ ts) = (p ++ slash :: join (q :: ps)) ++ slash :: join ts
      rw [ih]
      simp

/-- A joined path does not end in a slash. -/
theorem rstrip_join {ps : Path} (hp : ps ≠ []) (hn : ∀ t ∈ ps, IsName t) (pre : Text) :
    (pre ++ join ps).rdropWhile (· = slash) = pre ++ join ps := by
  induction ps generalizing pre with
  | nil => exact absurd rfl hp
  | cons p ps ih =>
    obtain ⟨hne, hslash, -⟩ := hn p List.mem_cons_self
    cases ps with
    | nil =>
      refine List.rdropWhile_eq_self_iff.mpr fun hl hlast => hslash ?_
      have hmem : (pre ++ join [p]).getLast hl = p.getLast hne :=
        List.getLast_append_of_ne_nil _ hne
      have hlast := hmem.symm.trans (of_decide_eq_true hlast)
      exact hlast ▸ List.getLast_mem hne
    | cons q ps =>
      have ih := ih (by simp) (fun t ht => hn t (List.mem_cons_of_mem p ht)) (pre ++ p ++ [slash])
      have heq : pre ++ join (p :: q :: ps) = pre ++ p ++ [slash] ++ join (q :: ps) := by
        simp [join]
      rw [heq]
      exact ih

/-- A path that begins another one is found by the comparison. -/
theorem under_begins {a b : Root} (hd : a.double = b.double) (hp : a.parts <+: b.parts)
    (hne : a ≠ b) : a.under <+: b.text := by
  obtain ⟨ts, hts⟩ := hp
  have hslashes : a.slashes = b.slashes := by unfold Root.slashes; rw [hd]
  have htail : ts ≠ [] := by
    intro hnil
    rw [hnil, List.append_nil] at hts
    cases a
    cases b
    simp_all
  unfold Root.under Root.text
  rw [← hts, ← hslashes]
  by_cases hroot : a.parts = []
  · rw [hroot]
    have hstrip : (a.slashes ++ join []).rdropWhile (· = slash) = [] := by
      unfold Root.slashes join
      split <;> decide
    rw [hstrip]
    unfold Root.slashes
    split
    · exact ⟨slash :: join ts, rfl⟩
    · exact ⟨join ts, rfl⟩
  · rw [rstrip_join hroot a.names, join_append hroot htail]
    exact ⟨join ts, by simp⟩

/-- **What the comparison tells**: two paths it lets through, written with as many slashes
in front, begin one another nowhere. -/
theorem apart_of_text {a b : Root} (h : sameOrNested a b = false) (hd : a.double = b.double) :
    Links.Apart a.parts b.parts := by
  unfold sameOrNested at h
  rw [Bool.or_eq_false_iff, Bool.or_eq_false_iff, decide_eq_false_iff_not] at h
  obtain ⟨⟨hne, hba⟩, hab⟩ := h
  refine ⟨fun hp => ?_, fun hp => ?_⟩
  · exact absurd (List.isPrefixOf_iff_prefix.mpr (under_begins hd hp hne)) (by rw [hab]; decide)
  · exact absurd (List.isPrefixOf_iff_prefix.mpr (under_begins hd.symm hp (Ne.symm hne)))
      (by rw [hba]; decide)

theorem sameOrNested_comm (a b : Root) : sameOrNested a b = sameOrNested b a := by
  unfold sameOrNested
  rw [Bool.or_assoc, Bool.or_assoc, Bool.or_comm (b.under.isPrefixOf a.text)]
  congr 1
  exact decide_eq_decide.mpr eq_comm

theorem sameOrNested_self (a : Root) : sameOrNested a a = true := by
  unfold sameOrNested
  rw [decide_eq_true rfl]
  rfl

end Stores
