import Caravan.Python.Text

/-!
# The languages of the translate cell

`_resolve_lang` turns a request's language into one of the codes that the checkpoint has, each of
them a language with a script. The code itself is taken in letters of either size; else the
language alone decides, where there is one code of it. A script that the request names is left out
then, so the answer may be in another (`script_changed`). `resolve_exact` says that this is all
that goes wrong where something is asked and something is known.
-/

namespace Languages

open Python

def underscore : CodePoint := codePoint '_'

/-- An ASCII letter. -/
def isLetter (c : CodePoint) : Bool :=
  (0x41 ≤ c.val && c.val ≤ 0x5A) || (0x61 ≤ c.val && c.val ≤ 0x7A)

/-- `str.lower`: what it does to ASCII, and that it takes the parts between underscores by
themselves, as these are no letters and in no letter's small form. -/
structure Lowering where
  lower : Text → Text
  lower_ascii : ∀ t, (∀ c ∈ t, isLetter c = true) → lower t = t.map lowerAscii
  lower_nil : lower [] = []
  lower_underscore : ∀ s t, lower (s ++ underscore :: t) = lower s ++ underscore :: lower t
  no_underscore : ∀ t, underscore ∉ t → underscore ∉ lower t

/-- `_ISO1_TO_3` -/
def ISO1_TO_3 : List (Text × Text) :=
  List.map (fun p : String × String => (Text.of p.1, Text.of p.2)) [
    ("af", "afr"), ("am", "amh"), ("ar", "arb"), ("az", "azj"), ("be", "bel"), ("bg", "bul"),
    ("bn", "ben"), ("bs", "bos"), ("ca", "cat"), ("cs", "ces"), ("cy", "cym"), ("da", "dan"),
    ("de", "deu"), ("el", "ell"), ("en", "eng"), ("es", "spa"), ("et", "est"), ("eu", "eus"),
    ("fa", "pes"), ("fi", "fin"), ("fr", "fra"), ("ga", "gle"), ("gl", "glg"), ("gu", "guj"),
    ("he", "heb"), ("hi", "hin"), ("hr", "hrv"), ("hu", "hun"), ("hy", "hye"), ("id", "ind"),
    ("is", "isl"), ("it", "ita"), ("ja", "jpn"), ("ka", "kat"), ("kk", "kaz"), ("km", "khm"),
    ("kn", "kan"), ("ko", "kor"), ("lo", "lao"), ("lt", "lit"), ("lv", "lvs"), ("mk", "mkd"),
    ("ml", "mal"), ("mr", "mar"), ("ms", "zsm"), ("mt", "mlt"), ("my", "mya"), ("ne", "npi"),
    ("nl", "nld"), ("no", "nob"), ("pa", "pan"), ("pl", "pol"), ("pt", "por"), ("ro", "ron"),
    ("ru", "rus"), ("sk", "slk"), ("sl", "slv"), ("so", "som"), ("sq", "als"), ("sr", "srp"),
    ("sv", "swe"), ("sw", "swh"), ("ta", "tam"), ("te", "tel"), ("th", "tha"), ("tr", "tur"),
    ("uk", "ukr"), ("ur", "urd"), ("uz", "uzn"), ("vi", "vie"), ("zh", "zho"), ("zu", "zul")]

/-- Carries the code, and the candidates when the problem is ambiguity. -/
structure LangError where
  code : Text
  candidates : List Text
  deriving DecidableEq

/-! ### The resolution -/

variable (L : Lowering)

/-- `str(code or "").strip().replace("-", "_")`, of what `str` has given. -/
def rawOf (code : Text) : Text := Text.replace (codePoint '-') underscore code.strip

/-- `_ISO1_TO_3.get(stem, stem) if len(stem) == 2 else stem` -/
def threeOf (stem : Text) : Text :=
  if stem.length = 2 then (ISO1_TO_3.lookup stem).getD stem else stem

/-- The language that is asked: two letters stand for three. -/
def stemOf (raw : Text) : Text := threeOf (L.lower ((raw.splitOn underscore).headD []))

/-- `index.get(raw.lower())`: of codes with one key the last is in the index. -/
def hitOf (known : List Text) (raw : Text) : Option Text :=
  known.reverse.find? fun k => L.lower k = L.lower raw

/-- `_resolve_lang` -/
def resolve_lang (known : List Text) (code fallback : Text) : Except LangError Text :=
  let raw := rawOf code
  if raw = [] then .ok fallback
  else
    let hit := (hitOf L known raw).getD []
    if hit ≠ [] then .ok hit
    else
      let stem := stemOf L raw
      let found := known.filter fun k => (stem ++ [underscore]).isPrefixOf (L.lower k)
      match found with
      | [k] => .ok k
      | _ :: _ :: _ => .error ⟨raw, found⟩
      | [] => if known = [] then .ok raw else .error ⟨raw, []⟩

/-! ### Codes -/

/-- A code: a language and its script. -/
structure Flores where
  language : Text
  script : Text
  three : language.length = 3
  four : script.length = 4
  letters : ∀ c ∈ language ++ script, isLetter c = true

def Flores.text (k : Flores) : Text := k.language ++ underscore :: k.script

/-- Four small letters. -/
def isScript (t : Text) : Bool := t.length = 4 && t.all fun c => 0x61 ≤ c.val && c.val ≤ 0x7A

/-- The script that a request names behind its language. -/
def scriptAsked (raw : Text) : Option Text :=
  ((raw.splitOn underscore).tail.map L.lower).find? isScript

/-- A code has the language that is asked, and the script if one is. -/
def Flores.Meets (k : Flores) (raw : Text) : Prop :=
  L.lower k.language = stemOf L raw ∧ ∀ s ∈ scriptAsked L raw, L.lower k.script = s

/-- The answer is an error, or a known code that meets the request. -/
def Exact (known : List Flores) (code : Text) : Except LangError Text → Prop
  | .error _ => True
  | .ok t => ∃ k ∈ known, k.text = t ∧ k.Meets L (rawOf code)

/-- The known codes of the language that is asked. -/
def ofLanguage (known : List Flores) (raw : Text) : List Flores :=
  known.filter fun k => L.lower k.language = stemOf L raw

section

variable {L : Lowering}

namespace Flores

variable (k : Flores)

theorem lower_language : L.lower k.language = k.language.map lowerAscii :=
  L.lower_ascii _ fun c hc => k.letters c (List.mem_append_left _ hc)

theorem lower_script : L.lower k.script = k.script.map lowerAscii :=
  L.lower_ascii _ fun c hc => k.letters c (List.mem_append_right _ hc)

theorem lower_text : L.lower k.text = L.lower k.language ++ underscore :: L.lower k.script :=
  L.lower_underscore _ _

theorem lowerAscii_letter {c : CodePoint} (h : isLetter c = true) :
    0x61 ≤ (lowerAscii c).val ∧ (lowerAscii c).val ≤ 0x7A := by
  unfold isLetter at h
  simp only [Bool.or_eq_true, Bool.and_eq_true, decide_eq_true_eq] at h
  unfold lowerAscii
  split
  · dsimp only
    omega
  · omega

/-- The small form of a code's letters has no underscore. -/
theorem not_mem_lower :
    underscore ∉ L.lower k.language ∧ underscore ∉ L.lower k.script := by
  have hletter : ∀ t : Text, (∀ c ∈ t, isLetter c = true) → underscore ∉ t.map lowerAscii := by
    intro t ht hu
    obtain ⟨c, hc, he⟩ := List.mem_map.mp hu
    have hlow := (lowerAscii_letter (ht c hc)).1
    rw [he] at hlow
    revert hlow
    decide
  rw [k.lower_language, k.lower_script]
  exact ⟨hletter _ fun c hc => k.letters c (List.mem_append_left _ hc),
    hletter _ fun c hc => k.letters c (List.mem_append_right _ hc)⟩

theorem isScript_script : isScript (L.lower k.script) = true := by
  rw [k.lower_script, isScript, List.length_map, k.four, Bool.and_eq_true, List.all_eq_true]
  refine ⟨rfl, fun c hc => ?_⟩
  obtain ⟨d, hd, rfl⟩ := List.mem_map.mp hc
  have hlow := lowerAscii_letter (k.letters d (List.mem_append_right _ hd))
  rw [Bool.and_eq_true, decide_eq_true_iff, decide_eq_true_iff]
  exact hlow

theorem text_ne_nil : k.text ≠ [] := List.append_ne_nil_of_right_ne_nil _ (List.cons_ne_nil _ _)

/-- A text that begins as a code does up to the underscore is its language. -/
theorem prefix_lower {stem : Text} :
    (stem ++ [underscore]).isPrefixOf (L.lower k.text) = true ↔ L.lower k.language = stem := by
  obtain ⟨hlanguage, hscript⟩ := k.not_mem_lower (L := L)
  rw [List.isPrefixOf_iff_prefix, k.lower_text]
  constructor
  · rintro ⟨rest, hrest⟩
    rw [List.append_assoc, List.singleton_append, eq_comm,
      List.append_cons_inj_of_notMem hlanguage hscript] at hrest
    exact hrest.1
  · rintro rfl
    exact ⟨L.lower k.script, by rw [List.append_assoc]; rfl⟩

end Flores

/-- **The code itself**: what it is asked by is its language and its script. -/
theorem meets_of_lower {k : Flores} {raw : Text} (h : L.lower k.text = L.lower raw) :
    k.Meets L raw := by
  obtain ⟨hlanguage, hscript⟩ := k.not_mem_lower (L := L)
  rw [k.lower_text] at h
  have hmem : underscore ∈ raw := by
    by_contra hno
    exact L.no_underscore raw hno (h ▸ List.mem_append_right _ List.mem_cons_self)
  obtain ⟨a, b, rfl, ha⟩ := List.eq_append_cons_of_mem hmem
  rw [L.lower_underscore, List.append_cons_inj_of_notMem hlanguage hscript] at h
  obtain ⟨ha', -, hb'⟩ := h
  -- nothing more is behind the script
  have hb : underscore ∉ b := by
    intro hmem
    obtain ⟨c, d, rfl, -⟩ := List.eq_append_cons_of_mem hmem
    rw [L.lower_underscore] at hb'
    exact hscript (hb' ▸ List.mem_append_right _ List.mem_cons_self)
  have hsplit : (a ++ underscore :: b).splitOn underscore = [a, b] := by
    rw [List.splitOn_append_cons_self_of_not_mem ha, List.splitOn_eq_singleton hb]
  have hlen : (L.lower a).length ≠ 2 := by
    rw [← ha', k.lower_language, List.length_map, k.three]
    decide
  refine ⟨?_, fun s hs => ?_⟩
  · rw [stemOf, hsplit, List.headD_cons, threeOf, if_neg hlen, ha']
  · have hfirst : isScript (L.lower b) = true := hb' ▸ k.isScript_script
    rw [scriptAsked, hsplit, List.tail_cons, List.map_singleton,
      List.find?_cons_of_pos hfirst] at hs
    rw [hb']
    exact Option.some.inj hs

/-! ### What is answered -/

variable {known : List Flores} {raw code fallback : Text}

/-- A hit is a known code that is the request but for the size of its letters. -/
theorem hitOf_some {t : Text} (h : hitOf L (known.map Flores.text) raw = some t) :
    ∃ k ∈ known, k.text = t ∧ k.Meets L raw := by
  have hmem := List.mem_reverse.mp (List.mem_of_find?_eq_some h)
  obtain ⟨k, hk, rfl⟩ := List.mem_map.mp hmem
  have hlower := List.find?_some h
  rw [decide_eq_true_iff] at hlower
  exact ⟨k, hk, rfl, meets_of_lower hlower⟩

/-- The codes that begin with the language are those of it. -/
theorem found_eq : ((known.map Flores.text).filter fun k =>
    (stemOf L raw ++ [underscore]).isPrefixOf (L.lower k)) =
      (ofLanguage L known raw).map Flores.text := by
  rw [List.filter_map, ofLanguage]
  refine congrArg _ (List.filter_congr fun k _ => ?_)
  rw [Bool.eq_iff_iff, decide_eq_true_iff]
  exact k.prefix_lower

/-- The answer where something is asked and no known code is it. -/
theorem resolve_missed (hraw : rawOf code ≠ [])
    (hhit : hitOf L (known.map Flores.text) (rawOf code) = none) :
    resolve_lang L (known.map Flores.text) code fallback =
      match ofLanguage L known (rawOf code) with
      | [k] => .ok k.text
      | k :: k' :: ks => .error ⟨rawOf code, (k :: k' :: ks).map Flores.text⟩
      | [] => if known = [] then .ok (rawOf code) else .error ⟨rawOf code, []⟩ := by
  unfold resolve_lang
  dsimp only
  rw [if_neg hraw, hhit, Option.getD_none, if_neg (by exact fun h => h rfl), found_eq]
  rcases ofLanguage L known (rawOf code) with _ | ⟨k, _ | ⟨k', ks⟩⟩
  · dsimp only [List.map_nil]
    exact if_congr List.map_eq_nil_iff rfl rfl
  · rfl
  · rfl

theorem resolve_hit {t : Text} (hraw : rawOf code ≠ [])
    (hhit : hitOf L (known.map Flores.text) (rawOf code) = some t) :
    resolve_lang L (known.map Flores.text) code fallback = .ok t := by
  obtain ⟨k, -, rfl, -⟩ := hitOf_some hhit
  unfold resolve_lang
  dsimp only
  rw [if_neg hraw, hhit, Option.getD_some, if_pos k.text_ne_nil]

/-- Codes of one text are one code. -/
theorem Flores.text_inj {k k' : Flores} (h : k.text = k'.text) : k = k' := by
  have hnot : ∀ j : Flores, underscore ∉ j.language ∧ underscore ∉ j.script := by
    intro j
    have hletter : ∀ c ∈ j.language ++ j.script, c ≠ underscore := by
      intro c hc he
      have := j.letters c hc
      rw [he] at this
      revert this
      decide
    exact ⟨fun hu => hletter _ (List.mem_append_left _ hu) rfl,
      fun hu => hletter _ (List.mem_append_right _ hu) rfl⟩
  obtain ⟨hlanguage, hscript⟩ := hnot k
  obtain ⟨h₁, -, h₂⟩ := (List.append_cons_inj_of_notMem hlanguage hscript).mp h
  cases k
  cases k'
  cases h₁
  cases h₂
  rfl

end

/-- **The answer is exact**, an error or a known code of the language and the script that are
asked, just when a language is asked, some code is known, and the one known code of the language,
where there is but one, is of the script that is asked. -/
theorem resolve_exact (known : List Flores) (code fallback : Text) :
    Exact L known code (resolve_lang L (known.map Flores.text) code fallback) ↔
      rawOf code ≠ [] ∧ known ≠ [] ∧
        ∀ k, ofLanguage L known (rawOf code) = [k] →
          ∀ s ∈ scriptAsked L (rawOf code), L.lower k.script = s := by
  by_cases hraw : rawOf code = []
  · -- the fallback is no code of no language
    have hanswer : resolve_lang L (known.map Flores.text) code fallback = .ok fallback :=
      if_pos hraw
    rw [hanswer]
    refine iff_of_false ?_ fun h => h.1 hraw
    rintro ⟨k, -, -, hlanguage, -⟩
    have hnone : stemOf L [] = [] := by
      rw [stemOf, List.splitOn_nil, List.headD_cons, L.lower_nil]
      rfl
    rw [hraw, hnone, k.lower_language, List.map_eq_nil_iff] at hlanguage
    have hthree := k.three
    rw [hlanguage] at hthree
    cases hthree
  cases hhit : hitOf L (known.map Flores.text) (rawOf code) with
  | some t =>
    rw [resolve_hit hraw hhit]
    obtain ⟨k, hk, hkt, hmeets⟩ := hitOf_some hhit
    refine iff_of_true ⟨k, hk, hkt, hmeets⟩ ⟨hraw, List.ne_nil_of_mem hk, fun k' hk' => ?_⟩
    -- the hit is of the language, so it is the only code of it
    have hmem : k ∈ ofLanguage L known (rawOf code) :=
      List.mem_filter.mpr ⟨hk, decide_eq_true hmeets.1⟩
    rw [hk', List.mem_singleton] at hmem
    rw [← hmem]
    exact hmeets.2
  | none =>
    rw [resolve_missed hraw hhit]
    have hof : ∀ k ∈ ofLanguage L known (rawOf code), k ∈ known ∧
        L.lower k.language = stemOf L (rawOf code) := fun k hk => by
      obtain ⟨hknown, hstem⟩ := List.mem_filter.mp hk
      exact ⟨hknown, of_decide_eq_true hstem⟩
    rcases hcodes : ofLanguage L known (rawOf code) with _ | ⟨k, _ | ⟨k', ks⟩⟩
    · dsimp only
      by_cases hknown : known = []
      · rw [if_pos hknown]
        refine iff_of_false ?_ fun h => h.2.1 hknown
        rintro ⟨k, hk, -⟩
        rw [hknown] at hk
        exact List.not_mem_nil hk
      · rw [if_neg hknown]
        exact iff_of_true trivial ⟨hraw, hknown, fun k hk => nomatch hk⟩
    · dsimp only
      obtain ⟨hk, hlanguage⟩ := hof k (hcodes ▸ List.mem_cons_self)
      constructor
      · rintro ⟨k', -, htext, hmeets⟩
        obtain rfl := Flores.text_inj htext
        refine ⟨hraw, List.ne_nil_of_mem hk, fun k'' hk'' => ?_⟩
        obtain rfl : k' = k'' := List.singleton_inj.mp hk''
        exact hmeets.2
      · rintro ⟨-, -, hscript⟩
        exact ⟨k, hk, rfl, hlanguage, hscript k rfl⟩
    · exact iff_of_true trivial ⟨hraw, List.ne_nil_of_mem (hof k (hcodes ▸ List.mem_cons_self)).1,
        fun k'' hk'' => nomatch hk''⟩

/-! ### A script that is changed -/

theorem lowerAscii_underscore {c : CodePoint} (h : lowerAscii c = underscore) : c = underscore := by
  unfold lowerAscii at h
  split at h
  · next hc =>
    have hval := congrArg Fin.val h
    have hu : underscore.val = 0x5F := rfl
    dsimp only at hval
    omega
  · exact h

/-- The small forms of ASCII alone. -/
def ascii : Lowering where
  lower := List.map lowerAscii
  lower_ascii _ _ := rfl
  lower_nil := rfl
  lower_underscore _ _ := List.map_append
  no_underscore t h hu := by
    obtain ⟨c, hc, he⟩ := List.mem_map.mp hu
    exact h (lowerAscii_underscore he ▸ hc)

/-- Serbian in the Cyrillic script. -/
def srpCyrl : Flores :=
  ⟨Text.of "srp", Text.of "Cyrl", rfl, rfl, List.all_eq_true.mp (by decide)⟩

/-- **Serbian in the Latin script** is asked, and answered in the Cyrillic one. -/
theorem script_changed :
    ¬ Exact ascii [srpCyrl] "sr-Latn"
      (resolve_lang ascii [srpCyrl.text] "sr-Latn" "eng_Latn") := by
  have hanswer : resolve_lang ascii [srpCyrl.text] "sr-Latn" "eng_Latn" = .ok srpCyrl.text := by
    decide
  have hscript : scriptAsked ascii (rawOf "sr-Latn") = some "latn" := by decide
  rw [hanswer]
  rintro ⟨k, hk, -, -, hmeets⟩
  obtain rfl := List.mem_singleton.mp hk
  have hsame := hmeets _ hscript
  revert hsame
  decide

end Languages
