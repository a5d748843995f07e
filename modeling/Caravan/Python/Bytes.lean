import Caravan.Python.Text

/-!
# Reading a stream of bytes

What `readline` and `read` take off a stream, as the piece that is read and what is left. A piece
of `readline(n)` is a line with its line feed, or it has none (`readline_cases`): then it is `n`
bytes of a longer line, or the end of the stream.
-/

namespace Python

/-- What stands between two parts that are taken off. -/
theorem stripWhile_between {α : Type*} {p : α → Bool} {l x r : List α} (hl : ∀ c ∈ l, p c = true)
    (hr : ∀ c ∈ r, p c = true) (hx : x ≠ []) (hhead : ∀ c ∈ x.head?, p c = false)
    (hlast : ∀ c ∈ x.getLast?, p c = false) : ((l ++ (x ++ r)).dropWhile p).rdropWhile p = x := by
  have hfront : (x ++ r).dropWhile p = x ++ r := by
    obtain ⟨c, x, rfl⟩ := List.exists_cons_of_ne_nil hx
    exact List.dropWhile_cons_of_neg (by rw [hhead c rfl]; decide)
  have hback : x.reverse.dropWhile p = x.reverse := by
    obtain ⟨c, x', hx'⟩ := List.exists_cons_of_ne_nil (List.reverse_ne_nil_iff.mpr hx)
    have hc : x.getLast? = some c := by rw [← List.head?_reverse, hx']; rfl
    rw [hx']
    exact List.dropWhile_cons_of_neg (by rw [hlast c hc]; decide)
  rw [List.dropWhile_append_of_pos hl, hfront, List.rdropWhile, List.reverse_append,
    List.dropWhile_append_of_pos fun d hd => hr d (List.mem_reverse.mp hd), hback,
    List.reverse_reverse]

/-! ### Lines of a stream -/

namespace Bytes

def LF : UInt8 := 0x0A

def CR : UInt8 := 0x0D

variable {n : ℕ} {b l rest : Bytes}

/-- `readline(n)`, and what it leaves. -/
def readline : ℕ → Bytes → Bytes × Bytes
  | 0, b => ([], b)
  | _ + 1, [] => ([], [])
  | n + 1, c :: b => if c = LF then ([c], b) else ((readline n b).1.cons c, (readline n b).2)

/-- Nothing is lost. -/
theorem readline_append (n : ℕ) (b : Bytes) : (readline n b).1 ++ (readline n b).2 = b := by
  fun_induction readline n b with
  | case1 b => rfl
  | case2 n => rfl
  | case3 n b => rfl
  | case4 n c b _ ih => exact congrArg (c :: ·) ih

/-- A line that is not too long comes off whole. -/
theorem readline_line (hl : LF ∉ l) (hn : l.length < n) (rest : Bytes) :
    readline n (l ++ LF :: rest) = (l ++ [LF], rest) := by
  induction l generalizing n with
  | nil =>
    obtain ⟨n, rfl⟩ := Nat.exists_eq_succ_of_ne_zero (Nat.ne_of_gt hn)
    exact if_pos rfl
  | cons c l ih =>
    obtain ⟨n, rfl⟩ := Nat.exists_eq_succ_of_ne_zero (Nat.ne_of_gt (Nat.zero_lt_of_lt hn))
    rw [List.mem_cons, not_or] at hl
    rw [List.cons_append, readline, if_neg (Ne.symm hl.1), ih hl.2 (Nat.lt_of_succ_lt_succ hn)]
    rfl

/-- **A piece** is a line with its line feed, or has none: it is full, or the stream has ended. -/
theorem readline_cases (n : ℕ) (b : Bytes) :
    (∃ l, LF ∉ l ∧ l.length < n ∧ (readline n b).1 = l ++ [LF] ∧
      b = l ++ LF :: (readline n b).2) ∨
    (LF ∉ (readline n b).1 ∧ ((readline n b).1.length = n ∨ (readline n b).2 = [])) := by
  fun_induction readline n b with
  | case1 b => exact .inr ⟨List.not_mem_nil, .inl rfl⟩
  | case2 n => exact .inr ⟨List.not_mem_nil, .inr rfl⟩
  | case3 n b => exact .inl ⟨[], List.not_mem_nil, Nat.zero_lt_succ n, rfl, rfl⟩
  | case4 n c b hc ih =>
    rcases ih with ⟨l, hl, hn, hpiece, hb⟩ | ⟨hl, hend⟩
    · refine .inl ⟨c :: l, ?_, Nat.succ_lt_succ hn, congrArg (c :: ·) hpiece,
        congrArg (c :: ·) hb⟩
      rw [List.mem_cons, not_or]
      exact ⟨Ne.symm hc, hl⟩
    · refine .inr ⟨?_, hend.imp_left (congrArg Nat.succ)⟩
      rw [List.mem_cons, not_or]
      exact ⟨Ne.symm hc, hl⟩

/-! ### `bytes.strip` -/

/-- What `bytes.strip()` takes off. -/
def isSpace (c : UInt8) : Bool := c = 0x20 || (0x09 ≤ c && c ≤ 0x0D)

/-- `bytes.strip()` -/
def strip (b : Bytes) : Bytes := (b.dropWhile isSpace).rdropWhile isSpace

/-- What has no blanks is all that is left of it among blanks. -/
theorem strip_padded {pad : Bytes} (hne : b ≠ []) (hb : ∀ c ∈ b, isSpace c = false)
    (hpad : ∀ c ∈ pad, isSpace c = true) : strip (b ++ pad) = b :=
  stripWhile_between (l := []) (fun _ h => nomatch h) hpad hne
    (fun c hc => hb c (List.mem_of_head? hc)) fun c hc => hb c (List.mem_of_getLast? hc)

end Bytes

end Python
