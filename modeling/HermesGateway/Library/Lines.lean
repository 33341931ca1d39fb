import HermesGateway.Library.JsonScan

/-!
# Splitting text into lines

`splitlines` is Python's `str.splitlines`: it breaks at every Unicode line boundary, takes a
carriage return and the line feed after it as one break, and reports no empty line after a final
break. Three of the boundaries lie above the control range, so JSON text written without ASCII
escaping can hold them raw.

## Main results

* `strip_cons` — a blank in front is stripped
* `splitlines_append` — a line without a break in it is cut off whole
* `not_isLineBreak_of_mem_splitlines` — no line holds a break
* `Json.escSafe_of_mem_splitlines` — cutting an escape-safe text into lines keeps every line
  escape-safe
-/

/-- The boundaries `str.splitlines` breaks at. -/
def isLineBreak (c : Char) : Bool :=
  [0x0A, 0x0B, 0x0C, 0x0D, 0x1C, 0x1D, 0x1E, 0x85, 0x2028, 0x2029].contains c.toNat

/-- The boundaries that are no control characters. -/
theorem isLineBreak_of_le {c : Char} (h : 32 ≤ c.toNat) (hbreak : isLineBreak c = true) :
    c = '\u0085' ∨ c = '\u2028' ∨ c = '\u2029' := by
  have hmem : c.toNat ∈ [0x0A, 0x0B, 0x0C, 0x0D, 0x1C, 0x1D, 0x1E, 0x85, 0x2028, 0x2029] := by
    simpa [isLineBreak] using hbreak
  have hchar : ∀ d : Char, c.toNat = d.toNat → c = d := fun d hd => Char.toNat_inj.mp hd
  simp only [List.mem_cons, List.not_mem_nil, or_false] at hmem
  rcases hmem with h | h | h | h | h | h | h | h | h | h
  iterate 7 omega
  · exact .inl (hchar '\u0085' h)
  · exact .inr (.inl (hchar '\u2028' h))
  · exact .inr (.inr (hchar '\u2029' h))

theorem not_isLineBreak_of_printable {c : Char} (h : Json.Printable c) : isLineBreak c = false := by
  by_contra hbreak
  rw [Bool.not_eq_false] at hbreak
  rcases isLineBreak_of_le h.1 hbreak with rfl | rfl | rfl <;> exact absurd h (by decide)

/-- `str.isspace` of one character. -/
def isSpace (c : Char) : Bool :=
  let n := c.toNat
  (9 ≤ n && n ≤ 13) || (28 ≤ n && n ≤ 32) || (0x2000 ≤ n && n ≤ 0x200A) ||
    [0x85, 0xA0, 0x1680, 0x2028, 0x2029, 0x202F, 0x205F, 0x3000].contains n

/-- `str.strip`. -/
def strip (s : List Char) : List Char :=
  ((s.dropWhile isSpace).reverse.dropWhile isSpace).reverse

/-- A blank before a text without blanks is stripped. -/
theorem strip_cons {c : Char} {s : List Char} (hc : isSpace c = true)
    (hs : ∀ d ∈ s, isSpace d = false) : strip (c :: s) = s := by
  have hdrop : ∀ t : List Char, (∀ d ∈ t, isSpace d = false) → t.dropWhile isSpace = t := by
    intro t ht
    rw [List.dropWhile_eq_self_iff]
    intro hne
    rw [ht _ (List.getElem_mem hne)]
    exact Bool.false_ne_true
  rw [strip, List.dropWhile_cons_of_pos hc, hdrop s hs,
    hdrop s.reverse fun d hd => hs d (List.mem_reverse.mp hd), List.reverse_reverse]

/-- A text that neither starts nor ends with a blank is left of it and a blank before it. -/
theorem strip_of_ends {b c e : Char} {s : List Char} (hb : isSpace b = true)
    (hc : isSpace c = false) (he : isSpace e = false) : strip (b :: c :: (s ++ [e])) =
      c :: (s ++ [e]) := by
  rw [strip, List.dropWhile_cons_of_pos hb, List.dropWhile_cons_of_neg (by simp [hc]),
    ← List.cons_append, List.reverse_concat, List.dropWhile_cons_of_neg (by simp [he]),
    ← List.reverse_concat, List.reverse_reverse]

/-- What is stripped from the end of a text. -/
theorem strip_append {b c : Char} {s : List Char} (hb : isSpace b = true)
    (hc : isSpace c = false) :
    ∃ w, strip (b :: c :: s) ++ w = c :: s ∧ ∀ d ∈ w, isSpace d = true := by
  refine ⟨((c :: s).reverse.takeWhile isSpace).reverse, ?_, fun d hd => ?_⟩
  · rw [strip, List.dropWhile_cons_of_pos hb, List.dropWhile_cons_of_neg (by simp [hc]),
      ← List.reverse_append, List.takeWhile_append_dropWhile, List.reverse_reverse]
  · exact List.mem_takeWhile_imp (List.mem_reverse.mp hd)

/-- `splitlines` with the line read so far. `cr` says that the last character was a carriage
return, so that a line feed now belongs to the same break. -/
def splitFrom : Bool → List Char → List Char → List (List Char)
  | _, cur, [] => if cur = [] then [] else [cur]
  | cr, cur, c :: rest =>
    if cr ∧ c = '\n' then splitFrom false cur rest
    else if isLineBreak c then cur :: splitFrom (c == '\r') [] rest
    else splitFrom false (cur ++ [c]) rest

/-- `str.splitlines`. -/
def splitlines (s : List Char) : List (List Char) := splitFrom false [] s

/-- Characters without a break among them are added to the line read so far. -/
theorem splitFrom_append {a : List Char} (rest cur : List Char) (cr : Bool)
    (ha : ∀ c ∈ a, isLineBreak c = false) (hcr : cr = false ∨ a ≠ []) :
    splitFrom cr cur (a ++ rest) = splitFrom false (cur ++ a) rest := by
  induction a generalizing cur cr with
  | nil =>
    rcases hcr with rfl | h
    · simp
    · exact absurd rfl h
  | cons c a ih =>
    have hc := ha c (List.mem_cons_self ..)
    have hnl : c ≠ '\n' := by rintro rfl; exact absurd hc (by decide)
    rw [List.cons_append, splitFrom, if_neg fun h => hnl h.2, hc, if_neg Bool.false_ne_true,
      ih _ _ (fun d hd => ha d (List.mem_cons_of_mem _ hd)) (Or.inl rfl)]
    simp

/-- A line without a break in it, up to its line feed, is the first line. -/
theorem splitlines_append {a : List Char} (rest : List Char)
    (ha : ∀ c ∈ a, isLineBreak c = false) :
    splitlines (a ++ '\n' :: rest) = a :: splitlines rest := by
  rw [splitlines, splitFrom_append _ [] false ha (Or.inl rfl), List.nil_append, splitFrom,
    if_neg (by simp), if_pos (by decide)]
  rfl

/-- What stands before the first break is the first line. -/
theorem splitlines_cut {a : List Char} {c : Char} (rest : List Char)
    (ha : ∀ c ∈ a, isLineBreak c = false) (hc : isLineBreak c = true) :
    ∃ lines, splitlines (a ++ c :: rest) = a :: lines := by
  refine ⟨splitFrom (c == '\r') [] rest, ?_⟩
  rw [splitlines, splitFrom_append _ [] false ha (Or.inl rfl), List.nil_append, splitFrom,
    if_neg (by simp), if_pos hc]

theorem not_isLineBreak_of_mem_splitFrom (s : List Char) : ∀ (cr : Bool) (cur : List Char),
    (∀ c ∈ cur, isLineBreak c = false) →
    ∀ line ∈ splitFrom cr cur s, ∀ c ∈ line, isLineBreak c = false := by
  induction s with
  | nil =>
    intro cr cur hcur line hline
    rw [splitFrom] at hline
    split_ifs at hline
    · exact absurd hline (by simp)
    · rw [List.mem_singleton] at hline
      exact hline ▸ hcur
  | cons c s ih =>
    intro cr cur hcur line hline
    rw [splitFrom] at hline
    split_ifs at hline with hcr hb
    · exact ih _ _ hcur line hline
    · rcases List.mem_cons.mp hline with rfl | hline
      · exact hcur
      · exact ih _ [] (by simp) line hline
    · refine ih _ (cur ++ [c]) (fun d hd => ?_) line hline
      rcases List.mem_append.mp hd with hd | hd
      · exact hcur d hd
      · rw [List.mem_singleton] at hd
        subst hd
        exact Bool.not_eq_true _ ▸ hb

/-- No line holds a break. -/
theorem not_isLineBreak_of_mem_splitlines {s line : List Char} (h : line ∈ splitlines s)
    {c : Char} (hc : c ∈ line) : isLineBreak c = false :=
  not_isLineBreak_of_mem_splitFrom s false [] (by simp) line h c hc

namespace Json

/-- The escapes hold no line break, so a cut always falls between two of them. -/
theorem escSafe_of_mem_splitFrom {s : List Char} (hs : EscSafe s) :
    ∀ (cr : Bool) (cur : List Char), EscSafe cur → ∀ line ∈ splitFrom cr cur s, EscSafe line := by
  induction hs with
  | nil =>
    intro cr cur hcur line hline
    rw [splitFrom] at hline
    split_ifs at hline
    · exact absurd hline (by simp)
    · rw [List.mem_singleton] at hline
      exact hline ▸ hcur
  | @plain c s hc _ ih =>
    intro cr cur hcur line hline
    rw [splitFrom] at hline
    split_ifs at hline with hcr hb
    · exact ih _ _ hcur line hline
    · rcases List.mem_cons.mp hline with rfl | hline
      · exact hcur
      · exact ih _ [] .nil line hline
    · exact ih _ _ (hcur.append (.plain hc .nil)) line hline
  | @short c s hc _ ih =>
    intro cr cur hcur line hline
    have hall : ∀ c ∈ ['\x22', '\\', 'n', 'r', 't', 'b', 'f'], isLineBreak c = false := by decide
    have hbreak : ∀ d ∈ ['\\', c], isLineBreak d = false := by
      intro d hd
      simp only [List.mem_cons, List.not_mem_nil, or_false] at hd
      rcases hd with rfl | rfl
      · decide
      · exact hall d hc
    have hcat : '\\' :: c :: s = ['\\', c] ++ s := rfl
    rw [hcat, splitFrom_append _ _ _ hbreak (Or.inr (by simp))] at hline
    exact ih _ _ (hcur.append (.short hc .nil)) line hline
  | @unicode a b s ha hb _ ih =>
    intro cr cur hcur line hline
    have hall : ∀ n < 16, isLineBreak (Nat.digitChar n) = false := by decide
    have hbreak : ∀ d ∈ ['\\', 'u', '0', '0', Nat.digitChar a, Nat.digitChar b],
        isLineBreak d = false := by
      intro d hd
      simp only [List.mem_cons, List.not_mem_nil, or_false] at hd
      rcases hd with rfl | rfl | rfl | rfl | rfl | rfl
      iterate 4 decide
      · exact hall a (by omega)
      · exact hall b hb
    have hcat : '\\' :: 'u' :: '0' :: '0' :: Nat.digitChar a :: Nat.digitChar b :: s =
        ['\\', 'u', '0', '0', Nat.digitChar a, Nat.digitChar b] ++ s := rfl
    rw [hcat, splitFrom_append _ _ _ hbreak (Or.inr (by simp))] at hline
    exact ih _ _ (hcur.append (.unicode ha hb .nil)) line hline

/-- Every line of an escape-safe text is escape-safe. -/
theorem escSafe_of_mem_splitlines {s line : List Char} (hs : EscSafe s)
    (h : line ∈ splitlines s) : EscSafe line :=
  escSafe_of_mem_splitFrom hs false [] .nil line h

end Json
