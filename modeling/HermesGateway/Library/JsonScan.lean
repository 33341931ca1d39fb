import HermesGateway.Library.JsonRead

/-!
# What a reader passes over

A reader of JSON text goes on from a text to a later part of it, and between the two there are only
whole string literals: where it stops, no string is open. So a text that ends inside a string is no
value. A text that was written for a value holds characters above ASCII inside its strings only, and
is such a text once it is cut before one of them.

`dumps` only ever writes a backslash as the start of one of its own escapes, and none of these names
a character outside ASCII. A text cut from such texts at single unescaped characters keeps that
property, whatever else it has lost. So although it may parse to something nobody wrote, no string
of the result can hold a non-ASCII character that does not stand in the text itself.

## Main definitions

* `Json.Skips` — a later part of a text, with whole string literals in between
* `Json.Unclosed` — a text that ends inside a string
* `Json.EscSafe` — a text whose every backslash starts an escape `Json.dumps` writes

## Main results

* `Json.loads_of_unclosed` — a text that ends inside a string is no value
* `Json.unclosed_of_cut` — a text cut before a character above ASCII ends inside a string
* `Json.chars_of_loads` — from an escape-safe text, every non-ASCII character of a string of the
  value read stands unescaped in the text
-/

namespace Json

/-! ### Strings and what is between them -/

/-- A string literal goes on from `s` to `t`. -/
inductive Past : List Char → List Char → Prop
  | refl (s : List Char) : Past s s
  | plain {c : Char} {s t : List Char} (hq : c ≠ '\x22') (hb : c ≠ '\\') (h : Past s t) :
      Past (c :: s) t
  | escape {c : Char} {s t : List Char} (h : Past s t) : Past ('\\' :: c :: s) t

/-- The text goes on from `s` to `t` with whole string literals in between. -/
inductive Skips : List Char → List Char → Prop
  | refl (s : List Char) : Skips s s
  | plain {c : Char} {s t : List Char} (hq : c ≠ '\x22') (hb : c ≠ '\\') (h : Skips s t) :
      Skips (c :: s) t
  | string {s t u : List Char} (hs : Past s ('\x22' :: t)) (h : Skips t u) : Skips ('\x22' :: s) u

theorem Past.trans {s t u : List Char} (h : Past s t) (h' : Past t u) : Past s u := by
  induction h with
  | refl s => exact h'
  | plain hq hb _ ih => exact .plain hq hb (ih h')
  | escape _ ih => exact .escape (ih h')

theorem Past.suffix {s t : List Char} (h : Past s t) : t <:+ s := by
  induction h with
  | refl s => exact List.suffix_refl s
  | plain _ _ _ ih => exact ih.trans (List.suffix_cons _ _)
  | escape _ ih => exact ih.trans ((List.suffix_cons _ _).trans (List.suffix_cons _ _))

theorem Skips.trans {s t u : List Char} (h : Skips s t) (h' : Skips t u) : Skips s u := by
  induction h with
  | refl s => exact h'
  | plain hq hb _ ih => exact .plain hq hb (ih h')
  | string hs _ ih => exact .string hs (ih h')

theorem Skips.suffix {s t : List Char} (h : Skips s t) : t <:+ s := by
  induction h with
  | refl s => exact List.suffix_refl s
  | plain _ _ _ ih => exact ih.trans (List.suffix_cons _ _)
  | string hs _ ih =>
    exact ih.trans ((List.suffix_cons _ _).trans (hs.suffix.trans (List.suffix_cons _ _)))

theorem Skips.of_append {s t : List Char} (h : ∀ c ∈ s, c ≠ '\x22' ∧ c ≠ '\\') :
    Skips (s ++ t) t := by
  induction s with
  | nil => exact .refl t
  | cons c s ih =>
    obtain ⟨hc, hs⟩ := List.forall_mem_cons.mp h
    exact .plain hc.1 hc.2 (ih hs)

theorem Skips.of_cons {c d : Char} {s : List Char} (hc : c = d) (hd : d ≠ '\x22' ∧ d ≠ '\\') :
    Skips (c :: s) s := .plain (hc ▸ hd.1) (hc ▸ hd.2) (.refl s)

theorem Skips.dropWhile {p : Char → Bool} (hp : p '\x22' = false ∧ p '\\' = false)
    (s : List Char) : Skips s (s.dropWhile p) := by
  have hskips := Skips.of_append (s := s.takeWhile p) (t := s.dropWhile p) fun c hc => by
    have hpc := List.mem_takeWhile_imp hc
    constructor <;> rintro rfl
    · rw [hp.1] at hpc
      cases hpc
    · rw [hp.2] at hpc
      cases hpc
  rwa [List.takeWhile_append_dropWhile] at hskips

theorem skips_skipBlanks (s : List Char) : Skips s (skipBlanks s) :=
  Skips.dropWhile ⟨by decide, by decide⟩ s

/-! ### Escape-safe texts -/

/-- Every backslash of the text starts an escape `dumps` writes. -/
inductive EscSafe : List Char → Prop
  | nil : EscSafe []
  | plain {c : Char} {s : List Char} (hc : c ≠ '\\') (hs : EscSafe s) : EscSafe (c :: s)
  | short {c : Char} {s : List Char}
      (hc : c ∈ ['\x22', '\\', 'n', 'r', 't', 'b', 'f']) (hs : EscSafe s) :
      EscSafe ('\\' :: c :: s)
  | unicode {a b : ℕ} {s : List Char} (ha : a < 2) (hb : b < 16) (hs : EscSafe s) :
      EscSafe ('\\' :: 'u' :: '0' :: '0' :: Nat.digitChar a :: Nat.digitChar b :: s)

theorem EscSafe.append {s t : List Char} (hs : EscSafe s) (ht : EscSafe t) : EscSafe (s ++ t) := by
  induction hs with
  | nil => exact ht
  | plain hc _ ih => exact .plain hc ih
  | short hc _ ih => exact .short hc ih
  | unicode ha hb _ ih => exact .unicode ha hb ih

theorem escSafe_of_forall_ne {s : List Char} (h : ∀ c ∈ s, c ≠ '\\') : EscSafe s := by
  induction s with
  | nil => exact .nil
  | cons c s ih =>
    exact .plain (h c (List.mem_cons_self ..)) (ih fun d hd => h d (List.mem_cons_of_mem _ hd))

theorem escSafe_escapeChar (c : Char) : EscSafe (escapeChar c) := by
  unfold escapeChar
  split_ifs with h1 h2
  iterate 7 exact .short (by decide) .nil
  · exact .unicode (by omega) (by omega) .nil
  · exact .plain h2 .nil

theorem escSafe_quote (s : String) : EscSafe (quote s) := by
  have hbody : EscSafe (escape s.toList) := by
    unfold escape
    induction s.toList with
    | nil => exact .nil
    | cons c cs ih => exact (escSafe_escapeChar c).append ih
  exact .plain (by decide) (hbody.append (.plain (by decide) .nil))

/-- A character of the text outside its strings. -/
def Plain (c : Char) : Prop := c ≠ '\x22' ∧ c ≠ '\\' ∧ c.toNat < 128

instance (c : Char) : Decidable (Plain c) := inferInstanceAs (Decidable (_ ∧ _))

theorem plain_of_isDigit {c : Char} (h : c.isDigit = true) : Plain c := by
  refine ⟨?_, ?_, (printable_of_isDigit h).2.trans_lt (by decide)⟩ <;> rintro rfl <;>
    exact absurd h (by decide)

theorem plain_intText (n : ℤ) : ∀ c ∈ intText n, Plain c := by
  intro c hc
  cases n with
  | ofNat m => exact plain_of_isDigit (isDigit_toDigits m c hc)
  | negSucc m =>
    rcases List.mem_cons.mp hc with rfl | h
    · decide
    · exact plain_of_isDigit (isDigit_toDigits (m + 1) c h)

theorem plain_lexeme {cs : List Char} (h : Lexeme cs) : ∀ c ∈ cs, Plain c := by
  intro c hc
  have hdigits : ∀ {ds}, Digits ds → c ∈ ds → Plain c := fun hds hmem =>
    plain_of_isDigit (hds.2 c hmem)
  cases h with
  | word hw =>
    have hall : ∀ w ∈ ["NaN", "Infinity", "-Infinity"], ∀ c ∈ w.toList, Plain c := by decide
    exact hall _ hw c hc
  | number n hsign hfrac hexpo _ =>
    simp only [List.mem_append] at hc
    rcases hc with ((hc | hc) | hc) | hc
    · rcases hsign with rfl | rfl
      · cases hc
      · rw [List.mem_singleton.mp hc]
        decide
    · exact plain_of_isDigit (isDigit_toDigits n c hc)
    · rcases hfrac with rfl | ⟨ds, hds, rfl⟩
      · cases hc
      · rcases List.mem_cons.mp hc with rfl | hc
        · decide
        · exact hdigits hds hc
    · rcases hexpo with rfl | ⟨s, ds, hs, hds, rfl⟩
      · cases hc
      · rcases List.mem_cons.mp hc with rfl | hc
        · decide
        · rcases List.mem_cons.mp hc with rfl | hc
          · rcases hs with rfl | rfl <;> decide
          · exact hdigits hds hc

section

variable {gap : List Char} {P : List Char → Prop}

theorem plain_gap (hgap : ∀ c ∈ gap, c = ' ') (plain : ∀ {s}, (∀ c ∈ s, Plain c) → P s) :
    P gap := plain fun c hc => by
  rw [hgap c hc]
  decide

mutual

/-- What holds of texts without strings and of string literals, and of two texts in a row, holds of
the text of a sound value. -/
theorem spaced_induction (hgap : ∀ c ∈ gap, c = ' ') (plain : ∀ {s}, (∀ c ∈ s, Plain c) → P s)
    (quoted : ∀ s, P (quote s)) (append : ∀ {s t}, P s → P t → P (s ++ t)) :
    ∀ {v : Json}, v.Sound → P (v.spaced gap)
  | .null, _ => plain (s := ['n', 'u', 'l', 'l']) (by decide)
  | .bool true, _ => plain (s := ['t', 'r', 'u', 'e']) (by decide)
  | .bool false, _ => plain (s := ['f', 'a', 'l', 's', 'e']) (by decide)
  | .int n, _ => plain (plain_intText n)
  | .float _, hv => plain (plain_lexeme hv)
  | .str s, _ => quoted s
  | .arr [], _ => plain (s := ['[', ']']) (by decide)
  | .arr (_ :: _), hv =>
    append (plain (s := ['[']) (by decide))
      (append (spaced_induction hgap plain quoted append hv.1)
        (spacedElems_induction hgap plain quoted append hv.2))
  | .obj [], _ => plain (s := ['\x7b', '\x7d']) (by decide)
  | .obj ((k, _) :: _), hv =>
    append (plain (s := ['\x7b']) (by decide)) (append (quoted k)
      (append (plain (s := [':']) (by decide)) (append (plain_gap hgap plain)
        (append (spaced_induction hgap plain quoted append hv.2.1)
          (spacedMembers_induction hgap plain quoted append hv.2.2)))))

theorem spacedElems_induction (hgap : ∀ c ∈ gap, c = ' ')
    (plain : ∀ {s}, (∀ c ∈ s, Plain c) → P s) (quoted : ∀ s, P (quote s))
    (append : ∀ {s t}, P s → P t → P (s ++ t)) :
    ∀ {xs : List Json}, SoundElems xs → P (spacedElems gap xs)
  | [], _ => plain (s := [']']) (by decide)
  | _ :: _, hv =>
    append (plain (s := [',']) (by decide)) (append (plain_gap hgap plain)
      (append (spaced_induction hgap plain quoted append hv.1)
        (spacedElems_induction hgap plain quoted append hv.2)))

theorem spacedMembers_induction (hgap : ∀ c ∈ gap, c = ' ')
    (plain : ∀ {s}, (∀ c ∈ s, Plain c) → P s) (quoted : ∀ s, P (quote s))
    (append : ∀ {s t}, P s → P t → P (s ++ t)) :
    ∀ {kvs : List (String × Json)}, SoundMembers kvs → P (spacedMembers gap kvs)
  | [], _ => plain (s := ['\x7d']) (by decide)
  | (k, _) :: _, hv =>
    append (plain (s := [',']) (by decide)) (append (plain_gap hgap plain) (append (quoted k)
      (append (plain (s := [':']) (by decide)) (append (plain_gap hgap plain)
        (append (spaced_induction hgap plain quoted append hv.1)
          (spacedMembers_induction hgap plain quoted append hv.2))))))

end

end

theorem escSafe_spaced {gap : List Char} (hgap : ∀ c ∈ gap, c = ' ') {v : Json} (hv : v.Sound) :
    EscSafe (v.spaced gap) :=
  spaced_induction hgap (fun h => escSafe_of_forall_ne fun c hc => (h c hc).2.1) escSafe_quote
    EscSafe.append hv

theorem escSafe_dumps {v : Json} (hv : v.Tidy) : EscSafe v.dumps := by
  rw [← spaced_nil]
  exact escSafe_spaced (fun _ h => absurd h List.not_mem_nil) hv.sound

theorem EscSafe.of_cons {c : Char} {s : List Char} (h : EscSafe (c :: s)) (hc : c ≠ '\\') :
    EscSafe s := by
  cases h with
  | plain _ hs => exact hs
  | short => exact absurd rfl hc
  | unicode => exact absurd rfl hc

theorem EscSafe.of_append {s t : List Char} (h : EscSafe (s ++ t)) (hs : ∀ c ∈ s, c ≠ '\\') :
    EscSafe t := by
  induction s with
  | nil => exact h
  | cons c s ih =>
    exact ih (h.of_cons (hs c (List.mem_cons_self ..))) fun d hd => hs d (List.mem_cons_of_mem _ hd)

theorem EscSafe.dropWhile {p : Char → Bool} (hp : p '\\' = false) {s : List Char}
    (h : EscSafe s) : EscSafe (s.dropWhile p) := by
  refine EscSafe.of_append (s := s.takeWhile p) (by rwa [List.takeWhile_append_dropWhile]) ?_
  rintro c hc rfl
  have hpc := List.mem_takeWhile_imp hc
  rw [hp] at hpc
  exact Bool.noConfusion hpc

theorem EscSafe.past {s t : List Char} (hs : EscSafe s) (h : Past s t) : EscSafe t := by
  induction h with
  | refl s => exact hs
  | plain _ hb _ ih => exact ih (hs.of_cons hb)
  | @escape c s t _ ih =>
    cases hs with
    | plain hc _ => exact absurd rfl hc
    | short _ hs => exact ih hs
    | @unicode a b s ha hb hs =>
      have hplain : ∀ n < 16, Nat.digitChar n ≠ '\\' := by decide
      exact ih (.plain (by decide) (.plain (by decide) (.plain (hplain a (by omega))
        (.plain (hplain b hb) hs))))

theorem EscSafe.skips {s t : List Char} (hs : EscSafe s) (h : Skips s t) : EscSafe t := by
  induction h with
  | refl s => exact hs
  | plain _ hb _ ih => exact ih (hs.of_cons hb)
  | string hpast _ ih => exact ih (((hs.of_cons (by decide)).past hpast).of_cons (by decide))

/-! ### Readers -/

/-- Every non-ASCII character of `cs` stands in `s`. -/
def FromText (s cs : List Char) : Prop := ∀ c ∈ cs, c ∈ s ∨ c.toNat < 128

theorem FromText.mono {s t cs : List Char} (h : FromText t cs) (hst : t <:+ s) : FromText s cs :=
  fun c hc => (h c hc).imp_left fun hmem => hst.mem hmem

theorem FromText.append {s cs ds : List Char} (h : FromText s cs) (h' : FromText s ds) :
    FromText s (cs ++ ds) := fun c hc =>
  (List.mem_append.mp hc).elim (h c) (h' c)

theorem fromText_nil (s : List Char) : FromText s [] := fun c hc => absurd hc (by simp)

theorem hexValue_plain {c : Char} {n : ℕ} (h : hexValue c = some n) :
    c ≠ '\x22' ∧ c ≠ '\\' := by
  have hquote : hexValue '\x22' = none := by decide
  have hback : hexValue '\\' = none := by decide
  constructor <;> rintro rfl
  · rw [hquote] at h
    cases h
  · rw [hback] at h
    cases h

theorem hex4_past {s rest : List Char} {n : ℕ} (h : hex4 s = some (n, rest)) : Past s rest := by
  unfold hex4 at h
  split at h
  · split at h
    next ha hb hc hd =>
      obtain ⟨-, rfl⟩ := Prod.mk.inj (Option.some.inj h)
      have plain : ∀ {c n s t}, hexValue c = some n → Past s t → Past (c :: s) t :=
        fun hc hst => .plain (hexValue_plain hc).1 (hexValue_plain hc).2 hst
      exact plain ha (plain hb (plain hc (plain hd (.refl _))))
    · cases h
  · cases h

theorem readEscape_past {s rest : List Char} {e : Char} (h : readEscape s = some (e, rest)) :
    Past ('\\' :: s) rest := by
  cases s with
  | nil => cases h
  | cons c s =>
    rw [readEscape] at h
    split_ifs at h with hu
    · unfold readUnicode at h
      split at h
      · cases h
      next hhex =>
        have hfirst := hex4_past hhex
        split_ifs at h
        · split at h
          next rest' =>
            split at h
            · cases h
            next hhex' =>
              split_ifs at h
              obtain ⟨-, rfl⟩ := Prod.mk.inj (Option.some.inj h)
              exact .escape (hfirst.trans (.escape (hex4_past hhex')))
          · cases h
        · obtain ⟨-, rfl⟩ := Prod.mk.inj (Option.some.inj h)
          exact .escape hfirst
    · obtain ⟨e', -, heq⟩ := Option.map_eq_some_iff.mp h
      obtain ⟨-, rfl⟩ := Prod.mk.inj heq
      exact .escape (.refl _)

theorem readEscape_small {s rest : List Char} {e : Char} (h : EscSafe ('\\' :: s))
    (hread : readEscape s = some (e, rest)) : e.toNat < 128 := by
  cases h with
  | plain hc _ => exact absurd rfl hc
  | @short c t hc hs =>
    have hu : c ≠ 'u' := by rintro rfl; exact absurd hc (by decide)
    rw [readEscape, if_neg hu] at hread
    obtain ⟨e', he', heq⟩ := Option.map_eq_some_iff.mp hread
    obtain ⟨rfl, -⟩ := Prod.mk.inj heq
    have hall : ∀ c ∈ ['\x22', '\\', 'n', 'r', 't', 'b', 'f'],
        (shortEscape c).all (·.toNat < 128) = true := by decide
    exact of_decide_eq_true ((Option.all_eq_true _ _).mp (hall c hc) e' he')
  | @unicode a b t ha hb hs =>
    have h0 : hexValue '0' = some 0 := by decide
    have hda := hexValue_digitChar a (by omega)
    have hdb := hexValue_digitChar b hb
    rw [readEscape, if_pos rfl, readUnicode] at hread
    simp only [hex4, h0, hda, hdb] at hread
    rw [if_neg (by omega), if_neg (by omega), Option.some.injEq, Prod.mk.injEq] at hread
    obtain ⟨rfl, -⟩ := hread
    have hall : ∀ a < 2, ∀ b < 16,
        (Char.ofNat (((0 * 16 + 0) * 16 + a) * 16 + b)).toNat < 128 := by decide
    exact hall a ha b hb

theorem readString_past : ∀ (n : ℕ) {s cs rest : List Char}, readString n s = some (cs, rest) →
    Past s ('\x22' :: rest) ∧ (EscSafe s → FromText s cs)
  | 0, _, _, _, h => by simp [readString] at h
  | _ + 1, [], _, _, h => by simp [readString] at h
  | n + 1, c :: s, cs, rest, h => by
    rw [readString] at h
    split_ifs at h with hq hb hctl
    · -- the closing quote
      obtain ⟨rfl, rfl⟩ := Prod.mk.inj (Option.some.inj h)
      exact ⟨hq ▸ .refl _, fun _ => fromText_nil _⟩
    · -- an escape
      subst hb
      cases hesc : readEscape s with
      | none => simp [hesc] at h
      | some p =>
        obtain ⟨e, t⟩ := p
        have hpast := readEscape_past hesc
        simp only [hesc] at h
        obtain ⟨⟨cs', rest'⟩, hread, heq⟩ := Option.map_eq_some_iff.mp h
        obtain ⟨rfl, rfl⟩ := Prod.mk.inj heq
        obtain ⟨hrest, hfrom⟩ := readString_past n hread
        refine ⟨hpast.trans hrest, fun hs c hc => ?_⟩
        rcases List.mem_cons.mp hc with rfl | hc
        · exact Or.inr (readEscape_small hs hesc)
        · exact (hfrom (hs.past hpast)).mono hpast.suffix c hc
    · -- an unescaped character
      obtain ⟨⟨cs', rest'⟩, hread, heq⟩ := Option.map_eq_some_iff.mp h
      obtain ⟨rfl, rfl⟩ := Prod.mk.inj heq
      obtain ⟨hrest, hfrom⟩ := readString_past n hread
      refine ⟨.plain hq hb hrest, fun hs d hd => ?_⟩
      rcases List.mem_cons.mp hd with rfl | hd
      · exact Or.inl (List.mem_cons_self ..)
      · exact (hfrom (hs.of_cons hb)).mono (List.suffix_cons _ _) d hd

theorem Skips.digits {c : Char} {s : List Char} (hc : c.isDigit = true) :
    Skips (c :: s) (s.dropWhile Char.isDigit) :=
  .plain (plain_of_isDigit hc).1 (plain_of_isDigit hc).2.1 (.dropWhile (by decide) s)

theorem readFraction_skips (s : List Char) : Skips s (readFraction s).2 := by
  unfold readFraction
  split
  · split_ifs with hd
    · exact .plain (by decide) (by decide) (.digits hd)
    · exact .refl _
  · exact .refl _

theorem readExponent_skips (s : List Char) : Skips s (readExponent s).2 := by
  have plain : ∀ {c t u}, c = 'e' ∨ c = 'E' ∨ c = '+' ∨ c = '-' → Skips t u →
      Skips (c :: t) u := by
    rintro c t u (rfl | rfl | rfl | rfl) h <;> exact .plain (by decide) (by decide) h
  unfold readExponent
  split
  · split_ifs with he hx hsign
    · exact plain (he.imp_right Or.inl) (.digits hx)
    · exact plain (he.imp_right Or.inl)
        (plain (Or.inr (Or.inr hsign.1)) (.dropWhile (by decide) _))
    · exact .refl _
    · exact .refl _
  · exact .refl _

theorem numberTail_skips {sign digits s rest : List Char} {v : Json}
    (h : numberTail sign digits s = some (v, rest)) : v.chars = [] ∧ Skips s rest := by
  have hskips := (readFraction_skips s).trans (readExponent_skips _)
  simp only [numberTail] at h
  split_ifs at h <;> obtain ⟨rfl, rfl⟩ := Prod.mk.inj (Option.some.inj h) <;> exact ⟨rfl, hskips⟩

theorem readDigits_skips {sign s rest : List Char} {v : Json}
    (h : readDigits sign s = some (v, rest)) : v.chars = [] ∧ Skips s rest := by
  cases s with
  | nil => simp [readDigits] at h
  | cons c s =>
    rw [readDigits] at h
    split_ifs at h with h0 hd
    · obtain ⟨hv, hrest⟩ := numberTail_skips h
      exact ⟨hv, (Skips.of_cons h0 (by decide)).trans hrest⟩
    · obtain ⟨hv, hrest⟩ := numberTail_skips h
      exact ⟨hv, (Skips.digits hd).trans hrest⟩

theorem readWord_skips {ws : List (List Char × Json)} {s rest : List Char} {v : Json}
    (hws : ∀ w ∈ ws, (∀ c ∈ w.1, c ≠ '\x22' ∧ c ≠ '\\') ∧ w.2.chars = [])
    (h : readWord ws s = some (v, rest)) : v.chars = [] ∧ Skips s rest := by
  induction ws with
  | nil => simp [readWord] at h
  | cons w ws ih =>
    obtain ⟨w, x⟩ := w
    have hw := hws (w, x) (List.mem_cons_self ..)
    rw [readWord] at h
    split_ifs at h with hpre
    · obtain ⟨rfl, rfl⟩ := Prod.mk.inj (Option.some.inj h)
      obtain ⟨t, rfl⟩ := List.isPrefixOf_iff_prefix.mp hpre
      rw [List.drop_left]
      exact ⟨hw.2, .of_append hw.1⟩
    · exact ih (fun y hy => hws y (List.mem_cons_of_mem _ hy)) h

theorem readAtom_skips {s rest : List Char} {v : Json} (h : readAtom s = some (v, rest)) :
    v.chars = [] ∧ Skips s rest := by
  have hwords : ∀ w ∈ words, (∀ c ∈ w.1, c ≠ '\x22' ∧ c ≠ '\\') ∧ w.2.chars = [] := by decide
  unfold readAtom at h
  cases hw : readWord words s with
  | some r =>
    simp only [hw] at h
    rw [Option.some.inj h] at hw
    exact readWord_skips hwords hw
  | none =>
    simp only [hw] at h
    cases s with
    | nil => simp at h
    | cons c s =>
      simp only at h
      split_ifs at h with hm
      · obtain ⟨hv, hrest⟩ := readDigits_skips h
        exact ⟨hv, (Skips.of_cons hm (by decide)).trans hrest⟩
      · exact readDigits_skips h

theorem fromText_setKey {s : List Char} {k : String} {v : Json} {kvs : List (String × Json)}
    (hk : FromText s k.toList) (hv : FromText s v.chars) (hkvs : FromText s (charsMembers kvs)) :
    FromText s (charsMembers (setKey k v kvs)) := by
  induction kvs with
  | nil => simpa [setKey, charsMembers] using hk.append hv
  | cons kv kvs ih =>
    obtain ⟨k', v'⟩ := kv
    simp only [charsMembers] at hkvs
    have hk' : FromText s k'.toList := fun c hc => hkvs c (by simp [hc])
    have hv' : FromText s v'.chars := fun c hc => hkvs c (by simp [hc])
    have hrest : FromText s (charsMembers kvs) := fun c hc => hkvs c (by simp [hc])
    rw [setKey]
    split_ifs
    · exact (hk'.append hv).append hrest
    · exact (hk'.append hv').append (ih hrest)

theorem fromText_dictOf {s : List Char} {kvs : List (String × Json)}
    (h : FromText s (charsMembers kvs)) : FromText s (charsMembers (dictOf kvs)) := by
  have key : ∀ (ps acc : List (String × Json)), FromText s (charsMembers ps) →
      FromText s (charsMembers acc) →
      FromText s (charsMembers (ps.foldl (fun d p => setKey p.1 p.2 d) acc)) := by
    intro ps
    induction ps with
    | nil => intro acc _ hacc; exact hacc
    | cons p ps ih =>
      obtain ⟨k, v⟩ := p
      intro acc hps hacc
      simp only [charsMembers] at hps
      exact ih _ (fun c hc => hps c (by simp [hc]))
        (fromText_setKey (fun c hc => hps c (by simp [hc])) (fun c hc => hps c (by simp [hc]))
          hacc)
  exact key kvs [] h (fromText_nil s)

/-- What a reader did to the text: it passed over whole strings, and what it read of an escape-safe
text stands there. -/
structure Reads (s rest cs : List Char) : Prop where
  skips : Skips s rest
  fromText : EscSafe s → FromText s cs

theorem Reads.before {s t rest cs : List Char} (h : Skips s t) (h' : Reads t rest cs) :
    Reads s rest cs :=
  ⟨h.trans h'.skips, fun hs => (h'.fromText (hs.skips h)).mono h.suffix⟩

theorem Reads.after {s rest u cs : List Char} (h : Reads s rest cs) (h' : Skips rest u) :
    Reads s u cs := ⟨h.skips.trans h', h.fromText⟩

theorem Reads.seq {s t rest cs ds : List Char} (h : Reads s t cs) (h' : Reads t rest ds) :
    Reads s rest (cs ++ ds) :=
  ⟨h.skips.trans h'.skips, fun hs =>
    (h.fromText hs).append ((h'.fromText (hs.skips h.skips)).mono h.skips.suffix)⟩

theorem Reads.of_nil {s rest : List Char} (h : Skips s rest) : Reads s rest [] :=
  ⟨h, fun _ => fromText_nil s⟩

theorem readString_reads {n : ℕ} {c : Char} {s cs rest : List Char} (hc : c = '\x22')
    (h : readString n s = some (cs, rest)) : Reads (c :: s) rest cs := by
  subst hc
  obtain ⟨hpast, hfrom⟩ := readString_past n h
  exact ⟨.string hpast (.refl _), fun hs =>
    (hfrom (hs.of_cons (by decide))).mono (List.suffix_cons _ _)⟩

/-- A value is read with what its elements and members are read with. -/
theorem readValue_reads {n : ℕ}
    (ihE : ∀ {s rest xs}, readElems n s = some (xs, rest) → Reads s rest (charsElems xs))
    (ihM : ∀ {s rest kvs}, readMembers n s = some (kvs, rest) →
      Reads s rest (charsMembers kvs)) {s rest : List Char} {v : Json}
    (h : readValue (n + 1) s = some (v, rest)) : Reads s rest v.chars := by
  cases s with
  | nil => simp [readValue] at h
  | cons c s =>
    rw [readValue] at h
    split_ifs at h with hq ha ho
    · -- a string
      obtain ⟨⟨cs, t⟩, hread, heq⟩ := Option.map_eq_some_iff.mp h
      obtain ⟨rfl, rfl⟩ := Prod.mk.inj heq
      rw [chars, String.toList_ofList]
      exact readString_reads hq hread
    · -- an array
      have hb := (Skips.of_cons (s := s) ha (by decide)).trans (skips_skipBlanks s)
      cases hskip : skipBlanks s with
      | nil => simp [hskip] at h
      | cons d t =>
        rw [hskip] at hb
        simp only [hskip] at h
        split_ifs at h with hd
        · obtain ⟨rfl, rfl⟩ := Prod.mk.inj (Option.some.inj h)
          exact .of_nil (hb.trans (.of_cons hd (by decide)))
        · obtain ⟨⟨xs, u⟩, hread, heq⟩ := Option.map_eq_some_iff.mp h
          obtain ⟨rfl, rfl⟩ := Prod.mk.inj heq
          exact .before hb (ihE hread)
    · -- an object
      have hb := (Skips.of_cons (s := s) ho (by decide)).trans (skips_skipBlanks s)
      cases hskip : skipBlanks s with
      | nil => simp [hskip] at h
      | cons d t =>
        rw [hskip] at hb
        simp only [hskip] at h
        split_ifs at h with hd
        · obtain ⟨rfl, rfl⟩ := Prod.mk.inj (Option.some.inj h)
          exact .of_nil (hb.trans (.of_cons hd (by decide)))
        · obtain ⟨⟨kvs, u⟩, hread, heq⟩ := Option.map_eq_some_iff.mp h
          obtain ⟨rfl, rfl⟩ := Prod.mk.inj heq
          have hkvs := Reads.before hb (ihM hread)
          exact ⟨hkvs.skips, fun hs => fromText_dictOf (hkvs.fromText hs)⟩
    · -- a word or a number
      obtain ⟨hv, hskips⟩ := readAtom_skips h
      rw [hv]
      exact .of_nil hskips

theorem readElems_reads {n : ℕ}
    (ihV : ∀ {s rest v}, readValue n s = some (v, rest) → Reads s rest v.chars)
    (ihE : ∀ {s rest xs}, readElems n s = some (xs, rest) → Reads s rest (charsElems xs))
    {s rest : List Char} {xs : List Json} (h : readElems (n + 1) s = some (xs, rest)) :
    Reads s rest (charsElems xs) := by
  rw [readElems] at h
  cases hval : readValue n s with
  | none => simp [hval] at h
  | some p =>
    obtain ⟨x, t⟩ := p
    have hx := (ihV hval).after (skips_skipBlanks t)
    simp only [hval] at h
    cases hskip : skipBlanks t with
    | nil => simp [hskip] at h
    | cons d u =>
      rw [hskip] at hx
      simp only [hskip] at h
      split_ifs at h with hclose hcomma
      · obtain ⟨rfl, rfl⟩ := Prod.mk.inj (Option.some.inj h)
        rw [charsElems, charsElems, List.append_nil]
        exact hx.after (.of_cons hclose (by decide))
      · obtain ⟨⟨ys, w⟩, hread, heq⟩ := Option.map_eq_some_iff.mp h
        obtain ⟨rfl, rfl⟩ := Prod.mk.inj heq
        have hd := hx.after ((Skips.of_cons hcomma (by decide)).trans (skips_skipBlanks u))
        exact hd.seq (ihE hread)

theorem readMembers_reads {n : ℕ}
    (ihV : ∀ {s rest v}, readValue n s = some (v, rest) → Reads s rest v.chars)
    (ihM : ∀ {s rest kvs}, readMembers n s = some (kvs, rest) →
      Reads s rest (charsMembers kvs)) {s rest : List Char} {kvs : List (String × Json)}
    (h : readMembers (n + 1) s = some (kvs, rest)) : Reads s rest (charsMembers kvs) := by
  cases s with
  | nil => simp [readMembers] at h
  | cons q s =>
    rw [readMembers] at h
    split_ifs at h with hq
    cases hkey : readString n s with
    | none => simp [hkey] at h
    | some p =>
      obtain ⟨k, t⟩ := p
      have hk := (readString_reads hq hkey).after (skips_skipBlanks t)
      simp only [hkey] at h
      cases hskip : skipBlanks t with
      | nil => simp [hskip] at h
      | cons d u =>
        rw [hskip] at hk
        simp only [hskip] at h
        split_ifs at h with hcolon
        have hk' := hk.after ((Skips.of_cons hcolon (by decide)).trans (skips_skipBlanks u))
        cases hval : readValue n (skipBlanks u) with
        | none => simp [hval] at h
        | some p =>
          obtain ⟨v, w⟩ := p
          have hkv := (hk'.seq (ihV hval)).after (skips_skipBlanks w)
          simp only [hval] at h
          cases hskip' : skipBlanks w with
          | nil => simp [hskip'] at h
          | cons e x =>
            rw [hskip'] at hkv
            simp only [hskip'] at h
            split_ifs at h with hclose hcomma
            · obtain ⟨rfl, rfl⟩ := Prod.mk.inj (Option.some.inj h)
              simp only [charsMembers, String.toList_ofList, List.append_nil]
              exact hkv.after (.of_cons hclose (by decide))
            · obtain ⟨⟨kvs', y⟩, hread, heq⟩ := Option.map_eq_some_iff.mp h
              obtain ⟨rfl, rfl⟩ := Prod.mk.inj heq
              have hd := hkv.after
                ((Skips.of_cons hcomma (by decide)).trans (skips_skipBlanks x))
              simp only [charsMembers, String.toList_ofList]
              exact hd.seq (ihM hread)

/-- The three readers at one level of fuel. -/
theorem read_reads (n : ℕ) :
    (∀ {s rest v}, readValue n s = some (v, rest) → Reads s rest v.chars) ∧
    (∀ {s rest xs}, readElems n s = some (xs, rest) → Reads s rest (charsElems xs)) ∧
    (∀ {s rest kvs}, readMembers n s = some (kvs, rest) → Reads s rest (charsMembers kvs)) := by
  induction n with
  | zero => exact ⟨by simp [readValue], by simp [readElems], by simp [readMembers]⟩
  | succ n ih =>
    obtain ⟨ihV, ihE, ihM⟩ := ih
    exact ⟨readValue_reads ihE ihM, readElems_reads ihV ihE, readMembers_reads ihV ihM⟩

theorem reads_of_loads {s : List Char} {v : Json} (h : loads s = some v) : Reads s [] v.chars := by
  rw [loads] at h
  split_ifs at h
  cases hval : readValue (s.length + 1) (skipBlanks s) with
  | none => simp [hval] at h
  | some p =>
    obtain ⟨w, rest⟩ := p
    simp only [hval] at h
    split_ifs at h with hrest
    rw [← Option.some.inj h, ← hrest]
    exact (Reads.before (skips_skipBlanks s) ((read_reads _).1 hval)).after (skips_skipBlanks rest)

/-- **What an escape-safe text can say.** Every non-ASCII character of the value read stands
unescaped in the text. -/
theorem chars_of_loads {s : List Char} {v : Json} (hs : EscSafe s) (h : loads s = some v)
    {c : Char} (hc : c ∈ v.chars) (hascii : 128 ≤ c.toNat) : c ∈ s :=
  ((reads_of_loads h).fromText hs c hc).resolve_right (by omega)

/-! ### Cut texts -/

mutual

/-- A string is open at the end of the text. -/
def opens : List Char → Bool
  | [] => false
  | c :: s => if c = '\x22' then inside s else opens s

/-- A string is open at the end of a text that starts inside one. -/
def inside : List Char → Bool
  | [] => true
  | '\\' :: [] => true
  | '\\' :: _ :: s => inside s
  | c :: s => if c = '\x22' then opens s else inside s

end

theorem inside_plain {c : Char} (hb : c ≠ '\\') (s : List Char) :
    inside (c :: s) = if c = '\x22' then opens s else inside s := by
  rw [inside]
  · exact fun h => absurd h hb
  · exact fun _ _ h => absurd h hb

theorem Past.inside_eq {s t : List Char} (h : Past s t) : inside s = inside t := by
  induction h with
  | refl s => rfl
  | plain hq hb _ ih => rw [inside_plain hb, if_neg hq, ih]
  | escape _ ih => rw [inside, ih]

theorem Skips.opens_eq {s t : List Char} (h : Skips s t) : opens s = opens t := by
  induction h with
  | refl s => rfl
  | plain hq _ _ ih => rw [opens, if_neg hq, ih]
  | string hs _ ih => rw [opens, if_pos rfl, hs.inside_eq, inside_plain (by decide), if_pos rfl, ih]

/-- What is open at the end of a text was open before its last characters, if no quote or backslash
is among them. -/
theorem open_of_append {w : List Char} (hw : ∀ c ∈ w, c ≠ '\x22' ∧ c ≠ '\\') : ∀ s : List Char,
    (opens (s ++ w) = true → opens s = true) ∧ (inside (s ++ w) = true → inside s = true)
  | [] => by
    have hnone := (Skips.of_append (t := []) hw).opens_eq
    rw [List.append_nil] at hnone
    exact ⟨fun h => hnone ▸ h, fun _ => rfl⟩
  | c :: s => by
    obtain ⟨hopens, hinside⟩ := open_of_append hw s
    refine ⟨fun h => ?_, fun h => ?_⟩
    · rw [List.cons_append, opens] at h
      rw [opens]
      split_ifs at h ⊢
      · exact hinside h
      · exact hopens h
    · by_cases hc : c = '\\'
      · subst hc
        cases s with
        | nil => rfl
        | cons d s =>
          rw [List.cons_append, List.cons_append, inside] at h
          rw [inside]
          exact (open_of_append hw s).2 h
      · rw [List.cons_append, inside_plain hc] at h
        rw [inside_plain hc]
        split_ifs at h ⊢
        · exact hopens h
        · exact hinside h

/-- **A text that ends inside a string is no value.** -/
theorem loads_of_opens {s : List Char} (h : opens s = true) : loads s = none := by
  cases hload : loads s with
  | none => rfl
  | some v =>
    rw [(reads_of_loads hload).skips.opens_eq] at h
    cases h

/-- A text of whole strings, cut before a character above ASCII, ends inside one of them. -/
structure Whole (s : List Char) : Prop where
  skips : ∀ t, Skips (s ++ t) t
  opens_cut : ∀ {p c rest}, s = p ++ c :: rest → 128 ≤ c.toNat → opens p = true

theorem whole_of_plain {s : List Char} (h : ∀ c ∈ s, Plain c) : Whole s where
  skips _ := .of_append fun c hc => ⟨(h c hc).1, (h c hc).2.1⟩
  opens_cut {p c rest} hs hc := by
    have hplain := (h c (by simp [hs])).2.2
    omega

theorem Whole.append {s t : List Char} (hs : Whole s) (ht : Whole t) : Whole (s ++ t) where
  skips u := by
    rw [List.append_assoc]
    exact (hs.skips (t ++ u)).trans (ht.skips u)
  opens_cut {p c rest} heq hc := by
    rcases List.append_eq_append_iff.mp heq with ⟨p', rfl, htail⟩ | ⟨s', rfl, htail⟩
    · -- the cut is in the second text
      rw [(hs.skips p').opens_eq]
      exact ht.opens_cut htail hc
    · cases s' with
      | nil =>
        rw [List.append_nil] at hs
        have hopen := ht.opens_cut (p := []) htail.symm hc
        cases hopen
      | cons d s' =>
        obtain ⟨rfl, -⟩ := List.cons.inj htail
        exact hs.opens_cut rfl hc

theorem escapeChar_past (c : Char) (t : List Char) : Past (escapeChar c ++ t) t := by
  unfold escapeChar
  have hdigit : ∀ n < 16, Plain (Nat.digitChar n) := by decide
  split_ifs with h1 h2 h3 h4 h5 h6 h7 h8
  iterate 7 exact .escape (.refl t)
  · have ha := hdigit (c.toNat / 16) (by omega)
    have hb := hdigit (c.toNat % 16) (by omega)
    exact .escape (.plain (by decide) (by decide) (.plain (by decide) (by decide)
      (.plain ha.1 ha.2.1 (.plain hb.1 hb.2.1 (.refl t)))))
  · exact .plain h1 h2 (.refl t)

theorem escape_past (s t : List Char) : Past (escape s ++ t) t := by
  induction s with
  | nil => exact .refl t
  | cons c s ih =>
    have hcons : escape (c :: s) ++ t = escapeChar c ++ (escape s ++ t) := by
      rw [← List.append_assoc]
      rfl
    rw [hcons]
    exact (escapeChar_past c _).trans ih

theorem inside_of_cut {s p rest : List Char} {c : Char}
    (h : escape s ++ ['\x22'] = p ++ c :: rest) (hc : 128 ≤ c.toNat) : inside p = true := by
  induction s generalizing p with
  | nil =>
    have hmem : c ∈ ['\x22'] := by
      rw [show ['\x22'] = p ++ c :: rest from h]
      simp
    rw [List.mem_singleton.mp hmem] at hc
    exact absurd hc (by decide)
  | cons d s ih =>
    have hcons : escapeChar d ++ (escape s ++ ['\x22']) = p ++ c :: rest := by
      rw [← h, ← List.append_assoc]
      rfl
    rcases List.append_eq_append_iff.mp hcons with ⟨p', rfl, htail⟩ | ⟨d', hd, htail⟩
    · rw [(escapeChar_past d p').inside_eq]
      exact ih htail
    · cases d' with
      | nil =>
        rw [List.append_nil] at hd
        have hopen : inside (escapeChar d ++ []) = true := by
          rw [(escapeChar_past d []).inside_eq]
          rfl
        rwa [List.append_nil, hd] at hopen
      | cons e d' =>
        obtain ⟨rfl, -⟩ := List.cons.inj htail
        rcases escapeChar_cases d with hp | ⟨he, -⟩
        · have hle := (hp c (by simp [hd])).2
          omega
        · -- a character that is written as itself
          rw [he, List.singleton_eq_append_iff] at hd
          rcases hd with ⟨rfl, -⟩ | ⟨rfl, hnil⟩
          · rfl
          · cases hnil

theorem whole_quote (s : String) : Whole (quote s) where
  skips t := by
    rw [show quote s ++ t = '\x22' :: (escape s.toList ++ '\x22' :: t) by simp [quote]]
    exact .string (escape_past _ _) (.refl t)
  opens_cut {p c rest} heq hc := by
    cases p with
    | nil =>
      obtain ⟨rfl, -⟩ := List.cons.inj heq
      exact absurd hc (by decide)
    | cons d p =>
      obtain ⟨rfl, htail⟩ := List.cons.inj heq
      rw [opens, if_pos rfl]
      exact inside_of_cut htail hc

theorem whole_spaced {gap : List Char} (hgap : ∀ c ∈ gap, c = ' ') {v : Json} (hv : v.Sound) :
    Whole (v.spaced gap) := spaced_induction hgap whole_of_plain whole_quote Whole.append hv

/-- **A text cut before a character above ASCII ends inside a string.** -/
theorem opens_of_cut {gap p rest : List Char} {c : Char} (hgap : ∀ c ∈ gap, c = ' ') {v : Json}
    (hv : v.Sound) (h : v.spaced gap = p ++ c :: rest) (hc : 128 ≤ c.toNat) : opens p = true :=
  (whole_spaced hgap hv).opens_cut h hc

end Json
