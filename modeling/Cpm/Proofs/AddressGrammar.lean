import Cpm.Address
import Mathlib.Data.List.Forall2
import Mathlib.Data.List.TakeWhile
import Mathlib.Data.Nat.Digits.Defs

/-!
# The grammar of addresses

Which texts are addresses is told without regard to how they are read: a word is a plus sign
or none and digits of its value, and a mark before them or behind them says that they are
hexadecimal. The texts that are read are those of the grammar, each as the word it denotes, and
every usual way to write a word is one of them.
-/

namespace Cpm

/-! ### Blanks at the ends -/

/-- A text and what is left of it without the blanks at both ends. -/
def IsTrimmed (s t : List Char) : Prop :=
  ∃ before after, s = before ++ t ++ after ∧ (∀ c ∈ before ++ after, isBlank c = true) ∧
    (∀ c, t.head? = some c → isBlank c = false) ∧ ∀ c, t.getLast? = some c → isBlank c = false

theorem head?_dropWhile_isBlank {s : List Char} {c : Char}
    (h : (s.dropWhile isBlank).head? = some c) : isBlank c = false := by
  have hhead := List.head?_dropWhile_not isBlank s
  rwa [h] at hhead

theorem isTrimmed_trimBlanks (s : List Char) : IsTrimmed s (trimBlanks s) := by
  let rest := s.dropWhile isBlank
  let after := (rest.reverse.takeWhile isBlank).reverse
  have hrest : trimBlanks s ++ after = rest := by
    rw [trimBlanks, ← List.reverse_append, List.takeWhile_append_dropWhile, List.reverse_reverse]
  refine ⟨s.takeWhile isBlank, after, ?_, fun c hc => ?_, fun c hc => ?_, fun c hc => ?_⟩
  · rw [List.append_assoc, hrest, List.takeWhile_append_dropWhile]
  · rcases List.mem_append.mp hc with hfront | hback
    · exact List.mem_takeWhile_imp hfront
    · exact List.mem_takeWhile_imp (List.mem_reverse.mp hback)
  · have hfront : rest.head? = some c := by
      rw [← hrest, List.head?_append, hc]
      rfl
    exact head?_dropWhile_isBlank hfront
  · rw [trimBlanks, List.getLast?_reverse] at hc
    exact head?_dropWhile_isBlank hc

theorem dropWhile_isBlank_of_head? {t : List Char}
    (h : ∀ c, t.head? = some c → isBlank c = false) : t.dropWhile isBlank = t := by
  cases t with
  | nil => rfl
  | cons c rest => exact List.dropWhile_cons_of_neg (Bool.not_eq_true _ ▸ h c rfl)

theorem dropWhile_isBlank_append {before t : List Char} (h : ∀ c ∈ before, isBlank c = true) :
    (before ++ t).dropWhile isBlank = t.dropWhile isBlank :=
  List.dropWhile_append_of_pos h

/-- There is one way to take the blanks at the ends off a text. -/
theorem IsTrimmed.eq_trimBlanks {s t : List Char} (h : IsTrimmed s t) : t = trimBlanks s := by
  obtain ⟨before, after, rfl, hblank, hfront, hback⟩ := h
  have hbefore : ∀ c ∈ before, isBlank c = true := fun c hc =>
    hblank c (List.mem_append_left after hc)
  have hafter : ∀ c ∈ after.reverse, isBlank c = true := fun c hc =>
    hblank c (List.mem_append_right before (List.mem_reverse.mp hc))
  rw [trimBlanks, List.append_assoc, dropWhile_isBlank_append hbefore]
  cases t with
  | nil =>
    have hnil : after.dropWhile isBlank = [] :=
      List.dropWhile_eq_nil_iff.mpr fun c hc => hafter c (List.mem_reverse.mpr hc)
    rw [List.nil_append, hnil]
    rfl
  | cons c rest =>
    have hkept : (c :: rest ++ after).dropWhile isBlank = c :: rest ++ after :=
      dropWhile_isBlank_of_head? fun d hd => hfront d hd
    rw [hkept, List.reverse_append, dropWhile_isBlank_append hafter, dropWhile_isBlank_of_head?,
      List.reverse_reverse]
    intro d hd
    exact hback d (List.head?_reverse ▸ hd)

namespace Address

/-! ### Digits -/

namespace Radix

variable (r : Radix)

theorem base_le : r.base ≤ 16 := by cases r <;> decide

/-- The character is the digit of a value below the base, in either letter case. -/
def IsDigit (c : Char) (d : Nat) : Prop :=
  d < r.base ∧ (c = d.digitChar ∨ c = d.digitChar.toUpper)

variable {r} {c : Char} {d : Nat}

theorem digit?_eq_some_iff_hexadecimal :
    r.digit? c = some d ↔ hexadecimal.digit? c = some d ∧ d < r.base := by
  have hle := r.base_le
  simp only [digit?, Option.filter_eq_some_iff, decide_eq_true_eq]
  constructor
  · rintro ⟨hvalue, hlt⟩
    exact ⟨⟨hvalue, Nat.lt_of_lt_of_le hlt hle⟩, hlt⟩
  · rintro ⟨⟨hvalue, -⟩, hlt⟩
    exact ⟨hvalue, hlt⟩

theorem eq_of_hexadecimal_digit? (h : hexadecimal.digit? c = some d) :
    d < 16 ∧ (c = d.digitChar ∨ c = d.digitChar.toUpper) := by
  obtain ⟨hvalue, hlt⟩ := Option.filter_eq_some_iff.mp h
  have hd : d < 16 := of_decide_eq_true hlt
  refine ⟨hd, ?_⟩
  -- A character is its number; in each of the three ranges the value is the distance.
  split at hvalue
  · next hrange =>
    obtain ⟨hlow, hhigh⟩ : 48 ≤ c.toNat ∧ c.toNat ≤ 57 := hrange
    have hdistance : c.toNat - 48 = d := Option.some.inj hvalue
    refine .inl (Char.toNat_inj.mp ?_)
    rw [Nat.toNat_digitChar_of_lt_ten (by omega)]
    omega
  · split at hvalue
    · next hrange =>
      obtain ⟨hlow, hhigh⟩ : 97 ≤ c.toNat ∧ c.toNat ≤ 102 := hrange
      have hdistance : c.toNat - 97 + 10 = d := Option.some.inj hvalue
      have hletter : ∀ k < 6, (k + 10).digitChar.toNat = 97 + k := by decide
      have hchar := hletter (c.toNat - 97) (by omega)
      rw [hdistance] at hchar
      exact .inl (Char.toNat_inj.mp (by omega))
    · split at hvalue
      · next hrange =>
        obtain ⟨hlow, hhigh⟩ : 65 ≤ c.toNat ∧ c.toNat ≤ 70 := hrange
        have hdistance : c.toNat - 65 + 10 = d := Option.some.inj hvalue
        have hletter : ∀ k < 6, (k + 10).digitChar.toUpper.toNat = 65 + k := by decide
        have hchar := hletter (c.toNat - 65) (by omega)
        rw [hdistance] at hchar
        exact .inr (Char.toNat_inj.mp (by omega))
      · cases hvalue

/-- The characters taken as digits are the digits. -/
theorem digit?_eq_some_iff : r.digit? c = some d ↔ r.IsDigit c d := by
  rw [digit?_eq_some_iff_hexadecimal]
  constructor
  · rintro ⟨hhex, hlt⟩
    exact ⟨hlt, (eq_of_hexadecimal_digit? hhex).2⟩
  · rintro ⟨hlt, hchar⟩
    have hd : d < 16 := Nat.lt_of_lt_of_le hlt r.base_le
    have hlower : ∀ d < 16, hexadecimal.digit? d.digitChar = some d := by decide
    have hupper : ∀ d < 16, hexadecimal.digit? d.digitChar.toUpper = some d := by decide
    rcases hchar with rfl | rfl
    · exact ⟨hlower d hd, hlt⟩
    · exact ⟨hupper d hd, hlt⟩

theorem IsDigit.ne {x : Char} (h : r.IsDigit c d) (hx : hexadecimal.digit? x = none) : c ≠ x := by
  rintro rfl
  have hdigit := (digit?_eq_some_iff_hexadecimal.mp (digit?_eq_some_iff.mpr h)).1
  rw [hx] at hdigit
  cases hdigit

theorem IsDigit.not_blank (h : r.IsDigit c d) : isBlank c = false := by
  have hd : d < 16 := Nat.lt_of_lt_of_le h.1 r.base_le
  have hlower : ∀ d < 16, isBlank d.digitChar = false := by decide
  have hupper : ∀ d < 16, isBlank d.digitChar.toUpper = false := by decide
  rcases h.2 with rfl | rfl
  · exact hlower d hd
  · exact hupper d hd

variable (r)

def Writes (digits : List Char) (n : Nat) : Prop :=
  ∃ values, List.Forall₂ r.IsDigit digits values ∧ Nat.ofDigits r.base values.reverse = n

variable {r}

theorem Writes.exists_isDigit {digits : List Char} {n : Nat} (h : r.Writes digits n)
    (hc : c ∈ digits) : ∃ d, r.IsDigit c d := by
  obtain ⟨values, hdigits, -⟩ := h
  induction hdigits with
  | nil => cases hc
  | cons hd _ ih =>
    rcases List.mem_cons.mp hc with rfl | hrest
    · exact ⟨_, hd⟩
    · exact ih hrest

end Radix

/-! ### Words -/

/-- The text of a word: a plus sign or none, then digits of its value, of which any number at
the front can be zeros. -/
def Numeral (r : Radix) (s : List Char) (v : UInt16) : Prop :=
  ∃ sign digits, s = sign ++ digits ∧ (sign = [] ∨ sign = ['+']) ∧ digits ≠ [] ∧
    r.Writes digits v.toNat

def extended (r : Radix) (n : Nat) (values : List Nat) : Nat :=
  values.foldl (fun n d => n * r.base + d) n

theorem ofDigits_reverse (r : Radix) (values : List Nat) :
    Nat.ofDigits r.base values.reverse = extended r 0 values := by
  rw [Nat.ofDigits_eq_foldr, List.foldr_reverse]
  simp only [extended, Nat.cast_id, Nat.add_comm, Nat.mul_comm]

/-- More digits make no smaller number. -/
theorem le_extended (r : Radix) (n : Nat) (values : List Nat) : n ≤ extended r n values := by
  induction values generalizing n with
  | nil => exact Nat.le_refl n
  | cons d rest ih =>
    have hbase : 1 ≤ r.base := by cases r <;> decide
    have hfirst : n ≤ n * r.base + d := by
      have := Nat.le_mul_of_pos_right n hbase
      omega
    exact Nat.le_trans hfirst (ih _)

/-- Digits are read to the number they make behind those read before, if all of them are digits
and it is a word. -/
theorem readDigits_eq_ok_iff {r : Radix} {n : Nat} (hn : n ≤ 0xFFFF) (s : List Char)
    (v : UInt16) : readDigits r n s = .ok v ↔
      ∃ values, List.Forall₂ r.IsDigit s values ∧ extended r n values = v.toNat := by
  induction s generalizing n with
  | nil =>
    have hnat : (UInt16.ofNat n).toNat = n := by
      rw [UInt16.toNat_ofNat']
      omega
    simp only [readDigits, List.forall₂_nil_left_iff, exists_eq_left, Except.ok.injEq]
    exact ⟨fun h => h ▸ hnat.symm, fun h => UInt16.toNat_inj.mp (hnat.trans h)⟩
  | cons c rest ih =>
    simp only [List.forall₂_cons_left_iff]
    cases hc : r.digit? c with
    | none =>
      -- Not a digit: nothing is read, and no values match.
      simp only [readDigits, hc, reduceCtorEq, false_iff]
      rintro ⟨_, ⟨d, values, hd, -, -⟩, -⟩
      rw [Radix.digit?_eq_some_iff.mpr hd] at hc
      cases hc
    | some d =>
      have hdigit : r.IsDigit c d := Radix.digit?_eq_some_iff.mp hc
      have hunique : ∀ e, r.IsDigit c e → e = d := fun e he =>
        Option.some.inj ((Radix.digit?_eq_some_iff.mpr he).symm.trans hc)
      by_cases hbig : 0xFFFF < n * r.base + d
      · -- Too large already, and more digits do not make it smaller.
        simp only [readDigits, hc, if_pos hbig, reduceCtorEq, false_iff]
        rintro ⟨_, ⟨e, values, he, -, rfl⟩, hvalue⟩
        have hle := le_extended r (n * r.base + e) values
        have hv := v.toNat_lt
        rw [hunique e he] at hle hvalue
        have hsame : extended r n (d :: values) = extended r (n * r.base + d) values := rfl
        omega
      · simp only [readDigits, hc, if_neg hbig]
        rw [ih (Nat.le_of_not_lt hbig)]
        constructor
        · rintro ⟨values, hrest, hvalue⟩
          exact ⟨d :: values, ⟨d, values, hdigit, hrest, rfl⟩, hvalue⟩
        · rintro ⟨_, ⟨e, values, he, hrest, rfl⟩, hvalue⟩
          rw [hunique e he] at hvalue
          exact ⟨values, hrest, hvalue⟩

theorem readDigits_zero_eq_ok_iff {r : Radix} {s : List Char} {v : UInt16} :
    readDigits r 0 s = .ok v ↔ r.Writes s v.toNat := by
  simp only [readDigits_eq_ok_iff (Nat.zero_le 0xFFFF), Radix.Writes, ofDigits_reverse]

theorem plus_not_isDigit {r : Radix} {d : Nat} : ¬ r.IsDigit '+' d := fun h =>
  h.ne (by decide) rfl

theorem numeral_nil {r : Radix} {v : UInt16} : ¬ Numeral r [] v := by
  rintro ⟨sign, digits, hs, -, hne, -⟩
  exact hne (List.append_eq_nil_iff.mp hs.symm).2

/-- Behind a plus sign are the digits. -/
theorem numeral_plus_iff {r : Radix} {digits : List Char} {v : UInt16} :
    Numeral r ('+' :: digits) v ↔ digits ≠ [] ∧ r.Writes digits v.toNat := by
  constructor
  · rintro ⟨sign, rest, hs, rfl | rfl, hne, hrest⟩
    · rw [List.nil_append] at hs
      subst hs
      obtain ⟨d, hd⟩ := hrest.exists_isDigit List.mem_cons_self
      exact absurd hd plus_not_isDigit
    · rw [(List.cons.inj hs).2]
      exact ⟨hne, hrest⟩
  · rintro ⟨hne, hdigits⟩
    exact ⟨['+'], digits, rfl, .inr rfl, hne, hdigits⟩

/-- Without a plus sign all characters are digits. -/
theorem numeral_cons_iff {r : Radix} {c : Char} {rest : List Char} {v : UInt16} (hc : c ≠ '+') :
    Numeral r (c :: rest) v ↔ r.Writes (c :: rest) v.toNat := by
  constructor
  · rintro ⟨sign, digits, hs, rfl | rfl, -, hdigits⟩
    · rw [hs]
      exact hdigits
    · exact absurd (List.cons.inj hs).1 hc
  · intro h
    exact ⟨[], c :: rest, rfl, .inl rfl, List.cons_ne_nil c rest, h⟩

/-- The texts that are read as words are the numerals. -/
theorem readWord_eq_ok_iff {r : Radix} {s : List Char} {v : UInt16} :
    readWord r s = .ok v ↔ Numeral r s v := by
  cases s with
  | nil =>
    simp only [readWord, reduceCtorEq, false_iff]
    exact numeral_nil
  | cons c rest =>
    by_cases hc : c = '+'
    · subst hc
      rw [numeral_plus_iff]
      cases rest with
      | nil => simp [readWord]
      | cons d more =>
        simp only [readWord, readDigits_zero_eq_ok_iff, ne_eq, reduceCtorEq, not_false_eq_true,
          true_and]
    · have hread : readWord r (c :: rest) = readDigits r 0 (c :: rest) := by
        unfold readWord
        split
        · next h => cases h
        · next h => exact absurd (List.cons.inj h).1 hc
        · next h => exact absurd (List.cons.inj h).1 hc
        · rfl
      rw [hread, readDigits_zero_eq_ok_iff, numeral_cons_iff hc]

/-! ### Marks -/

/-- A mark of hexadecimal digits stands before them. -/
def IsMarked (t : List Char) : Prop := ['0', 'x'] <+: t ∨ ['0', 'X'] <+: t

/-- A mark of hexadecimal digits stands behind them. -/
def IsTagged (t : List Char) : Prop := ['h'] <:+ t ∨ ['H'] <:+ t

instance (t : List Char) : Decidable (IsMarked t) := inferInstanceAs (Decidable (_ ∨ _))

instance (t : List Char) : Decidable (IsTagged t) := inferInstanceAs (Decidable (_ ∨ _))

/-- The grammar: a text without blanks at its ends and the word it denotes. A mark before the
digits goes before one behind them. -/
def Denotes (t : List Char) (v : UInt16) : Prop :=
  if IsMarked t then Numeral .hexadecimal (t.drop 2) v
  else if IsTagged t then Numeral .hexadecimal t.dropLast v
  else Numeral .decimal t v

theorem isMarked_iff {t : List Char} :
    IsMarked t ↔ ∃ digits, t = '0' :: 'x' :: digits ∨ t = '0' :: 'X' :: digits := by
  constructor
  · rintro (⟨digits, rfl⟩ | ⟨digits, rfl⟩)
    · exact ⟨digits, .inl rfl⟩
    · exact ⟨digits, .inr rfl⟩
  · rintro ⟨digits, rfl | rfl⟩
    · exact .inl ⟨digits, rfl⟩
    · exact .inr ⟨digits, rfl⟩

theorem isTagged_iff {t : List Char} :
    IsTagged t ↔ t.getLast? = some 'h' ∨ t.getLast? = some 'H' := by
  simp only [IsTagged, List.getLast?_eq_some_iff]
  constructor
  · rintro (⟨digits, h⟩ | ⟨digits, h⟩)
    · exact .inl ⟨digits, h.symm⟩
    · exact .inr ⟨digits, h.symm⟩
  · rintro (⟨digits, h⟩ | ⟨digits, h⟩)
    · exact .inl ⟨digits, h.symm⟩
    · exact .inr ⟨digits, h.symm⟩

theorem split_eq (t : List Char) : split t =
    if IsMarked t then (.hexadecimal, t.drop 2)
    else if IsTagged t then (.hexadecimal, t.dropLast)
    else (.decimal, t) := by
  unfold split
  split
  · next digits => rw [if_pos (isMarked_iff.mpr ⟨digits, .inl rfl⟩)]; rfl
  · next digits => rw [if_pos (isMarked_iff.mpr ⟨digits, .inr rfl⟩)]; rfl
  · next hlower hupper =>
    have hmarked : ¬ IsMarked t := by
      intro h
      obtain ⟨digits, rfl | rfl⟩ := isMarked_iff.mp h
      · exact hlower digits rfl
      · exact hupper digits rfl
    rw [if_neg hmarked]
    split
    · next hlast => rw [if_pos (isTagged_iff.mpr (.inl hlast))]
    · next hlast => rw [if_pos (isTagged_iff.mpr (.inr hlast))]
    · next hh hH =>
      rw [if_neg fun h => (isTagged_iff.mp h).elim hh hH]

/-- The addresses are the texts of the grammar, once the blanks at the ends are off. -/
theorem parse_eq_ok_iff (s : String) (v : UInt16) :
    parse s = .ok v ↔ Denotes (trimBlanks s.toList) v := by
  have hok : ∀ (x : Except DigitError UInt16) (f : DigitError → Error),
      x.mapError f = .ok v ↔ x = .ok v := by
    intro x f
    cases x <;> simp [Except.mapError]
  simp only [parse, hok, readWord_eq_ok_iff, Denotes, split_eq]
  split
  · rfl
  · split <;> rfl

/-- A text that is no address is named by the error. -/
theorem text_of_parse_eq_error {s : String} {e : Error} (h : parse s = .error e) :
    e.text = trimBlanks s.toList := by
  simp only [parse] at h
  cases hread : readWord (split (trimBlanks s.toList)).1 (split (trimBlanks s.toList)).2 with
  | ok v => simp [hread, Except.mapError] at h
  | error cause =>
    simp only [hread, Except.mapError, Except.error.injEq] at h
    rw [← h]

/-! ### The usual ways to write a word -/

/-- The text with some of its letters, or none, in upper case. -/
def IsRecased (s t : List Char) : Prop := List.Forall₂ (fun c d => c = d ∨ c = d.toUpper) s t

/-- The digits of a number as they are commonly written. -/
theorem exists_values (r : Radix) (n : Nat) :
    ∃ values : List Nat, Nat.toDigits r.base n = values.map Nat.digitChar ∧ (∀ d ∈ values, d < r.base) ∧
      Nat.ofDigits r.base values.reverse = n := by
  have hbase : 1 < r.base := by cases r <;> decide
  induction n using Nat.strongRecOn with
  | ind n ih =>
    rw [Nat.toDigits_eq_if hbase]
    by_cases hn : n < r.base
    · refine ⟨[n], by rw [if_pos hn]; rfl, fun d hd => ?_, Nat.ofDigits_singleton⟩
      rw [List.mem_singleton.mp hd]
      exact hn
    · obtain ⟨values, htext, hlt, hvalue⟩ := ih (n / r.base) (Nat.div_lt_self (by omega) hbase)
      have hmod : n % r.base < r.base := Nat.mod_lt n (by omega)
      refine ⟨values ++ [n % r.base], ?_, fun d hd => ?_, ?_⟩
      · rw [if_neg hn, htext, List.map_append]
        rfl
      · rcases List.mem_append.mp hd with hfront | hlast
        · exact hlt d hfront
        · rw [List.mem_singleton.mp hlast]
          exact hmod
      · rw [List.reverse_append, List.reverse_singleton, List.singleton_append,
          Nat.ofDigits_cons, hvalue]
        exact Nat.mod_add_div n r.base

theorem forall₂_isDigit {r : Radix} {digits : List Char} {values : List Nat}
    (h : IsRecased digits (values.map Nat.digitChar)) (hlt : ∀ d ∈ values, d < r.base) :
    List.Forall₂ r.IsDigit digits values := by
  have hchars := List.forall₂_map_right_iff.mp h
  induction hchars with
  | nil => exact .nil
  | cons hc hrest ih =>
    refine .cons ⟨hlt _ List.mem_cons_self, hc⟩ (ih ?_ fun d hd => hlt d (List.mem_cons_of_mem _ hd))
    exact List.forall₂_map_right_iff.mpr hrest

/-- A zero in front changes no number. -/
theorem Radix.Writes.zero_cons {r : Radix} {digits : List Char} {n : Nat}
    (h : r.Writes digits n) : r.Writes ('0' :: digits) n := by
  obtain ⟨values, hdigits, hvalue⟩ := h
  have hbase : 0 < r.base := by cases r <;> decide
  refine ⟨0 :: values, .cons ⟨hbase, .inl rfl⟩ hdigits, ?_⟩
  rw [Nat.ofDigits_reverse_cons, Nat.mul_zero, Nat.add_zero, hvalue]

/-- Digits in any letter case, with any number of zeros in front. -/
theorem writes_of_isRecased {r : Radix} {digits : List Char} {n : Nat}
    (h : IsRecased digits (Nat.toDigits r.base n)) (zeros : Nat) :
    r.Writes (List.replicate zeros '0' ++ digits) n := by
  induction zeros with
  | zero =>
    obtain ⟨values, htext, hlt, hvalue⟩ := exists_values r n
    exact ⟨values, forall₂_isDigit (htext ▸ h) hlt, hvalue⟩
  | succ zeros ih =>
    rw [List.replicate_succ, List.cons_append]
    exact ih.zero_cons

/-- Digits that end the text of a number. -/
theorem ne_nil_of_isRecased {r : Radix} {digits : List Char} {n : Nat}
    (h : IsRecased digits (Nat.toDigits r.base n)) (zeros : Nat) :
    List.replicate zeros '0' ++ digits ≠ [] := by
  intro hnil
  have hdigits := (List.append_eq_nil_iff.mp hnil).2
  rw [hdigits] at h
  exact Nat.toDigits_ne_nil (List.forall₂_nil_left_iff.mp h)

theorem numeral_of_writes {r : Radix} {digits : List Char} {v : UInt16} (hne : digits ≠ [])
    (h : r.Writes digits v.toNat) : Numeral r digits v :=
  ⟨[], digits, rfl, .inl rfl, hne, h⟩

section

variable {r : Radix} {digits : List Char} {n : Nat} (h : r.Writes digits n)

include h

theorem Radix.Writes.not_mem {x : Char} (hx : Radix.hexadecimal.digit? x = none) :
    x ∉ digits := by
  intro hmem
  obtain ⟨d, hd⟩ := h.exists_isDigit hmem
  exact hd.ne hx rfl

/-- Digits bear no mark before them, whatever stands behind. -/
theorem Radix.Writes.not_isMarked {rest : List Char} (hrest : 'x' ∉ rest ∧ 'X' ∉ rest) :
    ¬ IsMarked (digits ++ rest) := by
  intro hmarked
  obtain ⟨more, hmore | hmore⟩ := isMarked_iff.mp hmarked
  · have hx : 'x' ∈ digits ++ rest := by rw [hmore]; simp
    exact (List.mem_append.mp hx).elim (h.not_mem (by decide)) hrest.1
  · have hx : 'X' ∈ digits ++ rest := by rw [hmore]; simp
    exact (List.mem_append.mp hx).elim (h.not_mem (by decide)) hrest.2

theorem Radix.Writes.not_isTagged : ¬ IsTagged digits := by
  rintro (htag | htag)
  · exact h.not_mem (by decide) (htag.subset List.mem_cons_self)
  · exact h.not_mem (by decide) (htag.subset List.mem_cons_self)

theorem Radix.Writes.not_blank {c : Char} (hc : c ∈ digits) : isBlank c = false := by
  obtain ⟨d, hd⟩ := h.exists_isDigit hc
  exact hd.not_blank

end

/-- A text without blanks among blanks. -/
theorem trimBlanks_around {before after t : List Char}
    (hblank : ∀ c ∈ before ++ after, isBlank c = true) (h : ∀ c ∈ t, isBlank c = false) :
    trimBlanks (before ++ t ++ after) = t := by
  have htrimmed : IsTrimmed (before ++ t ++ after) t :=
    ⟨before, after, rfl, hblank, fun c hc => h c (List.mem_of_head? hc),
      fun c hc => h c (List.mem_of_getLast? hc)⟩
  exact htrimmed.eq_trimBlanks.symm

section

variable {v : UInt16} {digits : List Char}

theorem denotes_marked {x : Char} (hx : x = 'x' ∨ x = 'X') (hne : digits ≠ [])
    (h : Radix.hexadecimal.Writes digits v.toNat) : Denotes ('0' :: x :: digits) v := by
  have hmarked : IsMarked ('0' :: x :: digits) := by
    rcases hx with rfl | rfl
    · exact .inl ⟨digits, rfl⟩
    · exact .inr ⟨digits, rfl⟩
  rw [Denotes, if_pos hmarked]
  exact numeral_of_writes hne h

theorem denotes_tagged {y : Char} (hy : y = 'h' ∨ y = 'H') (hne : digits ≠ [])
    (h : Radix.hexadecimal.Writes digits v.toNat) : Denotes (digits ++ [y]) v := by
  have hmarked : ¬ IsMarked (digits ++ [y]) := h.not_isMarked (by rcases hy with rfl | rfl <;> decide)
  have htagged : IsTagged (digits ++ [y]) := by
    rcases hy with rfl | rfl
    · exact .inl ⟨digits, rfl⟩
    · exact .inr ⟨digits, rfl⟩
  rw [Denotes, if_neg hmarked, if_pos htagged, List.dropLast_concat]
  exact numeral_of_writes hne h

theorem denotes_plain (hne : digits ≠ []) (h : Radix.decimal.Writes digits v.toNat) :
    Denotes digits v := by
  have hmarked : ¬ IsMarked digits := by
    have hdigits : ¬ IsMarked (digits ++ []) :=
      h.not_isMarked ⟨List.not_mem_nil, List.not_mem_nil⟩
    rwa [List.append_nil] at hdigits
  rw [Denotes, if_neg hmarked, if_neg h.not_isTagged]
  exact numeral_of_writes hne h

end

/-- What is read as an address is the grammar. Of every text what is left between the blanks at
its ends is read as the word it denotes, and is an error, which names it, if it denotes none: a
text with a mark before its digits is hexadecimal, else one with a mark behind them, and any
other is decimal. So a word is read from its hexadecimal digits with either mark and from its
decimal ones, in either letter case, with zeros before the digits and blanks around the text. -/
theorem parse_reads_exactly_the_grammar :
    (∀ s : String, ∃ t, IsTrimmed s.toList t ∧ (∀ v, parse s = .ok v ↔ Denotes t v) ∧
      ((¬ ∃ v, Denotes t v) → ∃ cause, parse s = .error ⟨t, cause⟩)) ∧
    ∀ (v : UInt16) (hex dec before after : List Char) (zeros : Nat) (x y : Char),
      IsRecased hex (Nat.toDigits 16 v.toNat) → IsRecased dec (Nat.toDigits 10 v.toNat) →
      (∀ c ∈ before ++ after, isBlank c = true) → x = 'x' ∨ x = 'X' → y = 'h' ∨ y = 'H' →
      let around (t : List Char) := String.ofList (before ++ t ++ after)
      parse (around ('0' :: x :: (List.replicate zeros '0' ++ hex))) = .ok v ∧
      parse (around (List.replicate zeros '0' ++ hex ++ [y])) = .ok v ∧
      parse (around (List.replicate zeros '0' ++ dec)) = .ok v := by
  constructor
  · intro s
    refine ⟨trimBlanks s.toList, isTrimmed_trimBlanks s.toList, parse_eq_ok_iff s, fun hnone => ?_⟩
    cases hparse : parse s with
    | ok v => exact absurd ⟨v, (parse_eq_ok_iff s v).mp hparse⟩ hnone
    | error e => exact ⟨e.cause, by rw [← text_of_parse_eq_error hparse]⟩
  · intro v hex dec before after zeros x y hhex hdec hblank hx hy around
    have hexWrites := writes_of_isRecased (r := .hexadecimal) hhex zeros
    have decWrites := writes_of_isRecased (r := .decimal) hdec zeros
    have hexSome := ne_nil_of_isRecased (r := .hexadecimal) hhex zeros
    have decSome := ne_nil_of_isRecased (r := .decimal) hdec zeros
    have hread : ∀ t, (∀ c ∈ t, isBlank c = false) → Denotes t v → parse (around t) = .ok v := by
      intro t ht hdenotes
      rw [parse_eq_ok_iff, String.toList_ofList, trimBlanks_around hblank ht]
      exact hdenotes
    refine ⟨hread _ ?_ (denotes_marked hx hexSome hexWrites),
      hread _ ?_ (denotes_tagged hy hexSome hexWrites),
      hread _ (fun c hc => decWrites.not_blank hc) (denotes_plain decSome decWrites)⟩
    · intro c hc
      rcases List.mem_cons.mp hc with rfl | hc
      · decide
      · rcases List.mem_cons.mp hc with rfl | hc
        · rcases hx with rfl | rfl <;> decide
        · exact hexWrites.not_blank hc
    · intro c hc
      rcases List.mem_append.mp hc with hc | hc
      · exact hexWrites.not_blank hc
      · rw [List.mem_singleton.mp hc]
        rcases hy with rfl | rfl <;> decide

/-- Digits in both letter cases behind zeros and among blanks; with both marks the text is none. -/
theorem mixed_case_address_is_read :
    IsRecased ['f', 'E', '0', '0'] (Nat.toDigits 16 0xFE00) ∧
      parse " \t0X000fE00\n" = .ok 0xFE00 ∧ parse " \t000fE00H\n" = .ok 0xFE00 ∧
      parse " \t00065024\n" = .ok 0xFE00 ∧ ∃ cause, parse "0x10h" = .error ⟨"0x10h".toList, cause⟩ := by
  have hhex : IsRecased ['f', 'E', '0', '0'] (Nat.toDigits 16 (0xFE00 : UInt16).toNat) :=
    .cons (.inl rfl) (.cons (.inr rfl) (.cons (.inl rfl) (.cons (.inl rfl) .nil)))
  have hdec : IsRecased ['6', '5', '0', '2', '4'] (Nat.toDigits 10 (0xFE00 : UInt16).toNat) :=
    .cons (.inl rfl) (.cons (.inl rfl) (.cons (.inl rfl) (.cons (.inl rfl) (.cons (.inl rfl) .nil))))
  have hblank : ∀ c ∈ [' ', '\t'] ++ ['\n'], isBlank c = true := List.all_eq_true.mp rfl
  obtain ⟨hgrammar, hforms⟩ := parse_reads_exactly_the_grammar
  obtain ⟨hmarked, hupper, hdecimal⟩ := hforms 0xFE00 _ _ [' ', '\t'] ['\n'] 3 'X' 'H' hhex hdec
    hblank (.inr rfl) (.inr rfl)
  refine ⟨hhex, hmarked, hupper, hdecimal, ?_⟩
  obtain ⟨t, htrimmed, -, herror⟩ := hgrammar "0x10h"
  have ht : t = "0x10h".toList := htrimmed.eq_trimBlanks.trans (by decide)
  subst ht
  refine herror ?_
  rintro ⟨v, hdenotes⟩
  have hmarked : IsMarked "0x10h".toList := by decide
  rw [Denotes, if_pos hmarked, ← readWord_eq_ok_iff] at hdenotes
  cases hdenotes

end Address

end Cpm
