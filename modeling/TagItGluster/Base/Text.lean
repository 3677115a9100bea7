import Mathlib.Algebra.GroupWithZero.Nat
import Mathlib.Data.List.Basic
import Mathlib.Data.List.TakeWhile

/-!
# Texts and decimal numerals

A C string is the list of its characters. Decimal numerals are what `%llu` prints; the last
facts are the ones that keep row keys apart from the other keys of a dictionary. Numbers are
read as the C library does: white space, a sign, digits.
-/

namespace TagItGluster.Base

open List

/-- A character string, without the terminating zero. -/
abbrev Text := List Char

/-- The text that `sprintf ("%llu", n)` leaves in its buffer. -/
def dec (n : Nat) : Text := Nat.toDigits 10 n

/-- Number of bytes of a text in UTF-8. -/
def byteLen (t : Text) : Nat := (t.map Char.utf8Size).sum

/-- The text before the last occurrence of `c`; the whole text is dropped when `c` does
not occur. -/
def beforeLast (c : Char) (t : Text) : Text :=
  ((t.reverse.dropWhile (fun x => x != c)).drop 1).reverse

/-- The text after the last occurrence of `c`, or the whole text when `c` does not occur. -/
def afterLast (c : Char) (t : Text) : Text :=
  (t.reverse.takeWhile (fun x => x != c)).reverse

/-- Every character is one of the 128 that UTF-8 stores in one byte. -/
def Ascii (t : Text) : Prop := ∀ c ∈ t, c.val ≤ 127

variable {c : Char} {t : Text}

/-- A text is put together from the two sides of the last `c`. -/
lemma beforeLast_append_afterLast (h : c ∈ t) : beforeLast c t ++ c :: afterLast c t = t := by
  have hne : t.reverse.dropWhile (fun x => x != c) ≠ [] := by
    intro hnil
    have hc := dropWhile_eq_nil_iff.mp hnil c (mem_reverse.mpr h)
    simp at hc
  obtain ⟨d, rest, hd⟩ := exists_cons_of_ne_nil hne
  -- the first character that the scan from the end does not skip is `c` itself
  have hdc : d = c := by
    have hhead := head_dropWhile_not (fun x => x != c) hne
    simpa [hd] using hhead
  subst hdc
  have hrev : t.reverse.takeWhile (fun x => x != d) ++ d :: rest = t.reverse := by
    rw [← hd]
    exact takeWhile_append_dropWhile
  have ht := congrArg List.reverse hrev
  rw [reverse_reverse] at ht
  calc beforeLast d t ++ d :: afterLast d t
      = (t.reverse.takeWhile (fun x => x != d) ++ d :: rest).reverse := by
        simp [beforeLast, afterLast, hd]
    _ = t := ht

@[simp] lemma byteLen_nil : byteLen [] = 0 := rfl

@[simp] lemma byteLen_cons (c : Char) (t : Text) :
    byteLen (c :: t) = c.utf8Size + byteLen t := by
  simp [byteLen]

/-- A text has at least as many bytes as characters. -/
lemma length_le_byteLen (t : Text) : t.length ≤ byteLen t := by
  induction t with
  | nil => exact le_refl 0
  | cons c t ih =>
    have hc := c.utf8Size_pos
    rw [byteLen_cons, length_cons]
    omega

lemma byteLen_eq_length_iff (t : Text) : byteLen t = t.length ↔ Ascii t := by
  induction t with
  | nil => simp [Ascii]
  | cons c t ih =>
    have hc := c.utf8Size_pos
    have ht := length_le_byteLen t
    have hone : c.utf8Size = 1 ↔ c.val ≤ 127 := Char.utf8Size_eq_one_iff
    have hsplit : Ascii (c :: t) ↔ c.val ≤ 127 ∧ Ascii t := forall_mem_cons
    rw [byteLen_cons, length_cons, hsplit, ← hone, ← ih]
    omega

/-- `isspace` of the C locale. -/
def isSpace (c : Char) : Bool :=
  c = ' ' || c = '\t' || c = '\n' || c = '\x0b' || c = '\x0c' || c = '\r'

/-- An optional sign, as a factor, and what follows it. -/
def scanSign : Text → Int × Text
  | '-' :: s => (-1, s)
  | '+' :: s => (1, s)
  | s => (1, s)

/-- The digits that `%ld` reads: behind white space and an optional sign. -/
def leadDigits (s : Text) : Text := (scanSign (s.dropWhile isSpace)).2.takeWhile Char.isDigit

/-- The value of a sequence of digits. -/
def digitsValue (ds : Text) : Nat := Nat.ofDigitChars 10 ds 0

/-- White space is neither a sign nor a digit. -/
lemma isSpace_eq_false_of_isDigit (h : c.isDigit) : isSpace c = false := by
  have hlow : 48 ≤ c.val := (Char.isDigit_iff_toNat.mp h).1
  unfold isSpace
  simp only [Bool.or_eq_false_iff, decide_eq_false_iff_not]
  refine ⟨⟨⟨⟨⟨?_, ?_⟩, ?_⟩, ?_⟩, ?_⟩, ?_⟩
  all_goals
    intro hc
    rw [hc] at hlow
    exact absurd hlow (by decide)

lemma dec_inj {m n : Nat} (h : dec m = dec n) : m = n := by
  have hm := Nat.ofDigitChars_ten_toDigits (n := m)
  rw [← hm, ← Nat.ofDigitChars_ten_toDigits (n := n)]
  exact congrArg (fun t => Nat.ofDigitChars 10 t 0) h

lemma isDigit_of_mem_dec {n : Nat} (h : c ∈ dec n) : c.isDigit = true :=
  Nat.isDigit_of_mem_toDigits (by decide) (by decide) h

/-- Nothing is skipped before a digit. -/
lemma scanSign_digit (hc : c.isDigit) (s : Text) :
    scanSign ((c :: s).dropWhile isSpace) = (1, c :: s) := by
  rw [dropWhile_cons, isSpace_eq_false_of_isDigit hc, if_neg (by decide)]
  unfold scanSign
  split
  next h => exact absurd ((cons.inj h).1 ▸ hc) (by decide)
  next h => exact absurd ((cons.inj h).1 ▸ hc) (by decide)
  next => rfl

lemma scanSign_dec (n : Nat) : scanSign ((dec n).dropWhile isSpace) = (1, dec n) := by
  cases hs : dec n with
  | nil => rfl
  | cons c rest => exact scanSign_digit (isDigit_of_mem_dec (hs ▸ mem_cons_self)) rest

/-- Only zero is printed with a leading zero. -/
lemma dec_ne_zero_cons {n : Nat} (hn : n ≠ 0) (s : Text) : dec n ≠ '0' :: s := by
  induction n using Nat.strongRecOn generalizing s with
  | ind n ih =>
    intro h
    by_cases hlt : n < 10
    · have hzero : ∀ m < 10, m.digitChar = '0' → m = 0 := by decide
      rw [dec, Nat.toDigits_of_lt_base hlt] at h
      exact hn (hzero n hlt (cons.inj h).1)
    · have hdec : dec n = dec (n / 10) ++ [(n % 10).digitChar] :=
        Nat.toDigits_of_base_le (by decide) (by omega)
      rcases append_eq_cons_iff.mp (hdec ▸ h) with ⟨hnil, -⟩ | ⟨rest, hrest, -⟩
      · exact absurd hnil Nat.toDigits_ne_nil
      · exact ih (n / 10) (by omega) (by omega) rest hrest

/-- `atoi`, for numbers that fit into an `int`. -/
def atoi (s : Text) : Int :=
  (scanSign (s.dropWhile isSpace)).1 * digitsValue (leadDigits s)

lemma atoi_dec (n : Nat) : atoi (dec n) = n := by
  have hlead : leadDigits (dec n) = dec n := by
    rw [leadDigits, scanSign_dec]
    exact takeWhile_eq_self_iff.mpr (fun c hc => isDigit_of_mem_dec hc)
  have hvalue : digitsValue (dec n) = n := Nat.ofDigitChars_ten_toDigits
  rw [atoi, scanSign_dec, hlead, hvalue]
  exact Int.one_mul _

lemma dec_ne_of_mem (hc : c ∈ t) (hd : c.isDigit = false) (n : Nat) : dec n ≠ t := by
  intro h
  have := isDigit_of_mem_dec (h ▸ hc)
  rw [hd] at this
  cases this

lemma dec_ne (h : t.all Char.isDigit = false) (n : Nat) : dec n ≠ t := by
  obtain ⟨c, hc, hd⟩ := all_eq_false.mp h
  exact dec_ne_of_mem hc (Bool.eq_false_iff.mpr hd) n

end TagItGluster.Base
