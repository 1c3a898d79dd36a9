import Mathlib.Algebra.Group.Nat.Defs
import TableLisp.Text.Numeral

/-!
# Numerals written and read

The decimal text of an integer is a plain numeral (`Numeral.isPlain_text`), and its value is the
integer again (`Numeral.plainValue_text`). It is a loose numeral as well, which reads as the integer
if it is not too long (`Numeral.readInteger?_text`).

How long it is only depends on the size of the integer: all those can be written that are less than
a power of ten, sign apart (`Numeral.isWritable_iff`).
-/

namespace TableLisp.Text

theorem toNat_of_isDigit {c : Char} (h : c.isDigit = true) : 48 ≤ c.toNat ∧ c.toNat ≤ 57 := by
  simpa [Char.isDigit, UInt32.le_iff_toNat_le] using h

theorem isBlank_of_isDigit {c : Char} (h : c.isDigit = true) : isBlank c = false := by
  obtain ⟨hlow, hhigh⟩ := toNat_of_isDigit h
  simp only [isBlank, Bool.or_eq_false_iff, Bool.and_eq_false_iff, decide_eq_false_iff_not,
    beq_eq_false_iff_ne]
  repeat' apply And.intro
  all_goals omega

theorem isAsciiDigit_of_isDigit {c : Char} (h : c.isDigit = true) : isAsciiDigit c = true := by
  simpa [isAsciiDigit, Char.isDigit, Char.le_def] using h

namespace Numeral

/-! ## Digits without a sign -/

/-- Digits that do not begin with a minus are their own unsigned part. -/
theorem unsigned_of_digits {cs : List Char} (h : ∀ c ∈ cs, c.isDigit = true) :
    unsigned cs = cs := by
  unfold unsigned
  split
  · exact absurd (h '-' List.mem_cons_self) (by decide)
  · rfl

theorem plainValue_of_digits {cs : List Char} (h : ∀ c ∈ cs, c.isDigit = true) :
    plainValue cs = (Nat.ofDigitChars 10 cs 0 : Int) := by
  unfold plainValue
  split
  · exact absurd (h '-' List.mem_cons_self) (by decide)
  · rfl

theorem isDigit_toDigits {n : Nat} {c : Char} (h : c ∈ Nat.toDigits 10 n) : c.isDigit = true :=
  Nat.isDigit_of_mem_toDigits (by decide) (by decide) h

/-! ## The text of an integer -/

theorem toList_text_ofNat (n : Nat) : (text n).toList = Nat.toDigits 10 n :=
  Nat.toList_repr

theorem toList_text_negSucc (n : Nat) :
    (text (Int.negSucc n)).toList = '-' :: Nat.toDigits 10 (n + 1) := by
  have htext : text (Int.negSucc n) = "-" ++ (n + 1).repr := rfl
  rw [htext, String.toList_append, Nat.toList_repr]
  rfl

theorem unsigned_text (n : Int) : unsigned (text n).toList = Nat.toDigits 10 n.natAbs := by
  cases n with
  | ofNat n =>
      rw [show Int.ofNat n = (n : Int) from rfl, toList_text_ofNat]
      exact unsigned_of_digits fun _ => isDigit_toDigits
  | negSucc n =>
      rw [toList_text_negSucc]
      rfl

theorem isPlain_text (n : Int) : isPlain (text n).toList = true := by
  have hne : Nat.toDigits 10 n.natAbs ≠ [] := Nat.toDigits_ne_nil
  simp only [isPlain, unsigned_text, Bool.and_eq_true, Bool.not_eq_true',
    List.isEmpty_eq_false_iff, List.all_eq_true]
  exact ⟨hne, fun _ hc => isAsciiDigit_of_isDigit (isDigit_toDigits hc)⟩

theorem toList_text_ne_nil (n : Int) : (text n).toList ≠ [] := by
  intro hnil
  have hplain := isPlain_text n
  rw [hnil] at hplain
  cases hplain

/-- A written integer reads as itself. -/
theorem plainValue_text (n : Int) : plainValue (text n).toList = n := by
  cases n with
  | ofNat n =>
      rw [show Int.ofNat n = (n : Int) from rfl, toList_text_ofNat,
        plainValue_of_digits fun _ => isDigit_toDigits, Nat.ofDigitChars_ten_toDigits]
  | negSucc n =>
      rw [toList_text_negSucc, plainValue, Nat.ofDigitChars_ten_toDigits]
      rfl

/-! ## Integers that can be written -/

theorem isWritable_iff {n : Int} : isWritable n = true ↔ n.natAbs < 10 ^ maxDigits := by
  rw [isWritable, decide_eq_true_iff, digitCount,
    Nat.length_toDigits_le_iff (by decide) (by decide)]

theorem not_isWritable_of_le {n : Nat} (h : 10 ^ maxDigits ≤ n) : isWritable n = false := by
  rw [Bool.eq_false_iff, ne_eq, isWritable_iff, Int.natAbs_natCast]
  exact Nat.not_lt.mpr h

/-- The least natural number that cannot be written. -/
@[irreducible] def leastTooLong : Nat := 10 ^ maxDigits

theorem isWritable_leastTooLong : isWritable leastTooLong = false := by
  apply not_isWritable_of_le
  unfold leastTooLong
  exact Nat.le_refl _

/-! ## Filled up with zeros -/

theorem toList_pushn (s : String) (c : Char) (k : Nat) :
    (s.pushn c k).toList = s.toList ++ List.replicate k c := by
  rw [String.pushn_eq_repeat_push]
  induction k with
  | zero => simp [Nat.repeat]
  | succ k ih => simp [Nat.repeat, ih, List.replicate_succ']

theorem toList_padded (width n : Nat) : ∃ zeros,
    (padded width n).toList = List.replicate zeros '0' ++ Nat.toDigits 10 n := by
  have hsign : ¬ ((n : Int) < 0) := Int.not_lt.mpr (Int.natCast_nonneg n)
  refine ⟨width - n.repr.length, ?_⟩
  rw [padded, if_neg hsign, String.toList_append, String.toList_append, toList_pushn,
    Nat.toList_repr]
  simp

theorem isDigit_padded {width n : Nat} {c : Char} (h : c ∈ (padded width n).toList) :
    c.isDigit = true := by
  obtain ⟨zeros, htext⟩ := toList_padded width n
  rw [htext, List.mem_append] at h
  rcases h with h | h
  · rw [List.eq_of_mem_replicate h]
    rfl
  · exact isDigit_toDigits h

/-- The zeros do not change the value. -/
theorem ofDigitChars_padded (width n : Nat) :
    Nat.ofDigitChars 10 (padded width n).toList 0 = n := by
  obtain ⟨zeros, htext⟩ := toList_padded width n
  rw [htext, Nat.ofDigitChars_append, Nat.ofDigitChars_replicate_zero, Nat.mul_zero,
    Nat.ofDigitChars_ten_toDigits]

theorem padded_inj {width m n : Nat} (h : (padded width m).toList = (padded width n).toList) :
    m = n := by
  rw [← ofDigitChars_padded width m, h, ofDigitChars_padded]

/-! ## Reading it as a loose numeral -/

theorem trimBy_eq_self {p : Char → Bool} {cs : List Char} (h : ∀ c ∈ cs, p c = false) :
    trimBy p cs = cs := by
  have hfront : ∀ {cs : List Char}, (∀ c ∈ cs, p c = false) → cs.dropWhile p = cs := by
    intro cs hcs
    cases cs with
    | nil => rfl
    | cons c rest => simp [hcs c List.mem_cons_self]
  have hback : ∀ c ∈ cs.reverse, p c = false := fun c hc => h c (List.mem_reverse.mp hc)
  rw [trimBy, hfront h, hfront hback, List.reverse_reverse]

theorem digitValue?_of_isDigit {c : Char} (h : c.isDigit = true) :
    digitValue? c = some (c.toNat - 48) := by
  obtain ⟨hlow, hhigh⟩ := toNat_of_isDigit h
  have hfirst : digitZeros.find? (fun base => base ≤ c.toNat && c.toNat < base + 10) =
      some 48 := by
    rw [digitZeros, List.find?_cons_of_pos]
    simp only [Bool.and_eq_true, decide_eq_true_eq]
    omega
  rw [digitValue?, hfirst]

theorem groupedDigits?_of_digits : ∀ {cs : List Char}, cs ≠ [] →
    (∀ c ∈ cs, c.isDigit = true) → groupedDigits? cs = some (cs.map (·.toNat - 48))
  | [], hne, _ => absurd rfl hne
  | [c], _, h => by
      rw [groupedDigits?, digitValue?_of_isDigit (h c List.mem_cons_self)]
      rfl
  | c :: d :: rest, _, h => by
      obtain ⟨hc, hrest⟩ := List.forall_mem_cons.mp h
      have hd : d ≠ '_' := by
        rintro rfl
        exact absurd (hrest '_' List.mem_cons_self) (by decide)
      have htail := groupedDigits?_of_digits (List.cons_ne_nil d rest) hrest
      rw [groupedDigits?, digitValue?_of_isDigit hc, htail]
      · rfl
      all_goals simp [hd]

theorem readNatural?_of_digits {cs : List Char} (hne : cs ≠ []) (h : ∀ c ∈ cs, c.isDigit = true)
    (hlength : cs.length ≤ maxDigits) : readNatural? cs = some (Nat.ofDigitChars 10 cs 0) := by
  have hvalue : ofDigits (cs.map (·.toNat - 48)) = Nat.ofDigitChars 10 cs 0 := by
    rw [ofDigits, List.foldl_map]
    rfl
  simp only [readNatural?, groupedDigits?_of_digits hne h, Option.bind_eq_bind, Option.bind_some,
    List.length_map, if_pos hlength, hvalue]
  rfl

/-- A written integer of not too many digits is read loosely as itself. -/
theorem readInteger?_text {n : Int} (h : digitCount n ≤ maxDigits) :
    readInteger? (text n).toList = some n := by
  have hread := readNatural?_of_digits Nat.toDigits_ne_nil (fun _ => isDigit_toDigits) h
  rw [Nat.ofDigitChars_ten_toDigits] at hread
  have hblank {c : Char} (hc : c.isDigit = true) : (isBlank c && !isSeparator c) = false := by
    rw [isBlank_of_isDigit hc, Bool.false_and]
  cases n with
  | ofNat n =>
      have hread' : readNatural? (Nat.toDigits 10 n) = some n := hread
      have htrim := trimBy_eq_self fun c hc => hblank (isDigit_toDigits (n := n) hc)
      have hsign (sign : Char) (hsign : sign.isDigit = false) (rest : List Char) :
          Nat.toDigits 10 n ≠ sign :: rest := by
        intro heq
        have hmem : sign ∈ Nat.toDigits 10 n := heq ▸ List.mem_cons_self
        rw [isDigit_toDigits hmem] at hsign
        cases hsign
      rw [show Int.ofNat n = (n : Int) from rfl, toList_text_ofNat, readInteger?, htrim]
      split
      · next rest hplus => exact absurd hplus (hsign '+' (by decide) rest)
      · next rest hminus => exact absurd hminus (hsign '-' (by decide) rest)
      · simp [hread']
  | negSucc n =>
      have hread' : readNatural? (Nat.toDigits 10 (n + 1)) = some (n + 1) := hread
      have hall : ∀ c ∈ '-' :: Nat.toDigits 10 (n + 1), (isBlank c && !isSeparator c) = false :=
        List.forall_mem_cons.mpr ⟨by decide, fun c hc => hblank (isDigit_toDigits hc)⟩
      rw [toList_text_negSucc, readInteger?, trimBy_eq_self hall]
      simp only [hread', Option.bind_eq_bind]
      rfl

end Numeral

end TableLisp.Text
