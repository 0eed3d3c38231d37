import Mathlib.Data.List.TakeWhile
import ModuleGraph.Settings.Conversion
import ModuleGraph.Settings.Source

/-!
# Number texts

What becomes of a text that spells an integer with digits and perhaps a sign. If the integer fits 64
bits, the text is read as that integer. Else a variable is read as a binary number, which is rounded
into a range: to 0 if the text has a minus in front, and to no small number if it has none. A text with
a character foreign to numbers is read as none.
-/

namespace ModuleGraph

/-! ### Spelled integers -/

namespace Decimal

variable {w : String} {n : Int} {k : Nat} {s ds : List Char} {negative : Bool}

/-- The integer that a text spells with digits and an optional sign, whatever its size. -/
def spelled? (w : String) : Option Int :=
  (digits? (readSign w.toList).2).map fun k : Nat => if (readSign w.toList).1 then -(k : Int) else k

theorem integer?_eq_filter (w : String) : integer? w = (spelled? w).filter fitsSigned := by
  unfold integer? spelled?
  cases h : digits? (readSign w.toList).2 with
  | none => simp [h]
  | some k => simp [h, Option.filter]

theorem digits?_eq_some_iff :
    digits? ds = some k ↔ ds ≠ [] ∧ (∀ c ∈ ds, c.isDigit = true) ∧ digitsValue ds = k := by
  unfold digits?
  split
  · rename_i h
    refine iff_of_false nofun fun hk => ?_
    simp only [Bool.or_eq_true, List.isEmpty_iff, Bool.not_eq_true', List.all_eq_false] at h
    rcases h with h | ⟨c, hc, hdigit⟩
    · exact hk.1 h
    · exact hdigit (hk.2.1 c hc)
  · rename_i h
    simp only [Bool.or_eq_true, List.isEmpty_iff, Bool.not_eq_true', not_or, Bool.not_eq_false,
      List.all_eq_true] at h
    simp [h.1]
    exact fun _ => h.2

theorem readSign_eq (h : readSign s = (negative, ds)) :
    negative = true ∧ s = '-' :: ds ∨ negative = false ∧ (s = '+' :: ds ∨ s = ds) := by
  unfold readSign at h
  split at h <;> cases h
  · exact .inl ⟨rfl, rfl⟩
  · exact .inr ⟨rfl, .inl rfl⟩
  · exact .inr ⟨rfl, .inr rfl⟩

/-- A text that spells an integer is a sign, or none, and digits. -/
theorem exists_of_spelled (h : spelled? w = some n) :
    ∃ negative ds k, readSign w.toList = (negative, ds) ∧ digits? ds = some k ∧
      n = if negative then -(k : Int) else k := by
  obtain ⟨k, hk, rfl⟩ := Option.map_eq_some_iff.1 h
  exact ⟨_, _, k, rfl, hk, rfl⟩

theorem digits?_eq_none_of_mem {c : Char} (hc : c.isDigit = false) (h : c ∈ ds) :
    digits? ds = none := by
  by_contra hne
  obtain ⟨k, hk⟩ := Option.ne_none_iff_exists'.1 hne
  rw [(digits?_eq_some_iff.1 hk).2.1 c h] at hc
  cases hc

theorem mem_readSign {c : Char} (hminus : c ≠ '-') (hplus : c ≠ '+') (h : c ∈ s) :
    c ∈ (readSign s).2 := by
  rcases readSign_eq (Prod.eta (readSign s)).symm with ⟨-, hs⟩ | ⟨-, hs | hs⟩
  · rw [hs] at h
    exact (List.mem_cons.1 h).resolve_left hminus
  · rw [hs] at h
    exact (List.mem_cons.1 h).resolve_left hplus
  · rwa [← hs]

theorem spelled?_eq_none_of_mem {c : Char} (hdigit : c.isDigit = false) (hminus : c ≠ '-')
    (hplus : c ≠ '+') (h : c ∈ w.toList) : spelled? w = none := by
  rw [spelled?, digits?_eq_none_of_mem hdigit (mem_readSign hminus hplus h), Option.map_none]

theorem natural?_of_spelled (h : spelled? w = some n) (hk : natural? w = some k) : n = k := by
  obtain ⟨negative, ds, j, hsign, hj, rfl⟩ := exists_of_spelled h
  obtain ⟨hne, hdigits, -⟩ := digits?_eq_some_iff.1 hj
  unfold natural? at hk
  rcases readSign_eq hsign with ⟨rfl, hw⟩ | ⟨rfl, hw | hw⟩
  · -- Without a sign to take off, a minus is a character that is no digit.
    have hminus : digits? ('-' :: ds) = none := by
      simp [digits?]
    simp [hw, hminus] at hk
  · simp [hw, hj] at hk
    simp [hk.2]
  · have hplus : ∀ t, ds ≠ '+' :: t := by
      rintro t rfl
      exact absurd (hdigits '+' List.mem_cons_self) (by decide)
    rw [hw] at hk
    split at hk
    · exact absurd rfl (hplus _)
    · simp [hj] at hk
      simp [hk.2]

theorem toLower_of_isDigit {c : Char} (h : c.isDigit = true) : c.toLower = c := by
  rw [Char.isDigit_iff_toNat] at h
  refine dif_neg ?_
  rintro ⟨hle, -⟩
  have hle' : 'A'.toNat ≤ c.toNat := hle
  have hA : 'A'.toNat = 65 := rfl
  have h9 : '9'.toNat = 57 := rfl
  omega

/-- Read as a binary number, the text has its digits before the point. -/
theorem number?_of_spelled (h : spelled? w = some n) :
    number? w = some (.ofDecimal (readSign w.toList).1 n.natAbs 0) := by
  obtain ⟨negative, ds, k, hsign, hk, hn⟩ := exists_of_spelled h
  obtain ⟨hne, hdigits, hvalue⟩ := digits?_eq_some_iff.1 hk
  have habs : n.natAbs = k := by
    rw [hn]
    split <;> simp
  have hlower : ds.map Char.toLower = ds := by
    refine (List.map_congr_left fun c hc => ?_).trans (List.map_id ds)
    exact toLower_of_isDigit (hdigits c hc)
  have hword : ∀ t : String, 'n' ∈ t.toList → String.ofList ds ≠ t := by
    rintro t ht rfl
    rw [String.toList_ofList] at ht
    exact absurd (hdigits 'n' ht) (by decide)
  have hinf : ¬(String.ofList ds = "inf" ∨ String.ofList ds = "infinity") :=
    not_or.2 ⟨hword _ (by decide), hword _ (by decide)⟩
  have hnan : String.ofList ds ≠ "nan" := hword _ (by decide)
  have htake : ds.takeWhile Char.isDigit = ds := List.takeWhile_eq_self_iff.2 hdigits
  have hdrop : ds.dropWhile Char.isDigit = [] := List.dropWhile_eq_nil_iff.2 hdigits
  simp only [number?, hsign, hlower, if_neg hinf, if_neg hnan, htake, hdrop]
  simp [readRest?, readPower?, hne, hvalue, habs]

/-! ### Rounding into a range -/

namespace Binary64

variable {num den digits mantissa top : Nat} {exponent : Int}

theorem clampToNat_ofRatio_negative (num den top : Nat) :
    (ofRatio true num den).clampToNat top = 0 := by
  unfold ofRatio
  split
  · rfl
  · dsimp only
    split <;> split <;> rfl

theorem clampToNat_ofDecimal_negative (digits top : Nat) (exponent : Int) :
    (ofDecimal true digits exponent).clampToNat top = 0 := by
  unfold ofDecimal
  dsimp only
  split
  · rfl
  · split
    · rfl
    · split <;> exact clampToNat_ofRatio_negative ..

theorem le_roundHalfEven (num den : Nat) : num / den ≤ roundHalfEven num den := by
  unfold roundHalfEven
  dsimp only
  split
  · exact Nat.le_refl _
  · split <;> omega

theorem roundedMagnitude_of_nonneg (h : 0 ≤ exponent) :
    roundedMagnitude mantissa exponent = mantissa * twoPow exponent.toNat := by
  rw [roundedMagnitude, magnitude, if_pos h]
  dsimp only
  omega

/-- The exponent for an integer of at least 64 binary digits. -/
theorem exponentFor_one (h : 63 ≤ num.log2) :
    10 ≤ exponentFor num 1 ∧ exponentFor num 1 ≤ num.log2 := by
  have hone : Nat.log2 1 = 0 := by decide
  unfold exponentFor
  dsimp only
  rw [hone]
  split <;> omega

theorem one_le_mantissa (h : 63 ≤ num.log2) :
    1 ≤ roundHalfEven (scale num 1 (exponentFor num 1)).1 (scale num 1 (exponentFor num 1)).2 := by
  obtain ⟨hlow, hhigh⟩ := exponentFor_one h
  refine Nat.le_trans ?_ (le_roundHalfEven _ _)
  have hnum : num ≠ 0 := by
    rintro rfl
    exact absurd h (by decide)
  have hpow : 2 ^ (exponentFor num 1).toNat ≤ num :=
    Nat.le_trans (Nat.pow_le_pow_right (by decide) (by omega)) (Nat.log2_self_le hnum)
  rw [scale, if_pos (by omega), twoPow, Nat.one_mul]
  exact (Nat.one_le_div_iff (Nat.two_pow_pos _)).2 hpow

theorem le_clampToNat_finite (hm : 1 ≤ mantissa) (he : 10 ≤ exponent) :
    256 ≤ (finite false mantissa exponent).clampToNat 0xFFFFFFFFFFFFFFFF := by
  have hpow : 2 ^ 10 ≤ 2 ^ exponent.toNat := Nat.pow_le_pow_right (by decide) (by omega)
  have hsize : 2 ^ 10 ≤ mantissa * 2 ^ exponent.toNat := Nat.le_trans hpow (Nat.le_mul_of_pos_left _ hm)
  rw [clampToNat, roundedMagnitude_of_nonneg (Int.le_trans (by decide) he), twoPow]
  exact Nat.le_min.2 ⟨by decide, Nat.le_trans (by decide) hsize⟩

theorem le_clampToNat_ofRatio (h : 63 ≤ num.log2) :
    256 ≤ (ofRatio false num 1).clampToNat 0xFFFFFFFFFFFFFFFF := by
  have hnum : num ≠ 0 := by
    rintro rfl
    exact absurd h (by decide)
  obtain ⟨hlow, -⟩ := exponentFor_one h
  have hmantissa := one_le_mantissa h
  rw [ofRatio, if_neg hnum]
  dsimp only
  -- A mantissa rounded up to `2 ^ 53` is halved, and the exponent grows by one.
  split <;> split
  · decide
  · exact le_clampToNat_finite (Nat.two_pow_pos 52) (by omega)
  · decide
  · exact le_clampToNat_finite hmantissa hlow

/-- A number beyond 63 binary digits is not rounded to a small one. -/
theorem le_clampToNat_ofDecimal (h : 0x8000000000000000 ≤ digits) :
    256 ≤ (ofDecimal false digits 0).clampToNat 0xFFFFFFFFFFFFFFFF := by
  have hlog : 63 ≤ digits.log2 := (Nat.le_log2 (by omega)).2 (by omega)
  unfold ofDecimal
  dsimp only
  rw [if_neg (by omega)]
  split
  · decide
  · rw [if_pos (Int.le_refl 0)]
    exact le_clampToNat_ofRatio (by simpa [tenPow] using hlog)

end Binary64

end Decimal

/-! ### Words and numbers -/

namespace Text

theorem lowerChar_eq_self {c : Char} (h : c.toNat < 65) : lowerChar c = c := by
  have hall : ∀ n < 65, move lowerRuns n = n := by decide +kernel
  rw [lowerChar, hall _ h, Char.ofNat_toNat]

theorem lowerAfter_eq_self {s : List Char} (h : ∀ c ∈ s, c.toNat < 65) (before : List Char) :
    lowerAfter before s = s := by
  induction s generalizing before with
  | nil => rfl
  | cons c s ih =>
    obtain ⟨hc, hs⟩ := List.forall_mem_cons.1 h
    have hdot : c ≠ '\u0130' := by
      rintro rfl
      exact absurd hc (by decide)
    have hsigma : c ≠ '\u03A3' := by
      rintro rfl
      exact absurd hc (by decide)
    rw [lowerAfter, ih hs, lowerChar_eq_self hc]
    simp [hdot, hsigma]

/-- In front of the letters there are no capitals. -/
theorem lowercase_eq_self {s : String} (h : ∀ c ∈ s.toList, c.toNat < 65) : lowercase s = s := by
  rw [lowercase, lowerAfter_eq_self h, String.ofList_toList]

end Text

namespace Decimal

theorem lt_letter_of_mem_spelled {w : String} {n : Int} (h : spelled? w = some n) :
    ∀ c ∈ w.toList, c.toNat < 65 := by
  intro c hc
  by_contra hletter
  have hnone : spelled? w = none := by
    refine spelled?_eq_none_of_mem ?_ ?_ ?_ hc
    · rw [← Bool.not_eq_true, Char.isDigit_iff_toNat]
      have h9 : '9'.toNat = 57 := rfl
      omega
    · rintro rfl
      exact hletter (by decide)
    · rintro rfl
      exact hletter (by decide)
  rw [hnone] at h
  cases h

/-- A text that spells an integer is no word. -/
theorem lowercase_ne_of_spelled {w word : String} {n : Int} (h : spelled? w = some n)
    (hword : word.toList.any (65 ≤ ·.toNat) = true) : Text.lowercase w ≠ word := by
  rintro rfl
  obtain ⟨c, hc, hletter⟩ := List.any_eq_true.1 hword
  rw [decide_eq_true_eq] at hletter
  rw [Text.lowercase_eq_self (lt_letter_of_mem_spelled h)] at hc
  exact absurd (lt_letter_of_mem_spelled h c hc) (by omega)

/-- The character stands in no text of a number. -/
structure Foreign (c : Char) : Prop where
  not_digit : c.isDigit = false
  not_sign : c ∉ ['+', '-', '.', 'e', 'E']
  not_letter : c.toLower ∉ ['i', 'n', 'f', 't', 'y', 'a']

namespace Foreign

variable {c d : Char} {s : List Char} {w : String} (hc : Foreign c)
include hc

theorem ne (hd : d ∈ ['+', '-', '.', 'e', 'E']) : c ≠ d := by
  rintro rfl
  exact hc.not_sign hd

theorem integer?_eq_none (h : c ∈ w.toList) : integer? w = none := by
  rw [integer?_eq_filter, spelled?_eq_none_of_mem hc.not_digit (hc.ne (by simp)) (hc.ne (by simp)) h,
    Option.filter_none]

theorem readPower?_eq_none (h : c ∈ s) : readPower? s = none := by
  cases s with
  | nil => cases h
  | cons d s =>
    rw [readPower?]
    split
    · rename_i hd
      have hne : c ≠ d := hc.ne (by rcases hd with rfl | rfl <;> simp)
      have hmem := (List.mem_cons.1 h).resolve_left hne
      have hdigits := mem_readSign (hc.ne (by simp)) (hc.ne (by simp)) hmem
      simp [digits?_eq_none_of_mem hc.not_digit hdigits]
    · rfl

theorem mem_dropWhile (h : c ∈ s) : c ∈ s.dropWhile Char.isDigit := by
  rw [← List.takeWhile_append_dropWhile (p := Char.isDigit) (l := s)] at h
  refine (List.mem_append.1 h).resolve_left fun hdigit => ?_
  have hfound := List.all_eq_true.1 List.all_takeWhile c hdigit
  rw [hc.not_digit] at hfound
  cases hfound

theorem readRest?_eq_none {negative : Bool} {whole : List Char} (h : c ∈ s) :
    readRest? negative whole s = none := by
  unfold readRest?
  dsimp only
  split
  · have hmem := (List.mem_cons.1 h).resolve_left (hc.ne (by simp))
    rw [hc.readPower?_eq_none (hc.mem_dropWhile hmem), Option.map_none, ite_self]
  · rw [hc.readPower?_eq_none h, Option.map_none, ite_self]

theorem number?_eq_none (h : c ∈ w.toList) : number? w = none := by
  have hmem := mem_readSign (hc.ne (by simp)) (hc.ne (by simp)) h
  have hword : ∀ word : String, word.toList.all (· ∈ ['i', 'n', 'f', 't', 'y', 'a']) = true →
      String.ofList ((readSign w.toList).2.map Char.toLower) ≠ word := by
    rintro word hletters rfl
    rw [String.toList_ofList] at hletters
    have hletter := List.all_eq_true.1 hletters _ (List.mem_map_of_mem hmem)
    exact hc.not_letter (of_decide_eq_true hletter)
  have hinf : ¬(String.ofList ((readSign w.toList).2.map Char.toLower) = "inf" ∨
      String.ofList ((readSign w.toList).2.map Char.toLower) = "infinity") :=
    not_or.2 ⟨hword _ (by decide), hword _ (by decide)⟩
  have hnan : String.ofList ((readSign w.toList).2.map Char.toLower) ≠ "nan" :=
    hword _ (by decide)
  simp only [number?, if_neg hinf, if_neg hnan]
  exact hc.readRest?_eq_none (hc.mem_dropWhile hmem)

end Foreign

end Decimal

namespace Settings

open Decimal

variable {w : String} {n : Int}

theorem truth?_of_spelled (h : spelled? w = some n) : Scalar.truth? w = none := by
  have hne : ∀ word : String, word.toList.any (65 ≤ ·.toNat) = true → Text.lowercase w ≠ word :=
    fun _ => lowercase_ne_of_spelled h
  have htrue : Text.lowercase w ∉ ["true", "on", "yes"] := by
    simp [hne "true" (by decide), hne "on" (by decide), hne "yes" (by decide)]
  have hfalse : Text.lowercase w ∉ ["false", "off", "no"] := by
    simp [hne "false" (by decide), hne "off" (by decide), hne "no" (by decide)]
  simp only [Scalar.truth?, if_neg htrue, if_neg hfalse]

/-- A variable whose text spells an integer stands for it if it fits 64 bits, and else for a binary
number. -/
theorem scalarOf_of_spelled (h : spelled? w = some n) :
    Environment.scalarOf w =
      if fitsSigned n then .int n else .float (.ofDecimal (readSign w.toList).1 n.natAbs 0) := by
  have htrue : Text.lowercase w ≠ "true" := lowercase_ne_of_spelled h (by decide)
  have hfalse : Text.lowercase w ≠ "false" := lowercase_ne_of_spelled h (by decide)
  simp only [Environment.scalarOf, if_neg htrue, if_neg hfalse, integer?_eq_filter, h,
    number?_of_spelled h]
  cases hfits : fitsSigned n <;> simp [Option.filter, hfits]

end Settings

end ModuleGraph
