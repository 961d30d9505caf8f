import Calculator.Proofs.Binary64.Integer
import Calculator.Proofs.Binary64.Literal
import Calculator.Proofs.Decimal.Nearest
import Mathlib.Data.List.DropRight
import Mathlib.Tactic.FieldSimp
import Mathlib.Tactic.NormNum

/-!
# What a result on display says

The text of a result is a correctly rounded one. An integer below `10 ^ 15` is
exact; a large or a small number is the nearest decimal of five or of seven
digits; any other number is the nearest decimal of ten places, without zeros
at its end.

Numbers are rounded to ten places twice, and the double that stands between the
two roundings never shows. It is the double nearest to the decimal, and the
number itself is a double, so it is no further from the decimal than the number
was. What is within half a unit of the decimal stays there. If it is exactly
half a unit away, so was the number, and the decimal is the even one of two.

## Main definitions

* `Binary64.value`: The rational number that a finite double is.
* `Binary64.Shown`: The texts that show a number.
* `Binary64.Faithful`: What can be relied on in a text without an exponent.
* `Binary64.Rounded`: What can be relied on in a text with one.

## Theorems

* `Binary64.Shown.unique`: One text shows a number.
* `Binary64.abs_sub_nearestRank_le`: No double is nearer than the nearest.
* `Binary64.shownText_roundToShown`: The second rounding changes nothing.
* `Binary64.Shown.faithful`: Texts without an exponent.
* `Binary64.Shown.rounded`: Texts with an exponent.
* `Binary64.Shown.ne_zero`: Only zero is shown as zero.
* `Binary64.display_shown`: The text of every finite double.
-/

namespace Calculator

namespace Binary64

/-- The rational number that a finite double is. -/
def value (x : Binary64) : Rat :=
  x.units / unitsInOne

/-- The double nearest to a millionth; below it numbers get an exponent. -/
def millionth : Rat :=
  (ofDecimal false ⟨1, -6⟩).value

end Binary64

/-- The layout of a decimal with an exponent: its first digit, a point, the
    other digits, and the power of ten of the first. -/
def Decimal.LaidOut (places : Nat) (x : Decimal) (text : List Char) : Prop :=
  ∃ first rest, x.digits = first :: rest ∧ rest.length = places ∧
    text = first :: '.' :: rest ++ 'e' :: exponentText (x.exponent + places)

namespace Decimal

/-- The layout is that of the text with an exponent, if there are digits behind
    the point. -/
theorem LaidOut.eq_scientific {places : Nat} {x : Decimal} {text : List Char}
    (h : x.LaidOut places text) (hplaces : 0 < places) : text = x.scientific := by
  rcases h with ⟨first, rest, hdigits, hrest, rfl⟩
  have hleading : x.leading = x.exponent + places := by
    rw [leading, hdigits, List.length_cons, hrest]
    omega
  rw [scientific, hleading, hdigits]
  rcases rest with _ | ⟨second, rest⟩
  · rw [← hrest] at hplaces
    exact absurd hplaces (lt_irrefl 0)
  · rfl

/-- And a decimal of so many digits is laid out so. -/
theorem laidOut_scientific {x : Decimal} {places : Nat} (hplaces : 0 < places)
    (hx : x.HasDigits (places + 1)) : x.LaidOut places x.scientific := by
  have hpos : 0 < x.coefficient := (Nat.pow_pos (by decide)).trans_le hx.low
  have hcount : x.digits.length = places + 1 := (digitCount_eq_iff hpos).2 ⟨hx.low, hx.high⟩
  rcases hdigits : x.digits with _ | ⟨first, rest⟩
  · rw [hdigits] at hcount
    cases hcount
  · have hrest : rest.length = places := by
      rw [hdigits] at hcount
      exact Nat.succ_injective hcount
    have hlaid : x.LaidOut places
        (first :: '.' :: rest ++ 'e' :: exponentText (x.exponent + places)) :=
      ⟨first, rest, hdigits, hrest, rfl⟩
    rwa [hlaid.eq_scientific hplaces] at hlaid

end Decimal

namespace Binary64

/-- An integer that is shown in full. -/
def IsWhole (v : Rat) : Prop :=
  (∃ z : Int, v = z) ∧ |v| < 10 ^ 15

/-- The texts that show a number. -/
inductive Shown (v : Rat) : List Char → Prop
  /-- An integer in full, zero without a sign. -/
  | whole (z : Int) (hz : v = z) (hsize : |v| < 10 ^ 15) : Shown v (toString z).toList
  /-- A large number, with five digits. -/
  | large {x : Decimal} {text : List Char} (hwhole : ¬IsWhole v) (hsize : 10 ^ 9 ≤ |v|)
      (hx : x.IsNearest (Decimal.HasDigits 5) |v|) (htext : x.LaidOut 4 text) :
      Shown v (withSign (v < 0) text)
  /-- A small number, with seven digits. -/
  | small {x : Decimal} {text : List Char} (hwhole : ¬IsWhole v) (hsize : |v| < millionth)
      (hx : x.IsNearest (Decimal.HasDigits 7) |v|) (htext : x.LaidOut 6 text) :
      Shown v (withSign (v < 0) text)
  /-- Any other number, with ten places but no zeros at the end. -/
  | places {x : Decimal} (hwhole : ¬IsWhole v) (hlow : millionth ≤ |v|) (hhigh : |v| < 10 ^ 9)
      (hx : x.IsNearest (fun y => y.exponent = -10) |v|) :
      Shown v (withSign (v < 0) (dropTrailing (Decimal.pointed x.digits 10)))

theorem cast_unitsInOne_pos : (0 : Rat) < unitsInOne := by
  exact_mod_cast unitsInOne_pos

/-- No number is both large and small. -/
theorem millionth_lt : millionth < 10 ^ 9 := by
  have hunits : (ofDecimal false ⟨1, -6⟩).units < 10 ^ 9 * unitsInOne := by decide +kernel
  rw [millionth, value, div_lt_iff₀ cast_unitsInOne_pos]
  exact_mod_cast hunits

/-- A number is shown by one text. -/
theorem Shown.unique {v : Rat} {text other : List Char} (h : Shown v text) (ho : Shown v other) :
    text = other := by
  cases h with
  | whole z hz hsize =>
    cases ho with
    | whole w hw _ => rw [Int.cast_injective (hz.symm.trans hw)]
    | large hwhole | small hwhole | places hwhole => exact absurd ⟨⟨z, hz⟩, hsize⟩ hwhole
  | large hwhole hsize hx htext =>
    cases ho with
    | whole w hw hlow => exact absurd ⟨⟨w, hw⟩, hlow⟩ hwhole
    | large _ _ hy hother =>
      rw [htext.eq_scientific (by decide), hother.eq_scientific (by decide),
        hx.unique_digits (by decide) hy]
    | small _ hlow => exact absurd (hlow.trans millionth_lt) hsize.not_gt
    | places _ _ hlow => exact absurd hlow hsize.not_gt
  | small hwhole hsize hx htext =>
    cases ho with
    | whole w hw hlow => exact absurd ⟨⟨w, hw⟩, hlow⟩ hwhole
    | large _ hhigh => exact absurd (hsize.trans millionth_lt) hhigh.not_gt
    | small _ _ hy hother =>
      rw [htext.eq_scientific (by decide), hother.eq_scientific (by decide),
        hx.unique_digits (by decide) hy]
    | places _ hhigh => exact absurd hsize hhigh.not_gt
  | places hwhole hlow hhigh hx =>
    cases ho with
    | whole w hw hsize => exact absurd ⟨⟨w, hw⟩, hsize⟩ hwhole
    | large _ hsize => exact absurd hhigh hsize.not_gt
    | small _ hsize => exact absurd hsize hlow.not_gt
    | places _ _ _ hy => rw [hx.unique_exponent hy]

/-! ### The double between the roundings -/

/-- No double is nearer to a quotient than the one that it is rounded to. -/
theorem abs_sub_nearestRank_le (n : Nat) {d : Nat} (hd : 0 < d) (s : Nat) :
    |(magnitude (nearestRank n d) : Rat) - n / d| ≤ |(magnitude s : Rat) - n / d| := by
  have haround := around_of_nearestRank (n := n) hd rfl
  generalize nearestRank n d = r at *
  generalize (n : Rat) / d = x at *
  rcases Nat.lt_trichotomy s r with hlt | rfl | hlt
  · -- A lower double is at most as large as the one before, which is halved off.
    have hhalf := haround.low (r - 1) (by omega)
    have hprev := cast_magnitude_mono (show s ≤ r - 1 by omega)
    have hself := cast_magnitude_mono hlt.le
    rw [halfway, show r - 1 + 1 = r by omega] at hhalf
    rw [abs_le, abs_of_nonpos (by linarith : (magnitude s : Rat) - x ≤ 0)]
    constructor <;> linarith
  · exact le_rfl
  · have hhalf := haround.high
    have hnext := cast_magnitude_mono (show r + 1 ≤ s by omega)
    have hself := cast_magnitude_mono hlt.le
    rw [halfway] at hhalf
    rw [abs_le, abs_of_nonneg (by linarith : 0 ≤ (magnitude s : Rat) - x)]
    constructor <;> linarith

end Binary64

/-- What is no further from an integer is rounded to it as well. -/
theorem RoundsTo.of_abs_le {r s : Rat} {k : Nat} (h : RoundsTo r k) (hle : |s - k| ≤ |r - k|) :
    RoundsTo s k :=
  ⟨hle.trans h.half, fun heq => h.even (h.half.antisymm (heq ▸ hle))⟩

namespace Binary64

theorem abs_value (negative : Bool) (rank : Fin finiteCount) :
    |(finite negative rank).value| = (magnitude rank : Rat) / unitsInOne := by
  have hnonneg : (0 : Rat) ≤ (magnitude rank : Rat) / unitsInOne :=
    div_nonneg (Nat.cast_nonneg _) cast_unitsInOne_pos.le
  rw [value, units, cast_signed]
  cases negative with
  | false => exact abs_of_nonneg hnonneg
  | true => rw [signedValue, if_pos rfl, neg_div, abs_neg, abs_of_nonneg hnonneg]

/-- Distances in units, on a grid. -/
theorem abs_div_div_sub (m c : Rat) {one grid : Rat} (hone : 0 < one) (hgrid : 0 < grid) :
    |m / one / grid - c| * (grid * one) = |m - c * grid * one| := by
  have hpos : 0 < grid * one := mul_pos hgrid hone
  have hquot : m / one / grid * (grid * one) = m := by field_simp
  rw [← abs_of_pos hpos, ← abs_mul, sub_mul, hquot, mul_assoc]

/-- A number rounded to the places shown, as a double, is no further from the
    decimal than the number itself. -/
theorem exists_roundToShown (negative : Bool) (rank : Fin finiteCount)
    (hsize : |(finite negative rank).value| ≤ 10 ^ 9) :
    ∃ shown : Fin finiteCount, roundToShown negative rank = finite negative shown ∧
      RoundsTo ((magnitude shown : Rat) / unitsInOne / 10 ^ (-10 : Int))
        (Decimal.nearest (magnitude rank) unitsInOne (-10)).coefficient := by
  have hone := cast_unitsInOne_pos
  have hgrid := ten_zpow_pos (-10)
  have hround := Decimal.roundsTo_nearest (magnitude rank) unitsInOne_pos (-10)
  have hexp : (Decimal.nearest (magnitude rank) unitsInOne (-10)).exponent = -10 := rfl
  have hshown : roundToShown negative rank =
      ofDecimal negative (Decimal.nearest (magnitude rank) unitsInOne (-10)) := rfl
  rw [abs_value] at hsize
  generalize Decimal.nearest (magnitude rank) unitsInOne (-10) = x at *
  have hunits := units_of_decimal x
  have hnearest := abs_sub_nearestRank_le (x.numerator * unitsInOne) x.denominator_pos rank
  have hlast : (10 ^ 9 * unitsInOne : Nat) ≤ magnitude (finiteCount - 1) := by decide +kernel
  -- The decimal is no larger than the bound, so the double nearest to it is finite.
  have hcoefficient : x.coefficient ≤ 10 ^ 19 := by
    refine hround.le_of_le ((div_le_iff₀ hgrid).2 (hsize.trans_eq ?_))
    norm_num
  have hvalue : x.value ≤ (10 : Rat) ^ 9 := by
    rw [Decimal.value, hexp, ← le_div_iff₀ hgrid]
    refine (Nat.cast_le.2 hcoefficient).trans_eq ?_
    norm_num
  have hrank : nearestRank (x.numerator * unitsInOne) x.denominator < finiteCount := by
    have hle : ((x.numerator * unitsInOne : Nat) : Rat) / x.denominator ≤
        magnitude (finiteCount - 1) := by
      rw [hunits]
      refine (mul_le_mul_of_nonneg_right hvalue hone.le).trans ?_
      exact_mod_cast hlast
    have := nearestRank_le x.denominator_pos hle
    have hcount : 0 < finiteCount := by decide
    omega
  refine ⟨⟨_, hrank⟩, ?_, hround.of_abs_le ?_⟩
  · rw [hshown, ofDecimal, nearest, ofRank, dif_pos hrank]
  · have hscale (m : Nat) := abs_div_div_sub m x.coefficient hone hgrid
    rw [hunits, Decimal.value, hexp, ← hscale, ← hscale] at hnearest
    exact le_of_mul_le_mul_right hnearest (mul_pos hgrid hone)

/-- The second rounding to the places shown changes nothing. -/
theorem shownText_roundToShown (negative : Bool) (rank : Fin finiteCount)
    (hsize : |(finite negative rank).value| ≤ 10 ^ 9) :
    shownText (roundToShown negative rank) = shownText (finite negative rank) := by
  rcases exists_roundToShown negative rank hsize with ⟨shown, hshown, hround⟩
  have hself := Decimal.roundsTo_nearest (magnitude shown) unitsInOne_pos (-10)
  have hcoefficient : (Decimal.nearest (magnitude shown) unitsInOne (-10)).coefficient =
      (Decimal.nearest (magnitude rank) unitsInOne (-10)).coefficient := hself.unique hround
  have hunits : ∀ r : Fin finiteCount, (finite negative r).units.natAbs = magnitude r :=
    fun r => natAbs_signed negative (magnitude r)
  have hplaces : -((shownPlaces : Nat) : Int) = -10 := rfl
  rw [hshown, shownText, shownText, hunits, hunits, hplaces, Decimal.digits, Decimal.digits,
    hcoefficient]

end Binary64

/-! ### Texts without an exponent -/

namespace Numeral

/-- A numeral without the zeros at the end of its fraction, and without a point
    if nothing is left behind it. -/
def trimmed (n : Numeral) : Numeral :=
  let digits := (n.fraction.getD []).rdropWhile (· = '0')
  ⟨n.whole, if digits.isEmpty then none else some digits⟩

theorem fraction_trimmed (n : Numeral) :
    n.trimmed.fraction.getD [] = (n.fraction.getD []).rdropWhile (· = '0') := by
  simp only [trimmed]
  split
  · rename_i h
    exact (List.isEmpty_iff.1 h).symm
  · rfl

theorem IsPositional.trimmed {n : Numeral} (h : n.IsPositional) : n.trimmed.IsPositional := by
  refine ⟨h.whole_ne_nil, ?_, fun c hc => h.isDigit c ?_⟩
  · simp only [Numeral.trimmed]
    split <;> simp_all
  · rw [fraction_trimmed] at hc
    rcases List.mem_append.1 hc with hc | hc
    · exact List.mem_append_left _ hc
    · exact List.mem_append_right _ ((List.rdropWhile_prefix _ _).subset hc)

theorem getLast?_trimmed (n : Numeral) : (n.trimmed.fraction.getD []).getLast? ≠ some '0' := by
  rw [fraction_trimmed]
  intro h
  have hne : (n.fraction.getD []).rdropWhile (· = '0') ≠ [] := by
    intro hnil
    rw [hnil] at h
    cases h
  rw [List.getLast?_eq_getLast_of_ne_nil hne] at h
  have hlast := List.rdropWhile_last_not (· = '0') (n.fraction.getD []) hne
  exact hlast (by simp [Option.some.inj h])

/-- Zeros at the end of a fraction do not count. -/
theorem value_trimmed (n : Numeral) : n.trimmed.decimal.value = n.decimal.value := by
  have hten : (10 : Rat) ≠ 0 := by norm_num
  simp only [decimal, fraction_trimmed]
  change (⟨Text.naturalValue (n.whole ++ _), _⟩ : Decimal).value = _
  generalize n.fraction.getD [] = digits
  induction digits using List.reverseRecOn with
  | nil => rfl
  | append_singleton digits c ih =>
    by_cases hc : c = '0'
    · subst hc
      rw [List.rdropWhile_concat_pos _ _ _ (by simp), ih, ← List.append_assoc]
      simp only [Decimal.value, Text.naturalValue_append_zero, List.length_append,
        List.length_singleton]
      rw [show -((digits.length + 1 : Nat) : Int) = -(digits.length : Int) - 1 by push_cast; ring,
        zpow_sub_one₀ hten]
      push_cast
      field_simp
    · rw [List.rdropWhile_concat_neg _ _ _ (by simpa using hc)]

/-- A positional numeral ends in a digit, which is the last one behind its point
    if it has one. -/
theorem IsPositional.getLast?_text {n : Numeral} (h : n.IsPositional) :
    ∃ c, n.text.getLast? = some c ∧ c.isDigit = true ∧
      ('.' ∈ n.text → (n.fraction.getD []).getLast? = some c) := by
  have hpoint : '.' ∉ n.whole := fun hmem =>
    absurd (h.isDigit '.' (List.mem_append_left _ hmem)) (by decide)
  rcases n with ⟨whole, _ | digits⟩
  · have hne : whole ≠ [] := h.whole_ne_nil
    refine ⟨whole.getLast hne, ?_, h.isDigit _ (List.mem_append_left _ (List.getLast_mem hne)), ?_⟩
    · simp [text, List.getLast?_eq_getLast_of_ne_nil hne]
    · intro hmem
      exact absurd (by simpa [text] using hmem) hpoint
  · have hne : digits ≠ [] := fun hnil => h.fraction_ne_nil (by rw [hnil])
    refine ⟨digits.getLast hne, ?_, h.isDigit _ (List.mem_append_right _ (List.getLast_mem hne)),
      fun _ => List.getLast?_eq_getLast_of_ne_nil hne⟩
    simp [text, List.getLast?_eq_getLast_of_ne_nil hne, List.getLast?_append, List.getLast?_cons]

end Numeral

namespace Binary64

theorem dropTrailing_eq (text : List Char) :
    dropTrailing text = (text.rdropWhile (· = '0')).rdropWhile (· = '.') := by
  simp [dropTrailing, List.rdropWhile]

/-- Dropping what is at the end of a text trims its numeral. -/
theorem dropTrailing_text {whole digits : List Char} (h : ∀ c ∈ whole ++ digits, c ≠ '.') :
    dropTrailing (whole ++ '.' :: digits) = (⟨whole, some digits⟩ : Numeral).trimmed.text := by
  rw [dropTrailing_eq]
  induction digits using List.reverseRecOn with
  | nil =>
    -- The point goes, and no digit before it.
    have hpoint : whole.rdropWhile (· = '.') = whole := by
      rw [List.rdropWhile_eq_self_iff]
      intro hne hlast
      exact h _ (List.mem_append_left _ (List.getLast_mem hne)) (by simpa using hlast)
    rw [List.rdropWhile_concat_neg _ _ _ (by decide), List.rdropWhile_concat_pos _ _ _ (by decide),
      hpoint]
    simp [Numeral.trimmed, Numeral.text]
  | append_singleton digits c ih =>
    have hsplit : whole ++ '.' :: (digits ++ [c]) = whole ++ '.' :: digits ++ [c] := by simp
    rw [hsplit]
    by_cases hc : c = '0'
    · subst hc
      rw [List.rdropWhile_concat_pos _ _ _ (by decide),
        ih fun d hd => h d (by rw [← List.append_assoc]; exact List.mem_append_left _ hd)]
      simp only [Numeral.trimmed, Option.getD_some]
      rw [List.rdropWhile_concat_pos _ _ _ (by decide)]
    · have hpoint : c ≠ '.' := h c (by simp)
      rw [List.rdropWhile_concat_neg _ _ _ (by simpa using hc),
        List.rdropWhile_concat_neg _ _ _ (by simpa using hpoint)]
      simp only [Numeral.trimmed, Option.getD_some]
      rw [List.rdropWhile_concat_neg _ _ _ (by simpa using hc)]
      simp [Numeral.text]

/-- The numeral of a text rounded to places: its digits with a point, and no
    zeros at the end. -/
theorem dropTrailing_pointed (n : Nat) {places : Nat} (hplaces : 0 < places) :
    dropTrailing (Decimal.pointed (Nat.toDigits 10 n) places) =
      (Decimal.pointedNumeral (Nat.toDigits 10 n) places).trimmed.text := by
  have hpositional := Decimal.isPositional_pointedNumeral hplaces
    fun c (hc : c ∈ Nat.toDigits 10 n) => Text.isDigit_of_mem_toDigits hc
  refine dropTrailing_text fun c hc => ?_
  rintro rfl
  exact absurd (hpositional.isDigit '.' hc) (by decide)

/-- An integer as the core library writes it. -/
theorem toList_toString (z : Int) :
    (toString z).toList = withSign (z < 0) (Decimal.wholeNumeral z.natAbs false).text := by
  cases z with
  | ofNat n => simp [withSign, Decimal.wholeNumeral, Numeral.text, Int.repr, Nat.repr]
  | negSucc n => simp [withSign, Decimal.wholeNumeral, Numeral.text, Int.repr, Nat.repr]

/-- What can be relied on in a text without an exponent. -/
structure Faithful (v : Rat) (text : List Char) : Prop where
  /-- It denotes a number that is at most half a unit of the tenth place away. -/
  close : ∃ q, Text.number? text = some q ∧ |q - v| ≤ 1 / 2 * 10 ^ (-10 : Int)
  /-- It does not end in a point. -/
  point : text.getLast? ≠ some '.'
  /-- Nor in a zero behind a point. -/
  zero : '.' ∈ text → text.getLast? ≠ some '0'
  /-- It has a minus sign exactly for a negative number. -/
  sign : text.head? = some '-' ↔ v < 0

/-- What can be relied on in a text with an exponent: for a large or a small
    number, it denotes the nearest decimal of five or of seven digits. -/
def Rounded (v : Rat) (text : List Char) : Prop :=
  ∃ (digits : Nat) (x : Decimal), (digits = 5 ∧ 10 ^ 9 ≤ |v| ∨ digits = 7 ∧ |v| < millionth) ∧
    x.IsNearest (Decimal.HasDigits digits) |v| ∧
    Text.number? text = some (signedValue (v < 0) x.value)

theorem withSign_eq (negative : Bool) (text : List Char) :
    withSign negative text = (if negative then ['-'] else []) ++ text := by
  cases negative <;> rfl

/-- A numeral with the sign of a number that is close to it, and without zeros
    at the end. -/
theorem faithful_withSign {v : Rat} {n : Numeral} (hn : n.IsPositional)
    (hzero : (n.fraction.getD []).getLast? ≠ some '0')
    (hclose : |signedValue (v < 0) n.decimal.value - v| ≤ 1 / 2 * 10 ^ (-10 : Int)) :
    Faithful v (withSign (v < 0) n.text) := by
  rcases hn.getLast?_text with ⟨c, hlast, hdigit, hfraction⟩
  have hlast' : (withSign (v < 0) n.text).getLast? = some c := by
    rw [withSign_eq, List.getLast?_append, hlast]
    rfl
  refine ⟨?_, fun h => ?_, fun hmem h => hzero ?_, ?_⟩
  · have hnumber := Text.number?_withSign (v < 0) hn [] rfl (by simp) (by simp)
    rw [List.append_nil, zpow_zero, mul_one] at hnumber
    exact ⟨_, hnumber, hclose⟩
  · rw [hlast'] at h
    rw [Option.some.inj h] at hdigit
    exact absurd hdigit (by decide)
  · have hpoint : '.' ∈ n.text := by
      rw [withSign_eq] at hmem
      rcases List.mem_append.1 hmem with hmem | hmem
      · split at hmem <;> simp at hmem
      · exact hmem
    rw [hfraction hpoint, ← hlast', h]
  · by_cases hneg : v < 0
    · simp [withSign, hneg]
    · -- Without a sign the text starts with a digit.
      rcases hw : n.whole with _ | ⟨d, whole⟩
      · exact absurd hw hn.whole_ne_nil
      · have hd : d.isDigit = true := hn.isDigit d (by simp [hw])
        have hminus : d ≠ '-' := by
          rintro rfl
          exact absurd hd (by decide)
        simp [withSign, hneg, Numeral.text, hw, hminus]

/-- A decimal nearest to a number at an exponent is at most half a unit away. -/
theorem abs_sub_value_le {r : Rat} (hr : 0 ≤ r) {e : Int} {x : Decimal}
    (hx : x.IsNearest (fun y => y.exponent = e) r) : |r - x.value| ≤ 1 / 2 * 10 ^ e := by
  have hnum : r.num.toNat = (r.num : Rat) := by
    exact_mod_cast Int.toNat_of_nonneg (Rat.num_nonneg.2 hr)
  have hquot : (r.num.toNat : Rat) / r.den = r := by
    rw [hnum]
    exact Rat.num_div_den r
  have hround := Decimal.roundsTo_nearest r.num.toNat r.den_pos e
  rw [hquot] at hround
  have hle := hx.le (Decimal.nearest r.num.toNat r.den e) rfl
  refine hle.trans ?_
  have hexp : (Decimal.nearest r.num.toNat r.den e).exponent = e := rfl
  rw [Decimal.value, hexp, Decimal.abs_sub_mul_zpow]
  exact mul_le_mul_of_nonneg_right hround.half (ten_zpow_pos e).le

/-- A magnitude with the sign of a number is as far from it as from its
    magnitude. -/
theorem abs_signedValue_sub (v r : Rat) : |signedValue (v < 0) r - v| = |(|v|) - r| := by
  by_cases hv : v < 0
  · rw [signedValue, if_pos (decide_eq_true hv), abs_of_neg hv, neg_sub_left, abs_neg, add_comm,
      ← abs_neg]
    congr 1
    ring
  · rw [signedValue, if_neg (by simpa using hv), abs_of_nonneg (not_lt.1 hv), abs_sub_comm]

/-- A text that shows a number is a numeral close to it or, for a large or a
    small number, has the exponent of the nearest decimal of so many digits. -/
theorem Shown.positional_or_scientific {v : Rat} {text : List Char} (h : Shown v text) :
    (∃ n : Numeral, n.IsPositional ∧ (n.fraction.getD []).getLast? ≠ some '0' ∧
      |signedValue (v < 0) n.decimal.value - v| ≤ 1 / 2 * 10 ^ (-10 : Int) ∧
      text = withSign (v < 0) n.text) ∨
    ∃ (digits : Nat) (x : Decimal), (digits = 5 ∧ 10 ^ 9 ≤ |v| ∨ digits = 7 ∧ |v| < millionth) ∧
      x.IsNearest (Decimal.HasDigits digits) |v| ∧ text = withSign (v < 0) x.scientific := by
  cases h with
  | whole z hz hsize =>
    have hsign : decide (v < 0) = decide (z < 0) := by
      rw [hz]
      simp
    have hvalue : |v| = (Decimal.wholeNumeral z.natAbs false).decimal.value := by
      rw [Decimal.value_wholeNumeral, hz, Nat.cast_natAbs, Int.cast_abs]
    refine .inl ⟨Decimal.wholeNumeral z.natAbs false, Decimal.isPositional_wholeNumeral _ _,
      by simp [Decimal.wholeNumeral], ?_, by rw [toList_toString, hsign]⟩
    rw [abs_signedValue_sub, hvalue, sub_self, abs_zero]
    exact mul_nonneg (by norm_num) (ten_zpow_pos _).le
  | @large x _ _ hsize hx htext =>
    exact .inr ⟨5, x, .inl ⟨rfl, hsize⟩, hx, by rw [htext.eq_scientific (by decide)]⟩
  | @small x _ _ hsize hx htext =>
    exact .inr ⟨7, x, .inr ⟨rfl, hsize⟩, hx, by rw [htext.eq_scientific (by decide)]⟩
  | @places x _ _ _ hx =>
    have hpositional : (Decimal.pointedNumeral x.digits 10).IsPositional :=
      Decimal.isPositional_pointedNumeral (by decide) fun c hc => Text.isDigit_of_mem_toDigits hc
    have hvalue : (Decimal.pointedNumeral x.digits 10).trimmed.decimal.value = x.value := by
      rw [Numeral.value_trimmed, Decimal.digits, Decimal.decimal_pointedNumeral, Decimal.value,
        Decimal.value, hx.mem]
      rfl
    refine .inl ⟨(Decimal.pointedNumeral x.digits 10).trimmed, hpositional.trimmed,
      Numeral.getLast?_trimmed _, ?_, by rw [Decimal.digits, dropTrailing_pointed _ (by decide)]⟩
    rw [abs_signedValue_sub, hvalue]
    exact abs_sub_value_le (abs_nonneg v) hx

/-- A numeral has no exponent. -/
theorem not_mem_withSign {n : Numeral} (hn : n.IsPositional) (negative : Bool) :
    'e' ∉ withSign negative n.text := by
  have hnot : 'e' ∉ n.text := fun hmem =>
    absurd (Numeral.isPart_of_mem_text hn.wellFormed hmem) (by decide)
  cases negative <;> simp [withSign, hnot]

/-- A text with an exponent has its mark. -/
theorem mem_withSign_scientific (negative : Bool) (x : Decimal) :
    'e' ∈ withSign negative x.scientific := by
  rw [withSign_eq, Decimal.scientific]
  simp

/-- A text without an exponent can be relied on. -/
theorem Shown.faithful {v : Rat} {text : List Char} (h : Shown v text) (he : 'e' ∉ text) :
    Faithful v text := by
  rcases h.positional_or_scientific with ⟨n, hn, hzero, hclose, rfl⟩ | ⟨-, x, -, -, rfl⟩
  · exact faithful_withSign hn hzero hclose
  · exact absurd (mem_withSign_scientific _ x) he

/-- And a text with one. -/
theorem Shown.rounded {v : Rat} {text : List Char} (h : Shown v text) (he : 'e' ∈ text) :
    Rounded v text := by
  rcases h.positional_or_scientific with ⟨n, hn, -, -, rfl⟩ | ⟨digits, x, hdigits, hx, rfl⟩
  · exact absurd he (not_mem_withSign hn _)
  · exact ⟨digits, x, hdigits, hx, number?_scientific _ x⟩

theorem number?_zero (negative : Bool) : Text.number? (withSign negative ['0']) = some 0 := by
  have h := Text.number?_withSign negative (Decimal.isPositional_wholeNumeral 0 false) [] rfl
    (by simp) (by simp)
  have htext : (Decimal.wholeNumeral 0 false).text = ['0'] := rfl
  rw [List.append_nil, Decimal.value_wholeNumeral, Nat.cast_zero, zero_mul, htext] at h
  cases negative <;> simpa [signedValue] using h

/-- The bound below which numbers get an exponent is above the places shown. -/
theorem lt_millionth : 1 / 2 * 10 ^ (-10 : Int) < millionth := by
  have hunits : (unitsInOne : Int) < 2 * 10 ^ 10 * (ofDecimal false ⟨1, -6⟩).units := by
    decide +kernel
  have hone := cast_unitsInOne_pos
  rw [millionth, value, lt_div_iff₀ hone, zpow_neg, one_div, mul_assoc, inv_mul_lt_iff₀ two_pos,
    inv_mul_lt_iff₀ (by positivity), ← mul_assoc]
  have hcast : (unitsInOne : Rat) < 2 * 10 ^ 10 * ((ofDecimal false ⟨1, -6⟩).units : Rat) := by
    exact_mod_cast hunits
  linarith

/-- Only zero is shown as zero. -/
theorem Shown.ne_zero {v : Rat} {text : List Char} (h : Shown v text) (hv : v ≠ 0) :
    text ≠ ['0'] ∧ text ≠ ['-', '0'] := by
  -- Without an exponent the text denotes a number close to one that is not as small.
  have hsize (he : 'e' ∉ text) : 1 / 2 * 10 ^ (-10 : Int) < |v| := by
    cases h with
    | whole z hz _ =>
      have hz' : z ≠ 0 := by
        rintro rfl
        exact hv (by simpa using hz)
      have hone : (1 : Rat) ≤ |v| := by
        rw [hz, ← Int.cast_abs]
        exact_mod_cast Int.one_le_abs hz'
      exact lt_of_lt_of_le (by norm_num) hone
    | large _ _ _ htext | small _ _ _ htext =>
      rw [htext.eq_scientific (by decide)] at he
      exact absurd (mem_withSign_scientific _ _) he
    | places _ hlow _ _ => exact lt_millionth.trans_le hlow
  have hzero (negative : Bool) : text ≠ withSign negative ['0'] := by
    rintro rfl
    have he : 'e' ∉ withSign negative ['0'] := by cases negative <;> decide
    rcases (h.faithful he).close with ⟨q, hq, hclose⟩
    rw [number?_zero] at hq
    rw [← Option.some.inj hq, zero_sub, abs_neg] at hclose
    exact absurd hclose (hsize he).not_ge
  exact ⟨hzero false, hzero true⟩

/-! ### The text of a double -/

/-- The integers among the finite doubles are recognised. -/
theorem integer?_eq_some_iff (negative : Bool) (rank : Fin finiteCount) (z : Int) :
    (finite negative rank).integer? = some z ↔ (finite negative rank).value = z := by
  have hone : (unitsInOne : Int) ≠ 0 := by exact_mod_cast unitsInOne_pos.ne'
  have hvalue : (finite negative rank).value = z ↔
      (finite negative rank).units = z * unitsInOne := by
    rw [value, div_eq_iff cast_unitsInOne_pos.ne']
    exact_mod_cast Iff.rfl
  rw [hvalue, integer?]
  generalize (finite negative rank).units = units
  generalize unitsInOne = one at *
  constructor
  · intro h
    split at h
    · rename_i hmod
      rw [← Option.some.inj h, Int.ediv_mul_cancel (Int.dvd_of_emod_eq_zero hmod)]
    · cases h
  · rintro rfl
    rw [if_pos (Int.mul_emod_left _ _), Int.mul_ediv_cancel _ hone]

/-- A finite double is negative if its value is. -/
theorem value_neg_iff {negative : Bool} {rank : Fin finiteCount}
    (hne : (finite negative rank).value ≠ 0) :
    decide ((finite negative rank).value < 0) = negative := by
  have habs := abs_value negative rank
  have hpos : 0 < (magnitude rank : Rat) / unitsInOne := habs ▸ abs_pos.2 hne
  rw [value, units, cast_signed]
  cases negative with
  | false => exact decide_eq_false hpos.not_gt
  | true =>
    rw [signedValue, if_pos rfl, neg_div]
    exact decide_eq_true (neg_lt_zero.2 hpos)

/-- A double that is not shown in full is rounded. -/
theorem shown_fractionText {negative : Bool} {rank : Fin finiteCount}
    (hwhole : ¬IsWhole (finite negative rank).value) :
    Shown (finite negative rank).value (fractionText negative rank) := by
  have hone := cast_unitsInOne_pos
  have habs := abs_value negative rank
  have hne : (finite negative rank).value ≠ 0 := fun h =>
    hwhole ⟨⟨0, by rw [h, Int.cast_zero]⟩, by rw [h, abs_zero]; positivity⟩
  have hpos : 0 < magnitude rank := by
    have h : 0 < (magnitude rank : Rat) / unitsInOne := habs ▸ abs_pos.2 hne
    exact_mod_cast (div_pos_iff_of_pos_right hone).1 h
  have hlarge : 1000000000 * unitsInOne ≤ magnitude rank ↔
      10 ^ 9 ≤ |(finite negative rank).value| := by
    rw [habs, le_div_iff₀ hone, show (10 : Rat) ^ 9 = (1000000000 : Nat) by norm_num]
    exact_mod_cast Iff.rfl
  have hsmall : (magnitude rank : Int) < (ofDecimal false ⟨1, -6⟩).units ↔
      |(finite negative rank).value| < millionth := by
    rw [habs, millionth, value, div_lt_div_iff_of_pos_right hone]
    exact_mod_cast Iff.rfl
  have hsign := value_neg_iff hne
  rw [fractionText]
  simp only [Nat.reducePow]
  split
  · rename_i h
    have hx := Decimal.isNearest_significant hpos unitsInOne_pos (show 2 ≤ 5 by decide)
    rw [← habs] at hx
    have htext := Decimal.laidOut_scientific (by decide) hx.mem
    have hshown := Shown.large hwhole (hlarge.1 h) hx htext
    rwa [hsign] at hshown
  · rename_i hnot
    have hhigh : |(finite negative rank).value| < 10 ^ 9 := lt_of_not_ge fun h => hnot (hlarge.2 h)
    split
    · rename_i h
      have hx := Decimal.isNearest_significant hpos unitsInOne_pos (show 2 ≤ 7 by decide)
      rw [← habs] at hx
      have htext := Decimal.laidOut_scientific (by decide) hx.mem
      have hshown := Shown.small hwhole (hsmall.1 h) hx htext
      rwa [hsign] at hshown
    · rename_i h
      have hx := Decimal.isNearest_nearest (magnitude rank) unitsInOne_pos (-10)
      rw [← habs] at hx
      have hshown := Shown.places hwhole (le_of_not_gt fun hlt => h (hsmall.2 hlt)) hhigh hx
      rw [hsign] at hshown
      -- The text is that of the number itself, rounded once.
      rw [shownText_roundToShown negative rank hhigh.le, shownText,
        show (finite negative rank).units.natAbs = magnitude rank from natAbs_signed _ _]
      exact hshown

/-- Every finite double has a text that shows it. -/
theorem exists_display_shown (negative : Bool) (rank : Fin finiteCount) :
    ∃ text, (finite negative rank).display = .ok text ∧
      Shown (finite negative rank).value text := by
  have hinteger := integer?_eq_some_iff negative rank
  rw [display]
  cases hz : (finite negative rank).integer? with
  | none =>
    refine ⟨_, rfl, shown_fractionText ?_⟩
    rintro ⟨⟨z, h⟩, -⟩
    rw [(hinteger z).2 h] at hz
    cases hz
  | some z =>
    have hvalue := (hinteger z).1 hz
    have hsize : z.natAbs < 10 ^ 15 ↔ |(finite negative rank).value| < 10 ^ 15 := by
      rw [hvalue, ← Int.cast_abs, Int.abs_eq_natAbs]
      exact_mod_cast Iff.rfl
    refine ⟨_, rfl, ?_⟩
    split
    · rename_i h
      have htext : integerText z = (toString z).toList := by
        rw [toList_toString]
        simp [integerText, Decimal.wholeNumeral, Numeral.text]
      rw [htext]
      exact .whole z hvalue (hsize.1 h)
    · rename_i h
      exact shown_fractionText fun hwhole => h (hsize.2 hwhole.2)

/-- The text of every finite double is the one that shows it. A text without an
    exponent is a number at most half a unit of the tenth place away, with the
    sign of the double, and without a zero or a point at its end; one with an
    exponent is the nearest decimal of five or of seven digits; and only zero is
    shown as zero. The double that a number is rounded to on the way has the
    same ten places as the number. -/
theorem display_shown (negative : Bool) (rank : Fin finiteCount) :
    (∃ text, (finite negative rank).display = .ok text ∧
      (∀ other, Shown (finite negative rank).value other ↔ other = text) ∧
      ('e' ∉ text → Faithful (finite negative rank).value text) ∧
      ('e' ∈ text → Rounded (finite negative rank).value text) ∧
      ((finite negative rank).value ≠ 0 → text ≠ ['0'] ∧ text ≠ ['-', '0'])) ∧
    (|(finite negative rank).value| < 10 ^ 9 →
      shownText (roundToShown negative rank) = shownText (finite negative rank)) := by
  refine ⟨?_, fun hsize => shownText_roundToShown negative rank hsize.le⟩
  rcases exists_display_shown negative rank with ⟨text, htext, hshown⟩
  refine ⟨text, htext, fun other => ⟨fun h => h.unique hshown, ?_⟩, hshown.faithful,
    hshown.rounded, hshown.ne_zero⟩
  rintro rfl
  exact hshown

-- The double nearest to a millionth is itself not below the bound.
example : (ofDecimal false ⟨1, -6⟩).display =
    .ok ['0', '.', '0', '0', '0', '0', '0', '1'] := by decide +kernel

end Binary64

end Calculator
