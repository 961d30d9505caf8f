import Calculator.Binary64.Basic
import Mathlib.Algebra.Order.Field.Basic
import Mathlib.Data.Rat.Cast.Order
import Mathlib.Tactic.Linarith
import Mathlib.Tactic.Ring

/-!
# Where rounding changes its mind

Rounding to the nearest double is described by its cuts. Between the doubles of
two ranks in a row lies the point halfway between them, and a quotient is
rounded to the lower rank or below exactly if it is less than that point, or is
that point and the lower rank is even. Everything else about rounding follows:
that it depends on the value of the quotient only, that it respects the order,
and that it leaves doubles as they are.

## Main definitions

* `signedValue`: A magnitude with its sign.
* `Binary64.halfway`: The point between a rank and the next, in units.
* `Binary64.IsHalfway`, `Binary64.Around`: Whether a number is such a point for
  a rank, and whether it lies between its two points.

## Theorems

* `divNearest_le_iff`: The cuts of rounding to an integer.
* `Binary64.magnitude_succ`: The distance from one rank to the next.
* `Binary64.nearestRank_le_iff`: The cuts of rounding to a rank.
* `Binary64.nearestRank_eq_iff`: What is rounded to a rank.
* `Binary64.nearestRank_of_magnitude`: A double is rounded to itself.
-/

namespace Calculator

/-- The cuts of rounding to an integer. -/
theorem divNearest_le_iff {n d : Nat} (hd : 0 < d) (k : Nat) :
    divNearest n d ≤ k ↔ 2 * n < d * (2 * k + 1) ∨ (2 * n = d * (2 * k + 1) ∧ k % 2 = 0) := by
  have hn : d * (n / d) + n % d = n := Nat.div_add_mod n d
  have hr : n % d < d := Nat.mod_lt n hd
  have hk : d * (2 * k + 1) = 2 * (d * k) + d := by ring
  rw [hk]
  -- Only where the integral part is the integer itself does the remainder matter.
  rcases Nat.lt_trichotomy (n / d) k with hq | hq | hq
  · have hstep : d * (n / d) + d ≤ d * k := by
      rw [← Nat.mul_succ]
      exact Nat.mul_le_mul_left d hq
    have hle := divNearest_le_div_add_one n d
    exact ⟨fun _ => .inl (by omega), fun _ => by omega⟩
  · subst hq
    unfold divNearest
    split
    · -- The quotient is rounded down.
      rename_i h
      simp only [Bool.or_eq_true, Bool.and_eq_true, decide_eq_true_eq] at h
      refine ⟨fun _ => ?_, fun _ => Nat.le_refl _⟩
      rcases h with h | ⟨h, he⟩
      · exact .inl (by omega)
      · exact .inr ⟨by omega, he⟩
    · -- The quotient is rounded up, beyond the integer.
      rename_i h
      simp only [Bool.or_eq_true, Bool.and_eq_true, decide_eq_true_eq, not_or, not_and] at h
      rcases h with ⟨h, he⟩
      refine ⟨fun hle => by omega, fun hcut => ?_⟩
      rcases hcut with hcut | ⟨hcut, heven⟩
      · omega
      · exact absurd heven (he (by omega))
  · have hstep : d * k + d ≤ d * (n / d) := by
      rw [← Nat.mul_succ]
      exact Nat.mul_le_mul_left d hq
    have hle := div_le_divNearest n d
    exact ⟨fun _ => by omega, fun hcut => by omega⟩

/-- What is at least an integer is not rounded below it. -/
theorem le_divNearest {n d k : Nat} (hd : 0 < d) (h : k * d ≤ n) : k ≤ divNearest n d :=
  ((Nat.le_div_iff_mul_le hd).2 h).trans (div_le_divNearest n d)

/-- A magnitude with its sign. -/
def signedValue (negative : Bool) (magnitude : Rat) : Rat :=
  if negative then -magnitude else magnitude

namespace Binary64

theorem cast_signed (negative : Bool) (n : Nat) :
    ((signed negative n : Int) : Rat) = signedValue negative n := by
  cases negative with
  | false => simp [signed, signedValue]
  | true => simp [signed, signedValue]

theorem lt_two_pow_of_log2_le {q e : Nat} (h : Nat.log2 q ≤ e) : q < 2 ^ (e + 1) :=
  Nat.lt_of_lt_of_le Nat.lt_log2_self (Nat.pow_le_pow_right (by decide) (Nat.succ_le_succ h))

/-- A rank is made of its spacing and its significand, which has at most 53
    bits, and all of them from the second stretch on. -/
theorem exists_significand (r : Nat) :
    ∃ m, r = spacing r * 2 ^ 52 + m ∧ m < 2 ^ 53 ∧ (0 < spacing r → 2 ^ 52 ≤ m) ∧
      magnitude r = m * 2 ^ spacing r := by
  have hspacing : spacing r = r / 2 ^ 52 - 1 := rfl
  exact ⟨r - spacing r * 2 ^ 52, by omega, by omega, by omega, rfl⟩

/-- The distance from one rank to the next is the spacing there. -/
theorem magnitude_succ (r : Nat) : magnitude (r + 1) = magnitude r + 2 ^ spacing r := by
  rcases exists_significand r with ⟨m, hr, -, -, hm⟩
  rw [hm]
  by_cases hs : spacing (r + 1) = spacing r
  · rw [magnitude, hs, show r + 1 - spacing r * 2 ^ 52 = m + 1 by omega, Nat.add_mul, Nat.one_mul]
  · -- The next stretch starts here, with the least significand and twice the spacing.
    have hnext : spacing (r + 1) = spacing r + 1 ∧ m + 1 = 2 ^ 53 := by
      unfold spacing at hs hr ⊢
      omega
    rcases hnext with ⟨hnext, hlast⟩
    rw [magnitude, hnext, show r + 1 - (spacing r + 1) * 2 ^ 52 = 2 ^ 52 by omega,
      ← Nat.succ_mul, Nat.succ_eq_add_one, hlast, Nat.pow_succ 2 (spacing r)]
    ring

theorem magnitude_strictMono : StrictMono magnitude :=
  strictMono_nat_of_lt_succ fun r => by
    rw [magnitude_succ]
    exact Nat.lt_add_of_pos_right (Nat.two_pow_pos _)

@[simp] theorem magnitude_zero : magnitude 0 = 0 := by
  simp [magnitude]

/-- The magnitudes of a stretch. -/
theorem magnitude_eq {r e k : Nat} (hr : r = e * 2 ^ 52 + k) (hk : k ≤ 2 ^ 53)
    (he : 0 < e → 2 ^ 52 ≤ k) : magnitude r = k * 2 ^ e := by
  subst hr
  by_cases hlast : k = 2 ^ 53
  · -- The last significand of a stretch is the first of the next one.
    have hs : spacing (e * 2 ^ 52 + k) = e + 1 := by
      unfold spacing
      omega
    unfold magnitude
    rw [hs, show e * 2 ^ 52 + k - (e + 1) * 2 ^ 52 = 2 ^ 52 by omega, hlast, Nat.pow_succ 2 e]
    ring
  · have hs : spacing (e * 2 ^ 52 + k) = e := by
      unfold spacing
      omega
    unfold magnitude
    rw [hs, Nat.add_sub_cancel_left]

theorem unitsInOne_pos : 0 < unitsInOne := by
  unfold unitsInOne
  -- The power is not to be computed.
  generalize 1074 = k
  exact Nat.two_pow_pos k

/-- An infinity counts as what would follow the largest double. -/
theorem units_infinite : (infinite false).units = magnitude finiteCount := by decide +kernel

/-- The rank that a quotient with all bits at a spacing is rounded to. -/
theorem nearestRank_of_spacing {n d e : Nat} (hlow : 2 ^ (52 + e) ≤ n / d)
    (hhigh : n / d < 2 ^ (53 + e)) :
    nearestRank n d = e * 2 ^ 52 + divNearest n (d * 2 ^ e) := by
  have hne : n / d ≠ 0 := by
    have := Nat.two_pow_pos (52 + e)
    omega
  have hlog : Nat.log2 (n / d) = 52 + e := by
    rw [Nat.log2_eq_iff hne]
    exact ⟨hlow, by rwa [show 52 + e + 1 = 53 + e by omega]⟩
  simp only [nearestRank, hlog, Nat.add_sub_cancel_left]

/-- The rank that a quotient is rounded to, in terms of its spacing. -/
theorem nearestRank_bounds (n d : Nat) :
    ∃ e k, nearestRank n d = e * 2 ^ 52 + k ∧ k = divNearest n (d * 2 ^ e) ∧ k ≤ 2 ^ 53 ∧
      n / d < 2 ^ (53 + e) ∧ (0 < e → 2 ^ 52 ≤ k ∧ 2 ^ (52 + e) ≤ n / d) := by
  refine ⟨Nat.log2 (n / d) - 52, _, rfl, rfl, ?_⟩
  -- The spacing is the least one at which the quotient has at most 53 bits.
  have hlt : n / d < 2 ^ (53 + (Nat.log2 (n / d) - 52)) := by
    have h := lt_two_pow_of_log2_le (q := n / d) (e := 52 + (Nat.log2 (n / d) - 52)) (by omega)
    rwa [show 52 + (Nat.log2 (n / d) - 52) + 1 = 53 + (Nat.log2 (n / d) - 52) by omega] at h
  generalize he : Nat.log2 (n / d) - 52 = e at *
  have hdiv : n / (d * 2 ^ e) < 2 ^ 53 := by
    rw [← Nat.div_div_eq_div_mul, Nat.div_lt_iff_lt_mul (Nat.two_pow_pos e), ← Nat.pow_add]
    exact hlt
  have hle := divNearest_le_div_add_one n (d * 2 ^ e)
  refine ⟨by omega, hlt, fun hpos => ?_⟩
  -- A spacing beyond the first is not wider than needed, so no bit is missing.
  have hne : n / d ≠ 0 := by
    intro h
    rw [h, Nat.log2_zero] at he
    omega
  have hlow : 2 ^ (52 + e) ≤ n / d := by
    have h := Nat.log2_self_le hne
    rwa [show Nat.log2 (n / d) = 52 + e by omega] at h
  have hge := div_le_divNearest n (d * 2 ^ e)
  have hdiv : 2 ^ 52 ≤ n / (d * 2 ^ e) := by
    rw [← Nat.div_div_eq_div_mul, Nat.le_div_iff_mul_le (Nat.two_pow_pos e), ← Nat.pow_add]
    exact hlow
  exact ⟨Nat.le_trans hdiv hge, hlow⟩

/-- The cuts of rounding to a rank, without fractions. -/
theorem nearestRank_le_iff_mul {n d : Nat} (hd : 0 < d) (r : Nat) :
    nearestRank n d ≤ r ↔ 2 * n < d * (magnitude r + magnitude (r + 1)) ∨
      (2 * n = d * (magnitude r + magnitude (r + 1)) ∧ r % 2 = 0) := by
  rcases nearestRank_bounds n d with ⟨e, k, hrank, hk, hle, hlt, hlow⟩
  rcases exists_significand r with ⟨m, hr, hm, hm', hmag⟩
  have hsum : magnitude r + magnitude (r + 1) = (2 * m + 1) * 2 ^ spacing r := by
    rw [magnitude_succ, hmag]
    ring
  generalize spacing r = s at *
  rw [hrank, hsum]
  -- The stretch of the quotient against the stretch of the rank.
  rcases Nat.lt_trichotomy e s with he | he | he
  · -- The quotient lies below the stretch of the rank.
    have hn : n < d * 2 ^ (52 + s) := by
      have hpow : 2 ^ (53 + e) ≤ 2 ^ (52 + s) := Nat.pow_le_pow_right (by decide) (by omega)
      rw [Nat.mul_comm]
      exact (Nat.div_lt_iff_lt_mul hd).1 (Nat.lt_of_lt_of_le hlt hpow)
    have hsig : d * 2 ^ (52 + s) * 2 ≤ d * ((2 * m + 1) * 2 ^ s) := by
      have h : 2 ^ 52 * 2 ≤ 2 * m + 1 := by omega
      rw [Nat.mul_assoc d, Nat.pow_add, Nat.mul_right_comm]
      exact Nat.mul_le_mul_left d (Nat.mul_le_mul_right _ h)
    have := Nat.mul_le_mul_right (2 ^ 52) (show e + 2 ≤ s + 1 by omega)
    exact ⟨fun _ => .inl (by omega), fun _ => by omega⟩
  · -- The quotient lies in the stretch of the rank.
    subst he
    have hcut := divNearest_le_iff (n := n) (Nat.mul_pos hd (Nat.two_pow_pos e)) m
    rw [← hk] at hcut
    rw [show d * ((2 * m + 1) * 2 ^ e) = d * 2 ^ e * (2 * m + 1) by ring,
      show r % 2 = m % 2 by omega, ← hcut]
    omega
  · -- The quotient lies above the stretch of the rank.
    rcases hlow (by omega) with ⟨hk', hlow⟩
    have hn : d * 2 ^ (52 + e) ≤ n := by
      rw [Nat.mul_comm]
      exact (Nat.le_div_iff_mul_le hd).1 hlow
    have hsig : d * ((2 * m + 1) * 2 ^ s) < d * 2 ^ (52 + e) * 2 := by
      have h : 2 * m + 1 < 2 ^ 53 * 2 := by omega
      have hpow : 2 ^ (53 + s) ≤ 2 ^ (52 + e) := Nat.pow_le_pow_right (by decide) (by omega)
      rw [Nat.mul_assoc d]
      refine Nat.mul_lt_mul_of_pos_left (Nat.lt_of_lt_of_le ?_ (Nat.mul_le_mul_right 2 hpow)) hd
      rw [Nat.pow_add, Nat.mul_right_comm]
      exact Nat.mul_lt_mul_of_pos_right h (Nat.two_pow_pos s)
    have := Nat.mul_le_mul_right (2 ^ 52) (show s + 1 ≤ e by omega)
    exact ⟨fun _ => by omega, fun _ => by omega⟩

/-- The point halfway between a rank and the next, in units. -/
def halfway (r : Nat) : Rat :=
  ((magnitude r : Rat) + magnitude (r + 1)) / 2

/-- The cuts of rounding to a rank: what is rounded to a rank or below lies
    below the point halfway to the next one, or there if the rank is even. -/
theorem nearestRank_le_iff {n d : Nat} (hd : 0 < d) (r : Nat) :
    nearestRank n d ≤ r ↔
      (n : Rat) / d < halfway r ∨ ((n : Rat) / d = halfway r ∧ r % 2 = 0) := by
  have hd' : (0 : Rat) < d := by exact_mod_cast hd
  have hlt : (n : Rat) / d < halfway r ↔ 2 * n < d * (magnitude r + magnitude (r + 1)) := by
    rw [halfway, div_lt_div_iff₀ hd' two_pos, mul_comm (n : Rat), mul_comm _ (d : Rat)]
    exact_mod_cast Iff.rfl
  have heq : (n : Rat) / d = halfway r ↔ 2 * n = d * (magnitude r + magnitude (r + 1)) := by
    rw [halfway, div_eq_div_iff hd'.ne' two_ne_zero, mul_comm (n : Rat), mul_comm _ (d : Rat)]
    exact_mod_cast Iff.rfl
  rw [nearestRank_le_iff_mul hd, hlt, heq]

theorem cast_magnitude_mono {r q : Nat} (h : r ≤ q) : (magnitude r : Rat) ≤ magnitude q := by
  exact_mod_cast magnitude_strictMono.monotone h

theorem cast_magnitude_lt (r : Nat) : (magnitude r : Rat) < magnitude (r + 1) := by
  exact_mod_cast magnitude_strictMono (Nat.lt_succ_self r)

theorem magnitude_lt_halfway (r : Nat) : (magnitude r : Rat) < halfway r := by
  have h := cast_magnitude_lt r
  unfold halfway
  linarith

theorem halfway_lt_magnitude (r : Nat) : halfway r < magnitude (r + 1) := by
  have h := cast_magnitude_lt r
  unfold halfway
  linarith

theorem halfway_strictMono : StrictMono halfway :=
  strictMono_nat_of_lt_succ fun r =>
    (halfway_lt_magnitude r).trans (magnitude_lt_halfway (r + 1))

/-- Rounding depends on the value of a quotient only. -/
theorem nearestRank_congr {n d m c : Nat} (hd : 0 < d) (hc : 0 < c)
    (h : (n : Rat) / d = (m : Rat) / c) : nearestRank n d = nearestRank m c := by
  refine eq_of_forall_ge_iff fun r => ?_
  rw [nearestRank_le_iff hd, nearestRank_le_iff hc, h]

/-- Rounding respects the order. -/
theorem nearestRank_mono {n d m c : Nat} (hd : 0 < d) (hc : 0 < c)
    (h : (n : Rat) / d ≤ (m : Rat) / c) : nearestRank n d ≤ nearestRank m c := by
  rw [nearestRank_le_iff hd]
  rcases (nearestRank_le_iff hc _).1 (Nat.le_refl (nearestRank m c)) with hlt | ⟨heq, heven⟩
  · exact .inl (h.trans_lt hlt)
  · rcases h.lt_or_eq with hlt | hsame
    · exact .inl (heq ▸ hlt)
    · exact .inr ⟨hsame.trans heq, heven⟩

/-- A double is rounded to itself. -/
theorem nearestRank_of_magnitude {n d : Nat} (hd : 0 < d) {r : Nat}
    (h : (n : Rat) / d = magnitude r) : nearestRank n d = r := by
  refine eq_of_forall_ge_iff fun q => ?_
  rw [nearestRank_le_iff hd, h]
  constructor
  · intro hcut
    by_contra hq
    -- A cut at a lower rank lies below the double.
    have hlt := (halfway_lt_magnitude q).trans_le
      (cast_magnitude_mono (show q + 1 ≤ r by omega))
    rcases hcut with hcut | ⟨hcut, -⟩
    · exact absurd hcut hlt.not_gt
    · exact absurd hcut hlt.ne'
  · intro hq
    exact .inl ((cast_magnitude_mono hq).trans_lt (magnitude_lt_halfway q))

/-- What is at least a double is not rounded below it. -/
theorem le_nearestRank {n d : Nat} (hd : 0 < d) {r : Nat}
    (h : (magnitude r : Rat) ≤ (n : Rat) / d) : r ≤ nearestRank n d := by
  have hself : nearestRank (magnitude r) 1 = r := nearestRank_of_magnitude one_pos (by simp)
  calc r = nearestRank (magnitude r) 1 := hself.symm
    _ ≤ nearestRank n d := nearestRank_mono one_pos hd (by simpa using h)

/-- What is at most a double is not rounded above it. -/
theorem nearestRank_le {n d : Nat} (hd : 0 < d) {r : Nat} (h : (n : Rat) / d ≤ magnitude r) :
    nearestRank n d ≤ r := by
  have hself : nearestRank (magnitude r) 1 = r := nearestRank_of_magnitude one_pos (by simp)
  have hmono := nearestRank_mono (m := magnitude r) hd one_pos (by simpa using h)
  calc nearestRank n d ≤ nearestRank (magnitude r) 1 := hmono
    _ = r := hself

/-- Whether a number of units lies exactly between a rank and one of its
    neighbours. -/
def IsHalfway (r : Nat) (x : Rat) : Prop :=
  x = halfway r ∨ ∃ q, q + 1 = r ∧ x = halfway q

/-- Whether a number of units lies between the points halfway to the neighbours
    of a rank, these points included. -/
structure Around (r : Nat) (x : Rat) : Prop where
  /-- It is no less than the point halfway to the rank below, if there is one. -/
  low : ∀ q, q + 1 = r → halfway q ≤ x
  /-- It is no more than the point halfway to the rank above. -/
  high : x ≤ halfway r

/-- What is rounded to a rank lies around it. -/
theorem around_of_nearestRank {n d r : Nat} (hd : 0 < d) (h : nearestRank n d = r) :
    Around r ((n : Rat) / d) := by
  constructor
  · intro q hq
    by_contra hlt
    have hle := (nearestRank_le_iff hd q).2 (.inl (not_le.1 hlt))
    omega
  · rcases (nearestRank_le_iff hd r).1 h.le with hlt | ⟨heq, -⟩
    · exact hlt.le
    · exact heq.le

/-- A double lies around its rank. -/
theorem around_magnitude (r : Nat) : Around r (magnitude r) := by
  constructor
  · rintro q rfl
    exact (halfway_lt_magnitude q).le
  · exact (magnitude_lt_halfway r).le

/-- What lies around a rank is rounded to it, except that an odd rank loses the
    two points halfway to its neighbours. -/
theorem nearestRank_eq_iff {n d : Nat} (hd : 0 < d) {r : Nat} (h : Around r ((n : Rat) / d)) :
    nearestRank n d = r ↔ ¬(r % 2 = 1 ∧ IsHalfway r ((n : Rat) / d)) := by
  have hle := nearestRank_le_iff (n := n) hd r
  cases r with
  | zero =>
      have hzero : nearestRank n d ≤ 0 := hle.2 (h.high.lt_or_eq.imp_right fun h => ⟨h, rfl⟩)
      exact ⟨fun _ => by simp, fun _ => Nat.le_zero.1 hzero⟩
  | succ q =>
      have hge := nearestRank_le_iff (n := n) hd q
      have hgap := halfway_strictMono (Nat.lt_succ_self q)
      rcases (h.low q rfl).lt_or_eq with hq | hq
      · have hnot : ¬nearestRank n d ≤ q := fun hle => by
          rcases hge.1 hle with hlt | ⟨heq, -⟩
          · exact absurd hlt hq.not_gt
          · exact absurd heq hq.ne'
        rcases h.high.lt_or_eq with hr | hr
        · -- Strictly between the two points there is only this rank.
          have hyes := hle.2 (.inl hr)
          refine ⟨fun _ => ?_, fun _ => by omega⟩
          rintro ⟨-, heq | ⟨p, hp, heq⟩⟩
          · exact absurd heq hr.ne
          · rw [Nat.succ_injective hp] at heq
            exact absurd heq hq.ne'
        · -- At the upper point the even one of the two ranks is taken.
          have htie : IsHalfway (q + 1) ((n : Rat) / d) := .inl hr
          have hyes : nearestRank n d ≤ q + 1 ↔ (q + 1) % 2 = 0 := by
            rw [hle, hr]
            simp
          simp only [htie, and_true]
          omega
      · -- So it is at the lower point.
        have htie : IsHalfway (q + 1) ((n : Rat) / d) := .inr ⟨q, rfl, hq.symm⟩
        have hyes : nearestRank n d ≤ q + 1 := hle.2 (.inl (hq ▸ hgap))
        have hnot : nearestRank n d ≤ q ↔ q % 2 = 0 := by
          rw [hge, hq]
          simp
        simp only [htie, and_true]
        omega

end Binary64

end Calculator
