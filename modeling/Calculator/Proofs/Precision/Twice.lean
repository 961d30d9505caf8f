import Calculator.Proofs.Precision.Nearest

/-!
# Rounding twice

A number that rounds to a double is rounded to more significant bits first,
then to the bits of a double, and then to the doubles. The first rounding may
reach the point halfway to a neighbour, since that point has only one bit more
than a double, and the second may do so where the doubles are denser than
their bits. It cannot go beyond that point. So rounding twice gives the double
after all, except that an odd rank loses a number that came to lie halfway.

## Theorems

* `Precision.fits_halfway`, `Precision.fits_magnitude`: The bits of the points
  halfway, and of the doubles.
* `Precision.nearestRank_twice_iff`: When the double is met.
* `Precision.toBinary64_eq`: What is reported is rounded twice.
-/

namespace Calculator

namespace Precision

theorem Fits.mono {bits bits' : Nat} (h : bits ≤ bits') {g : Rat} (hg : Fits bits g) :
    Fits bits' g := by
  rcases hg with ⟨m, k, hm, hg⟩
  exact ⟨m, k, hm.trans_le (Nat.pow_le_pow_right two_pos h), hg⟩

/-- A double has 53 bits. -/
theorem fits_magnitude (r : Nat) : Fits 53 (Binary64.magnitude r : Rat) := by
  rcases Binary64.exists_significand r with ⟨m, -, hm, -, hmag⟩
  exact ⟨m, Binary64.spacing r, hm, by rw [hmag, Nat.cast_mul, cast_two_pow]⟩

/-- The point halfway between two doubles has one bit more than the lower one,
    twice of which is an odd number of spacings. -/
theorem halfway_eq {r m : Nat} (hm : Binary64.magnitude r = m * 2 ^ Binary64.spacing r) :
    Binary64.halfway r = (2 * m + 1 : Nat) * 2 ^ ((Binary64.spacing r : Int) - 1) := by
  rw [Binary64.halfway, Binary64.magnitude_succ, hm, zpow_sub_one₀ two_ne_zero, zpow_natCast]
  push_cast
  ring

theorem fits_halfway (r : Nat) : Fits 54 (Binary64.halfway r) := by
  rcases Binary64.exists_significand r with ⟨m, -, hm, -, hmag⟩
  exact ⟨2 * m + 1, _, by omega, halfway_eq hmag⟩

/-- In the first stretch the points halfway have no more bits than doubles. -/
theorem fits_halfway_of_lt {r : Nat} (hr : r < 2 ^ 52) : Fits 53 (Binary64.halfway r) := by
  have hmag : Binary64.magnitude r = r * 2 ^ Binary64.spacing r := by
    rw [Binary64.magnitude, Binary64.spacing, show r / 2 ^ 52 - 1 = 0 by omega]
    simp
  exact ⟨2 * r + 1, _, by omega, halfway_eq hmag⟩

/-- No double lies halfway between two others. -/
theorem not_isHalfway_magnitude (q r : Nat) : ¬Binary64.IsHalfway r (Binary64.magnitude q) := by
  have hne : ∀ p, (Binary64.magnitude q : Rat) ≠ Binary64.halfway p := by
    intro p h
    have hlow : (Binary64.magnitude p : Rat) < Binary64.magnitude q :=
      h ▸ Binary64.magnitude_lt_halfway p
    have hhigh : (Binary64.magnitude q : Rat) < Binary64.magnitude (p + 1) :=
      h ▸ Binary64.halfway_lt_magnitude p
    have h₁ := Binary64.magnitude_strictMono.lt_iff_lt.1 (Nat.cast_lt.1 hlow)
    have h₂ := Binary64.magnitude_strictMono.lt_iff_lt.1 (Nat.cast_lt.1 hhigh)
    omega
  rintro (h | ⟨p, -, h⟩)
  · exact hne r h
  · exact hne p h

/-- Where the first stretch ends. -/
theorem magnitude_two_pow : (Binary64.magnitude (2 ^ 52) : Rat) = 2 ^ 52 := by
  rw [Binary64.magnitude_eq (r := 2 ^ 52) (e := 0) (k := 2 ^ 52) (by decide) (by decide)
    (by decide)]
  norm_num

theorem exists_quotient {y : Rat} (hy : 0 ≤ y) : ∃ n d : Nat, 0 < d ∧ (n : Rat) / d = y := by
  refine ⟨y.num.toNat, y.den, y.den_pos, ?_⟩
  have hnum : ((y.num.toNat : Int) : Rat) = y.num := by
    rw [Int.toNat_of_nonneg (Rat.num_nonneg.2 hy)]
  rw [← Int.cast_natCast, hnum, Rat.num_div_den]

/-- A number around a rank, rounded to 53 bits and then to a rank, meets the
    rank, unless the rank is odd and one of the two numbers lies halfway to a
    neighbour. -/
theorem nearestRank_twice_iff {y z : Rat} {r m c : Nat} (hy : 0 ≤ y) (hc : 0 < c)
    (hm : (m : Rat) / c = z) (hz : Rounds 53 y z) (haround : Binary64.Around r y) :
    Binary64.nearestRank m c = r ↔
      ¬(r % 2 = 1 ∧ (Binary64.IsHalfway r y ∨ Binary64.IsHalfway r z)) := by
  rcases le_or_gt (2 ^ 52) y with hbig | hsmall
  · -- The second rounding is the last one already.
    rcases exists_quotient hy with ⟨n, d, hd, hn⟩
    rw [← hn] at haround
    have hfirst := Binary64.nearestRank_eq_iff hd haround
    rw [hn] at hfirst
    rcases hz.eq_or_eq_magnitude hd hn hbig with rfl | hz
    · rw [or_self, ← hfirst, Binary64.nearestRank_congr hc hd (hm.trans hn.symm)]
    · have hnot : ¬Binary64.IsHalfway r z := hz ▸ not_isHalfway_magnitude _ r
      rw [or_iff_left hnot, ← hfirst, Binary64.nearestRank_of_magnitude hc (hm.trans hz)]
  · -- The points halfway that matter have 53 bits and are not crossed.
    have hfits : ∀ q, Binary64.halfway q ≤ y → Fits 53 (Binary64.halfway q) := by
      intro q hq
      refine fits_halfway_of_lt ?_
      by_contra hge
      have hlt := (Binary64.cast_magnitude_mono (not_lt.1 hge)).trans_lt
        ((Binary64.magnitude_lt_halfway q).trans_le hq)
      rw [magnitude_two_pow] at hlt
      exact absurd hsmall hlt.not_gt
    have hlow : ∀ q, q + 1 = r → Binary64.halfway q ≤ z := fun q hq =>
      hz.ge_of_fits (by decide) (hfits q (haround.low q hq)) (haround.low q hq)
    have hhigh : z ≤ Binary64.halfway r := by
      rcases Nat.lt_or_ge r (2 ^ 52) with hr | hr
      · exact hz.le_of_fits (by decide) (fits_halfway_of_lt hr) haround.high
      · -- Only the last such rank is left, and it is a bound itself.
        have hle := hz.le_of_fits (by decide) (fits_magnitude (2 ^ 52))
          (magnitude_two_pow ▸ hsmall.le)
        exact hle.trans
          ((Binary64.cast_magnitude_mono hr).trans (Binary64.magnitude_lt_halfway r).le)
    have hlast := Binary64.nearestRank_eq_iff hc (r := r) (by rw [hm]; exact ⟨hlow, hhigh⟩)
    rw [hm] at hlast
    -- What lies halfway already is not moved by the second rounding.
    have hmove : Binary64.IsHalfway r y → Binary64.IsHalfway r z := by
      intro h
      have hfit : Fits 53 y := by
        rcases h with h | ⟨q, -, h⟩
        · exact h ▸ hfits r h.ge
        · exact h ▸ hfits q h.ge
      rwa [hz.eq_of_fits (by decide) hfit]
    rw [hlast, or_iff_right_of_imp hmove]

/-- What is reported for a positive number and for its opposite: both are
    rounded twice, to 53 bits and to the doubles. -/
theorem toBinary64_eq {x : Dyadic} {v : Rat} (hx : x.toRat = v) (hv : 0 < v) :
    ∃ (z : Rat) (m c : Nat), Rounds 53 v z ∧ (round 53 x).toRat = z ∧ 0 < c ∧
      (m : Rat) / c = z * Binary64.unitsInOne ∧
      ∀ negative, toBinary64 (if negative then -x else x) = Binary64.nearest negative m c := by
  obtain ⟨z, hz, hround⟩ := rounds_round (by decide : 0 < 53) hx hv
  rcases toNearestBinary64_eq false (hround false) (hz.pos hv) with ⟨m, c, hc, hm, -⟩
  refine ⟨z, m, c, hz, hround false, hc, hm, fun negative => ?_⟩
  rcases toNearestBinary64_eq negative (hround negative) (hz.pos hv) with
    ⟨m', c', hc', hm', hnearest⟩
  rw [toBinary64, hnearest, Binary64.nearest, Binary64.nearest,
    Binary64.nearestRank_congr hc' hc (hm'.trans hm.symm)]

end Precision

end Calculator
