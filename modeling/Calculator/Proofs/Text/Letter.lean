import Calculator.Proofs.Typed.Roots

/-!
# Letters and digits

No letter of any script shows a digit. The two classes are given by tables of
ranges, each in order, so they are compared by passing both tables from left to
right.

## Main definitions

* `Text.areApart`: Whether the ranges of two tables do not meet.

## Theorems

* `Text.lt_or_lt_of_areApart`: Passing the tables compares all their ranges.
* `Text.isDigitSign_of_isLetter`: No letter shows a digit.
-/

namespace Calculator

namespace Text

/-- Whether no range of one table meets a range of the other, if both tables
    are in order. -/
def areApart : List (Nat × Nat) → List (Nat × Nat) → Bool
  | [], _ => true
  | r :: rs, ss =>
    let behind := ss.dropWhile fun s => Nat.blt s.2 r.1
    (behind.head?.all fun s => Nat.blt r.2 s.1) && areApart rs behind

/-- The ranges of a table stand in the order in which they start. -/
def InOrder (ranges : List (Nat × Nat)) : Prop :=
  ranges.Pairwise fun r s => r.1 ≤ s.1

/-- It is enough to compare neighbours. -/
theorem inOrder_of_isChain {ranges : List (Nat × Nat)}
    (h : ranges.IsChain fun r s => r.1 ≤ s.1) : InOrder ranges := by
  have : IsTrans (Nat × Nat) fun r s => r.1 ≤ s.1 := ⟨fun _ _ _ => le_trans⟩
  exact List.isChain_iff_pairwise.1 h

/-- Passing two tables in order compares each range with each. -/
theorem lt_or_lt_of_areApart {rs ss : List (Nat × Nat)} (h : areApart rs ss = true)
    (hrs : InOrder rs) (hss : InOrder ss) : ∀ r ∈ rs, ∀ s ∈ ss, r.2 < s.1 ∨ s.2 < r.1 := by
  induction rs generalizing ss with
  | nil => simp
  | cons first rs ih =>
    obtain ⟨hhead, htail⟩ := Bool.and_eq_true_iff.1 h
    have hbehind : InOrder (ss.dropWhile fun s => Nat.blt s.2 first.1) :=
      hss.sublist (List.dropWhile_sublist _)
    intro r hr s hs
    rw [← List.takeWhile_append_dropWhile (p := fun s => Nat.blt s.2 first.1) (l := ss),
      List.mem_append] at hs
    rcases hs with hpassed | hs
    · -- What has been passed ends before this range and all later ones.
      have hlt : s.2 < first.1 := by
        simpa using List.all_eq_true.1 List.all_takeWhile s hpassed
      have hle : first.1 ≤ r.1 := by
        rcases List.mem_cons.1 hr with rfl | hr
        · exact le_rfl
        · exact List.rel_of_pairwise_cons hrs hr
      exact .inr (hlt.trans_le hle)
    · rcases List.mem_cons.1 hr with rfl | hr
      · -- What comes next starts behind this range, and so does the rest.
        generalize ss.dropWhile (fun s => Nat.blt s.2 r.1) = behind at *
        cases behind with
        | nil => cases hs
        | cons next behind =>
          have hlt : r.2 < next.1 := by simpa using hhead
          rcases List.mem_cons.1 hs with rfl | hs
          · exact .inl hlt
          · exact .inl (hlt.trans_le (List.rel_of_pairwise_cons hbehind hs))
      · exact ih htail (List.Pairwise.tail hrs) hbehind r hr s hs

/-- The digits of the scripts that have all ten, as ranges. -/
def scriptDigits : List (Nat × Nat) :=
  scriptZeros.map fun base => (base, base + 9)

theorem inOrder_letterRanges : InOrder letterRanges := inOrder_of_isChain (by decide +kernel)

theorem inOrder_scriptDigits : InOrder scriptDigits := inOrder_of_isChain (by decide +kernel)

theorem inOrder_signOnlyDigits : InOrder signOnlyDigits := inOrder_of_isChain (by decide +kernel)

/-- No letter shows a digit. -/
theorem isDigitSign_of_isLetter {c : Char} (h : isLetter c = true) : isDigitSign c = false := by
  unfold isLetter at h
  split at h
  · exact isDigitSign_of_isAlpha h
  · obtain ⟨r, hr, hin⟩ := List.any_eq_true.1 h
    simp only [Bool.and_eq_true, decide_eq_true_eq] at hin
    rw [isDigitSign, Bool.or_eq_false_iff]
    constructor
    · have hpass : areApart letterRanges scriptDigits = true := by decide +kernel
      have hapart := lt_or_lt_of_areApart hpass inOrder_letterRanges inOrder_scriptDigits r hr
      rw [isDecimalDigit, digitValue?, Option.isSome_map, Option.isSome_eq_false_iff,
        Option.isNone_iff_eq_none, List.find?_eq_none]
      intro base hbase
      have := hapart _ (List.mem_map_of_mem hbase)
      simp only [Bool.and_eq_true, decide_eq_true_eq] at this ⊢
      omega
    · have hpass : areApart letterRanges signOnlyDigits = true := by decide +kernel
      have hapart := lt_or_lt_of_areApart hpass inOrder_letterRanges inOrder_signOnlyDigits r hr
      rw [inRanges, List.any_eq_false]
      intro s hs
      have := hapart s hs
      simp only [Bool.and_eq_true, decide_eq_true_eq]
      omega

end Text

end Calculator
