/-!
Sets of characters, kept as ascending ranges of code points.
Main statement: a look-up finds exactly the characters of some range.
-/

namespace Descent

namespace CharSet

/-- Every range is in order and ends below the next one, from `low` on. -/
def ascendingFrom (low : Nat) : List (Nat × Nat) → Bool
  | [] => true
  | (a, b) :: rest => low ≤ a && a ≤ b && ascendingFrom (b + 1) rest

/-- A look-up stops at the first range that begins past the code point. -/
def inRanges (code : Nat) : List (Nat × Nat) → Bool
  | [] => false
  | (low, high) :: rest => if code < low then false else code ≤ high || inRanges code rest

end CharSet

/-- Ranges of code points with both ends included. -/
structure CharSet where
  ranges : List (Nat × Nat)
  ascending : CharSet.ascendingFrom 0 ranges = true

namespace CharSet

def contains (s : CharSet) (c : Char) : Bool := inRanges c.toNat s.ranges

theorem le_of_mem_ascendingFrom {rs : List (Nat × Nat)} {low : Nat} {r : Nat × Nat}
    (h : ascendingFrom low rs = true) (hr : r ∈ rs) : low ≤ r.1 := by
  induction rs generalizing low with
  | nil => cases hr
  | cons q rest ih =>
    obtain ⟨a, b⟩ := q
    simp only [ascendingFrom, Bool.and_eq_true, decide_eq_true_eq] at h
    rcases List.mem_cons.mp hr with rfl | hr
    · exact h.1.1
    · exact Nat.le_trans (by omega) (ih h.2 hr)

theorem inRanges_iff {rs : List (Nat × Nat)} {low code : Nat}
    (h : ascendingFrom low rs = true) :
    inRanges code rs = true ↔ ∃ r ∈ rs, r.1 ≤ code ∧ code ≤ r.2 := by
  induction rs generalizing low with
  | nil => simp [inRanges]
  | cons q rest ih =>
    obtain ⟨a, b⟩ := q
    simp only [ascendingFrom, Bool.and_eq_true, decide_eq_true_eq] at h
    by_cases below : code < a
    · simp only [inRanges, below, ↓reduceIte, Bool.false_eq_true, false_iff]
      rintro ⟨r, hr, hlow, _⟩
      rcases List.mem_cons.mp hr with rfl | hr
      · exact absurd hlow (by simp only; omega)
      · have := le_of_mem_ascendingFrom h.2 hr
        omega
    · simp [inRanges, below, ih h.2, Nat.le_of_not_lt below]

/-- A look-up answers yes exactly for the characters of some range. -/
theorem contains_iff {s : CharSet} {c : Char} :
    s.contains c = true ↔ ∃ r ∈ s.ranges, r.1 ≤ c.toNat ∧ c.toNat ≤ r.2 :=
  inRanges_iff s.ascending

end CharSet
end Descent
