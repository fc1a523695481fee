/-!
# Range tables

A property of runes is written down as the list of its inclusive ranges of code points, in ascending
order and apart from one another. `covers` looks a code point up, and `covers_iff` says that the
look-up is membership in one of the ranges, so a reader of a table need not know how it is searched.
-/

namespace ExprYard.Rune

/-- Whether each range is non-empty and starts after the end of the one before it; `floor` is the
least code point that the first range may start at. -/
def ascendsFrom (floor : Nat) : List (Nat × Nat) → Bool
  | [] => true
  | r :: rest => floor ≤ r.1 && r.1 ≤ r.2 && ascendsFrom (r.2 + 1) rest

/-- The inclusive ranges of code points that have some property. -/
structure Table where
  ranges : List (Nat × Nat)
  ascends : ascendsFrom 0 ranges = true

namespace Table

/-- Whether some range holds the code point. The search ends at the first range that starts after
it. -/
def search : List (Nat × Nat) → Nat → Bool
  | [], _ => false
  | r :: rest, n =>
    if n < r.1 then false
    else if n ≤ r.2 then true
    else search rest n

/-- Whether a table covers the code point. -/
def covers (table : Table) (n : Nat) : Bool :=
  search table.ranges n

/-- No range of an ascending list starts below its floor. -/
theorem floor_le_of_mem {floor : Nat} {ranges : List (Nat × Nat)}
    (h : ascendsFrom floor ranges = true) : ∀ r ∈ ranges, floor ≤ r.1 := by
  induction ranges generalizing floor with
  | nil => intro r hr; cases hr
  | cons s rest ih =>
    simp only [ascendsFrom, Bool.and_eq_true, decide_eq_true_eq] at h
    intro r hr
    rcases List.mem_cons.mp hr with rfl | hr
    · exact h.1.1
    · have := ih h.2 r hr
      omega

/-- In ascending ranges the search finds a code point exactly when one of them holds it. -/
theorem search_iff {floor : Nat} {ranges : List (Nat × Nat)} (h : ascendsFrom floor ranges = true)
    (n : Nat) : search ranges n = true ↔ ∃ r ∈ ranges, r.1 ≤ n ∧ n ≤ r.2 := by
  induction ranges generalizing floor with
  | nil => simp [search]
  | cons s rest ih =>
    simp only [ascendsFrom, Bool.and_eq_true, decide_eq_true_eq] at h
    simp only [search, List.mem_cons, exists_eq_or_imp]
    split
    · rename_i hlt
      constructor
      · intro found
        cases found
      · rintro (hs | ⟨r, hr, hle, _⟩)
        · omega
        · have := floor_le_of_mem h.2 r hr
          omega
    · split
      · exact ⟨fun _ => Or.inl ⟨by omega, by omega⟩, fun _ => rfl⟩
      · rw [ih h.2]
        constructor
        · exact Or.inr
        · rintro (hs | hr)
          · omega
          · exact hr

/-- A table covers a code point exactly when one of its ranges holds it. -/
theorem covers_iff (table : Table) (n : Nat) :
    table.covers n = true ↔ ∃ r ∈ table.ranges, r.1 ≤ n ∧ n ≤ r.2 :=
  search_iff table.ascends n

end Table

end ExprYard.Rune
