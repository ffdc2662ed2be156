import Mathlib.Data.List.Basic

/-!
# Cutting lists

`takeWhile` and `dropWhile` cut a list where a condition first fails. The elements in front are
those up to which all satisfy it (`lt_length_takeWhile_iff`), and where a condition that has failed
fails for good the two pieces are those of `filter` (`takeWhile_eq_filter`,
`dropWhile_eq_filter_not`).
-/

namespace Scaffold

variable {α : Type} {p : α → Bool} {l : List α}

/-- The elements taken from the front of a list are those up to which all satisfy `p`. -/
theorem lt_length_takeWhile_iff {n : Nat} :
    n < (l.takeWhile p).length ↔
      n < l.length ∧ ∀ k a, k ≤ n → l[k]? = some a → p a = true := by
  induction l generalizing n with
  | nil => simp
  | cons c l ih =>
    by_cases hc : p c = true
    · rw [List.takeWhile_cons_of_pos hc]
      rcases n with - | n
      · refine iff_of_true (Nat.succ_pos _) ⟨Nat.succ_pos _, fun k a hk ha ↦ ?_⟩
        obtain rfl := Nat.le_zero.mp hk
        obtain rfl := Option.some.inj ha
        exact hc
      · rw [List.length_cons, List.length_cons, Nat.succ_lt_succ_iff, Nat.succ_lt_succ_iff, ih]
        refine and_congr_right fun _ ↦ ⟨fun h k a hk ha ↦ ?_, fun h k a hk ha ↦ ?_⟩
        · rcases k with - | k
          · obtain rfl := Option.some.inj ha
            exact hc
          · exact h k a (Nat.le_of_succ_le_succ hk) ha
        · exact h (k + 1) a (Nat.succ_le_succ hk) ha
    · rw [List.takeWhile_cons_of_neg hc]
      exact iff_of_false (Nat.not_lt_zero n) fun h ↦ hc (h.2 0 c (Nat.zero_le n) rfl)

/-- Where a condition that has failed fails for good, `takeWhile` is `filter`. -/
theorem takeWhile_eq_filter (h : l.Pairwise fun x y ↦ p y = true → p x = true) :
    l.takeWhile p = l.filter p := by
  induction l with
  | nil => rfl
  | cons a l ih =>
    obtain ⟨ha, hl⟩ := List.pairwise_cons.mp h
    rcases hp : p a
    · have hnone : ∀ x ∈ l, ¬p x = true := fun x hx hpx ↦ by simp [ha x hx hpx] at hp
      simp [hp, List.filter_eq_nil_iff.mpr hnone]
    · simp [hp, ih hl]

/-- Where a condition that has failed fails for good, `dropWhile` leaves what fails it. -/
theorem dropWhile_eq_filter_not (h : l.Pairwise fun x y ↦ p y = true → p x = true) :
    l.dropWhile p = l.filter fun x ↦ !p x := by
  induction l with
  | nil => rfl
  | cons a l ih =>
    obtain ⟨ha, hl⟩ := List.pairwise_cons.mp h
    rcases hp : p a
    · have hall : ∀ x ∈ l, (!p x) = true := fun x hx ↦ by
        by_contra hpx
        simp [ha x hx (by simpa using hpx)] at hp
      simp [hp, List.filter_eq_self.mpr hall]
    · simp [hp, ih hl]

end Scaffold
