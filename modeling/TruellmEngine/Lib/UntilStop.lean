/-
  Loops that count up and may end at the head or at the end of an iteration.

  `untilStop before after fuel n` is where such a loop stands when it ends. With enough
  fuel this is the first index at which one of the two conditions holds (`StopsAt`), so
  two loops with different bodies can be compared by their conditions
  (`untilStop_eq_iff`).
-/
import Mathlib.Data.List.Basic

namespace TruellmEngine.Lib

/-- Count up from `n`: end where `before` holds at the head of an iteration, or where
    `after` holds at its end. -/
def untilStop (before after : Nat → Bool) : Nat → Nat → Nat
  | 0, n => n
  | fuel + 1, n =>
    if before n then n
    else if after (n + 1) then n + 1
    else untilStop before after fuel (n + 1)

variable {before after : Nat → Bool}

/-- `N` is the first index from `n` on at which the loop ends. -/
structure StopsAt (before after : Nat → Bool) (n N : Nat) : Prop where
  le : n ≤ N
  head : ∀ m, n ≤ m → m < N → before m = false
  tail : ∀ m, n < m → m < N → after m = false
  stop : before N = true ∨ (n < N ∧ after N = true)

theorem StopsAt.not_lt {n N N' : Nat} (h : StopsAt before after n N)
    (h' : StopsAt before after n N') : ¬ N < N' := by
  intro hlt
  rcases h.stop with hb | ⟨hn, ha⟩
  · rw [h'.head N h.le hlt] at hb
    cases hb
  · rw [h'.tail N hn hlt] at ha
    cases ha

theorem StopsAt.unique {n N N' : Nat} (h : StopsAt before after n N)
    (h' : StopsAt before after n N') : N = N' := by
  have h1 := h.not_lt h'
  have h2 := h'.not_lt h
  omega

theorem stopsAt_head {n : Nat} (h : before n = true) : StopsAt before after n n :=
  ⟨Nat.le_refl n, by omega, by omega, Or.inl h⟩

/-- A loop whose fuel reaches an index where it ends stops at the first such index. -/
theorem untilStop_stopsAt {fuel n : Nat}
    (hfuel : before (n + fuel) = true ∨ (0 < fuel ∧ after (n + fuel) = true)) :
    StopsAt before after n (untilStop before after fuel n) := by
  induction fuel generalizing n with
  | zero =>
    rcases hfuel with hb | ⟨h0, -⟩
    · exact stopsAt_head hb
    · omega
  | succ fuel ih =>
    unfold untilStop
    by_cases hb : before n = true
    · rw [if_pos hb]
      exact stopsAt_head hb
    · rw [if_neg hb]
      have hb' : before n = false := by simpa using hb
      by_cases ha : after (n + 1) = true
      · rw [if_pos ha]
        refine ⟨by omega, ?_, by omega, Or.inr ⟨by omega, ha⟩⟩
        intro m h1 h2
        have hm : m = n := by omega
        rw [hm]
        exact hb'
      · rw [if_neg ha]
        have ha' : after (n + 1) = false := by simpa using ha
        have hnext : n + 1 + fuel = n + (fuel + 1) := by omega
        have h := ih (n := n + 1) (by
          rw [hnext]
          rcases hfuel with hf | ⟨-, hf⟩
          · exact Or.inl hf
          · rcases Nat.eq_zero_or_pos fuel with h0 | hpos
            · subst h0
              rw [hf] at ha'
              cases ha'
            · exact Or.inr ⟨hpos, hf⟩)
        refine ⟨by have := h.le; omega, ?_, ?_, ?_⟩
        · intro m h1 h2
          rcases Nat.eq_or_lt_of_le h1 with he | hlt
          · rw [← he]
            exact hb'
          · exact h.head m hlt h2
        · intro m h1 h2
          rcases Nat.eq_or_lt_of_le h1 with he | hlt
          · rw [← he]
            exact ha'
          · exact h.tail m hlt h2
        · rcases h.stop with hs | ⟨hlt, hs⟩
          · exact Or.inl hs
          · exact Or.inr ⟨by omega, hs⟩

theorem untilStop_eq_iff {fuel n N : Nat}
    (hfuel : before (n + fuel) = true ∨ (0 < fuel ∧ after (n + fuel) = true)) :
    untilStop before after fuel n = N ↔ StopsAt before after n N := by
  constructor
  · intro h
    rw [← h]
    exact untilStop_stopsAt hfuel
  · exact fun h => (untilStop_stopsAt hfuel).unique h

end TruellmEngine.Lib
