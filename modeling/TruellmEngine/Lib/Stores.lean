/-
  What a memory holds behind a list of stores, each an address with a value: at every address
  the value of the last store to it, and nothing where nothing was stored.

  `afterStores_of_mem`: where all stores to an address carry one value, that value is there,
  in whatever order the stores are made.
-/
import Mathlib.Data.List.Induction
import Mathlib.Logic.Function.Basic

namespace TruellmEngine.Lib

variable {κ α : Type*} [DecidableEq κ]

def afterStores (stores : List (κ × α)) : κ → Option α :=
  stores.foldl (fun m s => Function.update m s.1 (some s.2)) fun _ => none

theorem afterStores_append (stores : List (κ × α)) (s : κ × α) :
    afterStores (stores ++ [s]) = Function.update (afterStores stores) s.1 (some s.2) := by
  unfold afterStores
  rw [List.foldl_append]
  rfl

/-- What the memory holds was stored there. -/
theorem mem_of_afterStores {stores : List (κ × α)} {a : κ} {v : α}
    (h : afterStores stores a = some v) : (a, v) ∈ stores := by
  induction stores using List.reverseRecOn with
  | nil => cases h
  | append_singleton stores s ih =>
    rw [afterStores_append] at h
    by_cases ha : a = s.1
    · subst ha
      rw [Function.update_self] at h
      cases h
      exact List.mem_append_right stores List.mem_cons_self
    · rw [Function.update_of_ne ha] at h
      exact List.mem_append_left _ (ih h)

theorem afterStores_of_mem {stores : List (κ × α)} {a : κ} {v : α} (h : (a, v) ∈ stores)
    (hone : ∀ w, (a, w) ∈ stores → w = v) : afterStores stores a = some v := by
  induction stores using List.reverseRecOn with
  | nil => cases h
  | append_singleton stores s ih =>
    rw [afterStores_append]
    by_cases ha : a = s.1
    · subst ha
      rw [Function.update_self]
      exact congrArg some (hone s.2 (List.mem_append_right stores List.mem_cons_self))
    · rw [Function.update_of_ne ha]
      refine ih ?_ fun w hw => hone w (List.mem_append_left _ hw)
      rcases List.mem_append.mp h with h | h
      · exact h
      · exact absurd (congrArg Prod.fst (List.mem_singleton.mp h)) ha

/-- The stores, one after the other, into a memory that holds something already. -/
def storeAll (stores : List (κ × α)) (m : κ → α) : κ → α :=
  stores.foldl (fun m s => Function.update m s.1 s.2) m

theorem storeAll_eq (stores : List (κ × α)) (m : κ → α) (a : κ) :
    storeAll stores m a = (afterStores stores a).getD (m a) := by
  induction stores using List.reverseRecOn with
  | nil => rfl
  | append_singleton stores s ih =>
    have hlast : storeAll (stores ++ [s]) m = Function.update (storeAll stores m) s.1 s.2 := by
      unfold storeAll
      rw [List.foldl_append]
      rfl
    rw [hlast, afterStores_append]
    by_cases ha : a = s.1
    · subst ha
      rw [Function.update_self, Function.update_self]
      rfl
    · rw [Function.update_of_ne ha, Function.update_of_ne ha]
      exact ih

theorem storeAll_of_mem {stores : List (κ × α)} {a : κ} {v : α} (m : κ → α)
    (h : (a, v) ∈ stores) (hone : ∀ w, (a, w) ∈ stores → w = v) : storeAll stores m a = v := by
  rw [storeAll_eq, afterStores_of_mem h hone]
  rfl

theorem storeAll_of_not_mem {stores : List (κ × α)} {a : κ} (m : κ → α)
    (h : ∀ w, (a, w) ∉ stores) : storeAll stores m a = m a := by
  rw [storeAll_eq]
  cases hv : afterStores stores a with
  | none => rfl
  | some v => exact absurd (mem_of_afterStores hv) (h v)

end TruellmEngine.Lib
