/-
  Strided layouts: each axis has a length and a stride, and an index of every axis gives an
  offset.

  `Packed` is the layout without gaps, in some order of the axes. Its offsets are distinct and
  fill the range below the number of elements (`Packed.offset_inj`, `Packed.offset_lt`).
  `mem_shard`: cutting one axis into equal parts, part `r` has the offsets of the indices that
  fall into it.
-/
import Mathlib.Algebra.BigOperators.Group.List.Basic
import Mathlib.Algebra.Order.BigOperators.Group.List
import Mathlib.Logic.Function.Basic
import TruellmEngine.Lib.Placement

namespace TruellmEngine.Lib

variable {ι : Type*} {len stride idx idx' : ι → Nat} {as : List ι}

/-- Along the axes `as`, outermost first, a step of an axis is as long as what is inside it.
    The stride of an axis of length 1 does not matter. -/
def Packed (len stride : ι → Nat) : List ι → Prop
  | [] => True
  | d :: as => (len d = 1 ∨ stride d = (as.map len).prod) ∧ Packed len stride as

def offset (stride idx : ι → Nat) (as : List ι) : Nat := (as.map fun d => idx d * stride d).sum

theorem offset_cons (d : ι) (as : List ι) :
    offset stride idx (d :: as) = idx d * stride d + offset stride idx as := rfl

/-- The first summand is a digit of the offset. -/
theorem offset_cons_packed {d : ι} (h : len d = 1 ∨ stride d = (as.map len).prod)
    (hidx : idx d < len d) :
    offset stride idx (d :: as) = idx d * (as.map len).prod + offset stride idx as := by
  rw [offset_cons]
  rcases h with hone | hstride
  · have hzero : idx d = 0 := by omega
    rw [hzero, Nat.zero_mul, Nat.zero_mul]
  · rw [hstride]

theorem Packed.offset_lt (h : Packed len stride as) (hidx : ∀ d ∈ as, idx d < len d) :
    offset stride idx as < (as.map len).prod := by
  induction as with
  | nil => exact Nat.one_pos
  | cons d as ih =>
    have hrest := ih h.2 fun d' hd' => hidx d' (List.mem_cons_of_mem d hd')
    have hfirst := hidx d List.mem_cons_self
    rw [offset_cons_packed h.1 hfirst, List.map_cons, List.prod_cons]
    exact digits_lt hfirst hrest

theorem Packed.offset_inj (h : Packed len stride as) (hidx : ∀ d ∈ as, idx d < len d)
    (hidx' : ∀ d ∈ as, idx' d < len d) (heq : offset stride idx as = offset stride idx' as) :
    ∀ d ∈ as, idx d = idx' d := by
  induction as with
  | nil => exact nofun
  | cons d as ih =>
    have hall := fun d' hd' => hidx d' (List.mem_cons_of_mem d hd')
    have hall' := fun d' hd' => hidx' d' (List.mem_cons_of_mem d hd')
    rw [offset_cons_packed h.1 (hidx d List.mem_cons_self),
      offset_cons_packed h.1 (hidx' d List.mem_cons_self)] at heq
    obtain ⟨hfirst, hrest⟩ := digits_inj (h.2.offset_lt hall) (h.2.offset_lt hall') heq
    intro d' hd'
    rcases List.mem_cons.mp hd' with rfl | hd'
    · exact hfirst
    · exact ih h.2 hall hall' hrest d' hd'

theorem offset_congr (h : ∀ d ∈ as, idx d = idx' d) :
    offset stride idx as = offset stride idx' as :=
  congrArg List.sum (List.map_congr_left fun d hd => by rw [h d hd])

theorem offset_perm {bs : List ι} (h : as.Perm bs) : offset stride idx as = offset stride idx bs :=
  (h.map _).sum_eq

variable [DecidableEq ι]

theorem offset_update {axis : ι} (hnodup : as.Nodup) (haxis : axis ∈ as) (k : Nat) :
    offset stride (Function.update idx axis (idx axis + k)) as =
      k * stride axis + offset stride idx as := by
  induction as with
  | nil => cases haxis
  | cons d as ih =>
    obtain ⟨hnot, hnodup'⟩ := List.nodup_cons.mp hnodup
    rw [offset_cons, offset_cons]
    by_cases hd : d = axis
    · subst hd
      have hrest : offset stride (Function.update idx d (idx d + k)) as = offset stride idx as :=
        offset_congr fun d' hd' =>
          Function.update_of_ne (fun h => hnot (by rw [← h]; exact hd')) _ _
      rw [hrest, Function.update_self, Nat.add_mul, Nat.add_comm (idx d * stride d),
        Nat.add_assoc]
    · have hin : axis ∈ as := (List.mem_cons.mp haxis).resolve_left (Ne.symm hd)
      rw [ih hnodup' hin, Function.update_of_ne hd, Nat.add_left_comm]

/-- The part `r` of an axis that is cut into `n` parts of length `s`. -/
theorem mem_shard (stride : ι → Nat) {axis : ι} {n s r o : Nat} (hnodup : as.Nodup)
    (haxis : axis ∈ as) (hlen : len axis = n * s) (hr : r < n) :
    (∃ idx : ι → Nat, (∀ d ∈ as, idx d < Function.update len axis s d) ∧
        o = r * s * stride axis + offset stride idx as) ↔
      ∃ idx : ι → Nat, (∀ d ∈ as, idx d < len d) ∧ idx axis / s = r ∧
        o = offset stride idx as := by
  constructor
  · intro h
    obtain ⟨idx, hidx, rfl⟩ := h
    have hpart : idx axis < s := by
      have h := hidx axis haxis
      rwa [Function.update_self] at h
    refine ⟨Function.update idx axis (idx axis + r * s), fun d hd => ?_, ?_, ?_⟩
    · by_cases hda : d = axis
      · subst hda
        rw [Function.update_self, hlen, Nat.add_comm]
        exact digits_lt hr hpart
      · have h := hidx d hd
        rwa [Function.update_of_ne hda] at h ⊢
    · rw [Function.update_self, Nat.add_mul_div_right _ _ (Nat.zero_lt_of_lt hpart),
        Nat.div_eq_of_lt hpart, Nat.zero_add]
    · exact (offset_update hnodup haxis (r * s)).symm
  · intro h
    obtain ⟨idx, hidx, rfl, rfl⟩ := h
    have hpos : 0 < s := by
      have h := hidx axis haxis
      rw [hlen] at h
      exact Nat.pos_of_mul_pos_left (Nat.zero_lt_of_lt h)
    refine ⟨Function.update idx axis (idx axis % s), fun d hd => ?_, ?_⟩
    · by_cases hda : d = axis
      · subst hda
        rw [Function.update_self, Function.update_self]
        exact Nat.mod_lt _ hpos
      · rw [Function.update_of_ne hda, Function.update_of_ne hda]
        exact hidx d hd
    · rw [← offset_update hnodup haxis]
      refine offset_congr fun d _ => ?_
      by_cases hda : d = axis
      · subst hda
        rw [Function.update_self, Function.update_self, Nat.mod_add_div']
      · rw [Function.update_of_ne hda, Function.update_of_ne hda]

end TruellmEngine.Lib
