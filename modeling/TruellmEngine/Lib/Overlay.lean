/-
  Documents laid over records, field by field.

  A document is a tree whose nodes have children by name. A field of a record has a path into
  the document, a reader of what is found there, and its place in the record. A field of a part
  of the record is one of the record, a level deeper in the document (`within`).

  `Overlays`: each field is as the document gives it, or as it was. A reader may pass a value
  that was there on in another form, so this is asked of `stable` values only.
-/
import Mathlib.Data.List.Basic

namespace TruellmEngine.Lib

variable {κ V β σ τ : Type*} (child : V → κ → Option V)

/-- The node at a path. -/
def follow : V → List κ → Option V
  | v, [] => some v
  | v, k :: path => (child v k).bind fun w => follow w path

structure DocField (κ V β σ : Type*) where
  path : List κ
  read : V → Option β
  stable : β → Prop
  get : σ → β

namespace DocField

/-- The field as one of the enclosing record. -/
def within (k : κ) (part : τ → σ) (f : DocField κ V β σ) : DocField κ V β τ where
  path := k :: f.path
  read := f.read
  stable := f.stable
  get t := f.get (part t)

/-- What a document gives. -/
def given (f : DocField κ V β σ) (v : V) : Option β := (follow child v f.path).bind f.read

end DocField

/-- `s'` is `s` with the document laid over it. -/
def Overlays (fields : List (DocField κ V β σ)) (v : V) (s s' : σ) : Prop :=
  ∀ f ∈ fields, f.stable (f.get s) → f.get s' = (f.given child v).getD (f.get s)

namespace Overlays

variable {child} {fields : List (DocField κ V β σ)} {v : V} {k : κ} {part : τ → σ}

theorem append {more : List (DocField κ V β σ)} {s s' : σ} (h : Overlays child fields v s s')
    (hmore : Overlays child more v s s') : Overlays child (fields ++ more) v s s' := by
  intro f hf
  exact (List.mem_append.mp hf).elim (h f) (hmore f)

/-- A part with a document of its own. -/
theorem within {w : V} {t t' : τ} (hw : child v k = some w)
    (h : Overlays child fields w (part t) (part t')) :
    Overlays child (fields.map (·.within k part)) v t t' := by
  intro f hf
  obtain ⟨g, hg, rfl⟩ := List.mem_map.mp hf
  intro hstable
  have hgiven : (g.within k part).given child v = g.given child w := by
    show ((child v k).bind fun w => follow child w g.path).bind g.read = g.given child w
    rw [hw]
    rfl
  rw [hgiven]
  exact h g hg hstable

/-- A part that the document does not mention. -/
theorem absent {t t' : τ} (hk : child v k = none) (h : part t' = part t) :
    Overlays child (fields.map (·.within k part)) v t t' := by
  intro f hf _
  obtain ⟨g, hg, rfl⟩ := List.mem_map.mp hf
  have hgiven : (g.within k part).given child v = none := by
    show ((child v k).bind fun w => follow child w g.path).bind g.read = none
    rw [hk]
    rfl
  rw [hgiven]
  exact congrArg g.get h

end Overlays

end TruellmEngine.Lib
