/-
  Texts of code points, each of several units, that arrive in pieces.

  What was received of a text is whole code points and a rest inside of the next one (`Split`).
  The whole part is the longest front of what was received that ends between code points
  (`Split.longest`). If `cut` drops such rests (`Cuts`), then it finds the whole part of the rest
  and of a further piece together (`Split.more`): a receiver needs to carry nothing but the rest.
-/
import Mathlib.Data.List.Infix

namespace TruellmEngine.Lib

variable {γ β : Type*} (encode : γ → List β)

def encodeAll (cs : List γ) : List β := cs.flatMap encode

theorem encodeAll_cons (c : γ) (cs : List γ) :
    encodeAll encode (c :: cs) = encode c ++ encodeAll encode cs :=
  List.flatMap_cons

theorem encodeAll_append (cs ds : List γ) :
    encodeAll encode (cs ++ ds) = encodeAll encode cs ++ encodeAll encode ds :=
  List.flatMap_append

/-- Nothing, or a front of a code point that is not all of it. -/
def Midway (c? : Option γ) (rest : List β) : Prop :=
  rest = [] ∨ ∃ c ∈ c?, rest <+: encode c ∧ rest ≠ encode c

/-- A function that keeps whole code points, and drops a code point that is not complete. -/
def Cuts (cut : List β → List β) : Prop :=
  ∀ cs c? rest, Midway encode c? rest → cut (encodeAll encode cs ++ rest) = encodeAll encode cs

/-- Of the text `done ++ next`, all of `done` was received, and a rest of the next code point. -/
structure Split (done next : List γ) (received rest : List β) : Prop where
  eq : received = encodeAll encode done ++ rest
  midway : Midway encode next.head? rest

theorem exists_split {cs : List γ} {received : List β}
    (h : received <+: encodeAll encode cs) :
    ∃ done next rest, cs = done ++ next ∧ Split encode done next received rest := by
  induction cs generalizing received with
  | nil =>
    obtain rfl := List.prefix_nil.mp h
    exact ⟨[], [], [], rfl, rfl, .inl rfl⟩
  | cons c cs ih =>
    rw [encodeAll_cons] at h
    rcases List.prefix_or_prefix_of_prefix h (List.prefix_append (encode c) _) with hin | hover
    · by_cases hall : received = encode c
      · exact ⟨[c], cs, [], rfl, by rw [hall]; simp [encodeAll], .inl rfl⟩
      · exact ⟨[], c :: cs, received, rfl, rfl, .inr ⟨c, rfl, hin, hall⟩⟩
    · obtain ⟨more, rfl⟩ := hover
      obtain ⟨done, next, rest, rfl, hsplit⟩ := ih ((List.prefix_append_right_inj _).mp h)
      refine ⟨c :: done, next, rest, rfl, ?_, hsplit.midway⟩
      rw [hsplit.eq, ← List.append_assoc]
      rfl

namespace Split

variable {encode} {done next : List γ} {received rest : List β}

/-- A further piece: what is whole of the rest and of the piece follows what was whole. -/
theorem more {cut : List β → List β} (hcut : Cuts encode cut)
    (h : Split encode done next received rest) {piece : List β}
    (hpiece : received ++ piece <+: encodeAll encode (done ++ next)) :
    ∃ now later rest', next = now ++ later ∧ cut (rest ++ piece) = encodeAll encode now ∧
      rest ++ piece = encodeAll encode now ++ rest' ∧
      Split encode (done ++ now) later (received ++ piece) rest' := by
  rw [h.eq, encodeAll_append, List.append_assoc] at hpiece
  obtain ⟨now, later, rest', hnext, hsplit⟩ :=
    exists_split encode ((List.prefix_append_right_inj _).mp hpiece)
  refine ⟨now, later, rest', hnext, ?_, hsplit.eq, ?_, hsplit.midway⟩
  · rw [hsplit.eq]
    exact hcut now _ rest' hsplit.midway
  · rw [h.eq, List.append_assoc, hsplit.eq, encodeAll_append, List.append_assoc]

/-- No longer front of what was received ends between code points. -/
theorem longest (h : Split encode done next received rest) {front : List γ}
    (hfront : front <+: done ++ next) (hreceived : encodeAll encode front <+: received) :
    (encodeAll encode front).length ≤ (encodeAll encode done).length := by
  rcases List.prefix_or_prefix_of_prefix hfront (List.prefix_append done next) with hle | hge
  · obtain ⟨more, rfl⟩ := hle
    rw [encodeAll_append, List.length_append]
    exact Nat.le_add_right _ _
  · obtain ⟨extra, rfl⟩ := hge
    rw [h.eq, encodeAll_append, List.prefix_append_right_inj] at hreceived
    have hextra : extra <+: next := (List.prefix_append_right_inj _).mp hfront
    have hnone : encodeAll encode extra = [] := by
      rcases h.midway with rfl | ⟨c, hc, hrest, hne⟩
      · exact List.prefix_nil.mp hreceived
      · cases extra with
        | nil => rfl
        | cons d extra =>
          -- the rest would hold the next code point
          obtain ⟨later, rfl⟩ := hextra
          cases hc
          have hall : encode c <+: rest := (List.prefix_append _ _).trans hreceived
          have hlength := Nat.le_antisymm hrest.length_le hall.length_le
          exact absurd (hrest.eq_of_length hlength) hne
    rw [encodeAll_append, hnone, List.append_nil]

end Split

end TruellmEngine.Lib
