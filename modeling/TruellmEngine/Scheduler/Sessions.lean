/-
  Which slots hold a session id.

  The warm-slot search stops at the first slot of its session, since "only one slot can
  hold a given session_id". `unique_sessions_iff` says when this is so: exactly when every
  admission whose session id some slot already holds is placed into that slot. The
  condition (`AdmitsIntoHolder`) is on the state before the admission: the holder is warm
  and shares a long enough prefix with the prompt, or no slot is free and no other warm
  slot is the least recently cached. Two requests of one session in flight together break
  it (`shared_session`).
-/
import TruellmEngine.Scheduler.Steps
import Mathlib.Data.List.Induction
import Mathlib.Data.List.Nodup

namespace TruellmEngine.Scheduler

open Lib

/-! ## The least recently cached slot -/

/-- `v` is the first of the warm slots with the smallest `cached_at_us`. -/
def LeastRecent (slots : List Slot) (v : Slot) : Prop :=
  v.isWarm = true ∧ v.cachedAtUs < int64Max ∧
    ∃ i : Nat, slots[i]? = some v ∧ ∀ (j : Nat) (w : Slot), slots[j]? = some w →
      w.isWarm = true → v.cachedAtUs ≤ w.cachedAtUs ∧ (j < i → v.cachedAtUs < w.cachedAtUs)

theorem LeastRecent.unique {slots : List Slot} {v w : Slot} (hv : LeastRecent slots v)
    (hw : LeastRecent slots w) : v = w := by
  obtain ⟨hvw, -, i, hi, hmin⟩ := hv
  obtain ⟨hww, -, j, hj, hmin'⟩ := hw
  have h1 := hmin j w hj hww
  have h2 := hmin' i v hi hvw
  have hij : i = j := by omega
  subst hij
  rw [hi] at hj
  exact Option.some.inj hj

theorem getElem?_append_singleton {slots : List Slot} {x w : Slot} {j : Nat}
    (hj : (slots ++ [x])[j]? = some w) : slots[j]? = some w ∨ (j = slots.length ∧ w = x) := by
  rcases Nat.lt_or_ge j slots.length with hlt | hge
  · rw [List.getElem?_append_left hlt] at hj
    exact Or.inl hj
  · have hlen := (List.getElem?_eq_some_iff.mp hj).1
    rw [List.length_append, List.length_singleton] at hlen
    have hje : j = slots.length := by omega
    rw [hje, List.getElem?_concat_length] at hj
    exact Or.inr ⟨hje, (Option.some.inj hj).symm⟩

/-- The fold of `lruVictim`: nothing so far, or the least recent slot and its time. -/
theorem lruFold_spec (slots : List Slot) :
    let r := slots.foldl (fun best s =>
      if s.isWarm ∧ s.cachedAtUs < best.2 then (some s, s.cachedAtUs) else best)
      ((none : Option Slot), int64Max)
    (r = (none, int64Max) ∧ ∀ s ∈ slots, s.isWarm = true → int64Max ≤ s.cachedAtUs) ∨
      ∃ v, r = (some v, v.cachedAtUs) ∧ LeastRecent slots v := by
  induction slots using List.reverseRecOn with
  | nil => exact Or.inl ⟨rfl, by simp⟩
  | append_singleton slots x ih =>
    have hlast : (slots ++ [x])[slots.length]? = some x := by simp
    simp only [List.foldl_append, List.foldl_cons, List.foldl_nil]
    rcases ih with ⟨hr, hnone⟩ | ⟨v, hr, hvw, hvt, i, hi, hmin⟩
    · rw [hr]
      by_cases hx : x.isWarm = true ∧ x.cachedAtUs < int64Max
      · rw [if_pos hx]
        refine Or.inr ⟨x, rfl, hx.1, hx.2, slots.length, hlast, ?_⟩
        intro j w hj hw
        rcases getElem?_append_singleton hj with hj | ⟨rfl, rfl⟩
        · have hmax := hnone w (List.mem_of_getElem? hj) hw
          omega
        · omega
      · rw [if_neg hx]
        refine Or.inl ⟨rfl, ?_⟩
        intro s hs hw
        rcases List.mem_append.mp hs with hs | hs
        · exact hnone s hs hw
        · rw [List.mem_singleton.mp hs] at hw ⊢
          by_contra hlt
          exact hx ⟨hw, by omega⟩
    · rw [hr]
      have hilt := (List.getElem?_eq_some_iff.mp hi).1
      by_cases hx : x.isWarm = true ∧ x.cachedAtUs < v.cachedAtUs
      · rw [if_pos hx]
        refine Or.inr ⟨x, rfl, hx.1, by omega, slots.length, hlast, ?_⟩
        intro j w hj hw
        rcases getElem?_append_singleton hj with hj | ⟨rfl, rfl⟩
        · have hvle := (hmin j w hj hw).1
          omega
        · omega
      · rw [if_neg hx]
        refine Or.inr ⟨v, rfl, hvw, hvt, i, ?_, ?_⟩
        · rw [List.getElem?_append_left hilt]
          exact hi
        · intro j w hj hw
          rcases getElem?_append_singleton hj with hj | ⟨rfl, rfl⟩
          · exact hmin j w hj hw
          · refine ⟨?_, fun hlt => by omega⟩
            by_contra hlt
            exact hx ⟨hw, by omega⟩

theorem lruVictim_iff {slots : List Slot} {v : Slot} :
    lruVictim slots = some v ↔ LeastRecent slots v := by
  unfold lruVictim
  rcases lruFold_spec slots with ⟨hr, hnone⟩ | ⟨u, hr, hu⟩
  · rw [hr]
    refine ⟨fun h => (Option.some_ne_none v h.symm).elim, ?_⟩
    rintro ⟨hw, hlt, i, hi, -⟩
    have hmax := hnone v (List.mem_of_getElem? hi) hw
    omega
  · rw [hr]
    constructor
    · intro h
      rw [← Option.some.inj h]
      exact hu
    · intro h
      rw [hu.unique h]

/-! ## Steps other than an admission keep or clear a slot's session id -/

structure SessionKept (slot slot' : Slot) : Prop where
  id : slot'.id = slot.id
  session : slot'.cachedSessionId = slot.cachedSessionId ∧
      (slot'.seqId = -1 → slot.seqId = -1) ∨ slot'.cachedSessionId = []

theorem SessionKept.refl (slot : Slot) : SessionKept slot slot :=
  ⟨rfl, Or.inl ⟨rfl, fun h => h⟩⟩

theorem completeSlot_sessionKept (w : World) (slot : Slot) (now : Int) (ec : ErrorCode)
    (msg fr : String) : SessionKept slot (completeSlot w slot now ec msg fr).2 := by
  unfold completeSlot
  dsimp only
  split
  · exact ⟨rfl, Or.inl ⟨rfl, fun h => h⟩⟩
  · exact ⟨rfl, Or.inr rfl⟩

theorem buildSlot_sessionKept (st : World × List BatchEntry) (slot : Slot) :
    SessionKept slot (buildSlot st slot).2 := by
  have kept : ∀ slot' : Slot, slot'.id = slot.id → slot'.cachedSessionId =
      slot.cachedSessionId → slot'.seqId = slot.seqId → SessionKept slot slot' :=
    fun slot' h1 h2 h3 => ⟨h1, Or.inl ⟨h2, fun h => h3 ▸ h⟩⟩
  unfold buildSlot
  split
  · exact SessionKept.refl slot
  · split
    · split
      · split
        · exact kept _ rfl rfl rfl
        · exact SessionKept.refl slot
      · exact kept _ rfl rfl rfl
    · exact kept _ rfl rfl rfl

theorem sampleInChunk_sessionKept (cfg : Config) (o : Oracle) (cs n : Nat) (w : World)
    (slot : Slot) : SessionKept slot (sampleInChunk cfg o cs n w slot).2 := by
  have through : ∀ (slot' : Slot) {slot'' : Slot}, slot'.id = slot.id →
      slot'.cachedSessionId = slot.cachedSessionId → slot'.seqId = slot.seqId →
      SessionKept slot' slot'' → SessionKept slot slot'' := by
    intro slot' _ h1 h2 h3 h
    refine ⟨h.id.trans h1, ?_⟩
    rw [← h2, ← h3]
    exact h.session
  unfold sampleInChunk
  split
  · unfold sampleSlot
    dsimp only
    split
    · exact through (takeSample slot _) rfl rfl rfl (completeSlot_sessionKept _ _ _ _ _ _)
    · split
      · exact through (emitToken (takeSample slot _) _ _) rfl rfl rfl
          (completeSlot_sessionKept _ _ _ _ _ _)
      · exact through (emitToken (takeSample slot _) _ _) rfl rfl rfl (SessionKept.refl _)
  · exact SessionKept.refl slot

theorem failSlot_sessionKept (cs : Nat) (o : Oracle) (w : World) (slot : Slot) :
    SessionKept slot (failSlot cs o w slot).2 := by
  unfold failSlot
  split
  · exact completeSlot_sessionKept w slot _ _ _ _
  · exact SessionKept.refl slot

theorem drainSlot_sessionKept (o : Oracle) (w : World) (slot : Slot) :
    SessionKept slot (drainSlot o w slot).2 := by
  unfold drainSlot
  split
  · refine ⟨completeSlot_id _ _ _ _ _ _, Or.inr ?_⟩
    rw [completeSlot_free _ _ _ _ _ _ (by simp)]
    rfl
  · split
    · exact ⟨rfl, Or.inr rfl⟩
    · exact SessionKept.refl slot

/-- The slots after a step: an admission into the selected slot, or the old slots with
    their session ids kept or cleared. -/
theorem step_slots {cfg : Config} {s t : State} {l : Label} (h : step cfg s l = some t) :
    List.Forall₂ SessionKept s.slots t.slots ∨
      (s.phase = .admission ∧ (∃ o, l = .work o) ∧ ∃ entry rest sel,
        s.queue = entry :: rest ∧ entry.req.tokens ≠ [] ∧
        entry.req.tokens.length < cfg.nCtx ∧ selectSlot s.slots entry.req = some sel ∧
        t.slots = updateSlot s.slots (admitInto cfg s.world entry sel).2) := by
  have same : List.Forall₂ SessionKept s.slots s.slots :=
    List.forall₂_same.mpr fun slot _ => SessionKept.refl slot
  cases step_cases h with
  | accept o hp entry rest hq hne hlen sel hsel =>
    exact Or.inr ⟨hp, ⟨o, rfl⟩, entry, rest, sel, hq, hne, hlen, hsel, rfl⟩
  | submit req hp =>
    left
    unfold submit
    dsimp only
    split
    · exact same
    · exact same
  | build o hp hb => exact Or.inl (forEach_forall₂ buildSlot_sessionKept _ _)
  | decodeFail o cs nb hp hcs hret hfail =>
    exact Or.inl (forEach_forall₂ (failSlot_sessionKept cs o) _ _)
  | decodeOk o cs nb hp hcs hret =>
    exact Or.inl (forEach_forall₂ (sampleInChunk_sessionKept cfg o cs _) _ _)
  | drainSlots o hp => exact Or.inl (forEach_forall₂ (drainSlot_sessionKept o) _ _)
  | stop => exact Or.inl same
  | enter o hp hr => exact Or.inl same
  | leave o hp hr => exact Or.inl same
  | admitDone o hp => exact Or.inl same
  | reject o hp entry rest hq res hres => exact Or.inl same
  | idle o hp hb => exact Or.inl same
  | decodeDone o cs nb hp hcs => exact Or.inl same
  | decodeRetry o cs nb hp hcs hret hnb => exact Or.inl same
  | drainQueue o hp => exact Or.inl same

/-! ## At most one slot for a session id -/

/-- At most one slot, busy or warm, holds any non-empty session id. -/
def UniqueSessions (s : State) : Prop :=
  ∀ sid, sid ≠ [] → (s.slots.filter fun slot => slot.cachedSessionId = sid).length ≤ 1

structure SessionInv (slots : List Slot) : Prop where
  ids : (slots.map Slot.id).Nodup
  free : ∀ slot ∈ slots, slot.seqId = -1 → slot.cachedSessionId = []
  unique : ∀ a ∈ slots, ∀ b ∈ slots, a.cachedSessionId ≠ [] →
    a.cachedSessionId = b.cachedSessionId → a.id = b.id

theorem SessionInv.uniqueSessions {s : State} (h : SessionInv s.slots) :
    UniqueSessions s := by
  intro sid hsid
  have hsub := (List.filter_sublist (p := fun slot => decide (slot.cachedSessionId = sid))
    (l := s.slots)).map Slot.id
  have hnd := h.ids.sublist hsub
  have hmem : ∀ a ∈ s.slots.filter fun slot => slot.cachedSessionId = sid,
      a ∈ s.slots ∧ a.cachedSessionId = sid := by
    intro a ha
    simpa using ha
  match hf : s.slots.filter fun slot => slot.cachedSessionId = sid with
  | [] =>
    rw [hf]
    simp
  | [a] =>
    rw [hf]
    simp
  | a :: b :: rest =>
    rw [hf] at hnd hmem
    obtain ⟨ha, hsa⟩ := hmem a (by simp)
    obtain ⟨hb, hsb⟩ := hmem b (by simp)
    have hid := h.unique a ha b hb (hsa ▸ hsid) (hsa.trans hsb.symm)
    simp [hid] at hnd

/-- Two slots with different ids that hold one session id. -/
theorem not_uniqueSessions {s : State} {a b : Slot} (ha : a ∈ s.slots) (hb : b ∈ s.slots)
    (hid : a.id ≠ b.id) (hsid : a.cachedSessionId ≠ [])
    (hab : a.cachedSessionId = b.cachedSessionId) : ¬ UniqueSessions s := by
  intro h
  have hlen := h a.cachedSessionId hsid
  have ha' : a ∈ s.slots.filter fun slot => slot.cachedSessionId = a.cachedSessionId := by
    simp [ha]
  have hb' : b ∈ s.slots.filter fun slot => slot.cachedSessionId = a.cachedSessionId := by
    simp [hb, hab]
  match hf : s.slots.filter fun slot => slot.cachedSessionId = a.cachedSessionId with
  | [] =>
    rw [hf] at ha'
    cases ha'
  | [c] =>
    rw [hf] at ha' hb'
    rw [List.mem_singleton.mp ha', List.mem_singleton.mp hb'] at hid
    exact hid rfl
  | c :: d :: rest =>
    rw [hf] at hlen
    simp at hlen

theorem SessionInv.of_kept {slots slots' : List Slot} (h : SessionInv slots)
    (hk : List.Forall₂ SessionKept slots slots') : SessionInv slots' := by
  have hids : slots'.map Slot.id = slots.map Slot.id :=
    forall₂_map_eq Slot.id (fun _ _ hab => hab.id) hk
  have origin : ∀ b ∈ slots', b.cachedSessionId ≠ [] → ∃ a ∈ slots, b.id = a.id ∧
      b.cachedSessionId = a.cachedSessionId ∧ (b.seqId = -1 → a.seqId = -1) := by
    intro b hb hne
    obtain ⟨a, ha, hab⟩ := forall₂_mem_right hk hb
    rcases hab.session with ⟨hs, hseq⟩ | hnil
    · exact ⟨a, ha, hab.id, hs, hseq⟩
    · exact absurd hnil hne
  refine ⟨hids ▸ h.ids, ?_, ?_⟩
  · intro b hb hseq
    by_contra hne
    obtain ⟨a, ha, -, hs, hfree⟩ := origin b hb hne
    exact hne (hs.trans (h.free a ha (hfree hseq)))
  · intro b hb b' hb' hne heq
    obtain ⟨a, ha, hid, hs, -⟩ := origin b hb hne
    obtain ⟨a', ha', hid', hs', -⟩ := origin b' hb' (heq ▸ hne)
    rw [hid, hid']
    exact h.unique a ha a' ha' (hs ▸ hne) (hs.symm.trans (heq.trans hs'))

/-! ## The admission of a request whose session a slot holds -/

/-- The request is placed into the slot that holds its session: the slot is warm and
    shares enough of the prompt, or it is the only one an eviction could take. -/
def AdmitsIntoHolder (slots : List Slot) (req : GenerateRequest) (slot : Slot) : Prop :=
  (slot.isWarm = true ∧ kMinReusePrefixToks ≤ commonPrefix slot.cachedTokens req.tokens) ∨
    ((∀ s ∈ slots, s.isFree = false) ∧ ∀ v ∈ slots, LeastRecent slots v → v = slot)

/-- No admission puts a session id next to the slot that holds it. -/
def SessionsStayTogether (cfg : Config) (s : State) : Label → Prop
  | .work _ => s.phase = .admission → ∀ entry rest, s.queue = entry :: rest →
      entry.req.sessionId ≠ [] → entry.req.tokens ≠ [] →
      entry.req.tokens.length < cfg.nCtx →
      ∀ slot ∈ s.slots, slot.cachedSessionId = entry.req.sessionId →
        AdmitsIntoHolder s.slots entry.req slot
  | _ => True

theorem findWarm_holder {req : GenerateRequest} {slots : List Slot} {slot : Slot}
    (hm : slot ∈ slots) (hw : slot.isWarm = true) (hs : slot.cachedSessionId = req.sessionId)
    (huniq : ∀ s ∈ slots, s.cachedSessionId = req.sessionId → s = slot)
    (hlen : kMinReusePrefixToks ≤ commonPrefix slot.cachedTokens req.tokens) :
    findWarm req slots = some (slot, commonPrefix slot.cachedTokens req.tokens) := by
  induction slots with
  | nil => cases hm
  | cons s rest ih =>
    unfold findWarm
    by_cases hsid : s.cachedSessionId = req.sessionId
    · have he := huniq s List.mem_cons_self hsid
      subst he
      simp [hw, hsid, hlen]
    · have hne : s ≠ slot := fun he => hsid (he ▸ hs)
      have hm' : slot ∈ rest := by
        rcases List.mem_cons.mp hm with he | hm
        · exact absurd he.symm hne
        · exact hm
      simp only [hsid, and_false, if_false]
      exact ih hm' fun t ht => huniq t (List.mem_cons_of_mem s ht)

theorem admitInto_sessionId (cfg : Config) (w : World) (entry : PendingRequest)
    (sel : Selection) :
    (admitInto cfg w entry sel).2.cachedSessionId = entry.req.sessionId := by
  cases sel <;> rfl

theorem admitInto_seqId {cfg : Config} {w : World} {entry : PendingRequest}
    {slots : List Slot} {sel : Selection} (h : sel.Sound slots entry.req) :
    (admitInto cfg w entry sel).2.seqId ≠ -1 := by
  have cold : ∀ slot : Slot, (slot.id : Int) ≠ -1 := fun slot => by omega
  cases sel with
  | reuse slot n =>
    have hpos : 0 < n := Nat.lt_of_lt_of_le (by decide) h.2.2.2.2.2
    simp only [admitInto, placePrompt, hpos, if_true]
    exact (Slot.isWarm_iff.mp h.2.1).1
  | free slot => exact cold slot
  | evict slot => exact cold slot

/-- Under the invariant, the request is admitted into the slot that holds its session
    exactly under `AdmitsIntoHolder`. -/
theorem selectSlot_holder {slots : List Slot} {req : GenerateRequest} {sel : Selection}
    {slot : Slot} (h : SessionInv slots) (hsel : selectSlot slots req = some sel)
    (hsid : req.sessionId ≠ []) (hm : slot ∈ slots)
    (hs : slot.cachedSessionId = req.sessionId) :
    sel.slot = slot ↔ AdmitsIntoHolder slots req slot := by
  have huniq : ∀ s ∈ slots, s.cachedSessionId = req.sessionId → s = slot := by
    intro s hsm hss
    have hid := h.unique s hsm slot hm (hss ▸ hsid) (hss.trans hs.symm)
    exact List.inj_on_of_nodup_map h.ids hsm hm hid
  have notFree : ∀ s ∈ slots, s.isFree = true → s ≠ slot := by
    rintro s hsm hf rfl
    exact hsid (hs.symm.trans (h.free s hsm (Slot.isFree_iff.mp hf)))
  have noReuse : ∀ sel', selectSlot slots req = some sel' → (∀ s n, sel' ≠ .reuse s n) →
      ¬ (slot.isWarm = true ∧
        kMinReusePrefixToks ≤ commonPrefix slot.cachedTokens req.tokens) := by
    rintro sel' hsel' hno ⟨hw, hlen⟩
    have hf := findWarm_holder hm hw hs huniq hlen
    simp only [selectSlot, hsid, ne_eq, not_false_eq_true, if_true, hf,
      Option.some.injEq] at hsel'
    exact hno _ _ hsel'.symm
  have hsound := selectSlot_sound hsel
  cases sel with
  | reuse s n =>
    obtain ⟨hsm, hw, -, hss, hn, hmin⟩ := hsound
    have he := huniq s hsm hss
    subst he
    exact ⟨fun _ => Or.inl ⟨hw, hn ▸ hmin⟩, fun _ => rfl⟩
  | free s =>
    obtain ⟨hsm, hf⟩ := hsound
    refine ⟨fun he => absurd he (notFree s hsm hf), ?_⟩
    rintro (hr | ⟨hnf, -⟩)
    · exact absurd hr (noReuse _ hsel (by simp))
    · rw [hnf s hsm] at hf
      cases hf
  | evict v =>
    obtain ⟨hvm, -, hnf, hv⟩ := hsound
    have hlru := lruVictim_iff.mp hv
    constructor
    · intro he
      refine Or.inr ⟨?_, ?_⟩
      · simpa using hnf
      · intro u _ hu
        exact (hu.unique hlru).trans he
    · rintro (hr | ⟨-, hall⟩)
      · exact absurd hr (noReuse _ hsel (by simp))
      · exact hall v hvm hlru

/-- With a slot outside `AdmitsIntoHolder`, some slot can be selected. -/
theorem selectSlot_isSome {slots : List Slot} {req : GenerateRequest} {slot : Slot}
    (h : ¬ AdmitsIntoHolder slots req slot) : ∃ sel, selectSlot slots req = some sel := by
  unfold selectSlot
  split
  · exact ⟨_, rfl⟩
  · split
    · exact ⟨_, rfl⟩
    · rename_i hnf
      cases hv : lruVictim slots with
      | some v => exact ⟨.evict v, rfl⟩
      | none =>
        refine absurd (Or.inr ⟨by simpa using hnf, ?_⟩) h
        intro v _ hlru
        rw [lruVictim_iff.mpr hlru] at hv
        cases hv

/-! ## Runs -/

variable {cfg : Config} {s t : State}

theorem sessionInv_init : SessionInv (init cfg).slots := by
  have hids : (init cfg).slots.map Slot.id = List.range cfg.maxSeqs := by
    simp [init, Function.comp_def]
  have hnil : ∀ slot ∈ (init cfg).slots, slot.cachedSessionId = [] := by
    intro slot hs
    obtain ⟨i, -, rfl⟩ := List.mem_map.mp hs
    rfl
  refine ⟨?_, fun slot hs _ => hnil slot hs, fun a ha b _ hne _ => absurd (hnil a ha) hne⟩
  rw [hids]
  exact List.nodup_range

theorem sessionInv_step {l : Label} (h : SessionInv s.slots)
    (hok : SessionsStayTogether cfg s l) (hst : step cfg s l = some t) :
    SessionInv t.slots := by
  rcases step_slots hst with hk | ⟨hp, ⟨o, rfl⟩, entry, rest, sel, hq, hne, hlen, hsel, ht⟩
  · exact h.of_kept hk
  · have hid := admitInto_id cfg s.world entry sel
    have hsid := admitInto_sessionId cfg s.world entry sel
    have hsound := selectSlot_sound hsel
    -- another slot that holds the session would be the selected one
    have hother : ∀ b ∈ s.slots, b.id ≠ sel.slot.id → entry.req.sessionId ≠ [] →
        b.cachedSessionId ≠ entry.req.sessionId := by
      intro b hb hbid hs0 hbs
      have hin := hok hp entry rest hq hs0 hne hlen b hb hbs
      have he := (selectSlot_holder h hsel hs0 hb hbs).mpr hin
      exact hbid (by rw [he])
    rw [ht]
    refine ⟨?_, ?_, ?_⟩
    · rw [updateSlot_ids]
      exact h.ids
    · intro b hb hseq
      rcases mem_updateSlot hb with rfl | ⟨hb, -⟩
      · exact absurd hseq (admitInto_seqId hsound)
      · exact h.free b hb hseq
    · intro a ha b hb hne' hab
      rcases mem_updateSlot ha with rfl | ⟨ha, hia⟩
      · rcases mem_updateSlot hb with rfl | ⟨hb, hib⟩
        · rfl
        · rw [hsid] at hne' hab
          exact absurd hab.symm (hother b hb (hid ▸ hib) hne')
      · rcases mem_updateSlot hb with rfl | ⟨hb, hib⟩
        · rw [hsid] at hab
          exact absurd hab (hother a ha (hid ▸ hia) (hab ▸ hne'))
        · exact h.unique a ha b hb hne' hab

theorem not_uniqueSessions_of_admission {l : Label} (h : SessionInv s.slots)
    (hbad : ¬ SessionsStayTogether cfg s l) (hst : step cfg s l = some t) :
    ¬ UniqueSessions t := by
  cases l with
  | submit req => exact absurd trivial hbad
  | stop => exact absurd trivial hbad
  | work o =>
    simp only [SessionsStayTogether, not_forall] at hbad
    obtain ⟨hp, entry, rest, hq, hsid, hne, hlen, slot, hm, hs, hout⟩ := hbad
    obtain ⟨sel, hsel⟩ := selectSlot_isSome hout
    have hsound := selectSlot_sound hsel
    have hdiff : slot.id ≠ (admitInto cfg s.world entry sel).2.id := by
      rw [admitInto_id]
      intro hid
      have he := List.inj_on_of_nodup_map h.ids hm hsound.mem hid
      exact hout ((selectSlot_holder h hsel hsid hm hs).mp he.symm)
    have ht : t.slots = updateSlot s.slots (admitInto cfg s.world entry sel).2 := by
      have hlt : ¬ cfg.nCtx ≤ entry.req.tokens.length := by omega
      simp only [step, workerStep, hp, tryAdmitFront, hq, hne, hlt, if_false, hsel,
        Option.some.injEq] at hst
      rw [← hst]
    have hnew : (admitInto cfg s.world entry sel).2 ∈ t.slots := by
      rw [ht]
      exact mem_updateSlot_self hsound.mem (admitInto_id cfg s.world entry sel).symm
    have hold : slot ∈ t.slots := by
      rw [ht]
      exact mem_updateSlot_other hm hdiff
    refine not_uniqueSessions hold hnew hdiff (hs ▸ hsid) ?_
    rw [hs, admitInto_sessionId]

/-- At most one slot holds any session id in every state of a run exactly when every
    admission of the run finds its session in no slot or goes into the slot that holds
    it. -/
theorem unique_sessions_iff (cfg : Config) (ls : List Label) :
    AllStates (step cfg) UniqueSessions (init cfg) ls ↔
      AllSteps (step cfg) (SessionsStayTogether cfg) (init cfg) ls := by
  refine allStates_iff_allSteps (I := fun s => SessionInv s.slots) ?_ ?_ ?_
    sessionInv_init ls
  · exact fun s h => h.uniqueSessions
  · exact fun s l t h hok hst => sessionInv_step h hok hst
  · exact fun s l t h hbad hst => not_uniqueSessions_of_admission h hbad hst

/-- Two requests of one session submitted one after the other, with two free slots. -/
def sharedSessionRun : List Label :=
  .submit { tokens := [1], sessionId := [115] } ::
    .submit { tokens := [3], sessionId := [115] } :: works 3 7

/-- Both are admitted, each into a slot of its own. -/
theorem shared_session :
    ¬ AllStates (step (tinyConfig 8 2)) UniqueSessions (init (tinyConfig 8 2))
      sharedSessionRun := by
  have hrun : (run (step (tinyConfig 8 2)) (init (tinyConfig 8 2)) sharedSessionRun).map
      (fun t => (t.slots.filter fun slot => slot.cachedSessionId = [115]).length) = some 2 := by
    decide +kernel
  obtain ⟨t, ht, hlen⟩ := Option.map_eq_some_iff.mp hrun
  intro h
  have hone := h.last ht [115] (by simp)
  omega

end TruellmEngine.Scheduler
