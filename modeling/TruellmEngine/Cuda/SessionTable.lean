/-
  The session table of `CudaEngine` (`active_sessions_`) under concurrent calls of `generate`.

  The routers name a request by its endpoint and the second it arrives in; `generate` files
  its sequence under that name and takes the name out again when it returns. Nothing makes the
  names different. `ownEntries_iff`: an injection into a call in flight finds that call's own
  sequence exactly while no call is registered under the name of one in flight.

  The steps are the critical sections of `active_sessions_mu_`, and the issue of a call. A
  sequence id is drawn from `next_seq_id_`; that its 64 bits run over is left out.
-/
import TruellmEngine.Lib.Run
import Mathlib.Data.List.AList
import Mathlib.Logic.Function.Basic

namespace TruellmEngine.Cuda

open Lib

/-- The handlers that issue named requests. -/
inductive Endpoint where
  | completions
  | chatCompletions
  deriving DecidableEq, Repr

def Endpoint.tag : Endpoint → String
  | .completions => "cmpl-"
  | .chatCompletions => "chatcmpl-"

/-- `"chatcmpl-" + std::to_string(unix_now())`. -/
def reqId (ep : Endpoint) (unixNow : Nat) : String := ep.tag ++ unixNow.repr

structure ActiveSession where
  seqId : Nat
  kvSeqLen : Nat
  deriving DecidableEq, Repr

inductive Stage where
  | issued
  | inFlight
  | returned
  deriving DecidableEq, Repr

/-- A call of `generate`: the request's endpoint and second, the sequence id it drew, and the
    length of its sequence. -/
structure NamedCall where
  endpoint : Endpoint
  second : Nat
  seqId : Nat
  kvSeqLen : Nat := 0
  stage : Stage := .issued
  deriving DecidableEq, Repr

def NamedCall.requestId (c : NamedCall) : String := reqId c.endpoint c.second

structure SessionTable where
  nextSeqId : Nat := 1
  activeSessions : AList fun _ : String => ActiveSession := ∅
  calls : Nat → Option NamedCall := fun _ => none

namespace SessionTable

/-! ## The engine's operations -/

def registerActiveSession (s : SessionTable) (requestId : String) (seqId initialLen : Nat) :
    SessionTable :=
  { s with activeSessions := s.activeSessions.insert requestId ⟨seqId, initialLen⟩ }

def unregisterActiveSession (s : SessionTable) (requestId : String) : SessionTable :=
  { s with activeSessions := s.activeSessions.erase requestId }

def updateSessionKvLen (s : SessionTable) (requestId : String) (newLen : Nat) : SessionTable :=
  match s.activeSessions.lookup requestId with
  | none => s
  | some e =>
    { s with activeSessions := s.activeSessions.insert requestId { e with kvSeqLen := newLen } }

/-- What `inject_tokens` finds. -/
def lookup (s : SessionTable) (requestId : String) : Option ActiveSession :=
  s.activeSessions.lookup requestId

def setCall (s : SessionTable) (i : Nat) (c : NamedCall) : SessionTable :=
  { s with calls := Function.update s.calls i (some c) }

/-! ## Steps -/

inductive SessionStep where
  /-- A router issues call `i`, which draws its sequence id. -/
  | issue (i : Nat) (ep : Endpoint) (unixNow : Nat)
  | register (i : Nat)
  | update (i : Nat) (newLen : Nat)
  /-- The destructor of the session guard. -/
  | unregister (i : Nat)

def step (s : SessionTable) : SessionStep → Option SessionTable
  | .issue i ep unixNow =>
    match s.calls i with
    | some _ => none
    | none =>
      some { s.setCall i { endpoint := ep, second := unixNow, seqId := s.nextSeqId } with
        nextSeqId := s.nextSeqId + 1 }
  | .register i =>
    match s.calls i with
    | none => none
    | some c =>
      if c.stage = .issued then
        some ((s.registerActiveSession c.requestId c.seqId 0).setCall i
          { c with stage := .inFlight, kvSeqLen := 0 })
      else none
  | .update i newLen =>
    match s.calls i with
    | none => none
    | some c =>
      if c.stage = .inFlight then
        some ((s.updateSessionKvLen c.requestId newLen).setCall i { c with kvSeqLen := newLen })
      else none
  | .unregister i =>
    match s.calls i with
    | none => none
    | some c =>
      if c.stage = .inFlight then
        some ((s.unregisterActiveSession c.requestId).setCall i { c with stage := .returned })
      else none

/-- The name of each call in flight leads to the call's own sequence and length. -/
def OwnEntries (s : SessionTable) : Prop :=
  ∀ i c, s.calls i = some c → c.stage = .inFlight →
    s.lookup c.requestId = some ⟨c.seqId, c.kvSeqLen⟩

/-- A call is registered while none of the same endpoint and second is in flight. -/
def NameFree (s : SessionTable) : SessionStep → Prop
  | .register i => ∀ c, s.calls i = some c → ∀ j d, s.calls j = some d → d.stage = .inFlight →
      ¬ (d.endpoint = c.endpoint ∧ d.second = c.second)
  | _ => True

/-! ## Names -/

theorem repr_inj {t t' : Nat} (h : t.repr = t'.repr) : t = t' := by
  have hdigits : Nat.toDigits 10 t = Nat.toDigits 10 t' := by
    rw [← Nat.toList_repr, ← Nat.toList_repr, h]
  rw [← Nat.ofDigitChars_ten_toDigits (n := t), hdigits, Nat.ofDigitChars_ten_toDigits]

/-- The names tell the endpoint and the second, and nothing else. -/
theorem reqId_inj {ep ep' : Endpoint} {t t' : Nat} :
    reqId ep t = reqId ep' t' ↔ ep = ep' ∧ t = t' := by
  constructor
  · intro h
    have hchars : ep.tag.toList ++ t.repr.toList = ep'.tag.toList ++ t'.repr.toList := by
      rw [← String.toList_append, ← String.toList_append]
      exact congrArg String.toList h
    have hsame : ∀ e : Endpoint, e.tag.toList ++ t.repr.toList = e.tag.toList ++ t'.repr.toList →
        t = t' := fun e he => repr_inj (String.toList_injective (List.append_cancel_left he))
    cases ep with
    | completions =>
      cases ep' with
      | completions => exact ⟨rfl, hsame _ hchars⟩
      | chatCompletions => simp [Endpoint.tag] at hchars
    | chatCompletions =>
      cases ep' with
      | completions => simp [Endpoint.tag] at hchars
      | chatCompletions => exact ⟨rfl, hsame _ hchars⟩
  · rintro ⟨rfl, rfl⟩
    rfl

/-! ## Runs -/

/-- The entries lead home, and no two calls drew the same sequence id. -/
structure Sound (s : SessionTable) : Prop where
  own : OwnEntries s
  drawn : ∀ i c, s.calls i = some c → c.seqId < s.nextSeqId
  distinct : ∀ i j c d, s.calls i = some c → s.calls j = some d → c.seqId = d.seqId → i = j

variable {s t : SessionTable} {i : Nat} {c : NamedCall}

theorem calls_setCall (s : SessionTable) (i : Nat) (c : NamedCall) (j : Nat) :
    (s.setCall i c).calls j = if j = i then some c else s.calls j :=
  Function.update_apply ..

theorem calls_updateSessionKvLen (s : SessionTable) (r : String) (n : Nat) :
    (s.updateSessionKvLen r n).calls = s.calls ∧
      (s.updateSessionKvLen r n).nextSeqId = s.nextSeqId := by
  unfold updateSessionKvLen
  split
  · exact ⟨rfl, rfl⟩
  · exact ⟨rfl, rfl⟩

/-- The names of calls in flight are different. -/
theorem Sound.names (h : Sound s) {j : Nat} {d : NamedCall} (hc : s.calls i = some c)
    (hd : s.calls j = some d) (hci : c.stage = .inFlight) (hdi : d.stage = .inFlight)
    (hname : d.requestId = c.requestId) : j = i := by
  have hci' := h.own i c hc hci
  have hdi' := h.own j d hd hdi
  rw [hname, hci'] at hdi'
  have hseq : d.seqId = c.seqId := (congrArg ActiveSession.seqId (Option.some.inj hdi')).symm
  exact h.distinct j i d c hd hc hseq

/-- Call `i` goes on as `c'`, with the sequence id it has. -/
theorem Sound.replace {u : SessionTable} {c' : NamedCall} (h : Sound s)
    (hc : s.calls i = some c) (hseq : c'.seqId = c.seqId) (hcalls : u.calls = s.calls)
    (hnext : u.nextSeqId = s.nextSeqId)
    (hself : c'.stage = .inFlight → u.lookup c'.requestId = some ⟨c'.seqId, c'.kvSeqLen⟩)
    (hothers : ∀ j d, j ≠ i → s.calls j = some d → d.stage = .inFlight →
      u.lookup d.requestId = s.lookup d.requestId) : Sound (u.setCall i c') := by
  have hat : ∀ j d, (u.setCall i c').calls j = some d →
      (j = i ∧ d = c') ∨ (j ≠ i ∧ s.calls j = some d) := by
    intro j d hd
    rw [calls_setCall, hcalls] at hd
    split at hd
    · rename_i hj
      cases hd
      exact Or.inl ⟨hj, rfl⟩
    · rename_i hj
      exact Or.inr ⟨hj, hd⟩
  constructor
  · intro j d hd hflight
    rcases hat j d hd with ⟨-, rfl⟩ | ⟨hj, hd⟩
    · exact hself hflight
    · exact (hothers j d hj hd hflight).trans (h.own j d hd hflight)
  · intro j d hd
    change d.seqId < u.nextSeqId
    rw [hnext]
    rcases hat j d hd with ⟨-, rfl⟩ | ⟨-, hd⟩
    · rw [hseq]
      exact h.drawn i c hc
    · exact h.drawn j d hd
  · intro j k d d' hd hd' hsame
    rcases hat j d hd with ⟨rfl, rfl⟩ | ⟨-, hdold⟩
    · rcases hat k d' hd' with ⟨rfl, -⟩ | ⟨-, hd'⟩
      · rfl
      · exact h.distinct j k c d' hc hd' (hseq.symm.trans hsame)
    · rcases hat k d' hd' with ⟨rfl, rfl⟩ | ⟨-, hd'⟩
      · exact h.distinct j k d c hdold hc (hsame.trans hseq)
      · exact h.distinct j k d d' hdold hd' hsame

theorem lookup_update_self {e : ActiveSession} {r : String} {n : Nat} (h : s.lookup r = some e) :
    (s.updateSessionKvLen r n).lookup r = some { e with kvSeqLen := n } := by
  unfold lookup at h ⊢
  unfold updateSessionKvLen
  rw [h]
  exact AList.lookup_insert _

theorem lookup_update_ne {r r' : String} {n : Nat} (h : r' ≠ r) :
    (s.updateSessionKvLen r n).lookup r' = s.lookup r' := by
  unfold lookup updateSessionKvLen
  split
  · rfl
  · exact AList.lookup_insert_ne h

theorem sound_issue {ep : Endpoint} {unixNow : Nat} (h : Sound s) (hnew : s.calls i = none) :
    Sound { s.setCall i { endpoint := ep, second := unixNow, seqId := s.nextSeqId } with
      nextSeqId := s.nextSeqId + 1 } := by
  have hat : ∀ j d, (s.setCall i
      { endpoint := ep, second := unixNow, seqId := s.nextSeqId }).calls j = some d →
      (j = i ∧ d = { endpoint := ep, second := unixNow, seqId := s.nextSeqId }) ∨
        s.calls j = some d := by
    intro j d hd
    rw [calls_setCall] at hd
    split at hd
    · rename_i hj
      cases hd
      exact Or.inl ⟨hj, rfl⟩
    · exact Or.inr hd
  constructor
  · intro j d hd hflight
    rcases hat j d hd with ⟨-, rfl⟩ | hold
    · cases hflight
    · exact h.own j d hold hflight
  · intro j d hd
    change d.seqId < s.nextSeqId + 1
    rcases hat j d hd with ⟨-, rfl⟩ | hold
    · exact Nat.lt_succ_self _
    · exact Nat.lt_succ_of_lt (h.drawn j d hold)
  · intro j k d d' hd hd' hsame
    rcases hat j d hd with ⟨rfl, rfl⟩ | hold
    · rcases hat k d' hd' with ⟨rfl, -⟩ | hold'
      · rfl
      · have hlt := h.drawn k d' hold'
        exact absurd hsame (Nat.ne_of_gt hlt)
    · rcases hat k d' hd' with ⟨rfl, rfl⟩ | hold'
      · have hlt := h.drawn j d hold
        exact absurd hsame (Nat.ne_of_lt hlt)
      · exact h.distinct j k d d' hold hold' hsame

theorem sound_register (h : Sound s) (hc : s.calls i = some c)
    (hfree : ∀ j d, s.calls j = some d → d.stage = .inFlight → d.requestId ≠ c.requestId) :
    Sound ((s.registerActiveSession c.requestId c.seqId 0).setCall i
      { c with stage := .inFlight, kvSeqLen := 0 }) := by
  refine h.replace hc rfl rfl rfl ?_ ?_
  · intro _
    exact AList.lookup_insert _
  · intro j d _ hd hflight
    exact AList.lookup_insert_ne (hfree j d hd hflight)

theorem sound_update {newLen : Nat} (h : Sound s) (hc : s.calls i = some c)
    (hflight : c.stage = .inFlight) :
    Sound ((s.updateSessionKvLen c.requestId newLen).setCall i { c with kvSeqLen := newLen }) := by
  obtain ⟨hcalls, hnext⟩ := calls_updateSessionKvLen s c.requestId newLen
  refine h.replace hc rfl hcalls hnext ?_ ?_
  · intro _
    exact lookup_update_self (h.own i c hc hflight)
  · intro j d hj hd hdi
    exact lookup_update_ne fun hname => hj (h.names hc hd hflight hdi hname)

theorem sound_unregister (h : Sound s) (hc : s.calls i = some c) (hflight : c.stage = .inFlight) :
    Sound ((s.unregisterActiveSession c.requestId).setCall i { c with stage := .returned }) := by
  refine h.replace hc rfl rfl rfl ?_ ?_
  · intro hreturned
    cases hreturned
  · intro j d hj hd hdi
    exact AList.lookup_erase_ne fun hname => hj (h.names hc hd hflight hdi hname)

theorem sound_step {a : SessionStep} (h : Sound s) (hok : NameFree s a) (ht : step s a = some t) :
    Sound t := by
  cases a with
  | issue i ep unixNow =>
    simp only [step] at ht
    split at ht
    · cases ht
    · rename_i hnew
      cases ht
      exact sound_issue h hnew
  | register i =>
    simp only [step] at ht
    split at ht
    · cases ht
    · rename_i c hc
      split at ht
      · cases ht
        refine sound_register h hc ?_
        intro j d hd hflight hname
        exact hok c hc j d hd hflight (reqId_inj.mp hname)
      · cases ht
  | update i newLen =>
    simp only [step] at ht
    split at ht
    · cases ht
    · rename_i c hc
      split at ht
      · rename_i hflight
        cases ht
        exact sound_update h hc hflight
      · cases ht
  | unregister i =>
    simp only [step] at ht
    split at ht
    · cases ht
    · rename_i c hc
      split at ht
      · rename_i hflight
        cases ht
        exact sound_unregister h hc hflight
      · cases ht

/-- The entry of a call in flight is overwritten by one of its name. -/
theorem not_ownEntries {a : SessionStep} (h : Sound s) (hbad : ¬ NameFree s a)
    (ht : step s a = some t) : ¬ OwnEntries t := by
  cases a with
  | issue i ep unixNow => exact absurd trivial hbad
  | update i newLen => exact absurd trivial hbad
  | unregister i => exact absurd trivial hbad
  | register i =>
    simp only [NameFree] at hbad
    push Not at hbad
    obtain ⟨c, hc, j, d, hd, hflight, hname⟩ := hbad
    simp only [step, hc] at ht
    split at ht
    · rename_i hissued
      cases ht
      have hj : j ≠ i := by
        rintro rfl
        rw [hd] at hc
        cases hc
        rw [hissued] at hflight
        cases hflight
      intro hown
      have hentry := hown j d (by rw [calls_setCall, if_neg hj]; exact hd) hflight
      have hsame : d.requestId = c.requestId := reqId_inj.mpr hname
      rw [hsame] at hentry
      have hnew : (some ⟨c.seqId, 0⟩ : Option ActiveSession) = some ⟨d.seqId, d.kvSeqLen⟩ :=
        (AList.lookup_insert s.activeSessions).symm.trans hentry
      have hseq : c.seqId = d.seqId := congrArg ActiveSession.seqId (Option.some.inj hnew)
      exact hj (h.distinct j i d c hd hc hseq.symm)
    · cases ht

/-- Each call in flight finds its own sequence and length under its name, in all states of a
    run, exactly when every call of the run is registered while none of the same endpoint and
    second is in flight. -/
theorem ownEntries_iff (as : List SessionStep) :
    AllStates step OwnEntries {} as ↔ AllSteps step NameFree {} as := by
  refine allStates_iff_allSteps (I := Sound) (fun _ h => h.own) ?_ ?_ ?_ as
  · exact fun s a t h hok ht => sound_step h hok ht
  · exact fun s a t h hbad ht => not_ownEntries h hbad ht
  · refine ⟨?_, ?_, ?_⟩
    · intro i c hc
      cases hc
    · intro i c hc
      cases hc
    · intro i j c d hc
      cases hc

/-- Two chat requests in one second: the second one takes the first one's name. -/
theorem same_second_not_ownEntries :
    ¬ AllStates step OwnEntries {} [.issue 0 .chatCompletions 1700000000, .register 0,
      .issue 1 .chatCompletions 1700000000, .register 1] := by
  intro h
  have hlast := h.last rfl
  have hentry := hlast 0 _ rfl rfl
  exact absurd hentry (by decide)

end SessionTable

end TruellmEngine.Cuda
