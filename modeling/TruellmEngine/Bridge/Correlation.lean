/-
  Correlation of calls and replies.

  `Inv` carries it: an entry of the table belongs to a call that waits under that id, and a
  future has the value of a frame with the id of its call. So a frame touches the call of
  its own id only (`onlyOwn_onMessage`), and an entry is gone when its call ends.

  What a call makes of its reply is another matter: it reads `error` alone, neither the type
  of the message nor its `ok`. `correlated_iff`: along a run the calls end as their replies
  say exactly when every reply without an error is of the right type and reports success
  (and no frame ends the process). `unsuccessful_ok` is a reply with `"ok": false`.
-/
import TruellmEngine.Bridge.ReceivePath

namespace TruellmEngine.Bridge

open Lib Json

namespace IpcClient

/-! ## Replies and their calls -/

/-- Success as the replies document it: `ok` in a `tool_response`. The ack of a heartbeat has
    no such field, and reports a failure only by one that is not `true`. -/
def ReportsSuccess (request : IpcRequest) (body : Json) : Prop :=
  match request with
  | .callTool req =>
    if req.isHeartbeat = true then
      body.field? "type" = some (.string "heartbeat_ack") ∧
        ∀ ok ∈ body.field? "ok", ok = .boolean true
    else
      body.field? "type" = some (.string "tool_response") ∧
        body.field? "ok" = some (.boolean true)
  | .runPreprocessor _ => True

/-- Calls that ended have the result of their own reply, and no entry. -/
structure Correlated (s : IpcClient) : Prop where
  /-- A result with `ok` is the payload of the frame that resolved the call, which carries
      its id and reports success. -/
  owned : ∀ i c r, s.calls i = some c → c.stage = .ended (.tool r) → r.ok = true →
    ∃ body ∈ s.received, c.future = .value body ∧ correlationId body = .ok c.cid ∧
      ReportsSuccess c.request body ∧ value getString body "payload" "" = .ok r.payload
  gone : ∀ i c o, s.calls i = some c → c.stage = .ended o → ∀ cid, s.pending cid ≠ some i
  /-- No frame has failed all calls by ending the process. -/
  alive : s.terminated = false

/-- A frame changes the call and the entry of its own id at most, and ends no call. -/
structure OnlyOwn (text : JsonText) (s : IpcClient) (raw : List UInt8) (t : IpcClient) :
    Prop where
  calls : ∀ i, t.calls i = s.calls i ∨ ∃ msg c f, text.parse raw = some msg ∧
    correlationId msg = .ok c.cid ∧ s.pending c.cid = some i ∧ s.calls i = some c ∧
    t.calls i = some { c with future := f }
  pending : ∀ cid, t.pending cid = s.pending cid ∨
    ∃ msg, text.parse raw = some msg ∧ correlationId msg = .ok cid

/-- Frames change nothing of other calls. -/
def FramesOnlyOwn (text : JsonText) (cb : Callbacks) (s : IpcClient) (m : Move) : Prop :=
  ∀ raw t, m = .frame raw → step text cb s m = some t → OnlyOwn text s raw t

/-- What `call_tool` takes for success: no error, and strings for the payload and the
    message. -/
def NoError (body : Json) : Prop :=
  Field isArithmetic body "error" ∧ valueAt getInt body "error" 0 = 0 ∧
    Field isString body "payload" ∧ Field isString body "error_msg"

/-- No frame ends the process, and a reply without an error that a call takes is of the
    right type and reports success. -/
def RepliesHonest (text : JsonText) (cb : Callbacks) (s : IpcClient) : Move → Prop
  | .frame raw => ∀ msg, text.parse raw = some msg → DocumentReadable cb msg
  | .call i .wake => ∀ c body, s.calls i = some c → c.future = .value body → NoError body →
      ReportsSuccess c.request body
  | _ => True

theorem toolReply_ok {body : Json} {r : ToolCallResponse} (h : toolReply body = .ok r) :
    (r.ok = true ↔ NoError body) ∧ value getString body "payload" "" = .ok r.payload := by
  have hok := isOk_iff.mpr ⟨r, h⟩
  obtain ⟨herror, hpayload, hmsg⟩ := (toolReply_isOk body).mp hok
  have hp := value_eq ((valueString_isOk body "payload" "").mpr hpayload)
  unfold toolReply at h
  rw [value_eq ((valueInt_isOk body "error" 0).mpr herror), hp,
    value_eq ((valueString_isOk body "error_msg" "").mpr hmsg)] at h
  cases h
  refine ⟨?_, hp⟩
  simp [NoError, herror, hpayload, hmsg]

/-- Which replies give a tool result. -/
theorem replied_tool {request : IpcRequest} {body : Json} {r : ToolCallResponse} :
    replied request body = .tool r ↔ (∃ req, request = .callTool req) ∧ toolReply body = .ok r := by
  unfold replied
  cases request with
  | callTool req =>
    cases hreply : toolReply body with
    | ok r' => simp
    | error e => simp
  | runPreprocessor req =>
    cases preprocessReply body with
    | ok r' => simp
    | error e => simp

/-! ## The invariant -/

structure Inv (s : IpcClient) : Prop where
  entry : ∀ cid i, s.pending cid = some i → ∃ c, s.calls i = some c ∧ c.cid = cid ∧
    c.future = .unset ∧ c.stage ≠ .drawn ∧ ∀ o, c.stage ≠ .ended o
  own : ∀ i c body, s.calls i = some c → c.future = .value body →
    body ∈ s.received ∧ correlationId body = .ok c.cid
  drawn : ∀ i c, s.calls i = some c → c.stage = .drawn → c.future = .unset
  success : ∀ i c r, s.calls i = some c → c.stage = .ended (.tool r) → r.ok = true →
    ∃ body, c.future = .value body ∧ ReportsSuccess c.request body ∧
      value getString body "payload" "" = .ok r.payload
  alive : s.terminated = false

variable {text : JsonText} {cb : Callbacks} {s t : IpcClient} {i : Nat} {c : IpcCall}

/-- What an entry says of its call. -/
theorem Inv.entry_call (h : Inv s) {cid : UInt64} (hc : s.calls i = some c)
    (hpending : s.pending cid = some i) :
    c.cid = cid ∧ c.future = .unset ∧ c.stage ≠ .drawn ∧ ∀ o, c.stage ≠ .ended o := by
  obtain ⟨d, hd, hentry⟩ := h.entry cid i hpending
  obtain rfl : d = c := Option.some.inj (hd.symm.trans hc)
  exact hentry

theorem Inv.correlated (h : Inv s) : Correlated s := by
  refine ⟨?_, ?_, h.alive⟩
  · intro i c r hc hstage hok
    obtain ⟨body, hfuture, hsuccess, hpayload⟩ := h.success i c r hc hstage hok
    obtain ⟨hreceived, hcid⟩ := h.own i c body hc hfuture
    exact ⟨body, hreceived, hfuture, hcid, hsuccess, hpayload⟩
  · intro i c o hc hstage cid hpending
    obtain ⟨-, -, -, hended⟩ := h.entry_call hc hpending
    exact hended o hstage

/-- Without changes to the calls and the table. -/
theorem Inv.of_same (h : Inv s) (hcalls : t.calls = s.calls) (hpending : t.pending = s.pending)
    (hreceived : ∀ body ∈ s.received, body ∈ t.received) (halive : t.terminated = false) :
    Inv t := by
  obtain ⟨hentry, hown, hdrawn, hsuccess, -⟩ := h
  refine ⟨?_, ?_, ?_, ?_, halive⟩
  · rwa [hcalls, hpending]
  · rw [hcalls]
    intro i c body hc hfuture
    obtain ⟨hmem, hcid⟩ := hown i c body hc hfuture
    exact ⟨hreceived body hmem, hcid⟩
  · rwa [hcalls]
  · rwa [hcalls]

/-- An entry is removed, and the future of its call is set. -/
theorem Inv.remove (h : Inv s) {cid : UInt64} {k : Nat} (hk : s.pending cid = some k)
    {f : Future} (hf : ∀ body, f = .value body →
      body ∈ s.received ∧ correlationId body = .ok cid) :
    Inv { s.setFuture k f with pending := Function.update s.pending cid none } := by
  obtain ⟨c, hc, hcid, hunset, hnotdrawn, hnotended⟩ := h.entry cid k hk
  have hcases : ∀ j d, (s.setFuture k f).calls j = some d →
      (j ≠ k ∧ s.calls j = some d) ∨ (j = k ∧ d = { c with future := f }) := by
    intro j d hd
    obtain ⟨d₀, hd₀, ⟨hj, rfl⟩ | ⟨rfl, rfl⟩⟩ := calls_setFuture hd
    · exact Or.inl ⟨hj, hd₀⟩
    · rw [hc] at hd₀
      cases hd₀
      exact Or.inr ⟨rfl, rfl⟩
  refine ⟨?_, ?_, ?_, ?_, h.alive⟩
  · intro cid' j hj
    by_cases hsame : cid' = cid
    · subst hsame
      simp at hj
    · have hj' : s.pending cid' = some j := by simpa [hsame] using hj
      obtain ⟨d, hd, hrest⟩ := h.entry cid' j hj'
      have hne : j ≠ k := by
        rintro rfl
        exact hsame ((h.entry_call hc hj').1.symm.trans hcid)
      refine ⟨d, ?_, hrest⟩
      show Function.update s.calls k _ j = some d
      rwa [Function.update_of_ne hne]
  · intro j d body hd hfuture
    rcases hcases j d hd with ⟨-, hd⟩ | ⟨rfl, rfl⟩
    · exact h.own j d body hd hfuture
    · rw [hcid]
      exact hf body hfuture
  · intro j d hd hstage
    rcases hcases j d hd with ⟨-, hd⟩ | ⟨rfl, rfl⟩
    · exact h.drawn j d hd hstage
    · exact absurd hstage hnotdrawn
  · intro j d r hd hstage hok
    rcases hcases j d hd with ⟨-, hd⟩ | ⟨rfl, rfl⟩
    · exact h.success j d r hd hstage hok
    · exact absurd hstage (hnotended _)

/-- A call goes to another stage; it ends only without an entry. -/
theorem Inv.setStage (h : Inv s) {stage : Stage} (hdrawn : stage ≠ .drawn)
    (hended : ∀ o, stage = .ended o → ∀ cid, s.pending cid ≠ some i)
    (hsuccess : ∀ c r, s.calls i = some c → stage = .ended (.tool r) → r.ok = true →
      ∃ body, c.future = .value body ∧ ReportsSuccess c.request body ∧
        value getString body "payload" "" = .ok r.payload) :
    Inv (s.setStage i stage) := by
  refine ⟨?_, ?_, ?_, ?_, h.alive⟩
  · intro cid k hk
    obtain ⟨d, hd, hcid, hunset, hnotdrawn, hnotended⟩ := h.entry cid k hk
    by_cases hki : k = i
    · subst hki
      refine ⟨{ d with stage := stage }, setStage_self hd, hcid, hunset, hdrawn, ?_⟩
      intro o ho
      exact hended o ho cid hk
    · exact ⟨d, (setStage_of_ne hki).trans hd, hcid, hunset, hnotdrawn, hnotended⟩
  · intro k d body hd hfuture
    obtain ⟨d₀, hd₀, ⟨-, rfl⟩ | ⟨-, rfl⟩⟩ := calls_setStage hd
    · exact h.own k d body hd₀ hfuture
    · exact h.own k d₀ body hd₀ hfuture
  · intro k d hd hstage
    obtain ⟨d₀, hd₀, ⟨-, rfl⟩ | ⟨-, rfl⟩⟩ := calls_setStage hd
    · exact h.drawn k d hd₀ hstage
    · exact absurd hstage hdrawn
  · intro k d r hd hstage hok
    obtain ⟨d₀, hd₀, ⟨-, rfl⟩ | ⟨rfl, rfl⟩⟩ := calls_setStage hd
    · exact h.success k d r hd₀ hstage hok
    · exact hsuccess d₀ r hd₀ hstage hok

theorem Inv.enter (h : Inv s) (hi : s.calls i = none) (request : IpcRequest) (cid : UInt64) :
    Inv (s.setCall i { request := request, cid := cid }) := by
  refine ⟨?_, ?_, ?_, ?_, h.alive⟩
  · intro cid' k hk
    obtain ⟨d, hd, hrest⟩ := h.entry cid' k hk
    have hne : k ≠ i := by
      rintro rfl
      rw [hi] at hd
      cases hd
    refine ⟨d, ?_, hrest⟩
    rwa [calls_setCall, Function.update_of_ne hne]
  · intro k d body hd hfuture
    rcases calls_setCall_cases hd with ⟨-, rfl⟩ | ⟨-, hd⟩
    · cases hfuture
    · exact h.own k d body hd hfuture
  · intro k d hd hstage
    rcases calls_setCall_cases hd with ⟨-, rfl⟩ | ⟨-, hd⟩
    · rfl
    · exact h.drawn k d hd hstage
  · intro k d r hd hstage hok
    rcases calls_setCall_cases hd with ⟨-, rfl⟩ | ⟨-, hd⟩
    · cases hstage
    · exact h.success k d r hd hstage hok

/-- A call that has only its id has no entry. -/
theorem Inv.no_entry_of_drawn (h : Inv s) (hc : s.calls i = some c) (hstage : c.stage = .drawn)
    (cid : UInt64) : s.pending cid ≠ some i := by
  intro hpending
  obtain ⟨-, -, hnotdrawn, -⟩ := h.entry_call hc hpending
  exact hnotdrawn hstage

/-- A call whose future is set has no entry. -/
theorem Inv.no_entry_of_set (h : Inv s) (hc : s.calls i = some c) (hfuture : c.future ≠ .unset)
    (cid : UInt64) : s.pending cid ≠ some i := by
  intro hpending
  obtain ⟨-, hunset, -⟩ := h.entry_call hc hpending
  exact hfuture hunset

theorem Inv.register (h : Inv s) (hc : s.calls i = some c) (hstage : c.stage = .drawn) :
    Inv ({ s with pending := Function.update s.pending c.cid (some i) }.setStage i
      .sending) := by
  have hsending : Inv (s.setStage i .sending) := h.setStage (by simp) (by simp) (by simp)
  refine ⟨?_, hsending.own, hsending.drawn, hsending.success, h.alive⟩
  intro cid k hk
  change Function.update s.pending c.cid (some i) cid = some k at hk
  by_cases hcid : cid = c.cid
  · subst hcid
    have hik : i = k := by simpa using hk
    subst hik
    exact ⟨{ c with stage := .sending }, setStage_self hc, rfl, h.drawn i c hc hstage, by simp,
      by simp⟩
  · rw [Function.update_of_ne hcid] at hk
    exact hsending.entry cid k hk

theorem Inv.erase (h : Inv s) (cid : UInt64) : Inv (s.erase cid) := by
  unfold IpcClient.erase
  cases hk : s.pending cid with
  | none => exact h
  | some k => exact h.remove hk fun body hbody => by cases hbody

theorem Inv.resolve (h : Inv s) {cid : UInt64} {body : Json} (hbody : body ∈ s.received)
    (hcid : correlationId body = .ok cid) : Inv (s.resolve cid body) := by
  unfold IpcClient.resolve
  cases hk : s.pending cid with
  | none => exact h
  | some k =>
    refine h.remove hk ?_
    intro body' hsame
    cases hsame
    exact ⟨hbody, hcid⟩

/-- After `erase` nothing is under the id. -/
theorem pending_erase (s : IpcClient) (cid : UInt64) (k : Nat) :
    (s.erase cid).pending cid ≠ some k := by
  unfold IpcClient.erase
  cases hk : s.pending cid with
  | none =>
    dsimp only
    rw [hk]
    exact fun h => by cases h
  | some j =>
    show Function.update s.pending cid none cid ≠ some k
    rw [Function.update_self]
    exact fun h => by cases h

/-- A call that has erased the entry of its id has no entry. -/
theorem Inv.no_entry_of_erased (h : Inv s) (hc : s.calls i = some c) (cid : UInt64) :
    (s.erase c.cid).pending cid ≠ some i := by
  intro hpending
  obtain ⟨d, hd, hcid, -⟩ := (h.erase c.cid).entry cid i hpending
  have hsame : d.cid = c.cid := by
    unfold IpcClient.erase at hd
    split at hd
    · rw [hc] at hd
      cases hd
      rfl
    · obtain ⟨d₀, hd₀, ⟨-, rfl⟩ | ⟨-, rfl⟩⟩ := calls_setFuture hd
      · rw [hc] at hd₀
        cases hd₀
        rfl
      · rw [hc] at hd₀
        cases hd₀
        rfl
  rw [← hcid, hsame] at hpending
  exact pending_erase s c.cid i hpending

theorem failed_not_ok {request : IpcRequest} {errorMsg : String} {r : ToolCallResponse}
    (h : failed request errorMsg = .tool r) : r.ok ≠ true := by
  cases request with
  | callTool req =>
    cases h
    exact Bool.false_ne_true
  | runPreprocessor req => cases h

theorem Inv.giveUp (h : Inv s) (hc : s.calls i = some c) (errorMsg : String) :
    Inv ((s.erase c.cid).setStage i (.ended (failed c.request errorMsg))) := by
  refine (h.erase c.cid).setStage (by simp) (fun _ _ => h.no_entry_of_erased hc) ?_
  intro d r _ hstage hok
  exact absurd hok (failed_not_ok (Stage.ended.inj hstage))

/-- A call that takes an honest reply. -/
theorem Inv.wake (h : Inv s) (hc : s.calls i = some c) {body : Json}
    (hfuture : c.future = .value body)
    (hhonest : NoError body → ReportsSuccess c.request body) :
    Inv (s.setStage i (.ended (replied c.request body))) := by
  have hset : c.future ≠ .unset := by
    rw [hfuture]
    exact fun hno => by cases hno
  refine h.setStage (by simp) (fun _ _ => h.no_entry_of_set hc hset) ?_
  intro d r hd hstage hok
  rw [hc] at hd
  cases hd
  obtain ⟨-, hreply⟩ := replied_tool.mp (Stage.ended.inj hstage)
  obtain ⟨herror, hpayload⟩ := toolReply_ok hreply
  exact ⟨body, hfuture, hhonest (herror.mp hok), hpayload⟩

/-! ## Frames -/

theorem Inv.onMessage (h : Inv s) {raw : List UInt8}
    (hread : ∀ msg, text.parse raw = some msg → DocumentReadable cb msg) :
    Inv (s.onMessage text cb raw) := by
  have hcases := onMessage_cases text cb s raw
  generalize s.onMessage text cb raw = t at hcases ⊢
  cases hcases with
  | dropped _ => exact h
  | read msg t _ hdoc =>
    have hheard : Inv { s with received := s.received ++ [msg] } :=
      h.of_same rfl rfl (fun body hbody => List.mem_append_left _ hbody) h.alive
    obtain ⟨cid, hcid, hsame | rfl⟩ := onDocument_cases hdoc
    · obtain ⟨hcalls, hpending, hreceived, halive⟩ := hsame
      exact hheard.of_same hcalls hpending (fun body hbody => hreceived ▸ hbody)
        (halive.trans h.alive)
    · exact hheard.resolve (List.mem_append_right _ (List.mem_singleton_self msg)) hcid
  | escaped msg e hparse hdoc => exact absurd (hread msg hparse) (not_readable_of_error hdoc)

/-- In each state of the invariant, a frame touches nothing but the call and the entry of its
    own id. -/
theorem onlyOwn_onMessage (h : Inv s) (raw : List UInt8) :
    OnlyOwn text s raw (s.onMessage text cb raw) := by
  have hcases := onMessage_cases text cb s raw
  generalize s.onMessage text cb raw = t at hcases ⊢
  cases hcases with
  | dropped _ => exact ⟨fun _ => Or.inl rfl, fun _ => Or.inl rfl⟩
  | escaped msg e _ _ => exact ⟨fun _ => Or.inl rfl, fun _ => Or.inl rfl⟩
  | read msg t hparse hdoc =>
    obtain ⟨cid, hcid, hsame | rfl⟩ := onDocument_cases hdoc
    · obtain ⟨hcalls, hpending, -, -⟩ := hsame
      exact ⟨fun i => Or.inl (congrFun hcalls i), fun id => Or.inl (congrFun hpending id)⟩
    · unfold IpcClient.resolve
      dsimp only
      cases hk : s.pending cid with
      | none => exact ⟨fun _ => Or.inl rfl, fun _ => Or.inl rfl⟩
      | some k =>
        obtain ⟨c, hc, rfl, -⟩ := h.entry cid k hk
        constructor
        · intro i
          by_cases hi : i = k
          · subst hi
            refine Or.inr ⟨msg, c, .value msg, hparse, hcid, hk, hc, ?_⟩
            show Function.update s.calls i _ i = _
            rw [Function.update_self, hc]
            rfl
          · exact Or.inl (Function.update_of_ne hi _ _)
        · intro id
          by_cases hid : id = c.cid
          · subst hid
            exact Or.inr ⟨msg, hparse, hcid⟩
          · exact Or.inl (Function.update_of_ne hid _ _)

/-! ## Runs -/

theorem inv_step {m : Move} (h : Inv s) (hok : RepliesHonest text cb s m)
    (ht : step text cb s m = some t) : Inv t := by
  cases m with
  | enter i request =>
    obtain ⟨hi, rfl⟩ := step_enter ht
    have hdrawn : Inv { s with nextCorrelationId := s.nextCorrelationId + 1 } :=
      h.of_same rfl rfl (fun _ hbody => hbody) h.alive
    exact hdrawn.enter hi request s.nextCorrelationId
  | frame raw =>
    rw [step_frame ht]
    exact h.onMessage hok
  | call i m =>
    obtain ⟨c, hc, hstep⟩ := step_call ht
    cases hstep with
    | collides hstage _ =>
      exact h.setStage (by simp) (fun _ _ => h.no_entry_of_drawn hc hstage) (by simp)
    | registers hstage _ => exact h.register hc hstage
    | sends _ =>
      have hsent : Inv { s with sent := s.sent ++ [c.request.message c.cid] } :=
        h.of_same rfl rfl (fun _ hbody => hbody) h.alive
      exact hsent.setStage (by simp) (by simp) (by simp)
    | sendFails _ => exact h.setStage (by simp) (by simp) (by simp)
    | timeout _ _ => exact h.setStage (by simp) (by simp) (by simp)
    | givesUp errorMsg _ => exact h.giveUp hc errorMsg
    | wakes body _ hfuture => exact h.wake hc hfuture (hok c body hc hfuture)
    | breaks _ hfuture =>
      have hset : c.future ≠ .unset := by
        rw [hfuture]
        exact fun hno => by cases hno
      exact h.setStage (by simp) (fun _ _ => h.no_entry_of_set hc hset) (by simp)

/-- A call that takes a reply for success which does not report it. -/
theorem not_correlated_wake (hc : s.calls i = some c) {body : Json}
    (hfuture : c.future = .value body) (herror : NoError body)
    (hfalse : ¬ ReportsSuccess c.request body) :
    ¬ Correlated (s.setStage i (.ended (replied c.request body))) := by
  obtain ⟨h1, h2, h3, h4⟩ := herror
  obtain ⟨r, hr⟩ := isOk_iff.mp ((toolReply_isOk body).mpr ⟨h1, h3, h4⟩)
  have hok : r.ok = true := (toolReply_ok hr).1.mpr ⟨h1, h2, h3, h4⟩
  have htool : ∃ req, c.request = .callTool req := by
    cases hrequest : c.request with
    | callTool req => exact ⟨req, rfl⟩
    | runPreprocessor req =>
      rw [hrequest] at hfalse
      exact absurd trivial hfalse
  have hended : replied c.request body = .tool r := replied_tool.mpr ⟨htool, hr⟩
  intro h
  obtain ⟨body', -, hfuture', -, hsuccess, -⟩ := h.owned i _ r (setStage_self hc)
    (congrArg Stage.ended hended) hok
  rw [hfuture] at hfuture'
  cases hfuture'
  exact hfalse hsuccess

theorem not_correlated_step {m : Move} (hok : ¬ RepliesHonest text cb s m)
    (ht : step text cb s m = some t) : ¬ Correlated t := by
  cases m with
  | enter i request => exact absurd trivial hok
  | frame raw =>
    rw [step_frame ht]
    intro h
    have halive := h.alive
    rw [terminates_of_unreadable hok] at halive
    cases halive
  | call i m =>
    obtain ⟨c, hc, hstep⟩ := step_call ht
    cases hstep with
    | collides _ _ => exact absurd trivial hok
    | registers _ _ => exact absurd trivial hok
    | sends _ => exact absurd trivial hok
    | sendFails _ => exact absurd trivial hok
    | timeout _ _ => exact absurd trivial hok
    | givesUp errorMsg _ => exact absurd trivial hok
    | breaks _ hfuture =>
      refine absurd ?_ hok
      intro d body hd hbody
      rw [hc] at hd
      cases hd
      rw [hfuture] at hbody
      cases hbody
    | wakes body _ hfuture =>
      have hdishonest : NoError body ∧ ¬ ReportsSuccess c.request body := by
        rw [← Classical.not_imp]
        intro hhonest
        refine hok ?_
        intro d body' hd hbody
        rw [hc] at hd
        cases hd
        rw [hfuture] at hbody
        cases hbody
        exact hhonest
      exact not_correlated_wake hc hfuture hdishonest.1 hdishonest.2

theorem inv_start : Inv {} := by
  refine ⟨?_, ?_, ?_, ?_, rfl⟩
  · exact fun _ _ h => absurd h (by simp)
  · exact fun _ _ _ h => absurd h (by simp)
  · exact fun _ _ h => absurd h (by simp)
  · exact fun _ _ _ h => absurd h (by simp)

/-- Along a run, results with `ok` are those of replies that report success, under the id of
    the call, entries are gone when calls end, and frames touch no other call, exactly when
    every reply without an error that a call takes is of its type and reports success, and
    no frame ends the process. -/
theorem correlated_iff (text : JsonText) (cb : Callbacks) (ms : List Move) :
    AllStates (step text cb) Correlated {} ms ∧
        AllSteps (step text cb) (FramesOnlyOwn text cb) {} ms ↔
      AllSteps (step text cb) (RepliesHonest text cb) {} ms := by
  have hstates : AllStates (step text cb) Correlated {} ms ↔
      AllSteps (step text cb) (RepliesHonest text cb) {} ms :=
    allStates_iff_allSteps (fun _ h => h.correlated) (fun _ _ _ => inv_step)
      (fun _ _ _ _ => not_correlated_step) inv_start ms
  rw [hstates]
  refine and_iff_left_of_imp ?_
  intro hok
  refine allSteps_of_invariant (fun _ _ _ => inv_step) ?_ inv_start hok
  intro s m _ h _ _ raw t hm ht
  rw [hm] at ht
  rw [step_frame ht]
  exact onlyOwn_onMessage h raw

/-- A call of the tool `t`. -/
def toolCall : IpcRequest := .callTool { qualifiedName := "p.t", argsJson := "\x7b\x7d" }

/-- A `tool_response` for call 1 with `"ok": false`. -/
def refusalText : String := "\x7b\"cid\":1,\"ok\":false,\"type\":\"tool_response\"\x7d"

def refusal : Json :=
  .object [("cid", .unsigned 1), ("ok", .boolean false), ("type", .string "tool_response")]

/-- A call that gets the refusal as its reply. -/
def refusedCall : List Move :=
  [.enter 0 toolCall, .call 0 .register, .call 0 (.send true), .frame refusalText.toUTF8.toList,
    .call 0 .wake]

def refusing : JsonText where
  parse _ := some refusal
  dump _ := ""

/-- The call ends with `ok`. -/
theorem unsuccessful_ok :
    ¬ (AllStates (step refusing {}) Correlated {} refusedCall ∧
      AllSteps (step refusing {}) (FramesOnlyOwn refusing {}) {} refusedCall) := by
  rintro ⟨h, -⟩
  have hlast := h.last rfl
  obtain ⟨body, -, hfuture, -, hsuccess, -⟩ := hlast.owned 0 _ _ rfl rfl rfl
  cases hfuture
  have hok : refusal.field? "ok" = some (.boolean false) := rfl
  have hsuccess := hsuccess.2
  rw [hok] at hsuccess
  simp at hsuccess

end IpcClient

end TruellmEngine.Bridge
