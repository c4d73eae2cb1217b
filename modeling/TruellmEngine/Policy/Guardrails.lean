/-
  The guardrail policy (`guardrail_policy.cpp`): the limits of a preset on one request, and
  the check of a request against them. A limit of zero is no limit.
-/
namespace TruellmEngine.Policy

structure RequestConstraints where
  maxTokens : Int := 0
  maxCtxTokens : Int := 0
  allowOvercommit : Bool := true
  deriving DecidableEq

def constraintsForPreset (preset : String) : RequestConstraints :=
  if preset = "strict" then ⟨2048, 4096, false⟩
  else if preset = "balanced" then ⟨4096, 16384, false⟩
  else if preset = "relaxed" then ⟨16384, 65536, true⟩
  else if preset = "off" then ⟨0, 0, true⟩
  -- `custom` and unknown presets
  else ⟨4096, 16384, false⟩

/-- The violation, if there is one. -/
def checkRequest (c : RequestConstraints) (requestedMaxTokens requestedCtxTokens : Int) :
    Option String :=
  if 0 < c.maxTokens ∧ c.maxTokens < requestedMaxTokens then
    some ("max_tokens " ++ toString requestedMaxTokens ++ " exceeds guardrail limit " ++
      toString c.maxTokens ++ " for this server configuration")
  else if 0 < c.maxCtxTokens ∧ c.maxCtxTokens < requestedCtxTokens then
    some ("context length " ++ toString requestedCtxTokens ++ " exceeds guardrail limit " ++
      toString c.maxCtxTokens ++ " for this server configuration")
  else none

/-- The amount is within the limit. -/
def Within (limit amount : Int) : Prop := limit ≤ 0 ∨ amount ≤ limit

theorem checkRequest_eq_none {c : RequestConstraints} {maxTokens ctxTokens : Int} :
    checkRequest c maxTokens ctxTokens = none ↔
      Within c.maxTokens maxTokens ∧ Within c.maxCtxTokens ctxTokens := by
  unfold checkRequest Within
  split
  · rename_i h
    exact iff_of_false (Option.some_ne_none _) (by omega)
  · rename_i h
    split
    · rename_i h'
      exact iff_of_false (Option.some_ne_none _) (by omega)
    · rename_i h'
      exact iff_of_true rfl (by omega)

/-- Only `off` sets no limits. -/
theorem limits_of_preset {preset : String} (h : preset ≠ "off") :
    0 < (constraintsForPreset preset).maxTokens ∧
      (constraintsForPreset preset).maxTokens ≤ 16384 ∧
      0 < (constraintsForPreset preset).maxCtxTokens := by
  unfold constraintsForPreset
  rw [if_neg h]
  split
  · decide
  · split
    · decide
    · split
      · decide
      · decide

end TruellmEngine.Policy
