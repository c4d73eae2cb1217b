/-
  The request and result records of `engine_interface.h`, the error codes of
  `truellm/types.h`, and the part of `SamplingConfig` the decode loops read.

  Left out: the float sampling parameters (they only configure the sampler, whose tokens
  are inputs of the models), the grammar, and `time_ms`, a wall-clock measurement.
-/
import Mathlib.Data.List.Basic

namespace TruellmEngine

/-- `llama_token`, an `int32_t`. -/
abbrev Token := Int

/-- The bytes of a `std::string`. -/
abbrev Bytes := List UInt8

/-- `truellm::ErrorCode`. -/
inductive ErrorCode where
  | ok
  | invalidArgument
  | notFound
  | notImplemented
  | outOfMemory
  | backendError
  | configError
  | pluginError
  | ioError
  | unavailable
  | internalError
  deriving DecidableEq, Repr

structure GenerateRequest where
  tokens : List Token
  maxTokens : Int := 512
  /-- Whether an `on_token` callback is installed. -/
  onToken : Bool := false
  stopTokens : List Token := []
  stop : List Bytes := []
  requestId : Bytes := []
  sessionId : Bytes := []
  deriving DecidableEq, Repr

/-- The two counts have no initialiser: `none` is one that nothing was stored to. -/
structure GenerateResult where
  tokens : List Token := []
  text : Bytes := []
  promptTokens : Option Nat := none
  generatedTokens : Option Nat := none
  error : ErrorCode := .ok
  errorMessage : String := ""
  finishReason : String := "stop"
  deriving DecidableEq, Repr

/-- `GenerateResult result{}`, which sets the counts to 0. -/
def GenerateResult.zero : GenerateResult where
  promptTokens := some 0
  generatedTokens := some 0

structure SamplingConfig where
  maxTokens : Int := 2048
  stop : List Bytes := []
  deriving DecidableEq, Repr

/-- `text` ends with the non-empty stop string `s`: the comparison every loop makes. -/
def endsWithStop (text s : Bytes) : Bool :=
  !s.isEmpty && decide (s.length ≤ text.length) && text.drop (text.length - s.length) == s

end TruellmEngine
