/-
  The rate limiter (`rate_limiter.cpp`): one token bucket per client key.

  A call carries the reading it takes of the steady clock, in seconds; tokens, rates and
  readings are exact rationals. `mu_` is held for the whole of a call, so the calls of all
  threads form one list. A request reads the clock under the lock and thus behind every
  reading before it in the list (`InOrder`); `evict_stale` reads it before it takes the lock.

  * `grants_ideal`: the grants of a key are those of one `TokenBucket` that sees the key's
    own requests, and nothing of evictions of buckets that had the time to fill up.
  * `limits`: from there the bound on the grants of a window, with the independence of the
    keys and the evictions that change no decision. A bucket stamped with the clock's epoch
    is taken for a new one at its next request; the bound is for runs without such a request.
-/
import TruellmEngine.Engine.Interface
import TruellmEngine.Lib.Run
import TruellmEngine.Lib.TokenBucket
import Mathlib.Algebra.Order.Ring.Rat
import Mathlib.Logic.Function.Basic

namespace TruellmEngine.Policy

open Lib

/-! ## Model -/

structure RateLimiterConfig where
  ratePerSecond : ℚ := 20
  burstSize : ℚ := 40
  enabled : Bool := true

def configForGuardrailPreset (preset : String) : RateLimiterConfig :=
  if preset = "strict" then ⟨5, 10, true⟩
  else if preset = "balanced" then ⟨20, 40, true⟩
  else if preset = "relaxed" ∨ preset = "off" then ⟨100, 200, false⟩
  else ⟨20, 40, true⟩

/-- `time_point{}`. -/
def epoch : ℚ := 0

/-- `operator[]` inserts the default. -/
structure Bucket where
  tokens : ℚ := 0
  lastRefill : ℚ := epoch

/-- The `unordered_map` from keys to buckets. -/
abbrev Buckets := Bytes → Option Bucket

def noBuckets : Buckets := fun _ => none

def refill (cfg : RateLimiterConfig) (b : Bucket) (now : ℚ) : Bucket where
  tokens := min (b.tokens + (now - b.lastRefill) * cfg.ratePerSecond) cfg.burstSize
  lastRefill := now

/-- The body of `try_acquire` on the bucket of its key. -/
def acquireFrom (cfg : RateLimiterConfig) (b : Bucket) (now : ℚ) : Bool × Bucket :=
  -- the mark of a new bucket: it starts full
  let b := if b.lastRefill = epoch then { tokens := cfg.burstSize, lastRefill := now }
    else refill cfg b now
  if 1 ≤ b.tokens then (true, { b with tokens := b.tokens - 1 }) else (false, b)

def tryAcquire (cfg : RateLimiterConfig) (buckets : Buckets) (key : Bytes) (now : ℚ) :
    Bool × Buckets :=
  if !cfg.enabled then (true, buckets)
  else
    let r := acquireFrom cfg ((buckets key).getD {}) now
    (r.1, Function.update buckets key (some r.2))

def reset (buckets : Buckets) (key : Bytes) : Buckets := Function.update buckets key none

def evictStale (buckets : Buckets) (now : ℚ) (maxAge : Int) : Buckets := fun key =>
  (buckets key).filter fun b => !decide (b.lastRefill < now - maxAge)

/-- A call on the limiter, with its reading of the clock. -/
inductive Call where
  | acquire (key : Bytes) (now : ℚ)
  | reset (key : Bytes)
  | evict (now : ℚ) (maxAge : Int)
  deriving DecidableEq

def step (cfg : RateLimiterConfig) (buckets : Buckets) : Call → Buckets
  | .acquire key now => (tryAcquire cfg buckets key now).2
  | .reset key => reset buckets key
  | .evict now maxAge => evictStale buckets now maxAge

/-- The answer to a request. -/
structure Decision where
  key : Bytes
  now : ℚ
  granted : Bool
  deriving DecidableEq

def decisions (cfg : RateLimiterConfig) : Buckets → List Call → List Decision
  | _, [] => []
  | buckets, c :: calls =>
    let rest := decisions cfg (step cfg buckets c) calls
    match c with
    | .acquire key now => ⟨key, now, (tryAcquire cfg buckets key now).1⟩ :: rest
    | _ => rest

/-! ## Runs -/

def Call.reading : Call → Option ℚ
  | .acquire _ now => some now
  | .reset _ => none
  | .evict now _ => some now

/-- A request reads the clock behind the calls before it. -/
def Call.Before (c : Call) : Call → Prop
  | .acquire _ now => ∀ t, c.reading = some t → t ≤ now
  | _ => True

def InOrder (calls : List Call) : Prop := calls.Pairwise Call.Before

/-- The readings of the requests of `key`. -/
def requests (key : Bytes) (calls : List Call) : List ℚ :=
  calls.filterMap fun
    | .acquire k now => if k = key then some now else none
    | _ => none

/-- An eviction drops only buckets that had the time to fill up. -/
def Call.Harmless (cfg : RateLimiterConfig) : Call → Prop
  | .evict _ maxAge => cfg.burstSize ≤ cfg.ratePerSecond * maxAge
  | _ => True

/-- The request finds no bucket stamped with the clock's epoch. -/
def NotAtEpoch (buckets : Buckets) : Call → Prop
  | .acquire key _ => ∀ b, buckets key = some b → b.lastRefill ≠ epoch
  | _ => True

/-- The calls that can touch the bucket of `key`. -/
def Call.concerns (key : Bytes) : Call → Bool
  | .acquire k _ => k == key
  | .reset k => k == key
  | .evict _ _ => true

variable {cfg : RateLimiterConfig} {buckets : Buckets} {key : Bytes} {calls : List Call}

/-! ## A request -/

/-- The ideal bucket of the configuration. -/
def RateLimiterConfig.bucket (cfg : RateLimiterConfig) : TokenBucket ℚ :=
  ⟨cfg.ratePerSecond, cfg.burstSize⟩

def Bucket.fill (b : Bucket) : Fill ℚ := ⟨b.tokens, b.lastRefill⟩

def Bucket.ofFill (f : Fill ℚ) : Bucket := ⟨f.level, f.stamp⟩

/-- Where the stamp tells a new bucket from an old one, the body is a take. -/
theorem acquireFrom_take {b : Option Bucket} (hne : ∀ old, b = some old → old.lastRefill ≠ epoch)
    (now : ℚ) :
    acquireFrom cfg (b.getD {}) now =
      ((cfg.bucket.take (b.map Bucket.fill) now).1,
        Bucket.ofFill (cfg.bucket.take (b.map Bucket.fill) now).2) := by
  have hb : (if (b.getD {}).lastRefill = epoch then
        { tokens := cfg.burstSize, lastRefill := now }
      else refill cfg (b.getD {}) now : Bucket) =
      ⟨cfg.bucket.levelAt (b.map Bucket.fill) now, now⟩ := by
    cases b with
    | none => rfl
    | some old => exact if_neg (hne old rfl)
  unfold acquireFrom
  simp only [hb]
  unfold TokenBucket.take
  split
  · rfl
  · rfl

theorem tryAcquire_enabled (hen : cfg.enabled = true) (buckets : Buckets) (key : Bytes)
    (now : ℚ) :
    tryAcquire cfg buckets key now =
      ((acquireFrom cfg ((buckets key).getD {}) now).1,
        Function.update buckets key
          (some (acquireFrom cfg ((buckets key).getD {}) now).2)) := by
  unfold tryAcquire
  rw [hen]
  rfl

theorem tryAcquire_self (hen : cfg.enabled = true) (buckets : Buckets) (key : Bytes)
    (now : ℚ) :
    (tryAcquire cfg buckets key now).2 key =
      some (acquireFrom cfg ((buckets key).getD {}) now).2 := by
  rw [tryAcquire_enabled hen]
  exact Function.update_self _ _ _

/-- A request touches the bucket of its own key only. -/
theorem tryAcquire_other (cfg : RateLimiterConfig) (buckets : Buckets) {k : Bytes}
    (h : key ≠ k) (now : ℚ) : (tryAcquire cfg buckets k now).2 key = buckets key := by
  unfold tryAcquire
  split
  · rfl
  · exact Function.update_of_ne h _ _

/-- A request depends on the bucket of its own key only. -/
theorem tryAcquire_congr (cfg : RateLimiterConfig) {b₁ b₂ : Buckets} (h : b₁ key = b₂ key)
    (now : ℚ) :
    (tryAcquire cfg b₁ key now).1 = (tryAcquire cfg b₂ key now).1 ∧
      (tryAcquire cfg b₁ key now).2 key = (tryAcquire cfg b₂ key now).2 key := by
  unfold tryAcquire
  rw [h]
  split
  · exact ⟨rfl, h⟩
  · refine ⟨rfl, ?_⟩
    dsimp only
    rw [Function.update_self, Function.update_self]

/-! ## The keys are independent -/

theorem decisions_acquire (cfg : RateLimiterConfig) (buckets : Buckets) (k : Bytes) (now : ℚ)
    (calls : List Call) :
    decisions cfg buckets (.acquire k now :: calls) =
      ⟨k, now, (tryAcquire cfg buckets k now).1⟩ ::
        decisions cfg (tryAcquire cfg buckets k now).2 calls := rfl

theorem reset_other (buckets : Buckets) {k : Bytes} (h : key ≠ k) :
    reset buckets k key = buckets key := Function.update_of_ne h _ _

theorem reset_congr {b₁ b₂ : Buckets} (h : b₁ key = b₂ key) (k : Bytes) :
    reset b₁ k key = reset b₂ k key := by
  by_cases hk : key = k
  · subst hk
    show Function.update b₁ key none key = Function.update b₂ key none key
    rw [Function.update_self, Function.update_self]
  · rw [reset_other b₁ hk, reset_other b₂ hk, h]

/-- The decisions for a key are those of the calls that concern it. -/
theorem decisions_own {b₁ b₂ : Buckets} (h : b₁ key = b₂ key) (calls : List Call) :
    (decisions cfg b₁ calls).filter (fun d => d.key == key) =
      decisions cfg b₂ (calls.filter (Call.concerns key)) := by
  induction calls generalizing b₁ b₂ with
  | nil => rfl
  | cons c calls ih =>
    cases c with
    | acquire k now =>
      by_cases hk : k = key
      · subst hk
        obtain ⟨hdec, hrest⟩ := tryAcquire_congr cfg h now
        rw [List.filter_cons_of_pos (by simp [Call.concerns]), decisions_acquire,
          decisions_acquire, List.filter_cons_of_pos (by simp), ih hrest, hdec]
      · rw [List.filter_cons_of_neg (by simp [Call.concerns, hk]), decisions_acquire,
          List.filter_cons_of_neg (by simp [hk])]
        refine ih ?_
        rw [tryAcquire_other cfg b₁ (Ne.symm hk), h]
    | reset k =>
      by_cases hk : k = key
      · rw [List.filter_cons_of_pos (by simp [Call.concerns, hk])]
        exact ih (reset_congr h k)
      · rw [List.filter_cons_of_neg (by simp [Call.concerns, hk])]
        refine ih ?_
        show reset b₁ k key = _
        rw [reset_other b₁ (Ne.symm hk), h]
    | evict now maxAge =>
      rw [List.filter_cons_of_pos (by rfl)]
      refine ih ?_
      show (b₁ key).filter _ = (b₂ key).filter _
      rw [h]

/-! ## Evictions -/

/-- What every bucket of a run keeps: it owes nothing, and it was used before the requests
    to come. -/
def Kept (cfg : RateLimiterConfig) (buckets : Buckets) (calls : List Call) : Prop :=
  ∀ key b, buckets key = some b →
    min 0 cfg.burstSize ≤ b.tokens ∧ ∀ t ∈ requests key calls, b.lastRefill ≤ t

theorem kept_empty (cfg : RateLimiterConfig) (calls : List Call) : Kept cfg noBuckets calls := by
  intro key b hb
  cases hb

theorem mem_requests {t : ℚ} : t ∈ requests key calls ↔ .acquire key t ∈ calls := by
  unfold requests
  rw [List.mem_filterMap]
  constructor
  · rintro ⟨c, hc, ht⟩
    cases c with
    | acquire k now =>
      dsimp only at ht
      split at ht
      · rename_i hk
        cases ht
        exact hk ▸ hc
      · cases ht
    | reset k => cases ht
    | evict now maxAge => cases ht
  · intro hc
    exact ⟨_, hc, if_pos rfl⟩

/-- A request reads the clock behind the calls before it. -/
theorem InOrder.le {c : Call} (h : InOrder (c :: calls)) {u : ℚ} (hu : c.reading = some u)
    {t : ℚ} (ht : t ∈ requests key calls) : u ≤ t :=
  (List.pairwise_cons.mp h).1 _ (mem_requests.mp ht) u hu

theorem requests_cons_subset (c : Call) {t : ℚ} (ht : t ∈ requests key calls) :
    t ∈ requests key (c :: calls) :=
  mem_requests.mpr (List.mem_cons_of_mem c (mem_requests.mp ht))

theorem acquireFrom_stamp (cfg : RateLimiterConfig) (b : Bucket) (now : ℚ) :
    (acquireFrom cfg b now).2.lastRefill = now := by
  unfold acquireFrom
  dsimp only
  split
  · split
    · rfl
    · rfl
  · split
    · rfl
    · rfl

theorem acquireFrom_tokens (hrate : 0 ≤ cfg.ratePerSecond) {b : Bucket} {now : ℚ}
    (hlow : b.lastRefill ≠ epoch → min 0 cfg.burstSize ≤ b.tokens ∧ b.lastRefill ≤ now) :
    min 0 cfg.burstSize ≤ (acquireFrom cfg b now).2.tokens := by
  -- the level the request finds
  obtain ⟨x, hx, hlevel⟩ : ∃ x, min 0 cfg.burstSize ≤ x ∧
      (if b.lastRefill = epoch then { tokens := cfg.burstSize, lastRefill := now }
        else refill cfg b now : Bucket) = ⟨x, now⟩ := by
    by_cases hb : b.lastRefill = epoch
    · exact ⟨cfg.burstSize, min_le_right _ _, if_pos hb⟩
    · obtain ⟨hlow, hstamp⟩ := hlow hb
      have hflow : 0 ≤ (now - b.lastRefill) * cfg.ratePerSecond :=
        mul_nonneg (by linarith) hrate
      exact ⟨_, le_min (by linarith) (min_le_right _ _), if_neg hb⟩
  unfold acquireFrom
  simp only [hlevel]
  split
  · rename_i hone
    have hzero : min 0 cfg.burstSize ≤ 0 := min_le_left _ _
    show min 0 cfg.burstSize ≤ x - 1
    linarith
  · exact hx

theorem Kept.step (hrate : 0 ≤ cfg.ratePerSecond) (hen : cfg.enabled = true) {c : Call}
    (h : Kept cfg buckets (c :: calls)) (horder : InOrder (c :: calls)) :
    Kept cfg (step cfg buckets c) calls := by
  have hold : ∀ key b, buckets key = some b →
      min 0 cfg.burstSize ≤ b.tokens ∧ ∀ t ∈ requests key calls, b.lastRefill ≤ t :=
    fun key b hb => ⟨(h key b hb).1, fun t ht => (h key b hb).2 t (requests_cons_subset c ht)⟩
  intro key b hb
  cases c with
  | acquire k now =>
    by_cases hk : key = k
    · subst hk
      have hnew := @acquireFrom_tokens cfg hrate ((buckets key).getD {}) now ?_
      · have hb' : some (acquireFrom cfg ((buckets key).getD {}) now).2 = some b := by
          have hst : (tryAcquire cfg buckets key now).2 key = some b := hb
          rwa [tryAcquire_self hen] at hst
        cases hb'
        refine ⟨hnew, fun t ht => ?_⟩
        rw [acquireFrom_stamp]
        exact horder.le rfl ht
      · intro hne
        cases hkey : buckets key with
        | none => exact absurd (by rw [hkey]; rfl) hne
        | some old =>
          obtain ⟨hlow, hstamp⟩ := h key old hkey
          exact ⟨hlow, hstamp now (mem_requests.mpr List.mem_cons_self)⟩
    · have hst : (tryAcquire cfg buckets k now).2 key = some b := hb
      rw [tryAcquire_other cfg buckets hk] at hst
      exact hold key b hst
  | reset k =>
    by_cases hk : key = k
    · subst hk
      have hst : Function.update buckets key none key = some b := hb
      rw [Function.update_self] at hst
      cases hst
    · have hst : reset buckets k key = some b := hb
      rw [reset_other buckets hk] at hst
      exact hold key b hst
  | evict now maxAge => exact hold key b (Option.filter_eq_some_iff.mp hb).1

/-- A bucket that is full at `now` is as good as a new one. -/
theorem acquireFrom_full {b : Bucket} {now : ℚ}
    (h : b.lastRefill = epoch ∨ cfg.bucket.levelAt (some b.fill) now = cfg.burstSize) :
    acquireFrom cfg b now = acquireFrom cfg {} now := by
  have hb : (if b.lastRefill = epoch then { tokens := cfg.burstSize, lastRefill := now }
      else refill cfg b now : Bucket) = ⟨cfg.burstSize, now⟩ := by
    by_cases hz : b.lastRefill = epoch
    · exact if_pos hz
    · rw [if_neg hz]
      exact congrArg (fun x => (⟨x, now⟩ : Bucket)) (h.resolve_left hz)
  unfold acquireFrom
  simp only [hb]
  rfl

/-- `b₂` lacks buckets of `b₁` that no request to come tells from new ones. -/
def Forgets (cfg : RateLimiterConfig) (calls : List Call) (b₁ b₂ : Buckets) : Prop :=
  ∀ key, b₂ key = b₁ key ∨ (b₂ key = none ∧ ∃ b, b₁ key = some b ∧
    (b.lastRefill = epoch ∨
      ∀ t ∈ requests key calls, cfg.bucket.levelAt (some b.fill) t = cfg.burstSize))

/-- A request of `k` finds the same and leaves the same bucket. -/
theorem Forgets.tryAcquire (hen : cfg.enabled = true) {b₁ b₂ : Buckets} {k : Bytes} {now : ℚ}
    (h : Forgets cfg (.acquire k now :: calls) b₁ b₂) :
    (tryAcquire cfg b₁ k now).1 = (tryAcquire cfg b₂ k now).1 ∧
      (tryAcquire cfg b₁ k now).2 k = (tryAcquire cfg b₂ k now).2 k := by
  rcases h k with heq | ⟨hnone, b, hb, hfull⟩
  · exact tryAcquire_congr cfg heq.symm now
  · have hsame : acquireFrom cfg ((b₁ k).getD {}) now = acquireFrom cfg ((b₂ k).getD {}) now := by
      rw [hb, hnone]
      exact acquireFrom_full
        (hfull.imp_right fun hf => hf now (mem_requests.mpr List.mem_cons_self))
    rw [tryAcquire_self hen, tryAcquire_self hen, tryAcquire_enabled hen,
      tryAcquire_enabled hen, hsame]
    exact ⟨rfl, rfl⟩

theorem Forgets.tail {c : Call} {b₁ b₂ : Buckets} (h : Forgets cfg (c :: calls) b₁ b₂) :
    Forgets cfg calls b₁ b₂ := by
  intro key
  rcases h key with heq | ⟨hnone, b, hb, hfull⟩
  · exact Or.inl heq
  · refine Or.inr ⟨hnone, b, hb, hfull.imp_right ?_⟩
    exact fun hf t ht => hf t (requests_cons_subset c ht)

theorem Forgets.step (hen : cfg.enabled = true) {c : Call} {b₁ b₂ : Buckets}
    (h : Forgets cfg (c :: calls) b₁ b₂) : Forgets cfg calls (step cfg b₁ c) (step cfg b₂ c) := by
  intro key
  cases c with
  | acquire k now =>
    show (Policy.tryAcquire cfg b₂ k now).2 key = (Policy.tryAcquire cfg b₁ k now).2 key ∨ _
    by_cases hk : key = k
    · subst hk
      exact Or.inl (Forgets.tryAcquire hen h).2.symm
    · show _ ∨ ((Policy.tryAcquire cfg b₂ k now).2 key = none ∧
        ∃ b, (Policy.tryAcquire cfg b₁ k now).2 key = some b ∧ _)
      rw [tryAcquire_other cfg b₁ hk, tryAcquire_other cfg b₂ hk]
      exact h.tail key
  | reset k =>
    by_cases hk : key = k
    · subst hk
      left
      show Function.update b₂ key none key = Function.update b₁ key none key
      rw [Function.update_self, Function.update_self]
    · show reset b₂ k key = reset b₁ k key ∨ (reset b₂ k key = none ∧
        ∃ b, reset b₁ k key = some b ∧ _)
      rw [reset_other b₁ hk, reset_other b₂ hk]
      exact h.tail key
  | evict now maxAge =>
    rcases h.tail key with heq | ⟨hnone, b, hb, hfull⟩
    · left
      show (b₂ key).filter _ = (b₁ key).filter _
      rw [heq]
    · show (b₂ key).filter _ = (b₁ key).filter _ ∨ ((b₂ key).filter _ = none ∧
        ∃ b, (b₁ key).filter _ = some b ∧ _)
      rw [hnone, hb]
      by_cases hstale : b.lastRefill < now - maxAge
      · left
        simp [Option.filter, hstale]
      · right
        exact ⟨rfl, b, by simp [Option.filter, hstale], hfull⟩

theorem Forgets.decisions (hen : cfg.enabled = true) {b₁ b₂ : Buckets}
    (h : Forgets cfg calls b₁ b₂) :
    decisions cfg b₁ calls = decisions cfg b₂ calls := by
  induction calls generalizing b₁ b₂ with
  | nil => rfl
  | cons c calls ih =>
    have hrest := ih (h.step hen)
    cases c with
    | acquire k now =>
      rw [decisions_acquire, decisions_acquire, (Forgets.tryAcquire hen h).1]
      exact congrArg _ hrest
    | reset k => exact hrest
    | evict now maxAge => exact hrest

/-- A bucket that is dropped would be full again before its next request. -/
theorem levelAt_evicted (hrate : 0 ≤ cfg.ratePerSecond) {now : ℚ} {maxAge : Int}
    (hage : cfg.burstSize ≤ cfg.ratePerSecond * maxAge)
    (horder : InOrder (.evict now maxAge :: calls))
    (hkept : Kept cfg buckets (.evict now maxAge :: calls)) {b : Bucket}
    (hb : buckets key = some b) (hstale : b.lastRefill < now - maxAge) :
    ∀ t ∈ requests key calls, cfg.bucket.levelAt (some b.fill) t = cfg.burstSize := by
  intro t ht
  obtain ⟨hlow, hstamp⟩ := hkept key b hb
  have hnow : now ≤ t := horder.le rfl ht
  have hidle : b.lastRefill + maxAge ≤ t := by linarith
  exact TokenBucket.levelAt_forgotten hrate hlow (hstamp t (requests_cons_subset _ ht)) hage hidle

theorem forgets_evict (hrate : 0 ≤ cfg.ratePerSecond) {now : ℚ} {maxAge : Int}
    (hage : cfg.burstSize ≤ cfg.ratePerSecond * maxAge)
    (horder : InOrder (.evict now maxAge :: calls))
    (hkept : Kept cfg buckets (.evict now maxAge :: calls)) :
    Forgets cfg calls buckets (evictStale buckets now maxAge) := by
  intro key
  unfold evictStale
  cases hkey : buckets key with
  | none => exact Or.inl rfl
  | some b =>
    by_cases hstale : b.lastRefill < now - maxAge
    · right
      refine ⟨by simp [Option.filter, hstale], b, rfl, Or.inr ?_⟩
      exact levelAt_evicted hrate hage horder hkept hkey hstale
    · left
      simp [Option.filter, hstale]

theorem decisions_evict (hrate : 0 ≤ cfg.ratePerSecond) (hen : cfg.enabled = true)
    (pre : List Call) {now : ℚ} {maxAge : Int}
    (hage : cfg.burstSize ≤ cfg.ratePerSecond * maxAge)
    (horder : InOrder (pre ++ .evict now maxAge :: calls))
    (hkept : Kept cfg buckets (pre ++ .evict now maxAge :: calls)) :
    decisions cfg buckets (pre ++ .evict now maxAge :: calls) =
      decisions cfg buckets (pre ++ calls) := by
  induction pre generalizing buckets with
  | nil => exact ((forgets_evict hrate hage horder hkept).decisions hen).symm
  | cons c pre ih =>
    have hrest := ih (List.pairwise_cons.mp horder).2 (hkept.step hrate hen horder)
    cases c with
    | acquire k now =>
      rw [List.cons_append, List.cons_append, decisions_acquire, decisions_acquire]
      exact congrArg _ hrest
    | reset k => exact hrest
    | evict now maxAge => exact hrest

/-! ## The grants of a key -/

/-- The readings of the granted requests of a key. -/
def grants (key : Bytes) (ds : List Decision) : List ℚ :=
  (ds.filter fun d => d.key == key && d.granted).map Decision.now

theorem grants_acquire_self (cfg : RateLimiterConfig) (buckets : Buckets) (now : ℚ)
    (calls : List Call) :
    grants key (decisions cfg buckets (.acquire key now :: calls)) =
      if (tryAcquire cfg buckets key now).1 then
        now :: grants key (decisions cfg (tryAcquire cfg buckets key now).2 calls)
      else grants key (decisions cfg (tryAcquire cfg buckets key now).2 calls) := by
  rw [decisions_acquire]
  unfold grants
  by_cases h : (tryAcquire cfg buckets key now).1 = true
  · rw [if_pos h, List.filter_cons_of_pos (by simp [h]), List.map_cons]
  · rw [if_neg h, List.filter_cons_of_neg (by simp [h])]

theorem grants_acquire_other (cfg : RateLimiterConfig) (buckets : Buckets) {k : Bytes}
    (hk : k ≠ key) (now : ℚ) (calls : List Call) :
    grants key (decisions cfg buckets (.acquire k now :: calls)) =
      grants key (decisions cfg (tryAcquire cfg buckets k now).2 calls) := by
  rw [decisions_acquire]
  unfold grants
  rw [List.filter_cons_of_neg (by simp [hk])]

theorem requests_self (now : ℚ) (calls : List Call) :
    requests key (.acquire key now :: calls) = now :: requests key calls := by
  simp [requests]

theorem requests_other {k : Bytes} (hk : k ≠ key) (now : ℚ) (calls : List Call) :
    requests key (.acquire k now :: calls) = requests key calls := by
  simp [requests, hk]

/-- The ideal bucket of a key holds what the map holds, or is full at every request to come
    where the map holds nothing. -/
def Ideal (cfg : RateLimiterConfig) (key : Bytes) (calls : List Call) (buckets : Buckets)
    (f : Option (Fill ℚ)) : Prop :=
  (buckets key).map Bucket.fill = f ∨
    (buckets key = none ∧ ∀ t ∈ requests key calls, cfg.bucket.levelAt f t = cfg.burstSize)

theorem Ideal.of_same {c : Call} {after : Buckets} {f : Option (Fill ℚ)}
    (h : Ideal cfg key (c :: calls) buckets f) (hsame : after key = buckets key) :
    Ideal cfg key calls after f := by
  unfold Ideal
  rw [hsame]
  exact h.imp_right fun hfull => ⟨hfull.1, fun t ht => hfull.2 t (requests_cons_subset _ ht)⟩

/-- What an eviction drops is full again at every request to come. -/
theorem Ideal.evict (hrate : 0 ≤ cfg.ratePerSecond) {now : ℚ} {maxAge : Int}
    {f : Option (Fill ℚ)} (hage : cfg.burstSize ≤ cfg.ratePerSecond * maxAge)
    (horder : InOrder (.evict now maxAge :: calls))
    (hkept : Kept cfg buckets (.evict now maxAge :: calls))
    (h : Ideal cfg key (.evict now maxAge :: calls) buckets f) :
    Ideal cfg key calls (evictStale buckets now maxAge) f := by
  by_cases hsame : evictStale buckets now maxAge key = buckets key
  · exact h.of_same hsame
  · unfold evictStale at hsame
    cases hkey : buckets key with
    | none =>
      rw [hkey] at hsame
      exact absurd rfl hsame
    | some b =>
      have hstale : b.lastRefill < now - maxAge := by
        by_contra hfresh
        exact hsame (by simp [hkey, Option.filter, hfresh])
      rcases h with hfill | ⟨hnone, -⟩
      · refine Or.inr ⟨by simp [evictStale, hkey, Option.filter, hstale], ?_⟩
        rw [← hfill, hkey]
        exact levelAt_evicted hrate hage horder hkept hkey hstale
      · rw [hkey] at hnone
        cases hnone

/-- The map decides as the ideal bucket does, and holds it from then on. -/
theorem Ideal.acquire (hen : cfg.enabled = true) {now : ℚ} {f : Option (Fill ℚ)}
    (hne : NotAtEpoch buckets (.acquire key now))
    (h : Ideal cfg key (.acquire key now :: calls) buckets f) :
    (tryAcquire cfg buckets key now).1 = (cfg.bucket.take f now).1 ∧
      Ideal cfg key calls (tryAcquire cfg buckets key now).2 (some (cfg.bucket.take f now).2) := by
  have hlevel : cfg.bucket.levelAt ((buckets key).map Bucket.fill) now =
      cfg.bucket.levelAt f now := by
    rcases h with hsame | ⟨hnone, hfull⟩
    · rw [hsame]
    · rw [hnone, hfull now (mem_requests.mpr List.mem_cons_self)]
      rfl
  have htake := @acquireFrom_take cfg _ hne now
  rw [TokenBucket.take_congr hlevel] at htake
  have hself := tryAcquire_self hen buckets key now
  rw [htake] at hself
  constructor
  · rw [tryAcquire_enabled hen, htake]
  · left
    rw [hself]
    rfl

/-- The grants of a key are those of one ideal bucket that sees the key's requests. -/
theorem grants_ideal (hrate : 0 ≤ cfg.ratePerSecond) (hen : cfg.enabled = true)
    (horder : InOrder calls) (hkept : Kept cfg buckets calls)
    (hown : ∀ c ∈ calls, c ≠ .reset key) (hharm : ∀ c ∈ calls, c.Harmless cfg)
    (hepoch : AllSteps (fun b c => some (step cfg b c)) NotAtEpoch buckets calls)
    {f : Option (Fill ℚ)} (hideal : Ideal cfg key calls buckets f) :
    grants key (decisions cfg buckets calls) = cfg.bucket.granted f (requests key calls) := by
  induction calls generalizing buckets f with
  | nil => rfl
  | cons c calls ih =>
    obtain ⟨hne, hepoch'⟩ := hepoch _ rfl
    have hrest : ∀ g, Ideal cfg key calls (step cfg buckets c) g →
        grants key (decisions cfg (step cfg buckets c) calls) =
          cfg.bucket.granted g (requests key calls) := fun g hg =>
      ih (List.pairwise_cons.mp horder).2 (hkept.step hrate hen horder)
        (fun d hd => hown d (List.mem_cons_of_mem c hd))
        (fun d hd => hharm d (List.mem_cons_of_mem c hd)) hepoch' hg
    cases c with
    | acquire k now =>
      by_cases hk : k = key
      · subst hk
        obtain ⟨hdec, hnext⟩ := hideal.acquire hen hne
        rw [grants_acquire_self, requests_self]
        unfold TokenBucket.granted
        dsimp only
        rw [← hrest _ hnext, hdec]
        rfl
      · rw [grants_acquire_other cfg buckets hk, requests_other hk]
        exact hrest f (hideal.of_same (tryAcquire_other cfg buckets (Ne.symm hk) now))
    | reset k =>
      have hk : key ≠ k := fun he => hown _ List.mem_cons_self (he ▸ rfl)
      exact hrest f (hideal.of_same (reset_other buckets hk))
    | evict now maxAge =>
      have hage : cfg.burstSize ≤ cfg.ratePerSecond * maxAge := hharm _ List.mem_cons_self
      exact hrest f (hideal.evict hrate hage horder hkept)

/-- A clock that never reads its epoch stamps no bucket with it. -/
theorem notAtEpoch_of_readings (hen : cfg.enabled = true)
    (hread : ∀ key now, .acquire key now ∈ calls → now ≠ epoch)
    (hb : ∀ key b, buckets key = some b → b.lastRefill ≠ epoch) :
    AllSteps (fun b c => some (step cfg b c)) NotAtEpoch buckets calls := by
  induction calls generalizing buckets with
  | nil => trivial
  | cons c calls ih =>
    intro t ht
    cases ht
    have hrest : ∀ key now, .acquire key now ∈ calls → now ≠ epoch :=
      fun key now hm => hread key now (List.mem_cons_of_mem c hm)
    cases c with
    | acquire k now =>
      refine ⟨hb k, ih hrest ?_⟩
      intro key b hst
      by_cases hk : key = k
      · subst hk
        have hself : some (acquireFrom cfg ((buckets key).getD {}) now).2 = some b := by
          rw [← tryAcquire_self hen]
          exact hst
        cases hself
        rw [acquireFrom_stamp]
        exact hread key now List.mem_cons_self
      · refine hb key b ?_
        rw [← tryAcquire_other cfg buckets hk now]
        exact hst
    | reset k =>
      refine ⟨trivial, ih hrest ?_⟩
      intro key b hst
      by_cases hk : key = k
      · subst hk
        have hnone : Function.update buckets key none key = some b := hst
        rw [Function.update_self] at hnone
        cases hnone
      · refine hb key b ?_
        rw [← reset_other buckets hk]
        exact hst
    | evict now maxAge =>
      exact ⟨trivial, ih hrest fun key b hst => hb key b (Option.filter_eq_some_iff.mp hst).1⟩

theorem requests_inOrder (horder : InOrder calls) (key : Bytes) :
    (requests key calls).Pairwise (· ≤ ·) := by
  refine List.Pairwise.filterMap _ ?_ horder
  intro c d hbefore t ht u hu
  cases c with
  | acquire k now =>
    cases d with
    | acquire k' now' =>
      dsimp only at ht hu
      split at ht
      · split at hu
        · cases ht
          cases hu
          exact hbefore t rfl
        · cases hu
      · cases ht
    | reset k' => cases hu
    | evict now' maxAge => cases hu
  | reset k => cases ht
  | evict now maxAge => cases ht

/-- How many requests of a key are granted in the window of length `len` from `start`. -/
def grantedIn (key : Bytes) (start len : ℚ) (ds : List Decision) : Nat :=
  ds.countP fun d => d.key == key && d.granted && decide (start ≤ d.now ∧ d.now ≤ start + len)

theorem grantedIn_grants (key : Bytes) (start len : ℚ) (ds : List Decision) :
    grantedIn key start len ds =
      (grants key ds).countP fun t => start ≤ t ∧ t ≤ start + len := by
  unfold grantedIn grants
  rw [List.countP_map, List.countP_filter]
  refine List.countP_congr ?_
  intro d _
  simp [and_comm, and_assoc]

/-- The bound on the grants, the independence of the keys and the evictions that change no
    decision, for a limiter without buckets that receives `calls`. -/
structure Limits (cfg : RateLimiterConfig) (calls : List Call) : Prop where
  /-- A burst below zero grants nothing, as a burst of zero does. -/
  window : ∀ key, (∀ c ∈ calls, c ≠ .reset key) → (∀ c ∈ calls, c.Harmless cfg) →
    ∀ start len, 0 ≤ len →
      (grantedIn key start len (decisions cfg noBuckets calls) : ℚ) ≤
        max cfg.burstSize 0 + cfg.ratePerSecond * len
  independent : ∀ key, (decisions cfg noBuckets calls).filter (fun d => d.key == key) =
    decisions cfg noBuckets (calls.filter (Call.concerns key))
  evict : ∀ pre now (maxAge : Int) post, calls = pre ++ .evict now maxAge :: post →
    cfg.burstSize ≤ cfg.ratePerSecond * maxAge →
      decisions cfg noBuckets calls = decisions cfg noBuckets (pre ++ post)

/-- An enabled limiter with a rate that is not negative limits every run in the order of
    the readings in which no request finds a bucket stamped with the clock's epoch. -/
theorem limits (cfg : RateLimiterConfig) (hen : cfg.enabled = true)
    (hrate : 0 ≤ cfg.ratePerSecond) {calls : List Call} (horder : InOrder calls)
    (hepoch : AllSteps (fun b c => some (step cfg b c)) NotAtEpoch noBuckets calls) :
    Limits cfg calls := by
  have hkept := kept_empty cfg calls
  refine ⟨?_, fun key => decisions_own rfl calls, ?_⟩
  · intro key hown hharm start len hlen
    have hideal := grants_ideal hrate hen horder hkept hown hharm hepoch (f := none)
      (Or.inl rfl)
    rw [grantedIn_grants, hideal]
    rcases le_or_gt 0 cfg.burstSize with hburst | hburst
    · have hfull : ∀ t ∈ requests key calls, 0 ≤ cfg.bucket.levelAt none t := fun _ _ => hburst
      rw [max_eq_left hburst]
      exact TokenBucket.window_bound hrate hburst (requests_inOrder horder key) hfull start hlen
    · have hcap : cfg.bucket.cap < 1 := lt_trans hburst one_pos
      have hflow : 0 ≤ cfg.ratePerSecond * len := mul_nonneg hrate hlen
      rw [TokenBucket.granted_of_cap_lt hcap, max_eq_right hburst.le]
      simpa using hflow
  · rintro pre now maxAge post rfl hage
    exact decisions_evict hrate hen pre hage horder hkept

/-- Two requests at the epoch of the clock: each finds its bucket new. -/
theorem epoch_grants_twice : ¬ Limits ⟨0, 1, true⟩ [.acquire [1] epoch, .acquire [1] epoch] := by
  intro h
  have hcount : grantedIn [1] 0 0
      (decisions ⟨0, 1, true⟩ noBuckets [.acquire [1] epoch, .acquire [1] epoch]) = 2 := by
    decide +kernel
  have hle := h.window [1] (by decide) (by simp [Call.Harmless]) 0 0 (le_refl 0)
  rw [hcount] at hle
  norm_num at hle

/-- The presets, the only configurations the server builds, have no negative numbers. -/
theorem configForGuardrailPreset_nonneg (preset : String) :
    0 ≤ (configForGuardrailPreset preset).ratePerSecond ∧
      0 ≤ (configForGuardrailPreset preset).burstSize := by
  unfold configForGuardrailPreset
  split_ifs <;> norm_num

/-- One client twice, a second apart, and an eviction of what is older than two seconds. -/
def strictCalls : List Call := [.acquire [1] 5, .evict 5 2, .acquire [1] 6]

theorem limits_strict : Limits (configForGuardrailPreset "strict") strictCalls := by
  refine limits _ rfl (configForGuardrailPreset_nonneg "strict").1 ?_ ?_
  · simp [InOrder, strictCalls, Call.Before, Call.reading]
    norm_num
  · refine notAtEpoch_of_readings rfl ?_ ?_
    · intro key now hm
      simp only [strictCalls, List.mem_cons, Call.acquire.injEq, reduceCtorEq,
        List.not_mem_nil, or_false, false_or] at hm
      rcases hm with ⟨-, rfl⟩ | ⟨-, rfl⟩
      · norm_num [epoch]
      · norm_num [epoch]
    · intro key b hb
      cases hb

end TruellmEngine.Policy
