import DataRelay.Lib.Dict
import DataRelay.Lib.FixedWindow
import DataRelay.Lib.Json

/-! The limiters in front of a source and in front of a destination: a fixed window of calls for
each stream or route, under the configuration the call hands over. -/
namespace RateLimit
open FixedWindow

/-- `int` and `float` on what a configuration holds. -/
structure Conversions where
  int : Json → Except String ℤ
  float : Json → Except String ℚ

/-- A call of `allow`: the stream or route, its configuration, and the clock. -/
structure AllowCall where
  key : ℤ
  rateLimitJson : Option Json.Members
  now : ℚ
  deriving DecidableEq

abbrev Windows := List (ℤ × Window ℚ)

section Allow

variable (C : Conversions)

/-- The calls a configuration lets through and the seconds it does so in; `none` is no limit. -/
def limitOf (rateLimitJson : Option Json.Members) : Except String (Option (ℤ × ℚ)) := do
  let cfg := rateLimitJson.getD []
  if cfg = [] then return none
  let maxEvents ← C.int ((Dict.get? "max_events" cfg).getD (.int 0))
  let perSeconds ← C.float ((Dict.get? "per_seconds" cfg).getD (.int 1))
  if maxEvents ≤ 0 ∨ perSeconds ≤ 0 then return none
  return some (maxEvents, perSeconds)

/-- The window of the call, once there is a limit. -/
def takeWindow (maxEvents : ℤ) (perSeconds : ℚ) (windows : Windows) (c : AllowCall) :
    Bool × Windows :=
  match Dict.get? c.key windows with
  | none => (true, Dict.set c.key ⟨c.now, 1⟩ windows)
  | some st =>
    if perSeconds ≤ c.now - st.start then (true, Dict.set c.key ⟨c.now, 1⟩ windows)
    else if maxEvents ≤ st.sent then (false, windows)
    else (true, Dict.set c.key ⟨st.start, st.sent + 1⟩ windows)

/-- What both `allow` methods do. -/
def allowWindow (windows : Windows) (c : AllowCall) : Except String (Bool × Windows) :=
  match limitOf C c.rateLimitJson with
  | .error message => .error message
  | .ok none => .ok (true, windows)
  | .ok (some (maxEvents, perSeconds)) => .ok (takeWindow maxEvents perSeconds windows c)

/-- `SourceRateLimiter.allow`, by stream. -/
def SourceRateLimiter.allow (windows : Windows) (c : AllowCall) : Except String (Bool × Windows) :=
  allowWindow C windows c

/-- `DestinationRateLimiter.allow`, by route. -/
def DestinationRateLimiter.allow (windows : Windows) (c : AllowCall) :
    Except String (Bool × Windows) :=
  allowWindow C windows c

end Allow

/-- The calls in their order, each with its answer. A call that raises changes nothing. -/
def serveAllow (allow : Windows → AllowCall → Except String (Bool × Windows)) :
    Windows → List AllowCall → List (AllowCall × Except String Bool)
  | _, [] => []
  | windows, c :: calls =>
    match allow windows c with
    | .error message => (c, .error message) :: serveAllow allow windows calls
    | .ok (answer, next) => (c, .ok answer) :: serveAllow allow next calls

/-- When the calls of a key were let through. -/
def grants (key : ℤ) (served : List (AllowCall × Except String Bool)) : List ℚ :=
  served.filterMap fun x => if x.1.key = key ∧ x.2 = .ok true then some x.1.now else none

/-- When the calls of a key were made. -/
def timesOf (key : ℤ) (calls : List AllowCall) : List ℚ :=
  (calls.filter fun c => c.key = key).map (·.now)

section Runs

variable {C : Conversions} {key limit : ℤ} {per : ℚ}

/-- A call goes through the window of its key. -/
theorem takeWindow_own (limit : ℤ) (per : ℚ) (windows : Windows) (c : AllowCall) :
    (takeWindow limit per windows c).1 = (letThrough limit per c.now (Dict.get? c.key windows)).1 ∧
      Dict.get? c.key (takeWindow limit per windows c).2 =
        some (letThrough limit per c.now (Dict.get? c.key windows)).2 := by
  unfold takeWindow
  cases hget : Dict.get? c.key windows with
  | none => simp [letThrough]
  | some st =>
    by_cases hopen : per ≤ c.now - st.start
    · simp [letThrough, hopen]
    · by_cases hfull : limit ≤ st.sent
      · simp [letThrough, hopen, hfull, hget]
      · simp [letThrough, hopen, hfull]

theorem takeWindow_other {windows : Windows} {c : AllowCall} (hne : c.key ≠ key) :
    Dict.get? key (takeWindow limit per windows c).2 = Dict.get? key windows := by
  unfold takeWindow
  cases Dict.get? c.key windows with
  | none => simp [hne]
  | some st =>
    dsimp only
    split_ifs <;> simp [hne]

/-- A call of another key leaves the window of this one. -/
theorem allowWindow_other {windows next : Windows} {c : AllowCall} {answer : Bool}
    (hne : c.key ≠ key) (h : allowWindow C windows c = .ok (answer, next)) :
    Dict.get? key next = Dict.get? key windows := by
  unfold allowWindow at h
  cases hlimit : limitOf C c.rateLimitJson with
  | error message =>
    rw [hlimit] at h
    cases h
  | ok conf =>
    rw [hlimit] at h
    cases conf with
    | none =>
      cases h
      rfl
    | some conf =>
      have hnext : (takeWindow conf.1 conf.2 windows c).2 = next :=
        congrArg Prod.snd (Except.ok.inj h)
      rw [← hnext, takeWindow_other hne]

/-- The windows the calls leave. -/
def windowsAfter (C : Conversions) : Windows → List AllowCall → Windows
  | windows, [] => windows
  | windows, c :: calls =>
    match allowWindow C windows c with
    | .error _ => windowsAfter C windows calls
    | .ok (_, next) => windowsAfter C next calls

theorem serveAllow_append : ∀ (calls later : List AllowCall) (windows : Windows),
    serveAllow (allowWindow C) windows (calls ++ later) =
      serveAllow (allowWindow C) windows calls ++
        serveAllow (allowWindow C) (windowsAfter C windows calls) later
  | [], _, _ => rfl
  | c :: calls, later, windows => by
    rw [List.cons_append, serveAllow, serveAllow, windowsAfter]
    cases allowWindow C windows c with
    | error message => simp only [serveAllow_append calls later windows, List.cons_append]
    | ok res => simp only [serveAllow_append calls later res.2, List.cons_append]

/-- The calls are served in their order. -/
theorem map_fst_serveAllow : ∀ (calls : List AllowCall) (windows : Windows),
    (serveAllow (allowWindow C) windows calls).map Prod.fst = calls
  | [], _ => rfl
  | c :: calls, windows => by
    rw [serveAllow]
    cases allowWindow C windows c with
    | error message => simp only [List.map_cons, map_fst_serveAllow calls windows]
    | ok res => simp only [List.map_cons, map_fst_serveAllow calls res.2]

/-- The calls of a key are those of its window, whatever is asked for other keys between. -/
theorem serveAllow_key : ∀ (calls : List AllowCall) (windows : Windows),
    (∀ c ∈ calls, c.key = key → limitOf C c.rateLimitJson = .ok (some (limit, per))) →
    grants key (serveAllow (allowWindow C) windows calls) =
        admitted limit per (Dict.get? key windows) (timesOf key calls) ∧
      Dict.get? key (windowsAfter C windows calls) =
        windowAfter limit per (Dict.get? key windows) (timesOf key calls)
  | [], _, _ => ⟨rfl, rfl⟩
  | c :: calls, windows, hfixed => by
    have hrest := fun next =>
      serveAllow_key calls next fun d hd => hfixed d (List.mem_cons_of_mem c hd)
    rw [serveAllow, windowsAfter]
    by_cases hkey : c.key = key
    · obtain ⟨hanswer, hnext⟩ := takeWindow_own limit per windows c
      obtain ⟨hgrants, hafter⟩ := hrest (takeWindow limit per windows c).2
      rw [hkey] at hanswer hnext
      have hok : allowWindow C windows c = .ok (takeWindow limit per windows c) := by
        rw [allowWindow, hfixed c List.mem_cons_self hkey]
      have htimes : timesOf key (c :: calls) = c.now :: timesOf key calls := by
        simp [timesOf, hkey]
      rw [htimes, admitted, windowAfter, hok, ← hnext, ← hgrants, ← hanswer]
      refine ⟨?_, hafter⟩
      obtain ⟨answer, next⟩ := takeWindow limit per windows c
      cases answer with
      | true => simp [grants, hkey]
      | false => simp [grants, hkey]
    · have htimes : timesOf key (c :: calls) = timesOf key calls := by simp [timesOf, hkey]
      rw [htimes]
      cases hres : allowWindow C windows c with
      | error message =>
        obtain ⟨hgrants, hafter⟩ := hrest windows
        refine ⟨?_, hafter⟩
        rw [← hgrants]
        simp [grants, hkey]
      | ok res =>
        obtain ⟨hgrants, hafter⟩ := hrest res.2
        rw [allowWindow_other hkey hres] at hgrants hafter
        refine ⟨?_, hafter⟩
        rw [← hgrants]
        simp [grants, hkey]

/-- The answer to a call of the key is that of its window. -/
theorem serveAllow_answer {c : AllowCall} (windows : Windows) {before : List AllowCall}
    (hkey : c.key = key) (hlimit : limitOf C c.rateLimitJson = .ok (some (limit, per)))
    (hfixed : ∀ d ∈ before, d.key = key → limitOf C d.rateLimitJson = .ok (some (limit, per)))
    (after : List AllowCall) :
    (serveAllow (allowWindow C) (windowsAfter C windows before) (c :: after)).head? =
      some (c, .ok (letThrough limit per c.now
        (windowAfter limit per (Dict.get? key windows) (timesOf key before))).1) := by
  obtain ⟨hanswer, _⟩ := takeWindow_own limit per (windowsAfter C windows before) c
  rw [hkey, (serveAllow_key before windows hfixed).2] at hanswer
  rw [serveAllow, allowWindow, hlimit, ← hanswer]
  rfl

/-- The calls of one key under one limit, by a clock that does not go back. -/
theorem allowWindow_conforms {windows : Windows} {calls : List AllowCall} (hlimit : 0 < limit)
    (hper : 0 < per) (hstart : Dict.get? key windows = none)
    (hclock : (timesOf key calls).Pairwise (· ≤ ·))
    (hfixed : ∀ c ∈ calls, c.key = key → limitOf C c.rateLimitJson = .ok (some (limit, per))) :
    (∀ x ∈ serveAllow (allowWindow C) windows calls, x.1.key = key →
        ∃ answer, x.2 = .ok answer) ∧
      (∀ (a : ℚ) (k : ℕ), ((grants key (serveAllow (allowWindow C) windows calls)).countP
        fun t => a ≤ t ∧ t < a + k * per : ℤ) ≤ (k + 1) * limit) ∧
      ∀ before c after,
        serveAllow (allowWindow C) windows calls = before ++ (c, .ok false) :: after → c.key = key →
        limit ≤ ((grants key before).countP fun t => c.now - per < t ∧ t ≤ c.now : ℕ) := by
  have hplace (before : List (AllowCall × Except String Bool)) (x : AllowCall × Except String Bool)
      (after : List (AllowCall × Except String Bool))
      (hserved : serveAllow (allowWindow C) windows calls = before ++ x :: after) :
      calls = before.map Prod.fst ++ x.1 :: after.map Prod.fst ∧
        before = serveAllow (allowWindow C) windows (before.map Prod.fst) ∧
        (x.1.key = key → x.2 = .ok (letThrough limit per x.1.now
          (windowAfter limit per none (timesOf key (before.map Prod.fst)))).1) := by
    have hcalls : calls = before.map Prod.fst ++ x.1 :: after.map Prod.fst := by
      rw [← map_fst_serveAllow calls windows, hserved, List.map_append, List.map_cons]
    rw [hcalls, serveAllow_append] at hserved
    have hlength : (serveAllow (allowWindow C) windows (before.map Prod.fst)).length =
        before.length := by
      rw [← List.length_map (f := Prod.fst), map_fst_serveAllow, List.length_map]
    obtain ⟨hbefore, hrest⟩ := List.append_inj hserved hlength
    refine ⟨hcalls, hbefore.symm, fun hkey => ?_⟩
    have hmem (d : AllowCall) (hd : d ∈ before.map Prod.fst) : d ∈ calls := by
      rw [hcalls]
      exact List.mem_append_left _ hd
    have hanswer := serveAllow_answer windows hkey
      (hfixed x.1 (by rw [hcalls]; simp) hkey) (fun d hd => hfixed d (hmem d hd))
      (after.map Prod.fst)
    rw [hrest, hstart] at hanswer
    exact congrArg Prod.snd (Option.some.inj hanswer)
  refine ⟨?_, ?_, ?_⟩
  · intro x hx hkey
    obtain ⟨before, after, hserved⟩ := List.append_of_mem hx
    exact ⟨_, (hplace before x after hserved).2.2 hkey⟩
  · intro a k
    have hbound := within_le hlimit hper a k (timesOf key calls) none hclock (by rintro v ⟨⟩)
    rw [(serveAllow_key calls windows hfixed).1, hstart]
    exact hbound
  · intro before c after hserved hkey
    obtain ⟨hcalls, hbefore, hanswer⟩ := hplace before (c, .ok false) after hserved
    have hsorted : (timesOf key (before.map Prod.fst) ++ [c.now]).Pairwise (· ≤ ·) := by
      rw [hcalls] at hclock
      refine hclock.sublist ?_
      simp [timesOf, hkey]
    have hrefused := refused_full hlimit hsorted (Except.ok.inj (hanswer hkey)).symm
    have hgrants := (serveAllow_key (before.map Prod.fst) windows fun d hd hd' => hfixed d (by
      rw [hcalls]
      exact List.mem_append_left _ hd) hd').1
    rw [← hbefore, hstart] at hgrants
    rwa [hgrants]

end Runs

/-- The calls of a stream under one limit, by a clock that does not go back and with calls of other
streams between: every call is answered, any stretch of `k` windows lets through at most what
`k + 1` windows hold, and a call is refused only where a window's worth was let through in the time
of one window before it. -/
theorem sourceLimiter_conforms (C : Conversions) (windows : Windows) (calls : List AllowCall)
    (stream limit : ℤ) (per : ℚ) (hlimit : 0 < limit) (hper : 0 < per)
    (hstart : Dict.get? stream windows = none)
    (hclock : (timesOf stream calls).Pairwise (· ≤ ·))
    (hfixed : ∀ c ∈ calls, c.key = stream →
      limitOf C c.rateLimitJson = .ok (some (limit, per))) :
    (∀ x ∈ serveAllow (SourceRateLimiter.allow C) windows calls, x.1.key = stream →
        ∃ answer, x.2 = .ok answer) ∧
      (∀ (a : ℚ) (k : ℕ),
        ((grants stream (serveAllow (SourceRateLimiter.allow C) windows calls)).countP
          fun t => a ≤ t ∧ t < a + k * per : ℤ) ≤ (k + 1) * limit) ∧
      ∀ before c after, serveAllow (SourceRateLimiter.allow C) windows calls =
          before ++ (c, .ok false) :: after → c.key = stream →
        limit ≤ ((grants stream before).countP fun t => c.now - per < t ∧ t ≤ c.now : ℕ) :=
  allowWindow_conforms hlimit hper hstart hclock hfixed

/-- `int` and `float` on numbers. -/
def plainConversions : Conversions where
  int
    | .int i => .ok i
    | _ => .error "int() argument must be a string, a bytes-like object or a real number"
  float
    | .int i => .ok i
    | _ => .error "float() argument must be a string or a real number"

/-- Two fetches of stream 3 a minute, with a fetch of stream 4 between. -/
def fetches : List AllowCall :=
  let twoPerMinute : Option Json.Members := some [("max_events", .int 2), ("per_seconds", .int 60)]
  [⟨3, twoPerMinute, 0⟩, ⟨4, none, 1⟩, ⟨3, twoPerMinute, 5⟩, ⟨3, twoPerMinute, 9⟩]

theorem fetches_conform :
    (∀ x ∈ serveAllow (SourceRateLimiter.allow plainConversions) [] fetches, x.1.key = 3 →
        ∃ answer, x.2 = .ok answer) ∧
      (∀ (a : ℚ) (k : ℕ),
        ((grants 3 (serveAllow (SourceRateLimiter.allow plainConversions) [] fetches)).countP
          fun t => a ≤ t ∧ t < a + k * 60 : ℤ) ≤ (k + 1) * 2) ∧
      ∀ before c after, serveAllow (SourceRateLimiter.allow plainConversions) [] fetches =
          before ++ (c, .ok false) :: after → c.key = 3 →
        (2 : ℤ) ≤ ((grants 3 before).countP fun t => c.now - 60 < t ∧ t ≤ c.now : ℕ) :=
  sourceLimiter_conforms plainConversions [] fetches 3 2 60 (by decide) (by decide) rfl (by decide)
    (by decide)

end RateLimit
