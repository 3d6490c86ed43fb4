import DataRelay.Lib.JsonParting
import DataRelay.Lib.Reordering
import DataRelay.Protection.Batch
import DataRelay.Protection.Coverage

/-! When the order of the protection rules matters: rules whose paths part may be applied in
either order, so a batch comes out the same as long as the other rules keep their order. -/
namespace Protection
open JsonPath Delivery Reordering

/-- The literal members that could stand for a run of unquoted members. -/
def aliasNames (run : List String) : List String :=
  (run.inits.filter fun parts => 2 ≤ parts.length).map (String.intercalate ".")

theorem dottedMember_eq (run : List String) (ms : Json.Members) :
    dottedMember run ms = (aliasNames run).any fun name => Dict.has name ms := by
  simp [dottedMember, aliasNames, List.any_map, List.any_filter, Function.comp_def]

/-- Two paths part: they name different members after a common front, and neither member is
one the guard looks for on the way of the other path. -/
def selectorsPart : List (Sel × Bool) → List (Sel × Bool) → Bool
  | (x, f) :: s, (y, g) :: t =>
    if x = y then selectorsPart s t
    else
      match x, y with
      | .key k, .key l =>
        decide (k ∉ aliasNames (unquotedRun ((.key l, g) :: t))) &&
          decide (l ∉ aliasNames (unquotedRun ((.key k, f) :: s)))
      | _, _ => false
  | _, _ => false

theorem selectorsPart_symm (s t : List (Sel × Bool)) : selectorsPart s t = selectorsPart t s := by
  induction s generalizing t with
  | nil => cases t <;> rfl
  | cons a s ih =>
    cases t with
    | nil => rfl
    | cons b t =>
      obtain ⟨x, f⟩ := a
      obtain ⟨y, g⟩ := b
      by_cases hxy : x = y
      · simp [selectorsPart, hxy, ih]
      · cases x <;> cases y <;> simp_all [selectorsPart, Bool.and_comm, eq_comm]

/-- Where the selectors differ, both are members. -/
theorem selectorsPart_differ {x y : Sel} {f g : Bool} {s t : List (Sel × Bool)} (hxy : x ≠ y)
    (h : selectorsPart ((x, f) :: s) ((y, g) :: t) = true) :
    ∃ k l, x = .key k ∧ y = .key l ∧ k ≠ l ∧
      l ∉ aliasNames (unquotedRun ((.key k, f) :: s)) := by
  cases x with
  | key k =>
    cases y with
    | key l =>
      have hkl : k ≠ l := fun he => hxy (by rw [he])
      simp only [selectorsPart, hxy, ↓reduceIte, Bool.and_eq_true, decide_eq_true_eq] at h
      exact ⟨k, l, rfl, rfl, hkl, h.2⟩
    | _ => simp [selectorsPart] at h
  | _ => cases y <;> simp_all [selectorsPart]

theorem selectorsPart_parts {s t : List (Sel × Bool)} (h : selectorsPart s t = true) :
    Parts (s.map Prod.fst) (t.map Prod.fst) := by
  induction s generalizing t with
  | nil => simp [selectorsPart] at h
  | cons a s ih =>
    cases t with
    | nil => simp [selectorsPart] at h
    | cons b t =>
      obtain ⟨x, f⟩ := a
      obtain ⟨y, g⟩ := b
      by_cases hxy : x = y
      · subst hxy
        exact .deeper x (ih (by simpa [selectorsPart] using h))
      · obtain ⟨k, l, rfl, rfl, hkl, -⟩ := selectorsPart_differ hxy h
        exact .here hkl _ _

theorem has_rewriteMember (name : String) {k : String} {f : Json → Option Json} {ms : Json.Members}
    (h : k ≠ name ∨ ∃ c d, Dict.get? k ms = some c ∧ f c = some d) :
    Dict.has name (rewriteMember k f ms) = Dict.has name ms := by
  by_cases hk : k = name
  · obtain ⟨c, d, hc, hd⟩ := h.resolve_left (by simpa using hk)
    subst hk
    simp [Dict.has, rewriteMember_some hc hd, hc]
  · simp [Dict.has, get?_rewriteMember_ne hk]

/-- The guard of one path does not see a rewrite along a path that parts from it. -/
theorem couldAlias_rewriteAt {s t : List (Sel × Bool)} (h : selectorsPart s t = true)
    (g : Json → Option Json) {v w : Json} (hw : rewriteAt g (t.map Prod.fst) v = some w) :
    couldAlias s w = couldAlias s v := by
  induction s generalizing t v w with
  | nil => rfl
  | cons a s ih =>
    cases t with
    | nil => simp [selectorsPart] at h
    | cons b t =>
      obtain ⟨x, f⟩ := a
      obtain ⟨y, q⟩ := b
      simp only [List.map_cons] at hw
      by_cases hxy : x = y
      · subst hxy
        have hst : selectorsPart s t = true := by simpa [selectorsPart] using h
        have hne := (selectorsPart_parts hst).symm.left_ne_nil
        cases x with
        | key k =>
          cases v with
          | obj ms =>
            simp only [rewriteAt, Option.some.injEq] at hw
            subst hw
            cases hc : Dict.get? k ms with
            | none => simp [rewriteMember, hc]
            | some c =>
              obtain ⟨d, hd⟩ := rewriteAt_cons_isSome g hne c
              have hhas (name : String) := has_rewriteMember name (.inr ⟨c, d, hc, hd⟩)
              simp only [couldAlias, dottedMember_eq, hhas]
              simp [rewriteMember_some hc hd, hc, ih hst hd]
          | _ => simp_all [rewriteAt]
        | index i =>
          cases v with
          | arr xs =>
            simp only [rewriteAt, Option.some.injEq] at hw
            cases hn : Json.resolveIndex xs.length i with
            | none => simp [← hw, hn]
            | some n =>
              obtain ⟨c, hc⟩ := resolved_item hn
              obtain ⟨d, hd⟩ := rewriteAt_cons_isSome g hne c
              simp only [hn, rewriteItem_some hc hd] at hw
              simp only [← hw, couldAlias, List.length_set, hn, Option.bind_some, hc,
                List.getElem?_set_self (Json.resolveIndex_lt hn), Option.any_some, ih hst hd]
          | _ => simp_all [rewriteAt]
        | wild =>
          cases v with
          | arr xs =>
            simp only [rewriteAt, Option.some.injEq] at hw
            subst hw
            simp only [couldAlias]
            induction xs with
            | nil => rfl
            | cons x xs ihx =>
              obtain ⟨d, hd⟩ := rewriteAt_cons_isSome g hne x
              simp [hd, ih hst hd, ihx]
          | _ => simp_all [rewriteAt]
      · obtain ⟨k, l, rfl, rfl, hkl, hfree⟩ := selectorsPart_differ hxy h
        cases v with
        | obj ms =>
          simp only [rewriteAt, Option.some.injEq] at hw
          subst hw
          have hhas (name : String) (hname : name ∈ aliasNames (unquotedRun ((.key k, f) :: s))) :
              Dict.has name (rewriteMember l (rewriteAt g (t.map Prod.fst)) ms) =
                Dict.has name ms := by
            refine has_rewriteMember name (.inl ?_)
            rintro rfl
            exact hfree hname
          have halias : dottedMember (unquotedRun ((.key k, f) :: s))
              (rewriteMember l (rewriteAt g (t.map Prod.fst)) ms) =
                dottedMember (unquotedRun ((.key k, f) :: s)) ms := by
            rw [dottedMember_eq, dottedMember_eq, Bool.eq_iff_iff, List.any_eq_true,
              List.any_eq_true]
            exact exists_congr fun name => and_congr_right fun hname => by rw [hhas name hname]
          simp only [couldAlias, halias, get?_rewriteMember_ne hkl.symm]
        | _ => simp_all [rewriteAt]

/-- The selectors of a path with their quoting, where both scanners read it alike. -/
def pathSelectors (path : String) : Option (List (Sel × Bool)) :=
  match parseProtectionPath path, quotedSelectorFlags path with
  | .ok segments, .ok flags =>
    if flags.length = segments.length then some (segments.zip flags) else none
  | _, _ => none

def pathsPart (p q : String) : Bool :=
  match pathSelectors p, pathSelectors q with
  | some s, some t => selectorsPart s t
  | _, _ => false

theorem pathsPart_symm (p q : String) : pathsPart p q = pathsPart q p := by
  unfold pathsPart
  cases pathSelectors p <;> cases pathSelectors q <;> simp [selectorsPart_symm]

theorem pathsPart_self (p : String) : pathsPart p p = false := by
  have hself (s : List (Sel × Bool)) : selectorsPart s s = false := by
    induction s with
    | nil => rfl
    | cons a s ih => simp [selectorsPart, ih]
  unfold pathsPart
  cases pathSelectors p <;> simp [hself]

section Step

variable {ctx : ModeContext} {rule : Rule} {event : Event}

/-- One rule on one event, when it reports nothing. -/
def ruleStep (ctx : ModeContext) (rule : Rule) (event : Event) : Option Event :=
  match applyRuleToEvent ctx event rule with
  | .ok out => if out.warning.isNone then some (membersOf out.event) else none
  | .error _ => none

/-- What the rule makes of the values its path designates: nothing, if it ends in `[]`. -/
def segmentOutput (ctx : ModeContext) (rule : Rule) (segments : List Sel) : Json → Option Json :=
  if segments.getLast? = some .wild then some else ruleOutput ctx rule

theorem applySegments_rewritten {segments : List Sel} (hs : segments ≠ []) {v : Json}
    (hok : (applySegments ctx rule segments v).warning = none) :
    rewriteAt (segmentOutput ctx rule segments) segments v =
      some (applySegments ctx rule segments v).event := by
  unfold segmentOutput
  split_ifs with hlast
  · have hl : ¬ EndsDefinite segments := by simp [endsDefinite_iff hs, hlast]
    rw [applySegments_inert hl, rewriteAt_eq_self fun x _ => rfl]
  · exact ((applySegments_covers_iff hok).mpr (.inl ((endsDefinite_iff hs).mpr hlast))).rewritten

/-- Whether a rule reports anything depends only on the values its path designates. -/
theorem applySegments_warning_iff {segments : List Sel} (hs : segments ≠ []) (v : Json) :
    (applySegments ctx rule segments v).warning = none ↔
      segments.getLast? = some .wild ∨ rule.protectionMode = .dropField ∨
        ∀ x ∈ valuesAt segments v,
          ∃ w, applyProtectionMode ctx rule.fieldPath rule.protectionMode x = .ok w := by
  by_cases hl : EndsDefinite segments
  · have hlast := (endsDefinite_iff hs).mp hl
    unfold applySegments
    by_cases hmode : rule.protectionMode = .dropField
    · simp [hmode]
    · rw [if_neg hmode, ← applyAtSegments_ok_iff hl v]
      split
      · next node n hres => simp [hres]
      · next node e hres => simp [hres, hlast, hmode]
  · have hlast : segments.getLast? = some .wild := by
      by_contra h
      exact hl ((endsDefinite_iff hs).mpr h)
    simp [applySegments_inert hl, hlast]

theorem rewriteAt_obj {f : Json → Option Json} {segments : List Sel} (hs : segments ≠ [])
    (event : Event) : ∃ ms, rewriteAt f segments (.obj event) = some (.obj ms) := by
  cases segments with
  | nil => exact absurd rfl hs
  | cons x segments => cases x <;> exact ⟨_, rfl⟩

/-- What it takes for a rule to go through, and what it leaves. -/
theorem ruleStep_eq_some_iff {z : List (Sel × Bool)} (hz : pathSelectors rule.fieldPath = some z)
    (hne : z ≠ []) {out : Event} :
    ruleStep ctx rule event = some out ↔ couldAlias z (.obj event) = false ∧
      (applySegments ctx rule (z.map Prod.fst) (.obj event)).warning = none ∧
      rewriteAt (segmentOutput ctx rule (z.map Prod.fst)) (z.map Prod.fst) (.obj event) =
        some (.obj out) := by
  unfold pathSelectors at hz
  split at hz
  · next segments flags hparse hflags =>
    split_ifs at hz with hlen
    obtain rfl := Option.some.inj hz
    have hmap : (segments.zip flags).map Prod.fst = segments := List.map_fst_zip hlen.ge
    have hs : segments ≠ [] := by
      rintro rfl
      simp at hne
    obtain ⟨s, rest, rfl⟩ := List.exists_cons_of_ne_nil hs
    have hguard : legacyPathHasLiteralDottedMember event rule.fieldPath (s :: rest) =
        .ok (couldAlias ((s :: rest).zip flags) (.obj event)) := by
      simp [legacyPathHasLiteralDottedMember, hflags, hlen, bind, Except.bind, pure, Except.pure]
    rw [hmap]
    unfold ruleStep
    cases halias : couldAlias ((s :: rest).zip flags) (.obj event) with
    | true =>
      rw [halias] at hguard
      simp [applyRuleToEvent, hparse, hguard, bind, Except.bind, pure, Except.pure]
    | false =>
      rw [halias] at hguard
      rw [applyRuleToEvent_eq hparse hguard]
      by_cases hok : (applySegments ctx rule (s :: rest) (.obj event)).warning = none
      · have hrew := applySegments_rewritten (by simp) hok
        obtain ⟨ms, hms⟩ := rewriteAt_obj (f := segmentOutput ctx rule (s :: rest))
          (List.cons_ne_nil s rest) event
        have hevent := Option.some.inj (hrew.symm.trans hms)
        simp [hok, hms, hevent, membersOf]
      · simp [hok]
  · cases hz

/-- Rules whose paths part go through in either order, with the same event. -/
theorem ruleStep_commute (first second : Rule)
    (h : pathsPart first.fieldPath second.fieldPath = true) :
    Commute (ruleStep ctx) first second := by
  have hhalf {a b : Rule} (hab : pathsPart a.fieldPath b.fieldPath = true) {s out : Event}
      (hout : (ruleStep ctx a s).bind (ruleStep ctx b) = some out) :
      (ruleStep ctx b s).bind (ruleStep ctx a) = some out := by
    unfold pathsPart at hab
    split at hab
    · next z y hz hy =>
      have hparts := selectorsPart_parts hab
      have hyz : selectorsPart y z = true := by rwa [selectorsPart_symm]
      have hzne : z.map Prod.fst ≠ [] := hparts.left_ne_nil
      have hyne : y.map Prod.fst ≠ [] := hparts.symm.left_ne_nil
      have hz' : z ≠ [] := fun h => hzne (by simp [h])
      have hy' : y ≠ [] := fun h => hyne (by simp [h])
      obtain ⟨mid, hmid, hout⟩ := Option.bind_eq_some_iff.mp hout
      obtain ⟨hza, hzw, hzr⟩ := (ruleStep_eq_some_iff hz hz').mp hmid
      obtain ⟨hya, hyw, hyr⟩ := (ruleStep_eq_some_iff hy hy').mp hout
      obtain ⟨ms, hms⟩ := rewriteAt_obj (f := segmentOutput ctx b (y.map Prod.fst)) hyne s
      have hcomm := rewriteAt_comm hparts (segmentOutput ctx a (z.map Prod.fst))
        (segmentOutput ctx b (y.map Prod.fst)) (.obj s)
      rw [hzr, hms, Option.bind_some, Option.bind_some, hyr] at hcomm
      refine Option.bind_eq_some_iff.mpr ⟨ms, ?_, ?_⟩
      · refine (ruleStep_eq_some_iff hy hy').mpr ⟨?_, ?_, hms⟩
        · rwa [← couldAlias_rewriteAt hyz _ hzr]
        · rw [applySegments_warning_iff hyne] at hyw ⊢
          rwa [← valuesAt_rewriteAt hparts.symm _ hzr]
      · refine (ruleStep_eq_some_iff hz hz').mpr ⟨?_, ?_, hcomm.symm⟩
        · rwa [couldAlias_rewriteAt hab _ hms]
        · rw [applySegments_warning_iff hzne] at hzw ⊢
          rwa [valuesAt_rewriteAt hparts _ hms]
    · cases hab
  intro s
  refine Option.ext fun out => ⟨fun hout => hhalf h hout, fun hout => hhalf ?_ hout⟩
  rwa [pathsPart_symm]

end Step

/-- What a rule does, apart from how it is reported. -/
structure Action where
  fieldPath : String
  protectionMode : ProtectionMode
  deriving DecidableEq, Repr

def Rule.action (rule : Rule) : Action := ⟨rule.fieldPath, rule.protectionMode⟩

def Action.rule (a : Action) : Rule where
  streamId := 0
  fieldPath := a.fieldPath
  protectionMode := a.protectionMode

theorem ruleStep_action (ctx : ModeContext) (rule : Rule) :
    ruleStep ctx rule = ruleStep ctx rule.action.rule := by
  funext event
  have hseg (segments : List Sel) :
      (applySegments ctx rule segments (.obj event)).event =
          (applySegments ctx rule.action.rule segments (.obj event)).event ∧
        (applySegments ctx rule segments (.obj event)).warning.isNone =
          (applySegments ctx rule.action.rule segments (.obj event)).warning.isNone := by
    simp only [applySegments, Rule.action, Action.rule]
    by_cases hmode : rule.protectionMode = .dropField
    · simp [hmode]
    · simp only [hmode, ↓reduceIte]
      split <;> simp
  have hpath : rule.action.rule.fieldPath = rule.fieldPath := rfl
  unfold ruleStep applyRuleToEvent
  rw [hpath]
  cases parseProtectionPath rule.fieldPath with
  | error e => rfl
  | ok segments =>
    cases segments with
    | nil => rfl
    | cons s rest =>
      simp only
      cases legacyPathHasLiteralDottedMember event rule.fieldPath (s :: rest) with
      | error e => rfl
      | ok aliased =>
        cases aliased with
        | true => rfl
        | false => simp [bind, Except.bind, pure, Except.pure, hseg (s :: rest)]

section Batch

variable {ctx : ModeContext}

/-- The event a rule loop leaves, when it reports nothing. -/
def cleanEvent : Except String EventState → Option Event
  | .ok s => if s.warnings.isEmpty then some s.event else none
  | .error _ => none

/-- The events a batch leaves, when it reports nothing. -/
def cleanBatch : Except String ProtectBatchResult → Option (List Event)
  | .ok r => if r.warnings.isEmpty then some r.events else none
  | .error _ => none

theorem cleanEvent_protectEvent (rules : List Rule) (s : EventState) :
    cleanEvent (protectEvent ctx rules s) =
      if s.warnings.isEmpty then runAll (ruleStep ctx) rules s.event else none := by
  induction rules generalizing s with
  | nil => rfl
  | cons rule rules ih =>
    cases hout : applyRuleToEvent ctx s.event rule with
    | error e => simp [protectEvent, runAll, ruleStep, cleanEvent, hout, bind, Except.bind]
    | ok out =>
      simp only [protectEvent, hout, bind, Except.bind, ih, runAll, ruleStep]
      cases s.warnings <;> cases out.warning <;> simp

theorem cleanEvents_mapM (g : Event → Except String EventState) (events : List Event) :
    (match events.mapM g with
      | .ok states => if (states.flatMap (·.warnings)).isEmpty then
        some (states.map (·.event)) else none
      | .error _ => none) = events.mapM fun event => cleanEvent (g event) := by
  induction events with
  | nil => rfl
  | cons event events ih =>
    rw [List.mapM_cons, List.mapM_cons, ← ih]
    cases g event with
    | error e => rfl
    | ok s =>
      cases events.mapM g with
      | error e => cases hs : s.warnings <;> simp [cleanEvent, hs, bind, Except.bind]
      | ok states =>
        cases hs : s.warnings <;>
          cases hw : states.flatMap (·.warnings) <;>
            simp [cleanEvent, hs, hw, bind, Except.bind, pure, Except.pure]

/-- A batch without a report is the run of every event through the rules in force. -/
theorem cleanBatch_protectBatch (switch : Bool) (events : List Event) (rules ephemeral : List Rule) :
    cleanBatch (protectBatch ctx switch events rules ephemeral) =
      if switch then events.mapM (runAll (ruleStep ctx) (rulesInForce rules ephemeral))
      else some events := by
  have hkeep : events.mapM (fun event => (some event : Option Event)) = some events := by
    induction events with
    | nil => rfl
    | cons event events ih => rw [List.mapM_cons, ih]; rfl
  unfold protectBatch
  cases events with
  | nil => cases switch <;> rfl
  | cons event events =>
    cases switch with
    | false => simp [cleanBatch]
    | true =>
      cases hforce : rulesInForce rules ephemeral with
      | nil => simpa [cleanBatch, runAll] using hkeep.symm
      | cons rule force =>
        have hmap := cleanEvents_mapM (fun event => protectEvent ctx (rule :: force) { event })
          (event :: events)
        simp only [cleanEvent_protectEvent, List.isEmpty_nil, ↓reduceIte] at hmap
        simp only [List.isEmpty_cons, Bool.false_eq_true, ↓reduceIte, Bool.not_true, Bool.or_false]
        rw [← hmap]
        cases (event :: events).mapM fun event => protectEvent ctx (rule :: force) { event } <;>
          rfl

/-- The rules on any two paths that do not part stand in the same order. -/
def SameOrder (paths paths' : List String) : Prop :=
  ∀ p q, pathsPart p q = false →
    paths.filter (fun path => path = p ∨ path = q) = paths'.filter fun path => path = p ∨ path = q

/-- Rules that keep this order leave the same event. -/
theorem runAll_sameOrder {rules rules' : List Rule}
    (hfib : SameFibers Action.fieldPath (rules.map Rule.action) (rules'.map Rule.action))
    (horder : SameOrder (rules.map (·.fieldPath)) (rules'.map (·.fieldPath))) (event : Event) :
    runAll (ruleStep ctx) rules event = runAll (ruleStep ctx) rules' event := by
  have hact (l : List Rule) : runAll (ruleStep ctx) l event =
      runAll (fun a : Action => ruleStep ctx a.rule) (l.map Rule.action) event := by
    rw [runAll_map]
    exact congrArg (fun step => runAll step l event) (funext (ruleStep_action ctx))
  rw [hact, hact]
  have hcomm (a b : Action) (h : ¬ pathsPart a.fieldPath b.fieldPath = false) :
      Commute (fun a : Action => ruleStep ctx a.rule) a b :=
    ruleStep_commute a.rule b.rule (by simpa [Action.rule] using h)
  have hsymm (p q : String) (h : pathsPart p q = false) : pathsPart q p = false := by
    rwa [pathsPart_symm]
  refine runAll_eq_of_projections Action.fieldPath (fun p q => pathsPart p q = false)
    pathsPart_self hsymm hcomm (fun p q hpq => ?_) event
  have hpaths (l : List Rule) :
      ((l.map Rule.action).filter fun a => a.fieldPath = p ∨ a.fieldPath = q).map
          Action.fieldPath = (l.map (·.fieldPath)).filter fun path => path = p ∨ path = q := by
    rw [List.filter_map, List.filter_map, List.map_map]
    rfl
  refine (hfib.filter _).eq_of_keys ?_
  rw [hpaths, hpaths]
  exact horder p q hpq

end Batch

end Protection
