import DataRelay.Enrichment.RuleExecutor
import DataRelay.Lib.Raising

/-! The trace against the run. The two part at a rule that fails, after which the trace stops and
the run goes on, and at a rule of type `static`, which the trace takes for a static field. -/
namespace Enrichment
open Delivery Raising

section Conditions

variable (E : Engines) (policy : OverridePolicy)

/-- Up to the first rule that fails, a rule of type `static` written out as a static field would
leave the event as it is. -/
def StaticRulesInert : List Rule → Event → Prop
  | [], _ => True
  | rule :: rules, event =>
    (rule.type = .static →
      applyStaticFields E policy event [(rule.target, .obj rule.body)] = .ok event) ∧
    ∀ a, applyAdvancedRule E policy event rule = .ok a → a.fieldErrors = [] →
      StaticRulesInert rules a.event

/-- The rules after the first one that fails leave what is delivered as it is. -/
def QuietAfterFailure : List Rule → Event → Prop
  | [], _ => True
  | rule :: rules, event =>
    ∀ a, applyAdvancedRule E policy event rule = .ok a →
      if a.fieldErrors = [] then QuietAfterFailure rules a.event
      else ∀ out, applyRules E policy rules { event := a.event } = .ok out →
        sanitizeDeliveryEvent out.event = sanitizeDeliveryEvent a.event

/-- A condition on the rules and the event they start from: the one with the static fields. -/
def AtRules (P : OverridePolicy → List Rule → Event → Prop) (event : Event)
    (enrichment : Json.Members) (overridePolicy : String) : Prop :=
  ∀ policy base, validatePolicy E overridePolicy = .ok policy →
    applyStaticFields E policy event (splitStaticFields E enrichment) = .ok base →
    P policy (iterAdvancedRules E enrichment) base

end Conditions

section Trace

variable {E : Engines} {policy : OverridePolicy}

/-- The event the trace ends with, without the rows. -/
def traceEvent (E : Engines) (policy : OverridePolicy) : List PlanStep → Event → Except Raised Event
  | [], event => .ok event
  | step :: plan, event =>
    match applyPlanStep E policy event step with
    | .error (.other message) => .error (.other message)
    | .error (.enrichment _) => .ok event
    | .ok a => if a.fieldErrors = [] then traceEvent E policy plan a.event else .ok a.event

/-- A row in front changes nothing of the event. -/
theorem fst_row (x : Except Raised (Event × List EnrichmentTraceStepResult))
    (row : EnrichmentTraceStepResult) :
    (x >>= fun out => pure (out.1, row :: out.2)).map Prod.fst = x.map Prod.fst := by
  cases x <;> rfl

/-- Once a step has failed, the event stays. -/
theorem traceLoop_failed : ∀ (plan : List PlanStep) (index : ℕ) (event : Event),
    (traceLoop E policy none plan index true event).map Prod.fst = .ok event
  | [], _, _ => rfl
  | step :: plan, index, event => by
    have hrest := traceLoop_failed plan (index + 1) event
    rw [traceLoop]
    exact (fst_row _ _).trans hrest

theorem traceLoop_event : ∀ (plan : List PlanStep) (index : ℕ) (event : Event),
    (traceLoop E policy none plan index false event).map Prod.fst = traceEvent E policy plan event
  | [], _, _ => rfl
  | step :: plan, index, event => by
    rw [traceLoop, traceEvent]
    simp only [Option.any_none, Bool.false_eq_true, ↓reduceIte]
    cases hstep : applyPlanStep E policy event step with
    | error e =>
      cases e with
      | other message => rfl
      | enrichment message =>
        exact (fst_row _ _).trans (traceLoop_failed plan (index + 1) event)
    | ok a =>
      cases herrors : a.fieldErrors with
      | nil =>
        simp only [herrors, List.head?_nil, Option.map_none, Option.isSome_none, ↓reduceIte]
        exact (fst_row _ _).trans (traceLoop_event plan (index + 1) a.event)
      | cons error errors =>
        simp only [herrors, List.head?_cons, Option.map_some, Option.isSome_some, reduceCtorEq,
          ↓reduceIte]
        exact (fst_row _ _).trans (traceLoop_failed plan (index + 1) a.event)

theorem applyStaticFields_cons (event : Event) (key : String) (value : Json) (fields : Json.Members) :
    applyStaticFields E policy event ((key, value) :: fields) =
      applyStaticFields E policy event [(key, value)] >>= fun next =>
        applyStaticFields E policy next fields := by
  rw [applyStaticFields, applyStaticFields]
  cases applyStaticField E policy event key value <;> rfl

/-- The static fields of the trace are those of the run, one by one. -/
theorem traceEvent_fields (rest : List PlanStep) : ∀ (fields : Json.Members) (event base : Event),
    applyStaticFields E policy event fields = .ok base →
      traceEvent E policy (fields.map (fun m => .field m.1 m.2) ++ rest) event =
        traceEvent E policy rest base
  | [], event, base, h => by
    obtain rfl := Except.ok.inj h
    rfl
  | (key, value) :: fields, event, base, h => by
    rw [applyStaticFields_cons] at h
    obtain ⟨next, hnext, hrest⟩ := bind_eq_ok h
    have hstep : applyPlanStep E policy event (.field key value) = .ok { event := next } := by
      show Except.map _ (applyStaticFields E policy event [(key, value)]) = _
      rw [hnext]
      rfl
    rw [List.map_cons, List.cons_append, traceEvent, hstep]
    exact traceEvent_fields rest fields next base hrest

/-- What the run collects does not matter to the events. -/
theorem applyRules_event : ∀ (rules : List Rule) (acc acc' : Applied), acc.event = acc'.event →
    (applyRules E policy rules acc).map (·.event) = (applyRules E policy rules acc').map (·.event)
  | [], acc, acc', h => congrArg Except.ok h
  | rule :: rules, acc, acc', h => by
    rw [applyRules, applyRules, h]
    cases applyAdvancedRule E policy acc'.event rule with
    | error e => rfl
    | ok a => exact applyRules_event rules _ _ rfl

/-- A rule of type `static` only leaves a warning in the run. -/
theorem applyAdvancedRule_static {rule : Rule} (h : rule.type = .static) {event : Event} {a : Applied}
    (ha : applyAdvancedRule E policy event rule = .ok a) : a.event = event ∧ a.fieldErrors = [] := by
  unfold applyAdvancedRule at ha
  rw [h] at ha
  obtain rfl := Except.ok.inj ha
  exact ⟨rfl, rfl⟩

theorem type_of_text {rule : Rule} : rule.type.text = "static" ↔ rule.type = .static := by
  constructor
  · intro h
    revert h
    cases rule.type <;> decide
  · intro h
    rw [h]
    rfl

/-- The rules of the trace follow those of the run up to the first that fails, where the trace ends
and the run goes on. -/
theorem traceEvent_rules : ∀ (rules : List Rule) (event : Event) (acc out : Applied),
    acc.event = event → applyRules E policy rules acc = .ok out →
    StaticRulesInert E policy rules event →
    ∃ last, traceEvent E policy (rules.map .rule) event = .ok last ∧
      (sanitizeDeliveryEvent last = sanitizeDeliveryEvent out.event ↔
        QuietAfterFailure E policy rules event)
  | [], event, acc, out, hacc, hrun, _ => by
    obtain rfl := Except.ok.inj hrun
    subst hacc
    exact ⟨acc.event, rfl, iff_of_true rfl trivial⟩
  | rule :: rules, event, acc, out, hacc, hrun, hinert => by
    subst hacc
    rw [applyRules] at hrun
    obtain ⟨a, ha, hrest⟩ := bind_eq_ok hrun
    have hgoesOn (hstep : ∃ b, applyPlanStep E policy acc.event (.rule rule) = .ok b ∧
          b.event = a.event ∧ b.fieldErrors = []) (hnone : a.fieldErrors = []) :
        ∃ last, traceEvent E policy ((rule :: rules).map .rule) acc.event = .ok last ∧
          (sanitizeDeliveryEvent last = sanitizeDeliveryEvent out.event ↔
            QuietAfterFailure E policy (rule :: rules) acc.event) := by
      obtain ⟨b, hb, hevent, herrors⟩ := hstep
      obtain ⟨last, hlast, hiff⟩ := traceEvent_rules rules a.event _ out (by rfl) hrest
        (hinert.2 a ha hnone)
      refine ⟨last, ?_, hiff.trans ?_⟩
      · rw [List.map_cons, traceEvent, hb]
        simp only [herrors, ↓reduceIte, hevent]
        exact hlast
      · constructor
        · intro hquiet a' ha'
          obtain rfl := Except.ok.inj (ha.symm.trans ha')
          rw [if_pos hnone]
          exact hquiet
        · intro hquiet
          have hthis := hquiet a ha
          rwa [if_pos hnone] at hthis
    by_cases hstatic : rule.type = .static
    · obtain ⟨hevent, hnone⟩ := applyAdvancedRule_static hstatic ha
      refine hgoesOn ⟨{ event := acc.event }, ?_, hevent.symm, rfl⟩ hnone
      show (if rule.type.text = "static" then _ else _) = _
      rw [if_pos (type_of_text.mpr hstatic)]
      show Except.map _ (applyStaticFields E policy acc.event [(rule.target, .obj rule.body)]) = _
      rw [hinert.1 hstatic]
      rfl
    · have hstep : applyPlanStep E policy acc.event (.rule rule) = .ok a := by
        show (if rule.type.text = "static" then _ else _) = _
        rw [if_neg (fun h => hstatic (type_of_text.mp h)), ha]
      by_cases hnone : a.fieldErrors = []
      · exact hgoesOn ⟨a, hstep, rfl, hnone⟩ hnone
      · refine ⟨a.event, ?_, ?_⟩
        · rw [List.map_cons, traceEvent, hstep]
          simp only [hnone, ↓reduceIte]
        · have hfrom : (applyRules E policy rules { event := a.event }).map (·.event) =
              .ok out.event := by
            have hout := congrArg (Except.map Applied.event) hrest
            exact (applyRules_event rules _ _ (by rfl)).trans hout
          constructor
          · intro hsame a' ha'
            obtain rfl := Except.ok.inj (ha.symm.trans ha')
            rw [if_neg hnone]
            intro final hfinal
            rw [hfinal] at hfrom
            have hev : final.event = out.event := Except.ok.inj hfrom
            rw [hev, hsame]
          · intro hquiet
            have hthis := hquiet a ha
            rw [if_neg hnone] at hthis
            obtain ⟨final, hfinal, hev⟩ := map_eq_ok hfrom
            rw [← hthis final hfinal, hev]

end Trace

/-- Where the run does not raise, the trace does not either; and where no rule of type `static`
takes effect before a failure, it ends with the event of the run exactly when the rules after the
first one that fails leave that event as it is. -/
theorem trace_event_iff {E : Engines} {event : Event} {enrichment : Json.Members}
    {overridePolicy : String} {result : Applied}
    (hrun : executeEnrichment E event enrichment overridePolicy = .ok result)
    (hinert : AtRules E (StaticRulesInert E) event enrichment overridePolicy) :
    ∃ trace, executeEnrichmentTrace E event enrichment overridePolicy none = .ok trace ∧
      (trace.event = result.event ↔
        AtRules E (QuietAfterFailure E) event enrichment overridePolicy) := by
  unfold executeEnrichment at hrun
  obtain ⟨policy, hpolicy, hgo⟩ := bind_eq_ok hrun
  obtain ⟨base, out, hbase, hout, hresult⟩ : ∃ base out,
      applyStaticFields E policy event (splitStaticFields E enrichment) = .ok base ∧
      applyRules E policy (iterAdvancedRules E enrichment) { event := base } = .ok out ∧
      result.event = sanitizeDeliveryEvent out.event := by
    split_ifs at hgo with hempty
    · subst hempty
      obtain rfl := Except.ok.inj hgo
      exact ⟨event, { event }, rfl, rfl, rfl⟩
    · obtain ⟨base, hbase, hgo⟩ := bind_eq_ok hgo
      obtain ⟨out, hout, hgo⟩ := bind_eq_ok hgo
      obtain rfl := Except.ok.inj hgo
      exact ⟨base, out, hbase, hout, rfl⟩
  obtain ⟨last, hlast, hiff⟩ := traceEvent_rules _ base _ out (by rfl) hout
    (hinert policy base hpolicy hbase)
  have hplan : traceEvent E policy (tracePlan E enrichment) event = .ok last := by
    rw [tracePlan, traceEvent_fields _ _ _ _ hbase, hlast]
  rw [← traceLoop_event _ 0] at hplan
  obtain ⟨traced, htraced, hfst⟩ := map_eq_ok hplan
  refine ⟨{ event := sanitizeDeliveryEvent traced.1, steps := traced.2 }, ?_, ?_⟩
  · unfold executeEnrichmentTrace
    rw [hpolicy]
    show (traceLoop E policy none (tracePlan E enrichment) 0 false event >>= fun out =>
      pure (⟨sanitizeDeliveryEvent out.1, out.2⟩ : EnrichmentTraceExecutionResult)) = _
    rw [htraced]
    rfl
  · rw [hresult, hfst, hiff]
    constructor
    · intro hquiet policy' base' hpolicy' hbase'
      obtain rfl := Except.ok.inj (hpolicy.symm.trans hpolicy')
      obtain rfl := Except.ok.inj (hbase.symm.trans hbase')
      exact hquiet
    · intro hquiet
      exact hquiet policy base hpolicy hbase

theorem staticRulesInert_of_none {E : Engines} {policy : OverridePolicy} :
    ∀ (rules : List Rule) (event : Event), (∀ rule ∈ rules, rule.type ≠ .static) →
      StaticRulesInert E policy rules event
  | [], _, _ => trivial
  | rule :: rules, event, h => by
    constructor
    · intro hstatic
      exact absurd hstatic (h rule List.mem_cons_self)
    · intro a _ _
      exact staticRulesInert_of_none rules a.event fun r hr => h r (List.mem_cons_of_mem rule hr)

/-- Engines for rules that need none: no expression, date or condition is understood, and the
transform answers as it does to a regular expression rule without a source and a pattern. -/
def bareEngines : Engines where
  letterCase := PyText.asciiCase
  str v := (Dedup.scalarText v).getD ""
  quoted v := "'" ++ (Dedup.scalarText v).getD "" ++ "'"
  upper := PyText.upper
  nowUtc := "2026-01-01T00:00:00Z"
  evaluateCalculatedExpression _ _ := .ok (.error "Empty expression")
  isoInstant _ := .ok (.error "Invalid isoformat string: ''")
  parseCondition _ := none
  evaluateFieldTransformRule _ _ := .ok
    { outputField := "code", mode := "regex_extract", ruleId := none, success := false
      errorCode := some "REGEX_RULE_INVALID"
      errorMessage := some "code: source_path and pattern are required." }

/-- A rule that writes a default label. -/
def labelRule : String × Json :=
  ("label", .obj [("type", .str "conditional"), ("conditions", .arr []), ("default", .str "x")])

theorem labelRule_traced : ∃ trace, executeEnrichmentTrace bareEngines [("id", .int 1)]
    [("vendor", .str "Acme"), ("__rules", .obj [labelRule])] "KEEP_EXISTING" none = .ok trace ∧
      (trace.event = [("id", .int 1), ("vendor", .str "Acme"), ("label", .str "x")] ↔
        AtRules bareEngines (QuietAfterFailure bareEngines) [("id", .int 1)]
          [("vendor", .str "Acme"), ("__rules", .obj [labelRule])] "KEEP_EXISTING") := by
  have hrun : executeEnrichment bareEngines [("id", .int 1)]
      [("vendor", .str "Acme"), ("__rules", .obj [labelRule])] "KEEP_EXISTING" =
        .ok { event := [("id", .int 1), ("vendor", .str "Acme"), ("label", .str "x")] } := by
    decide +kernel
  have htypes : (iterAdvancedRules bareEngines
      [("vendor", .str "Acme"), ("__rules", .obj [labelRule])]).all (·.type ≠ .static) = true := by
    decide +kernel
  refine trace_event_iff hrun fun policy base _ _ => staticRulesInert_of_none _ base ?_
  simpa only [List.all_eq_true, decide_eq_true_eq] using htypes

/-- A rule that fails in front of the label: the run writes the label, the trace does not. -/
theorem failedRule_stops_trace :
    (executeEnrichment bareEngines [("id", .int 1)]
      [("__rules", .obj [("code", .obj [("type", .str "regex_extract")]), labelRule])]
      "KEEP_EXISTING").map (·.event) = .ok [("id", .int 1), ("label", .str "x")] ∧
    (executeEnrichmentTrace bareEngines [("id", .int 1)]
      [("__rules", .obj [("code", .obj [("type", .str "regex_extract")]), labelRule])]
      "KEEP_EXISTING" none).map (·.event) = .ok [("id", .int 1)] := by
  decide +kernel

end Enrichment
