import DataRelay.Lib.JsonTwins
import DataRelay.Protection.RuleOrder

/-! Two events that agree but for a text at one path, under the same protection rules. No mode
looks into an object or a list, so every rule keeps them alike, and a rule that masks or drops
the path makes them equal. -/
namespace Protection
open JsonPath Delivery Reordering

variable {ctx : ModeContext} {rule : Rule} {event event' out out' : Event}

/-- A rule that goes through has a path both scanners read alike. -/
theorem ruleStep_selectors (h : ruleStep ctx rule event = some out) :
    ∃ z, pathSelectors rule.fieldPath = some z ∧ z ≠ [] ∧
      parseProtectionPath rule.fieldPath = .ok (z.map Prod.fst) := by
  unfold ruleStep at h
  cases hparse : parseProtectionPath rule.fieldPath with
  | error e => simp [applyRuleToEvent, hparse] at h
  | ok segments =>
    cases segments with
    | nil => simp [applyRuleToEvent, hparse] at h
    | cons s rest =>
      cases hflags : quotedSelectorFlags rule.fieldPath with
      | error e =>
        simp [applyRuleToEvent, hparse, legacyPathHasLiteralDottedMember, hflags, bind,
          Except.bind] at h
      | ok flags =>
        by_cases hlen : flags.length = (s :: rest).length
        · have hmap : ((s :: rest).zip flags).map Prod.fst = s :: rest := List.map_fst_zip hlen.ge
          refine ⟨(s :: rest).zip flags, ?_, ?_, by rw [hmap]⟩
          · simp [pathSelectors, hparse, hflags, hlen]
          · intro hnil
            rw [hnil] at hmap
            cases hmap
        · rw [List.length_cons] at hlen
          simp [applyRuleToEvent, hparse, legacyPathHasLiteralDottedMember, hflags, hlen, bind,
            Except.bind] at h

/-- What a rule that goes through leaves. -/
theorem ruleStep_rewritten (h : ruleStep ctx rule event = some out) :
    ∃ segments, segments ≠ [] ∧ parseProtectionPath rule.fieldPath = .ok segments ∧
      rewriteAt (segmentOutput ctx rule segments) segments (.obj event) = some (.obj out) := by
  obtain ⟨z, hz, hne, hparse⟩ := ruleStep_selectors h
  refine ⟨z.map Prod.fst, by simpa using hne, hparse, ?_⟩
  exact ((ruleStep_eq_some_iff hz hne).mp h).2.2

/-- A mode either looks at nothing but the kind of a value, or is not supported; a refused token
leaves the text, which the rule reports. -/
theorem ruleOutput_blind (ctx : ModeContext) (rule : Rule) :
    Blind (ruleOutput ctx rule) ∨ ruleOutput ctx rule = some := by
  by_cases hdrop : rule.protectionMode = .dropField
  · left
    rw [ruleOutput_drop hdrop]
    exact ⟨fun _ _ => rfl, fun _ _ => rfl, .inl fun _ => rfl⟩
  rw [ruleOutput_replace hdrop]
  cases hmode : rule.protectionMode with
  | dropField => exact absurd hmode hdrop
  | other name => exact .inr rfl
  | fullMask => exact .inl ⟨fun _ _ => rfl, fun _ _ => rfl, .inr fun _ => ⟨maskLiteral, rfl⟩⟩
  | partialMask => exact .inl ⟨fun _ _ => rfl, fun _ _ => rfl, .inr fun _ => ⟨_, rfl⟩⟩
  | hash => exact .inl ⟨fun _ _ => rfl, fun _ _ => rfl, .inr fun _ => ⟨_, rfl⟩⟩
  | tokenization =>
    refine .inl ⟨fun _ _ => rfl, fun _ _ => rfl, .inr fun s => ?_⟩
    simp only [modeOutput, applyProtectionMode, tokenizeValue]
    by_cases hblank : (PyText.strip s).isEmpty = true
    · exact ⟨maskLiteral, by simp [hblank]⟩
    · cases htoken : ctx.vaultToken (PyText.strip rule.fieldPath) (PyText.strip s) with
      | ok token => exact ⟨token, by simp [hblank, Except.map]⟩
      | error e => exact ⟨s, by simp [hblank, Except.map]⟩

/-- Every rule that goes through on both keeps them alike. -/
theorem ruleStep_sameBut {ks : List String} (h : SameBut (ks.map .member) (.obj event) (.obj event'))
    (hout : ruleStep ctx rule event = some out) (hout' : ruleStep ctx rule event' = some out') :
    SameBut (ks.map .member) (.obj out) (.obj out') := by
  obtain ⟨segments, hne, hparse, hrew⟩ := ruleStep_rewritten hout
  obtain ⟨segments', -, hparse', hrew'⟩ := ruleStep_rewritten hout'
  obtain rfl : segments = segments' := by simpa [hparse] using hparse'
  have hblind : Blind (segmentOutput ctx rule segments) ∨ segmentOutput ctx rule segments = some := by
    unfold segmentOutput
    split_ifs
    · exact .inr rfl
    · exact ruleOutput_blind ctx rule
  rcases hblind with hblind | hid
  · have hrel := h.rewriteAt_rel hblind segments
    rw [hrew, hrew'] at hrel
    simpa using hrel
  · rw [hid, rewriteAt_eq_self fun _ _ => rfl, Option.some_inj, Json.obj.injEq] at hrew hrew'
    rwa [← hrew, ← hrew']

/-- A rule that masks or drops exactly the path. -/
def Rule.Masks (rule : Rule) (ks : List String) : Prop :=
  (rule.protectionMode = .fullMask ∨ rule.protectionMode = .dropField) ∧
    parseProtectionPath rule.fieldPath = .ok (ks.map .key)

theorem ruleStep_masked {ks : List String} (hmask : rule.Masks ks)
    (h : SameBut (ks.map .member) (.obj event) (.obj event'))
    (hout : ruleStep ctx rule event = some out) (hout' : ruleStep ctx rule event' = some out') :
    out = out' := by
  obtain ⟨segments, hne, hparse, hrew⟩ := ruleStep_rewritten hout
  obtain ⟨segments', -, hparse', hrew'⟩ := ruleStep_rewritten hout'
  obtain rfl : segments = ks.map .key := by simpa [hmask.2] using hparse.symm
  obtain rfl : segments' = ks.map .key := by simpa [hmask.2] using hparse'.symm
  have htexts (s t : String) : segmentOutput ctx rule (ks.map .key) (.str s) =
      segmentOutput ctx rule (ks.map .key) (.str t) := by
    rcases hmask.1 with hmode | hmode <;>
      simp [segmentOutput, ruleOutput, hmode, modeOutput, applyProtectionMode, fullMaskValue]
  have heq := h.rewriteAt_eq htexts
  rw [hrew, hrew'] at heq
  simpa using heq

/-- With such a rule among them the rules leave the same event. -/
theorem runAll_masked {rules : List Rule} {ks : List String} (hmask : ∃ rule ∈ rules, rule.Masks ks)
    (h : SameBut (ks.map .member) (.obj event) (.obj event'))
    (hout : runAll (ruleStep ctx) rules event = some out)
    (hout' : runAll (ruleStep ctx) rules event' = some out') : out = out' := by
  induction rules generalizing event event' with
  | nil => simp at hmask
  | cons rule rules ih =>
    simp only [runAll, Option.bind_eq_some_iff] at hout hout'
    obtain ⟨mid, hmid, hout⟩ := hout
    obtain ⟨mid', hmid', hout'⟩ := hout'
    by_cases hrule : rule.Masks ks
    · obtain rfl := ruleStep_masked hrule h hmid hmid'
      exact Option.some.inj (hout.symm.trans hout')
    · obtain ⟨r, hr, hmask⟩ := hmask
      have hmem : r ∈ rules := by
        rcases List.mem_cons.mp hr with rfl | hr
        · exact absurd hmask hrule
        · exact hr
      exact ih ⟨r, hmem, hmask⟩ (ruleStep_sameBut h hmid hmid') hout hout'

/-- A member that no rule addresses stays as it is. -/
theorem runAll_get? {rules : List Rule} {name : String}
    (hfree : ∀ rule ∈ rules, ∀ rest, parseProtectionPath rule.fieldPath ≠ .ok (.key name :: rest))
    (hout : runAll (ruleStep ctx) rules event = some out) :
    Dict.get? name out = Dict.get? name event := by
  induction rules generalizing event with
  | nil =>
    simp only [runAll, Option.some.injEq] at hout
    rw [hout]
  | cons rule rules ih =>
    simp only [runAll, Option.bind_eq_some_iff] at hout
    obtain ⟨mid, hmid, hout⟩ := hout
    rw [ih (fun r hr => hfree r (List.mem_cons_of_mem _ hr)) hout]
    obtain ⟨segments, hne, hparse, hrew⟩ := ruleStep_rewritten hmid
    cases segments with
    | nil => exact absurd rfl hne
    | cons x rest =>
      cases x with
      | key l =>
        have hl : l ≠ name := by
          rintro rfl
          exact hfree rule List.mem_cons_self rest hparse
        simp only [rewriteAt, Option.some.injEq, Json.obj.injEq] at hrew
        rw [← hrew, get?_rewriteMember_ne hl]
      | index i =>
        simp only [rewriteAt, Option.some.injEq, Json.obj.injEq] at hrew
        rw [hrew]
      | wild =>
        simp only [rewriteAt, Option.some.injEq, Json.obj.injEq] at hrew
        rw [hrew]

end Protection
