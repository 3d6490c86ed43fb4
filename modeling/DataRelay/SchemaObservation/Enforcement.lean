import DataRelay.Protection.Coverage
import DataRelay.SchemaObservation.PathRoundTrip

/-! Observed paths as protection rules. Every place of the walk is tied to the event it came
from; a rule on an observed path then meets the values the walk saw there. -/
namespace SchemaObservation
open JsonPath Protection Delivery

/-- What the walk knows of a place it hands a value to: the path spells the selectors, the
value stands at the position, and the selectors lead there. Below a list in a list the walk
writes one `[]` too many, and they lead elsewhere. -/
structure Visited (event : Json) (p : Place) (v : Json) : Prop where
  text : p.path.toList = '$' :: selsChars p.sels
  observed : ∀ i, .index i ∉ p.sels
  value : getAt p.pos event = some v
  leads : List.Forall₂ Sel.Accepts p.sels p.pos ∨ [.wild, .wild] <:+: p.sels

/-- What is known of a recorded place. The list itself is recorded under `path[]`. -/
structure Recorded (event : Json) (p : Place) : Prop where
  text : p.path.toList = '$' :: selsChars p.sels
  observed : ∀ i, .index i ∉ p.sels
  value : ∃ v, getAt p.pos event = some v
  leads : List.Forall₂ Sel.Accepts p.sels p.pos ∨ [.wild, .wild] <:+: p.sels ∨
    p.sels.getLast? = some .wild

namespace Visited

variable {event : Json} {p : Place}

theorem root (event : Json) : Visited event ⟨"$", [], []⟩ event where
  text := rfl
  observed := by simp
  value := rfl
  leads := .inl .nil

theorem recorded {v : Json} (h : Visited event p v) : Recorded event p where
  text := h.text
  observed := h.observed
  value := ⟨v, h.value⟩
  leads := h.leads.imp_right .inl

theorem member {ms : Json.Members} (h : Visited event p (.obj ms)) {k : String} {v : Json}
    (hk : Dict.get? k ms = some v) : Visited event (p.member k) v where
  text := by
    simp [Place.member, appendFieldPath, h.text, selsChars, selChars]
  observed := by simpa [Place.member] using h.observed
  value := by simp [Place.member, getAt_append, h.value, getAt, hk]
  leads := by
    rcases h.leads with hacc | hdouble
    · exact .inl (List.rel_append hacc (.cons rfl .nil))
    · exact .inr (hdouble.trans (List.prefix_append _ _).isInfix)

theorem array_text {v : Json} (h : Visited event p v) :
    p.array.path.toList = '$' :: selsChars p.array.sels := by
  simp [Place.array, h.text, selsChars, selChars]

theorem array_observed {v : Json} (h : Visited event p v) (i : ℤ) : .index i ∉ p.array.sels := by
  simpa [Place.array] using h.observed i

theorem array {xs : List Json} (h : Visited event p (.arr xs)) : Recorded event p.array where
  text := h.array_text
  observed := h.array_observed
  value := ⟨_, h.value⟩
  leads := .inr (.inr (by simp [Place.array]))

/-- An object in a list, whose members the walk visits under `path[]`. -/
theorem item {xs : List Json} (h : Visited event p (.arr xs)) {n : ℕ} {x : Json}
    (hx : xs[n]? = some x) : Visited event (p.array.item n) x where
  text := h.array_text
  observed := h.array_observed
  value := by simp [Place.array, Place.item, getAt_append, h.value, getAt, hx]
  leads := by
    rcases h.leads with hacc | hdouble
    · exact .inl (List.rel_append hacc (.cons trivial .nil))
    · exact .inr (hdouble.trans (List.prefix_append _ _).isInfix)

/-- Any other item is visited under `path[][]`. -/
theorem nested {xs : List Json} (h : Visited event p (.arr xs)) {n : ℕ} {x : Json}
    (hx : xs[n]? = some x) : Visited event (p.array.array.item n) x where
  text := by simp [Place.item, Place.array, h.text, selsChars, selChars]
  observed := by simpa [Place.array, Place.item] using h.observed
  value := by simp [Place.array, Place.item, getAt_append, h.value, getAt, hx]
  leads := .inr ⟨p.sels, [], by simp [Place.array, Place.item]⟩

end Visited

/-- The walk so far: every path it emitted was recorded at some place, and every recorded
place is accounted for. -/
structure Walked (event : Json) (st : WalkState) : Prop where
  emitted : ∀ path ∈ st.out.map Prod.fst, ∃ p ∈ st.sites, p.path = path
  sites : ∀ p ∈ st.sites, Recorded event p

theorem Walked.record {event : Json} {st : WalkState} (h : Walked event st) {p : Place}
    (hp : Recorded event p) (type : InferredType) : Walked event (st.record p type) where
  emitted := by
    intro path hpath
    rw [WalkState.record, Dict.keys_set] at hpath
    have hcases : path ∈ st.out.map Prod.fst ∨ path = p.path := by
      split_ifs at hpath
      · exact .inl hpath
      · simpa using hpath
    rcases hcases with hold | rfl
    · obtain ⟨q, hq, hpq⟩ := h.emitted path hold
      exact ⟨q, List.mem_append_left _ hq, hpq⟩
    · exact ⟨p, by simp [WalkState.record], rfl⟩
  sites := by
    intro q hq
    rcases List.mem_append.mp hq with hold | hnew
    · exact h.sites q hold
    · exact List.mem_singleton.mp hnew ▸ hp

section Walk

variable {event : Json} {maxDepth maxPaths : ℕ}

mutual
theorem walkEventFields_walked : ∀ (v : Json) (depth : ℕ) (p : Place) (st : WalkState),
    v.WellFormed → Visited event p v → Walked event st →
      Walked event (walkEventFields maxDepth maxPaths v depth p st)
  | v, depth, p, st, hwf, hv, hst => by
    have hrec := hst.record hv.recorded (inferValueType v)
    unfold walkEventFields
    split_ifs
    · exact hst
    · simp only
      split_ifs
      · exact hrec
      · cases v with
        | obj ms =>
          exact walkMembers_walked ms ms (depth + 1) p _ hwf hv (List.suffix_refl ms) hrec
        | arr xs =>
          exact walkItems_walked xs xs arraySampleSize 0 (depth + 1) p _ hwf hv rfl
            (hrec.record hv.array .array)
        | _ => exact hrec

theorem walkMembers_walked : ∀ (ms all : Json.Members) (depth : ℕ) (p : Place) (st : WalkState),
    (Json.obj all).WellFormed → Visited event p (.obj all) → ms <:+ all → Walked event st →
      Walked event (walkMembers maxDepth maxPaths ms depth p st)
  | [], _, _, _, _, _, _, _, hst => hst
  | (key, child) :: ms, all, depth, p, st, hwf, hv, hsub, hst => by
    have hmem : (key, child) ∈ all := hsub.subset (by simp)
    have hget : Dict.get? key all = some child := Dict.get?_of_mem hwf.keys hmem
    have hchild := walkEventFields_walked child depth (p.member key) st (hwf.member hmem)
      (hv.member hget) hst
    simp only [walkMembers]
    split_ifs
    · exact hchild
    · exact walkMembers_walked ms all depth p _ hwf hv ((List.suffix_cons _ _).trans hsub) hchild

theorem walkItems_walked : ∀ (xs all : List Json) (left n depth : ℕ) (p : Place) (st : WalkState),
    (Json.arr all).WellFormed → Visited event p (.arr all) → xs = all.drop n → Walked event st →
      Walked event (walkItems maxDepth maxPaths xs left n depth p.array st)
  | [], _, _, _, _, _, _, _, _, _, hst => by simpa [walkItems] using hst
  | x :: xs, _, 0, _, _, _, _, _, _, _, hst => by simpa [walkItems] using hst
  | x :: xs, all, left + 1, n, depth, p, st, hwf, hv, hdrop, hst => by
    have hx : all[n]? = some x := by
      rw [← List.head?_drop, ← hdrop, List.head?_cons]
    have hrest : xs = all.drop (n + 1) := by
      rw [← List.tail_drop, ← hdrop, List.tail_cons]
    have hwx : x.WellFormed := hwf.item (List.mem_of_getElem? hx)
    have hstep {st' : WalkState} (h : Walked event st') : Walked event
        (if maxPaths ≤ st'.out.length then st'
          else walkItems maxDepth maxPaths xs left (n + 1) depth p.array st') := by
      split_ifs
      · exact h
      · exact walkItems_walked xs all left (n + 1) depth p st' hwf hv hrest h
    cases x with
    | obj ms =>
      exact hstep (walkMembers_walked ms ms depth _ st hwx (hv.item hx) (List.suffix_refl ms) hst)
    | arr ys => exact hstep (walkEventFields_walked (.arr ys) depth _ st hwx (hv.nested hx) hst)
    | null => exact hstep (walkEventFields_walked .null depth _ st hwx (hv.nested hx) hst)
    | bool b => exact hstep (walkEventFields_walked (.bool b) depth _ st hwx (hv.nested hx) hst)
    | int i => exact hstep (walkEventFields_walked (.int i) depth _ st hwx (hv.nested hx) hst)
    | float r => exact hstep (walkEventFields_walked (.float r) depth _ st hwx (hv.nested hx) hst)
    | str s => exact hstep (walkEventFields_walked (.str s) depth _ st hwx (hv.nested hx) hst)
end

end Walk

theorem collectPaths_walked {event : Json} (hwf : event.WellFormed) (maxDepth maxPaths : ℕ) :
    Walked event (collectPathsFromEvent maxDepth maxPaths event) := by
  have hempty : Walked event {} := ⟨by simp, by simp⟩
  cases event with
  | obj ms => exact walkMembers_walked ms ms 0 _ _ hwf (.root _) (List.suffix_refl ms) hempty
  | _ => exact walkEventFields_walked _ 0 _ _ hwf (.root _) hempty

/-- The paths that are carried out: they end in a member, step through one list at a time and
use no member the grammar refuses. -/
structure Enforceable (sels : List Sel) : Prop where
  literal : .key "[]" ∉ sels
  ends : EndsDefinite sels
  single : ¬ [.wild, .wild] <:+: sels

namespace Recorded

variable {event : Json} {p : Place}

theorem readable (h : Recorded event p) (he : Enforceable p.sels) : ∀ s ∈ p.sels, Readable s := by
  intro s hs
  cases s with
  | wild => exact .inl rfl
  | key k =>
    refine .inr ⟨k, rfl, ?_⟩
    rintro rfl
    exact he.literal hs
  | index i => exact absurd hs (h.observed i)

/-- Such a path designates the place it was recorded at. -/
theorem designated (h : Recorded event p) (he : Enforceable p.sels) :
    p.pos ∈ positions p.sels event := by
  obtain ⟨v, hv⟩ := h.value
  rcases h.leads with hacc | hdouble | hlast
  · exact mem_positions_of_accepts hacc hv
  · exact absurd hdouble he.single
  · obtain ⟨s, hs, hne⟩ := he.ends
    rw [hlast, Option.some.injEq] at hs
    exact absurd hs.symm hne

end Recorded

/-- A full mask never raises. -/
theorem applySegments_fullMask (ctx : ModeContext) {rule : Rule}
    (hmode : rule.protectionMode = .fullMask) {segments : List Sel} (hl : EndsDefinite segments)
    (event : Json) : (applySegments ctx rule segments event).warning = none := by
  have htotal (v : Json) : ∃ w, applyProtectionMode ctx rule.fieldPath .fullMask v = .ok w :=
    ⟨fullMaskValue v, rfl⟩
  obtain ⟨n, hn⟩ := (applyAtSegments_ok_iff hl event).mpr fun v _ => htotal v
  unfold applySegments
  rw [hmode, if_neg (by simp)]
  split
  · rfl
  · next node e hres => simp [hres] at hn

/-- The rule masked every value the walk saw under its path, and there was one. -/
structure Enforced (event : Json) (sites : List Place) (rule : Rule) (out : RuleOutcome) :
    Prop where
  silent : out.warning = none
  counted : 1 ≤ out.count
  masked : ∀ p ∈ sites, p.path = rule.fieldPath →
    ∃ v, getAt p.pos event = some v ∧ getAt p.pos out.event = some (fullMaskValue v)

/-- The guard against literal dotted members, for a path the walk wrote. -/
theorem guard_observed (event : Event) {path : String} {sels : List Sel}
    (hflags : quotedSelectorFlags path = .ok (sels.map quotedSel)) :
    legacyPathHasLiteralDottedMember event path sels =
      .ok (couldAlias (sels.zip (sels.map quotedSel)) (.obj event)) := by
  simp [legacyPathHasLiteralDottedMember, hflags, bind, Except.bind, pure, Except.pure]

/-- A full mask on an observed path masks every value observed there, unless a literal dotted
member makes the path ambiguous: then the event is left alone and the rule reports it. -/
theorem observedPath_enforced (ctx : ModeContext) (event : Event)
    (hwf : (Json.obj event).WellFormed) (maxDepth maxPaths : ℕ) (rule : Rule)
    (hmode : rule.protectionMode = .fullMask)
    (hpath : rule.fieldPath ∈
      (collectPathsFromEvent maxDepth maxPaths (.obj event)).out.map Prod.fst)
    (hsels : ∀ p ∈ (collectPathsFromEvent maxDepth maxPaths (.obj event)).sites,
      p.path = rule.fieldPath → Enforceable p.sels) :
    ∃ sels out, parseProtectionPath rule.fieldPath = .ok sels ∧
      applyRuleToEvent ctx event rule = .ok out ∧
      if couldAlias (sels.zip (sels.map quotedSel)) (.obj event) then
        out = ⟨.obj event, 0, some (ruleWarning rule ambiguousMessage)⟩
      else Enforced (.obj event) (collectPathsFromEvent maxDepth maxPaths (.obj event)).sites
        rule out := by
  have hwalk := collectPaths_walked hwf maxDepth maxPaths
  obtain ⟨p, hp, hpp⟩ := hwalk.emitted _ hpath
  have he := hsels p hp hpp
  have hparse (q : Place) (hq : q ∈ (collectPathsFromEvent maxDepth maxPaths (.obj event)).sites)
      (hqp : q.path = rule.fieldPath) :
      parseProtectionPath rule.fieldPath = .ok q.sels ∧
        quotedSelectorFlags rule.fieldPath = .ok (q.sels.map quotedSel) :=
    hqp ▸ parse_observed (hwalk.sites q hq).text ((hwalk.sites q hq).readable (hsels q hq hqp))
  obtain ⟨hsel, hflag⟩ := hparse p hp hpp
  obtain ⟨s, rest, hcons⟩ : ∃ s rest, p.sels = s :: rest := by
    cases hs : p.sels with
    | nil => simpa [EndsDefinite, hs] using he.ends
    | cons s rest => exact ⟨s, rest, rfl⟩
  have hguard := guard_observed event hflag
  cases halias : couldAlias (p.sels.zip (p.sels.map quotedSel)) (.obj event) with
  | true =>
    refine ⟨p.sels, ⟨.obj event, 0, some (ruleWarning rule ambiguousMessage)⟩, hsel, ?_,
      by simp [halias]⟩
    rw [halias, hcons] at hguard
    rw [hcons] at hsel
    simp [applyRuleToEvent, hsel, hguard, bind, Except.bind, pure, Except.pure]
  | false =>
    have hrun : applyRuleToEvent ctx event rule =
        .ok (applySegments ctx rule p.sels (.obj event)) := by
      rw [halias, hcons] at hguard
      rw [hcons] at hsel ⊢
      exact applyRuleToEvent_eq hsel hguard
    refine ⟨p.sels, _, hsel, hrun, ?_⟩
    have hok := applySegments_fullMask ctx hmode he.ends (.obj event)
    have hcov := (applySegments_covers_iff hok).mpr (.inl he.ends)
    rw [halias, if_neg (by simp)]
    refine ⟨hok, ?_, fun q hq hqp => ?_⟩
    · have hmem := (hwalk.sites p hp).designated he
      rw [hcov.counted]
      exact List.length_pos_of_mem hmem
    · have hsame : q.sels = p.sels := Except.ok.inj ((hparse q hq hqp).1.symm.trans hsel)
      have hmem := (hwalk.sites q hq).designated (hsels q hq hqp)
      obtain ⟨v, hv⟩ := (hwalk.sites q hq).value
      refine ⟨v, hv, ?_⟩
      rw [hcov.replaced (by simp [hmode]) q.pos (hsame ▸ hmem) v hv]
      simp [ruleOutput, hmode, modeOutput, applyProtectionMode]

def maskRule (fieldPath : String) : Rule where
  streamId := 1
  fieldPath := fieldPath
  protectionMode := .fullMask

/-- Two accounts in a list. -/
def accountsEvent : Event :=
  [("accounts", .arr [.obj [("ssn", .str "1")], .obj [("ssn", .str "2")]])]

/-- Both numbers are masked through the path they were observed under. -/
theorem accountsEvent_enforced :
    "$.accounts[].ssn" ∈ (collectPathsFromEvent 8 100 (.obj accountsEvent)).out.map Prod.fst ∧
      ∃ out, applyRuleToEvent fixedContext accountsEvent (maskRule "$.accounts[].ssn") = .ok out ∧
        Enforced (.obj accountsEvent) (collectPathsFromEvent 8 100 (.obj accountsEvent)).sites
          (maskRule "$.accounts[].ssn") out := by
  have hmem : "$.accounts[].ssn" ∈
      (collectPathsFromEvent 8 100 (.obj accountsEvent)).out.map Prod.fst := by decide
  have hsites : ∀ p ∈ (collectPathsFromEvent 8 100 (.obj accountsEvent)).sites,
      p.path = "$.accounts[].ssn" → p.sels = [.key "accounts", .wild, .key "ssn"] := by decide
  have hwf : (Json.obj accountsEvent).WellFormed := by
    simp [accountsEvent, Json.WellFormed, Json.WellFormedMembers, Json.WellFormedItems]
  obtain ⟨sels, out, hsels, hrun, hout⟩ :=
    observedPath_enforced fixedContext accountsEvent hwf 8 100 (maskRule "$.accounts[].ssn") rfl hmem
      fun p hp hpath => by
        rw [hsites p hp hpath]
        exact ⟨by decide, ⟨.key "ssn", rfl, by decide⟩, by decide⟩
  have hparse : parseProtectionPath "$.accounts[].ssn" =
      .ok [.key "accounts", .wild, .key "ssn"] := by decide
  obtain rfl : sels = [.key "accounts", .wild, .key "ssn"] :=
    Except.ok.inj (hsels.symm.trans hparse)
  rw [if_neg (by decide)] at hout
  exact ⟨hmem, out, hrun, hout⟩

/-- A literal dotted member beside the nested one it spells. -/
def dottedEvent : Event :=
  [("user.email", .str "literal-secret"), ("user", .obj [("email", .str "nested-secret")])]

/-- The nested member is observed, and a rule on it is refused. -/
theorem dottedEvent_not_enforced :
    "$.user.email" ∈ (collectPathsFromEvent 8 100 (.obj dottedEvent)).out.map Prod.fst ∧
      applyRuleToEvent fixedContext dottedEvent (maskRule "$.user.email") =
        .ok ⟨.obj dottedEvent, 0, some (ruleWarning (maskRule "$.user.email") ambiguousMessage)⟩ ∧
      ¬ Enforced (.obj dottedEvent) (collectPathsFromEvent 8 100 (.obj dottedEvent)).sites
        (maskRule "$.user.email")
        ⟨.obj dottedEvent, 0, some (ruleWarning (maskRule "$.user.email") ambiguousMessage)⟩ := by
  have hparse : parseProtectionPath "$.user.email" = .ok [.key "user", .key "email"] := by decide
  have hguard : legacyPathHasLiteralDottedMember dottedEvent "$.user.email"
      [.key "user", .key "email"] = .ok true := by decide
  refine ⟨by decide, ?_, fun h => by simpa using h.silent⟩
  simp [applyRuleToEvent, maskRule, hparse, hguard, bind, Except.bind, pure, Except.pure]

end SchemaObservation
