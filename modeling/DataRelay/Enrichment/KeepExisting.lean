import DataRelay.Enrichment.TraceAgreement
import DataRelay.Lib.JsonPath
import DataRelay.Lib.Raising

/-! What a policy that does not override leaves of the event. The presence test looks at the whole
dotted path alone, and the assignment makes room for it on the way. -/
namespace Enrichment
open Delivery JsonPath PyText Raising

/-! ### The writes of a run -/

/-- A target and the value it is due, if any, on the event of the moment. -/
structure Write where
  target : String
  value : Event → Option Json

/-- The write where the policy keeps what is there. -/
def Write.apply (w : Write) (event : Event) : Event :=
  if hasFieldValue event w.target then event
  else
    match w.value event with
    | some v => (setFieldValue event w.target v).getD event
    | none => event

section Writes

variable (E : Engines)

/-- Where a rule writes. -/
def ruleTarget (rule : Rule) : String :=
  match rule.type with
  | .jsonata | .regexExtract => strip (textOf E rule.body ["target_field", "output_field", "field"])
  | _ => rule.target

def calculatedOf (rule : Rule) (event : Event) : Option Json :=
  match E.evaluateCalculatedExpression (textOf E rule.body ["expression"]) event with
  | .ok (.ok value) => some value
  | _ => none

def lookedUp (rule : Rule) (event : Event) : Option Json :=
  let table := textOf E rule.body ["lookup_table", "lookupTable"]
  let keyField := strip (textOf E rule.body ["key_field", "lookup_key_field", "lookupKeyField"])
  let rawKey := readField event keyField
  if table.isEmpty || keyField.isEmpty then none
  else if rawKey = .null ∨ (strip (E.str rawKey)).isEmpty then none
  else (lookupValue table (E.str rawKey)).map .str

def chosen (rule : Rule) (event : Event) : Option Json :=
  match Dict.get? "conditions" rule.body with
  | some (.arr conditions) =>
    some ((firstCondition E event rule conditions).1.getD
      (firstTrue rule.body ["default", "conditionalDefault"]))
  | _ => none

def normalized (rule : Rule) (event : Event) : Option Json :=
  let source := strip (textOf E rule.body ["source_field", "normalizeSourceField", "sourceField"])
  let given := firstTrue rule.body ["format", "normalizeFormat"]
  let fmt := if Runner.truthy given then E.str given else "iso8601"
  if source.isEmpty then none
  else
    match normalizeValue E (readField event source) fmt with
    | .ok (.ok value) => some value
    | _ => none

def transformed (rule : Rule) (event : Event) : Option Json :=
  match E.evaluateFieldTransformRule event rule.body with
  | .ok result => if result.success then some result.value else none
  | .error _ => none

/-- What a rule comes to on an event, before the override policy is asked. -/
def ruleValue (rule : Rule) : Event → Option Json :=
  match rule.type with
  | .calculated => calculatedOf E rule
  | .lookup => lookedUp E rule
  | .conditional => chosen E rule
  | .normalize => normalized E rule
  | .jsonata | .regexExtract => transformed E rule
  | .static => fun _ => none

def ruleWrite (rule : Rule) : Write := ⟨ruleTarget E rule, ruleValue E rule⟩

def fieldWrite (m : String × Json) : Write := ⟨strip m.1, fun _ => some m.2⟩

/-- The static fields first, then the rules. -/
def enrichmentWrites (enrichment : Json.Members) : List Write :=
  (splitStaticFields E enrichment).map fieldWrite ++
    (iterAdvancedRules E enrichment).map (ruleWrite E)

end Writes

/-! ### What is kept -/

/-- The value under nested members. -/
def valueAt (keys : List String) (event : Event) : Option Json :=
  getAt (keys.map .member) (.obj event)

/-- No member on the way is an internal one. -/
def Public (keys : List String) : Prop := ∀ k ∈ keys, internalKey k = false

def isObject : Json → Bool
  | .obj _ => true
  | _ => false

/-- Where the input had an object there is an object, and where it had anything else there is the
same, up to the internal members inside of it. -/
def DataKept (event out : Event) : Prop :=
  ∀ keys v, Public keys → valueAt keys event = some v →
    ∃ w, valueAt keys out = some w ∧ (isObject v = true → isObject w = true) ∧
      (isObject v = false → w = stripInternalNested v)

/-- On its way the target goes through something the event has, which is no object. -/
def Crosses (event : Event) (target : String) : Prop :=
  ∃ front back v, dotParts (strip target) = front ++ back ∧ back ≠ [] ∧ Public front ∧
    valueAt front event = some v ∧ isObject v = false

/-- A write that goes through what the input has and is no object comes to nothing on the event it
is reached with. -/
def SparesData (event : Event) : List Write → Event → Prop
  | [], _ => True
  | w :: ws, current =>
    (isValidFieldPath w.target = true → Crosses event w.target → w.value current = none) ∧
      SparesData event ws (w.apply current)

section Assignment

@[simp] theorem valueAt_nil (event : Event) : valueAt [] event = some (.obj event) := rfl

theorem valueAt_cons (k : String) (keys : List String) (event : Event) :
    valueAt (k :: keys) event = (Dict.get? k event).bind (getAt (keys.map .member)) := rfl

theorem getAt_members (keys : List String) {v w : Json} (hv : isObject v = false)
    (h : getAt (keys.map .member) v = some w) : keys = [] ∧ w = v := by
  cases keys with
  | nil => exact ⟨rfl, (Option.some.inj h).symm⟩
  | cons k keys =>
    cases v with
    | obj ms => simp [isObject] at hv
    | _ => cases h

/-- The object an assignment goes on in. -/
def innerOf (part : String) (event : Event) : Event :=
  match Dict.get? part event with
  | some (.obj ms) => ms
  | _ => []

theorem setParts_cons {part : String} {parts : List String} (h : parts ≠ []) (v : Json)
    (event : Event) :
    setParts (part :: parts) v event =
      Dict.set part (.obj (setParts parts v (innerOf part event))) event := by
  cases parts with
  | nil => exact absurd rfl h
  | cons q parts => rfl

/-- What an assignment to an absent path makes of a value: an object stays one, anything else stays
as it is unless the path goes through it. -/
theorem setParts_kept (v : Json) : ∀ (parts keys : List String) (event : Event) (u : Json),
    hasParts parts (.obj event) = false → valueAt keys event = some u →
    ∃ w, valueAt keys (setParts parts v event) = some w ∧
      (isObject u = true → isObject w = true) ∧
      (isObject u = false → w = u ∨ ∃ back, back ≠ [] ∧ parts = keys ++ back)
  | [], keys, event, u, hhas, _ => by simp [hasParts] at hhas
  | part :: parts, [], event, u, _, hu => by
    obtain rfl : Json.obj event = u := Option.some.inj hu
    refine ⟨.obj (setParts (part :: parts) v event), rfl, fun _ => rfl, ?_⟩
    intro hobj
    simp [isObject] at hobj
  | part :: parts, k :: keys, event, u, hhas, hu => by
    rw [valueAt_cons] at hu
    by_cases hk : part = k
    · subst hk
      obtain ⟨x, hx, hux⟩ := Option.bind_eq_some_iff.mp hu
      have hparts : parts ≠ [] := by
        rintro rfl
        simp [hasParts, hx] at hhas
      rw [setParts_cons hparts, valueAt_cons, Dict.get?_set, if_pos rfl]
      cases hobj : isObject x with
      | false =>
        obtain ⟨rfl, rfl⟩ := getAt_members keys hobj hux
        refine ⟨_, rfl, fun _ => rfl, fun _ => .inr ⟨parts, hparts, rfl⟩⟩
      | true =>
        cases x with
        | obj ms =>
          have hinner : innerOf part event = ms := by
            unfold innerOf
            rw [hx]
          have hrest : hasParts parts (.obj ms) = false := by
            rw [hasParts, hx] at hhas
            exact hhas
          obtain ⟨w, hw, hkeep, hsame⟩ := setParts_kept v parts keys ms u hrest hux
          rw [hinner]
          refine ⟨w, hw, hkeep, fun hu' => (hsame hu').imp id ?_⟩
          rintro ⟨back, hback, rfl⟩
          exact ⟨back, hback, rfl⟩
        | _ => simp [isObject] at hobj
    · have hsame : Dict.get? k (setParts (part :: parts) v event) = Dict.get? k event := by
        cases parts with
        | nil => rw [setParts, Dict.get?_set, if_neg hk]
        | cons q parts => rw [setParts, Dict.get?_set, if_neg hk]; simp
      refine ⟨u, ?_, id, fun _ => .inl rfl⟩
      rw [valueAt_cons, hsame, hu]

/-- An assignment through something that is no object replaces it by one. -/
theorem setParts_crossed (v : Json) : ∀ (front back : List String) (event : Event) (u : Json),
    back ≠ [] → valueAt front event = some u → isObject u = false →
    hasParts (front ++ back) (.obj event) = false ∧
      ∃ w, valueAt front (setParts (front ++ back) v event) = some w ∧ isObject w = true
  | [], back, event, u, _, hu, hobj => by
    obtain rfl : Json.obj event = u := Option.some.inj hu
    simp [isObject] at hobj
  | k :: front, back, event, u, hback, hu, hobj => by
    rw [valueAt_cons] at hu
    obtain ⟨x, hx, hux⟩ := Option.bind_eq_some_iff.mp hu
    have hrest : front ++ back ≠ [] := List.append_ne_nil_of_right_ne_nil front hback
    rw [List.cons_append, setParts_cons hrest, valueAt_cons, Dict.get?_set, if_pos rfl, hasParts,
      hx]
    cases hx' : isObject x with
    | false =>
      obtain ⟨rfl, rfl⟩ := getAt_members front hx' hux
      constructor
      · cases hb : ([] ++ back : List String) with
        | nil => exact absurd hb hrest
        | cons q back =>
          cases u with
          | obj ms => simp [isObject] at hobj
          | _ => rfl
      · exact ⟨_, rfl, rfl⟩
    | true =>
      cases x with
      | obj ms =>
        have hinner : innerOf k event = ms := by
          unfold innerOf
          rw [hx]
        rw [hinner]
        exact setParts_crossed v front back ms u hback hux hobj
      | _ => simp [isObject] at hx'

end Assignment

section Writing

theorem isValidFieldPath_strip (path : String) :
    isValidFieldPath (strip path) = isValidFieldPath path := by
  simp [isValidFieldPath]

theorem strip_isEmpty {target : String} (h : isValidFieldPath target = true) :
    (strip target).isEmpty = false := by
  simp only [isValidFieldPath, Bool.and_eq_true, Bool.not_eq_true'] at h
  exact h.1.1

theorem dotParts_plain {key : String} (h : '.' ∉ key.toList) : dotParts key = [key] := by
  unfold dotParts
  rw [List.splitOnP_eq_singleton]
  · simp
  · intro c hc
    simpa using fun (heq : c = '.') => h (heq ▸ hc)

theorem hasFieldValue_eq {event : Event} {target : String} (h : (strip target).isEmpty = false) :
    hasFieldValue event target = hasParts (dotParts (strip target)) (.obj event) := by
  unfold hasFieldValue
  simp only [h, Bool.false_eq_true, ↓reduceIte]
  by_cases hdot : '.' ∉ (strip target).toList
  · rw [if_pos hdot, dotParts_plain hdot, hasParts, Dict.has]
    cases Dict.get? (strip target) event <;> rfl
  · rw [if_neg hdot]

theorem setFieldValue_eq (event : Event) (path : String) (value : Json) :
    setFieldValue event path value = if isValidFieldPath path then
      some (setParts (dotParts (strip path)) value event) else none := by
  unfold setFieldValue
  simp only [isValidFieldPath_strip]
  by_cases hvalid : isValidFieldPath path = true
  · simp [hvalid, strip_isEmpty hvalid]
  · simp [hvalid]

section Apply

variable {target : String} {value : Event → Option Json} {event : Event} {v : Json}

theorem apply_present (h : hasFieldValue event target = true) :
    Write.apply ⟨target, value⟩ event = event := by
  unfold Write.apply
  rw [if_pos h]

theorem apply_nothing (h : value event = none) : Write.apply ⟨target, value⟩ event = event := by
  unfold Write.apply
  simp only [h, ite_self]

theorem apply_absent (h : hasFieldValue event target = false) (hv : value event = some v) :
    Write.apply ⟨target, value⟩ event = (setFieldValue event target v).getD event := by
  unfold Write.apply
  simp only [h, hv, Bool.false_eq_true, ↓reduceIte]

theorem apply_assigned (h : hasFieldValue event target = false) (hv : value event = some v)
    (hvalid : isValidFieldPath target = true) :
    Write.apply ⟨target, value⟩ event = setParts (dotParts (strip target)) v event := by
  rw [apply_absent h hv, setFieldValue_eq, if_pos hvalid, Option.getD_some]

theorem apply_invalid (hinvalid : isValidFieldPath target = false) :
    Write.apply ⟨target, value⟩ event = event := by
  cases hhas : hasFieldValue event target with
  | true => exact apply_present hhas
  | false =>
    cases hv : value event with
    | none => exact apply_nothing hv
    | some v =>
      rw [apply_absent hhas hv, setFieldValue_eq, hinvalid, if_neg Bool.false_ne_true,
        Option.getD_none]

end Apply

/-- What a write comes to: nothing, or an assignment to a path that is absent. -/
theorem Write.apply_cases (w : Write) (event : Event) :
    w.apply event = event ∨ ∃ v, w.value event = some v ∧ isValidFieldPath w.target = true ∧
      hasParts (dotParts (strip w.target)) (.obj event) = false ∧
      w.apply event = setParts (dotParts (strip w.target)) v event := by
  cases hhas : hasFieldValue event w.target with
  | true => exact .inl (apply_present hhas)
  | false =>
    cases hv : w.value event with
    | none => exact .inl (apply_nothing hv)
    | some v =>
      cases hvalid : isValidFieldPath w.target with
      | false => exact .inl (apply_invalid hvalid)
      | true =>
        refine .inr ⟨v, rfl, rfl, ?_, apply_assigned hhas hv hvalid⟩
        rw [← hasFieldValue_eq (strip_isEmpty hvalid), hhas]

theorem Write.apply_crossed {w : Write} {event : Event} {v u : Json} {front back : List String}
    (hvalid : isValidFieldPath w.target = true) (hv : w.value event = some v)
    (hparts : dotParts (strip w.target) = front ++ back) (hback : back ≠ [])
    (hu : valueAt front event = some u) (hobj : isObject u = false) :
    ∃ x, valueAt front (w.apply event) = some x ∧ isObject x = true := by
  obtain ⟨hhas, hx⟩ := setParts_crossed v front back event u hback hu hobj
  rw [← hparts] at hhas hx
  rw [apply_assigned ?_ hv hvalid]
  · exact hx
  · rw [hasFieldValue_eq (strip_isEmpty hvalid), hhas]

/-- The data of the input is still there, internal members included. -/
def StillThere (event current : Event) : Prop :=
  ∀ keys v, Public keys → valueAt keys event = some v →
    ∃ w, valueAt keys current = some w ∧ (isObject v = true → isObject w = true) ∧
      (isObject v = false → w = v)

theorem StillThere.refl (event : Event) : StillThere event event :=
  fun _ v _ hv => ⟨v, hv, id, fun _ => rfl⟩

/-- A write that spares the data of the input leaves it there. -/
theorem StillThere.apply {event current : Event} {w : Write} (h : StillThere event current)
    (hspares : isValidFieldPath w.target = true → Crosses event w.target → w.value current = none) :
    StillThere event (w.apply current) := by
  obtain heq | ⟨x, hx, hvalid, hhas, heq⟩ := w.apply_cases current
  · rw [heq]
    exact h
  · rw [heq]
    intro keys v hpublic hv
    obtain ⟨u, hu, hobj, hsame⟩ := h keys v hpublic hv
    obtain ⟨y, hy, hyobj, hysame⟩ := setParts_kept x _ keys current u hhas hu
    refine ⟨y, hy, fun hvobj => hyobj (hobj hvobj), ?_⟩
    intro hvobj
    obtain rfl := hsame hvobj
    obtain heq | ⟨back, hback, hparts⟩ := hysame hvobj
    · exact heq
    · have hnone := hspares hvalid ⟨keys, back, u, hparts, hback, hpublic, hv, hvobj⟩
      rw [hx] at hnone
      cases hnone

/-- An object is never replaced. -/
theorem Write.apply_object (w : Write) {event : Event} {keys : List String}
    (h : ∃ x, valueAt keys event = some x ∧ isObject x = true) :
    ∃ x, valueAt keys (w.apply event) = some x ∧ isObject x = true := by
  obtain heq | ⟨v, _, _, hhas, heq⟩ := w.apply_cases event
  · rw [heq]
    exact h
  · obtain ⟨x, hx, hobj⟩ := h
    obtain ⟨y, hy, hyobj, _⟩ := setParts_kept v _ keys event x hhas hx
    rw [heq]
    exact ⟨y, hy, hyobj hobj⟩

theorem writes_object {keys : List String} : ∀ (ws : List Write) {event : Event},
    (∃ x, valueAt keys event = some x ∧ isObject x = true) →
    ∃ x, valueAt keys (ws.foldl (fun e w => w.apply e) event) = some x ∧ isObject x = true
  | [], _, h => h
  | w :: ws, _, h => by
    rw [List.foldl_cons]
    exact writes_object ws (w.apply_object h)

theorem StillThere.writes {event : Event} : ∀ (ws : List Write) {current : Event},
    StillThere event current → SparesData event ws current →
    StillThere event (ws.foldl (fun e w => w.apply e) current)
  | [], _, h, _ => h
  | _ :: ws, _, h, hspares => by
    rw [List.foldl_cons]
    exact StillThere.writes ws (h.apply hspares.1) hspares.2

/-- Where a write does not spare the data, something of the input has become an object. -/
theorem writes_destroy {event : Event} : ∀ (ws : List Write) {current : Event},
    StillThere event current → ¬ SparesData event ws current →
    ∃ keys v, Public keys ∧ valueAt keys event = some v ∧ isObject v = false ∧
      ∃ x, valueAt keys (ws.foldl (fun e w => w.apply e) current) = some x ∧ isObject x = true
  | [], _, _, hnot => absurd trivial hnot
  | w :: ws, current, h, hnot => by
    rw [List.foldl_cons]
    by_cases hspares :
        isValidFieldPath w.target = true → Crosses event w.target → w.value current = none
    · exact writes_destroy ws (h.apply hspares) fun hrest => hnot ⟨hspares, hrest⟩
    · push Not at hspares
      obtain ⟨hvalid, ⟨front, back, v, hparts, hback, hpublic, hv, hobj⟩, hvalue⟩ := hspares
      obtain ⟨u, hu, _, hsame⟩ := h front v hpublic hv
      obtain rfl := hsame hobj
      obtain ⟨x, hx⟩ := Option.ne_none_iff_exists'.mp hvalue
      exact ⟨front, u, hpublic, hv, hobj,
        writes_object ws (Write.apply_crossed hvalid hx hparts hback hu hobj)⟩

end Writing

section Run

variable {E : Engines} {policy : OverridePolicy}

theorem shouldApply_ok (hpolicy : policy ≠ .override) {target : String} {event : Event} {b : Bool}
    (h : shouldApply E policy target event = .ok b) : b = !hasFieldValue event target := by
  unfold shouldApply at h
  rw [if_neg hpolicy] at h
  split_ifs at h with hhas
  · rw [← Except.ok.inj h, hhas]
    rfl
  · rw [← Except.ok.inj h]
    simpa using hhas

theorem applyStaticField_eq (hpolicy : policy ≠ .override) {event next : Event} {key : String}
    {value : Json} (h : applyStaticField E policy event key value = .ok next) :
    next = (fieldWrite (key, value)).apply event := by
  show next = Write.apply ⟨strip key, fun _ => some value⟩ event
  have hvalid_of : (strip key).isEmpty = true → isValidFieldPath (strip key) = false := by
    intro hempty
    simp [isValidFieldPath, hempty]
  unfold applyStaticField at h
  by_cases hempty : (strip key).isEmpty = true
  · rw [if_pos hempty] at h
    rw [apply_invalid (hvalid_of hempty), ← Except.ok.inj h]
  · rw [if_neg hempty] at h
    obtain ⟨b, hb, h⟩ := bind_eq_ok h
    have hb' := shouldApply_ok hpolicy hb
    cases hhas : hasFieldValue event (strip key) with
    | true =>
      rw [hb', hhas] at h
      rw [apply_present hhas]
      exact (Except.ok.inj h).symm
    | false =>
      cases hvalid : isValidFieldPath (strip key) with
      | false =>
        rw [apply_invalid hvalid]
        rw [hb', hhas, hvalid] at h
        exact (Except.ok.inj h).symm
      | true =>
        simp only [hb', hhas, hvalid, Bool.not_false, Bool.not_true, Bool.false_eq_true,
          ↓reduceIte] at h
        rw [apply_assigned hhas rfl hvalid]
        show next = setParts (dotParts (strip (strip key))) value event
        rw [strip_strip]
        split_ifs at h with hdot
        · rw [← Except.ok.inj h, setFieldValue_eq, if_pos hvalid, strip_strip, Option.getD_some]
        · rw [← Except.ok.inj h, dotParts_plain hdot, setParts]

theorem applyStaticFields_eq (hpolicy : policy ≠ .override) :
    ∀ (fields : Json.Members) {event base : Event},
      applyStaticFields E policy event fields = .ok base →
      base = (fields.map fieldWrite).foldl (fun e w => w.apply e) event
  | [], event, base, h => (Except.ok.inj h).symm
  | (key, value) :: fields, event, base, h => by
    obtain ⟨next, hnext, hrest⟩ := bind_eq_ok h
    rw [List.map_cons, List.foldl_cons, ← applyStaticField_eq hpolicy hnext]
    exact applyStaticFields_eq hpolicy fields hrest

/-- A rule that asks the policy, and on leave carries on. -/
theorem asked_eq (hpolicy : policy ≠ .override) {target : String} {event next : Event}
    {stay : Applied} {go : Except Raised Applied} {a : Applied}
    (h : (shouldApply E policy target event >>= fun b =>
      if (!b) = true then pure stay else go) = .ok a) (hstay : stay.event = event)
    (hpresent : hasFieldValue event target = true → next = event)
    (hgo : hasFieldValue event target = false → go = .ok a → a.event = next) : a.event = next := by
  obtain ⟨b, hb, h⟩ := bind_eq_ok h
  have hb' := shouldApply_ok hpolicy hb
  cases hhas : hasFieldValue event target with
  | true =>
    rw [hb', hhas] at h
    rw [hpresent hhas, ← hstay, ← Except.ok.inj h]
  | false =>
    rw [hb', hhas] at h
    exact hgo hhas h

theorem ok_of_unhandled {α : Type} {x : Except String α} {y : α}
    (h : unhandled x = .ok y) : x = .ok y := by
  cases x with
  | error e => cases h
  | ok a => rw [← Except.ok.inj h]

theorem applyCalculated_eq (hpolicy : policy ≠ .override) {event : Event} {rule : Rule}
    {a : Applied} (h : applyCalculated E policy event rule = .ok a) :
    a.event = Write.apply ⟨rule.target, calculatedOf E rule⟩ event := by
  refine asked_eq hpolicy h (by rfl) (fun hhas => apply_present hhas) fun hhas hgo => ?_
  obtain ⟨answer, hanswer, hgo⟩ := bind_eq_ok hgo
  have hengine := ok_of_unhandled hanswer
  cases answer with
  | error message =>
    rw [apply_nothing (by simp only [calculatedOf, hengine]), ← Except.ok.inj hgo,
      Applied.warned]
  | ok value =>
    rw [apply_absent (v := value) hhas (by simp only [calculatedOf, hengine])]
    cases hset : setFieldValue event rule.target value with
    | none =>
      simp only [hset] at hgo
      rw [← Except.ok.inj hgo, Applied.warned, Option.getD_none]
    | some written =>
      simp only [hset] at hgo
      rw [← Except.ok.inj hgo, Option.getD_some]

theorem applyLookup_eq (hpolicy : policy ≠ .override) {event : Event} {rule : Rule}
    {a : Applied} (h : applyLookup E policy event rule = .ok a) :
    a.event = Write.apply ⟨rule.target, lookedUp E rule⟩ event := by
  simp only [applyLookup] at h
  by_cases hfields : ((textOf E rule.body ["lookup_table", "lookupTable"]).isEmpty ||
      (strip (textOf E rule.body ["key_field", "lookup_key_field", "lookupKeyField"])).isEmpty) =
        true
  · rw [if_pos hfields] at h
    rw [apply_nothing (by simp only [lookedUp, hfields, ↓reduceIte]), ← Except.ok.inj h,
      Applied.warned]
  · rw [if_neg hfields] at h
    refine asked_eq hpolicy h (by rfl) (fun hhas => apply_present hhas) fun hhas hgo => ?_
    split_ifs at hgo with hkey
    · rw [apply_nothing (by simp only [lookedUp, hfields, hkey, ↓reduceIte,
        Bool.false_eq_true]), ← Except.ok.inj hgo, Applied.warned]
    · cases hfound : lookupValue (textOf E rule.body ["lookup_table", "lookupTable"])
          (E.str (readField event (strip (textOf E rule.body
            ["key_field", "lookup_key_field", "lookupKeyField"])))) with
      | none =>
        rw [hfound] at hgo
        rw [apply_nothing (by simp only [lookedUp, hfields, hkey, hfound, ↓reduceIte,
          Bool.false_eq_true, Option.map_none]), ← Except.ok.inj hgo, Applied.warned]
      | some resolved =>
        rw [hfound] at hgo
        rw [apply_absent (v := .str resolved) hhas (by simp only [lookedUp, hfields, hkey,
          hfound, ↓reduceIte, Bool.false_eq_true, Option.map_some]), ← Except.ok.inj hgo]

theorem applyConditional_eq (hpolicy : policy ≠ .override) {event : Event} {rule : Rule}
    {a : Applied} (h : applyConditional E policy event rule = .ok a) :
    a.event = Write.apply ⟨rule.target, chosen E rule⟩ event := by
  refine asked_eq hpolicy h (by rfl) (fun hhas => apply_present hhas) fun hhas hgo => ?_
  have hother (hnone : chosen E rule event = none) (heq : a.event = event) :
      a.event = Write.apply ⟨rule.target, chosen E rule⟩ event := by
    rw [apply_nothing hnone, heq]
  cases hconditions : Dict.get? "conditions" rule.body with
  | none =>
    rw [hconditions] at hgo
    exact hother (by simp only [chosen, hconditions]) (by rw [← Except.ok.inj hgo, Applied.warned])
  | some given =>
    rw [hconditions] at hgo
    cases given with
    | arr conditions =>
      rw [apply_absent hhas (by simp only [chosen, hconditions]; rfl), ← Except.ok.inj hgo]
    | _ =>
      exact hother (by simp only [chosen, hconditions])
        (by rw [← Except.ok.inj hgo, Applied.warned])

theorem applyNormalize_eq (hpolicy : policy ≠ .override) {event : Event} {rule : Rule}
    {a : Applied} (h : applyNormalize E policy event rule = .ok a) :
    a.event = Write.apply ⟨rule.target, normalized E rule⟩ event := by
  simp only [applyNormalize] at h
  by_cases hsource : (strip (textOf E rule.body
      ["source_field", "normalizeSourceField", "sourceField"])).isEmpty = true
  · rw [if_pos hsource] at h
    rw [apply_nothing (by simp only [normalized, hsource, ↓reduceIte]), ← Except.ok.inj h,
      Applied.warned]
  · rw [if_neg hsource] at h
    refine asked_eq hpolicy h (by rfl) (fun hhas => apply_present hhas) fun hhas hgo => ?_
    obtain ⟨answer, hanswer, hgo⟩ := bind_eq_ok hgo
    have hengine := ok_of_unhandled hanswer
    cases answer with
    | error message =>
      rw [apply_nothing (by simp only [normalized, hsource, hengine, ↓reduceIte,
        Bool.false_eq_true]), ← Except.ok.inj hgo, Applied.warned]
    | ok value =>
      rw [apply_absent (v := value) hhas (by simp only [normalized, hsource, hengine,
        ↓reduceIte, Bool.false_eq_true]), ← Except.ok.inj hgo]

theorem applyTransform_eq (hpolicy : policy ≠ .override) {event : Event} {rule : Rule}
    {a : Applied} (h : applyTransform E policy event rule = .ok a) :
    a.event = Write.apply ⟨strip (textOf E rule.body ["target_field", "output_field", "field"]),
      transformed E rule⟩ event := by
  simp only [applyTransform] at h
  by_cases htarget :
      (strip (textOf E rule.body ["target_field", "output_field", "field"])).isEmpty = true
  · rw [if_pos htarget] at h
    rw [apply_invalid (by simp [isValidFieldPath, htarget]), ← Except.ok.inj h,
      Applied.failed]
  · rw [if_neg htarget] at h
    refine asked_eq hpolicy h (by rfl) (fun hhas => apply_present hhas) fun hhas hgo => ?_
    obtain ⟨result, hresult, hgo⟩ := bind_eq_ok hgo
    have hengine := ok_of_unhandled hresult
    cases hsuccess : result.success with
    | false =>
      simp only [hsuccess, Bool.not_false, ↓reduceIte] at hgo
      rw [apply_nothing (by simp only [transformed, hengine, hsuccess, ↓reduceIte,
        Bool.false_eq_true]), ← Except.ok.inj hgo, Applied.failed]
    | true =>
      simp only [hsuccess, Bool.not_true, Bool.false_eq_true, ↓reduceIte] at hgo
      rw [apply_absent (v := result.value) hhas (by simp only [transformed, hengine, hsuccess,
        ↓reduceIte])]
      show a.event = (setFieldValue event (strip (textOf E rule.body
        ["target_field", "output_field", "field"])) result.value).getD event
      cases hset : setFieldValue event (strip (textOf E rule.body
          ["target_field", "output_field", "field"])) result.value with
      | none =>
        rw [hset] at hgo
        rw [← Except.ok.inj hgo, Applied.failed, Option.getD_none]
      | some written =>
        rw [hset] at hgo
        rw [← Except.ok.inj hgo, Option.getD_some]

theorem applyAdvancedRule_eq (hpolicy : policy ≠ .override) {event : Event} {rule : Rule}
    {a : Applied} (h : applyAdvancedRule E policy event rule = .ok a) :
    a.event = (ruleWrite E rule).apply event := by
  unfold ruleWrite ruleTarget ruleValue
  unfold applyAdvancedRule at h
  cases htype : rule.type with
  | static =>
    simp only [htype] at h ⊢
    rw [apply_nothing rfl, ← Except.ok.inj h, Applied.warned]
  | calculated =>
    simp only [htype] at h ⊢
    exact applyCalculated_eq hpolicy h
  | lookup =>
    simp only [htype] at h ⊢
    exact applyLookup_eq hpolicy h
  | conditional =>
    simp only [htype] at h ⊢
    exact applyConditional_eq hpolicy h
  | normalize =>
    simp only [htype] at h ⊢
    exact applyNormalize_eq hpolicy h
  | jsonata =>
    simp only [htype] at h ⊢
    exact applyTransform_eq hpolicy h
  | regexExtract =>
    simp only [htype] at h ⊢
    exact applyTransform_eq hpolicy h

theorem applyRules_eq (hpolicy : policy ≠ .override) : ∀ (rules : List Rule) {acc out : Applied},
    applyRules E policy rules acc = .ok out →
      out.event = (rules.map (ruleWrite E)).foldl (fun e w => w.apply e) acc.event
  | [], acc, out, h => by rw [← Except.ok.inj h, List.map_nil, List.foldl_nil]
  | rule :: rules, acc, out, h => by
    obtain ⟨a, ha, hrest⟩ := bind_eq_ok h
    rw [List.map_cons, List.foldl_cons, ← applyAdvancedRule_eq hpolicy ha]
    have hgo := applyRules_eq hpolicy rules hrest
    exact hgo

end Run

section Delivered

theorem get?_stripMembers {k : String} (hk : internalKey k = false) (ms : Json.Members) :
    Dict.get? k (stripMembers ms) = (Dict.get? k ms).map stripInternalNested := by
  induction ms with
  | nil => rfl
  | cons m ms hrest =>
    obtain ⟨l, v⟩ := m
    rw [stripMembers, Dict.get?_cons]
    by_cases hlk : l = k
    · subst hlk
      rw [if_pos rfl, hk, if_neg Bool.false_ne_true, Dict.get?_cons, if_pos rfl, Option.map_some]
    · rw [if_neg hlk]
      split_ifs with hl
      · exact hrest
      · rw [Dict.get?_cons, if_neg hlk, hrest]

theorem getAt_strip : ∀ (keys : List String), Public keys → ∀ v : Json,
    getAt (keys.map .member) (stripInternalNested v) =
      (getAt (keys.map .member) v).map stripInternalNested
  | [], _, _ => rfl
  | k :: keys, hpublic, v => by
    obtain ⟨hk, hkeys⟩ := List.forall_mem_cons.mp hpublic
    cases v with
    | obj ms =>
      rw [stripInternalNested, List.map_cons, getAt, getAt, get?_stripMembers hk]
      cases Dict.get? k ms with
      | none => rfl
      | some x => exact getAt_strip keys hkeys x
    | arr xs => rfl
    | _ => rfl

theorem valueAt_sanitized {keys : List String} (hpublic : Public keys) (event : Event) :
    valueAt keys (sanitizeDeliveryEvent event) = (valueAt keys event).map stripInternalNested := by
  have h := getAt_strip keys hpublic (.obj event)
  rwa [stripInternalNested] at h

theorem isObject_strip (v : Json) : isObject (stripInternalNested v) = isObject v := by
  cases v <;> rfl

theorem StillThere.dataKept {event current : Event} (h : StillThere event current) :
    DataKept event (sanitizeDeliveryEvent current) := by
  intro keys v hpublic hv
  obtain ⟨w, hw, hobj, hsame⟩ := h keys v hpublic hv
  refine ⟨stripInternalNested w, ?_, ?_, ?_⟩
  · rw [valueAt_sanitized hpublic, hw, Option.map_some]
  · intro hvobj
    rw [isObject_strip]
    exact hobj hvobj
  · intro hvobj
    rw [hsame hvobj]

/-- A run that does not raise delivers what its writes make of the event. -/
theorem executeEnrichment_eq {E : Engines} {event : Event} {enrichment : Json.Members}
    {overridePolicy : String} {result : Applied} (hpolicy : overridePolicy ≠ "OVERRIDE")
    (hrun : executeEnrichment E event enrichment overridePolicy = .ok result) :
    result.event = sanitizeDeliveryEvent
      ((enrichmentWrites E enrichment).foldl (fun e w => w.apply e) event) := by
  obtain ⟨policy, hvalid, hgo⟩ := bind_eq_ok hrun
  have hne : policy ≠ .override := by
    rintro rfl
    unfold validatePolicy at hvalid
    cases hfind : [OverridePolicy.keepExisting, .override, .errorOnConflict].find?
        (·.text = overridePolicy) with
    | none =>
      rw [hfind] at hvalid
      cases hvalid
    | some p =>
      rw [hfind] at hvalid
      obtain rfl := Except.ok.inj hvalid
      have htext := List.find?_some hfind
      exact hpolicy (of_decide_eq_true htext).symm
  split_ifs at hgo with hempty
  · subst hempty
    rw [← Except.ok.inj hgo]
    rfl
  · obtain ⟨base, hbase, hgo⟩ := bind_eq_ok hgo
    obtain ⟨out, hout, hgo⟩ := bind_eq_ok hgo
    have hrules := applyRules_eq hne _ hout
    rw [← Except.ok.inj hgo, hrules, applyStaticFields_eq hne _ hbase, enrichmentWrites,
      List.foldl_append]

end Delivered

/-- A run that keeps or refuses what is there, and does not raise, leaves the data of the event
where it was exactly when no write that goes through something the event has, and which is no
object, comes to a value on the event it is reached with. -/
theorem keepsData_iff {E : Engines} {event : Event} {enrichment : Json.Members}
    {overridePolicy : String} {result : Applied}
    (hpolicy : overridePolicy = "KEEP_EXISTING" ∨ overridePolicy = "ERROR_ON_CONFLICT")
    (hrun : executeEnrichment E event enrichment overridePolicy = .ok result) :
    DataKept event result.event ↔ SparesData event (enrichmentWrites E enrichment) event := by
  have hne : overridePolicy ≠ "OVERRIDE" := by
    rintro rfl
    rcases hpolicy with h | h <;> exact absurd h (by decide)
  rw [executeEnrichment_eq hne hrun]
  constructor
  · intro hkept
    by_contra hnot
    obtain ⟨keys, v, hpublic, hv, hobj, x, hx, hxobj⟩ :=
      writes_destroy _ (StillThere.refl event) hnot
    obtain ⟨w, hw, _, hsame⟩ := hkept keys v hpublic hv
    rw [valueAt_sanitized hpublic, hx, Option.map_some] at hw
    have hwobj : isObject w = true := by
      rw [← Option.some.inj hw, isObject_strip, hxobj]
    rw [hsame hobj, isObject_strip, hobj] at hwobj
    cases hwobj
  · intro hspares
    exact ((StillThere.refl event).writes _ hspares).dataKept

/-- An event whose `meta` is an object, which a label goes through. -/
def vendorEvent : Event := [("meta", .obj [("vendor", .str "Acme")])]

theorem not_crosses_vendorEvent : ¬ Crosses vendorEvent "meta.severity" := by
  rintro ⟨front, back, v, hparts, hback, -, hv, hobj⟩
  have htarget : dotParts (strip "meta.severity") = ["meta", "severity"] := by decide +kernel
  rw [htarget] at hparts
  rcases front with _ | ⟨part, _ | ⟨next, front⟩⟩
  · obtain rfl := Option.some.inj hv
    cases hobj
  · obtain ⟨rfl, -⟩ := List.cons.inj hparts
    obtain rfl := Option.some.inj hv
    cases hobj
  · have hlen := congrArg List.length hparts
    have hpos := List.length_pos_iff.mpr hback
    simp only [List.length_append, List.length_cons, List.length_nil] at hlen
    omega

theorem nestedLabel_keepsData :
    ∃ result, executeEnrichment bareEngines vendorEvent [("meta.severity", .str "low")]
        "KEEP_EXISTING" = .ok result ∧
      result.event = [("meta", .obj [("vendor", .str "Acme"), ("severity", .str "low")])] ∧
      DataKept vendorEvent result.event := by
  have hrun : executeEnrichment bareEngines vendorEvent [("meta.severity", .str "low")]
      "KEEP_EXISTING" =
        .ok { event := [("meta", .obj [("vendor", .str "Acme"), ("severity", .str "low")])] } := by
    decide +kernel
  refine ⟨_, hrun, rfl, (keepsData_iff (.inl rfl) hrun).mpr ?_⟩
  have hwrites : enrichmentWrites bareEngines [("meta.severity", .str "low")] =
      [⟨"meta.severity", fun _ => some (.str "low")⟩] := by
    have hstatic : splitStaticFields bareEngines [("meta.severity", .str "low")] =
        [("meta.severity", .str "low")] := by decide +kernel
    have hrules : iterAdvancedRules bareEngines [("meta.severity", .str "low")] = [] := by
      decide +kernel
    have htarget : strip "meta.severity" = "meta.severity" := by decide +kernel
    simp only [enrichmentWrites, hstatic, hrules, List.map_cons, List.map_nil, fieldWrite, htarget,
      List.append_nil]
  rw [hwrites]
  exact ⟨fun _ hcrosses => absurd hcrosses not_crosses_vendorEvent, trivial⟩

/-- A label under a text of the event: the text is gone. -/
theorem labelUnderText_destroys :
    ∃ result, executeEnrichment bareEngines [("meta", .str "Acme")]
        [("meta.severity", .str "low")] "KEEP_EXISTING" = .ok result ∧
      ¬ DataKept [("meta", .str "Acme")] result.event := by
  refine ⟨{ event := [("meta", .obj [("severity", .str "low")])] }, by decide +kernel, ?_⟩
  intro hkept
  have hpublic : Public ["meta"] := by
    simp only [Public, List.forall_mem_singleton]
    decide
  obtain ⟨w, hw, _, hsame⟩ := hkept ["meta"] (.str "Acme") hpublic (by decide)
  have heq : valueAt ["meta"] [("meta", .obj [("severity", .str "low")])] =
      some (.obj [("severity", .str "low")]) := by decide
  rw [hsame (by rfl), heq] at hw
  exact absurd (Option.some.inj hw) (by decide)
end Enrichment
