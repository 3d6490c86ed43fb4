import DataRelay.Protection.Engine

/-! What a rule that returns without a warning has done to the event. The descents agree with
the reference rewrite of the path, except that a path ending in `[]` is never carried out. -/
namespace Protection
open JsonPath Delivery

section Descent

variable {mode : Json → Except String Json}

/-- What a mode makes of a value, the value itself where it raises. -/
def modeOutput (mode : Json → Except String Json) (v : Json) : Json :=
  match mode v with
  | .ok w => w
  | .error _ => v

/-- The descent below a member or a subscript: the mode itself at the end of the path. -/
def applyRest (mode : Json → Except String Json) (rest : List Sel) (c : Json) :
    Json × Except String ℕ :=
  if rest.isEmpty then (modeOutput mode c, (mode c).map fun _ => 1) else applyAtSegments mode rest c

theorem applyLeaf_eq {node value : Json} {put : Json → Json} (hput : put value = node) :
    applyLeaf mode node value put = (put (applyRest mode [] value).1, (applyRest mode [] value).2) := by
  unfold applyLeaf applyRest modeOutput
  cases mode value <;> simp [Except.map, hput]

/-- The look-ahead of the descent past a member makes no difference. -/
theorem applyAtSegments_key (k : String) (rest : List Sel) (ms : Json.Members) :
    applyAtSegments mode (.key k :: rest) (.obj ms) =
      match Dict.get? k ms with
      | some c => (.obj (Dict.set k (applyRest mode rest c).1 ms), (applyRest mode rest c).2)
      | none => (.obj ms, .ok 0) := by
  cases rest with
  | nil =>
    cases hc : Dict.get? k ms with
    | none => simp [applyAtSegments, hc]
    | some c =>
      simp only [applyAtSegments, hc]
      exact applyLeaf_eq (congrArg Json.obj (Dict.set_self hc))
  | cons s r =>
    cases hc : Dict.get? k ms with
    | none => cases s <;> simp [applyAtSegments, hc]
    | some c => cases s <;> cases c <;> simp [applyAtSegments, applyRest, hc, Dict.set_self hc]

/-- A member of what is no object is passed by. -/
theorem applyAtSegments_key_skip (k : String) (rest : List Sel) {v : Json}
    (hv : ∀ ms, v ≠ .obj ms) : applyAtSegments mode (.key k :: rest) v = (v, .ok 0) := by
  cases v with
  | obj ms => exact absurd rfl (hv ms)
  | _ =>
    cases rest with
    | nil => rfl
    | cons s r => cases s <;> rfl

theorem applyAtSegments_index {i : ℤ} (rest : List Sel) {xs : List Json} {n : ℕ} {c : Json}
    (hn : Json.resolveIndex xs.length i = some n) (hc : xs[n]? = some c) :
    applyAtSegments mode (.index i :: rest) (.arr xs) =
      (.arr (xs.set n (applyRest mode rest c).1), (applyRest mode rest c).2) := by
  obtain ⟨hlt, rfl⟩ := List.getElem?_eq_some_iff.mp hc
  cases rest with
  | nil =>
    simp only [applyAtSegments, hn, hc, Option.bind_some, Option.map_some, List.isEmpty_nil,
      ↓reduceIte]
    exact applyLeaf_eq (by simp)
  | cons s r => simp [applyAtSegments, applyRest, hn, hc]

/-- The path ends in a member or a subscript. -/
def EndsDefinite (segments : List Sel) : Prop := ∃ s, segments.getLast? = some s ∧ s ≠ .wild

theorem endsDefinite_iff {segments : List Sel} (hs : segments ≠ []) :
    EndsDefinite segments ↔ segments.getLast? ≠ some .wild := by
  cases hlast : segments.getLast? with
  | none => exact absurd (List.getLast?_eq_none_iff.mp hlast) hs
  | some t => simp [EndsDefinite, hlast]

theorem EndsDefinite.rest {s : Sel} {rest : List Sel} (h : EndsDefinite (s :: rest))
    (hr : rest ≠ []) : EndsDefinite rest := by
  cases rest with
  | nil => exact absurd rfl hr
  | cons t rest => simpa [EndsDefinite, List.getLast?_cons_cons] using h

theorem EndsDefinite.wild_rest {rest : List Sel} (h : EndsDefinite (.wild :: rest)) :
    rest ≠ [] := by
  rintro rfl
  obtain ⟨s, hs, hne⟩ := h
  exact hne (Option.some.inj hs).symm

/-- A loop without an exception has rewritten and counted every item. -/
theorem applyItems_ok {f : Json → Json × Except String ℕ} {g : Json → Option Json} {c : Json → ℕ}
    {xs ys : List Json} {n : ℕ}
    (hf : ∀ x y m, f x = (y, .ok m) → g x = some y ∧ m = c x)
    (h : applyItems f xs = (ys, .ok n)) : ys = xs.filterMap g ∧ n = (xs.map c).sum := by
  induction xs generalizing ys n with
  | nil =>
    simp only [applyItems, Prod.mk.injEq, Except.ok.injEq] at h
    simp [← h.1, ← h.2]
  | cons x xs ih =>
    cases hx : f x with
    | mk y r =>
      cases r with
      | error e => simp [applyItems, hx] at h
      | ok m =>
        obtain ⟨hg, hm⟩ := hf x y m hx
        cases hrest : applyItems f xs with
        | mk zs r =>
          cases r with
          | error e => simp [applyItems, hx, hrest, Except.map] at h
          | ok l =>
            simp only [applyItems, hx, hrest, Except.map, Prod.mk.injEq, Except.ok.injEq] at h
            obtain ⟨rfl, rfl⟩ := h
            obtain ⟨rfl, rfl⟩ := ih hrest
            simp [hg, hm]

/-- A descent without an exception has done the reference rewrite. -/
theorem applyAtSegments_ok {segments : List Sel} (hl : EndsDefinite segments) {v w : Json} {n : ℕ}
    (h : applyAtSegments mode segments v = (w, .ok n)) :
    rewriteAt (fun x => some (modeOutput mode x)) segments v = some w ∧
      n = (positions segments v).length := by
  induction segments generalizing v w n with
  | nil => simp [EndsDefinite] at hl
  | cons s rest ih =>
    have hskip (hs : applyAtSegments mode (s :: rest) v = (v, .ok 0)) : w = v ∧ n = 0 := by
      rw [hs, Prod.mk.injEq, Except.ok.injEq] at h
      exact ⟨h.1.symm, h.2.symm⟩
    have hrest {c d : Json} {m : ℕ} (hout : applyRest mode rest c = (d, .ok m)) :
        rewriteAt (fun x => some (modeOutput mode x)) rest c = some d ∧
          m = (positions rest c).length := by
      by_cases hr : rest = []
      · subst hr
        cases hm : mode c with
        | error e => simp [applyRest, hm, Except.map] at hout
        | ok y =>
          simp only [applyRest, hm, Except.map, List.isEmpty_nil, ↓reduceIte, Prod.mk.injEq,
            Except.ok.injEq] at hout
          simp [rewriteAt, positions, hout.1, ← hout.2]
      · exact ih (hl.rest hr) (by simpa [applyRest, hr] using hout)
    cases s with
    | key k =>
      cases v with
      | obj ms =>
        rw [applyAtSegments_key] at h
        cases hc : Dict.get? k ms with
        | none =>
          simp only [hc, Prod.mk.injEq, Except.ok.injEq] at h
          simp [rewriteAt, rewriteMember, positions, hc, ← h.1, ← h.2]
        | some c =>
          simp only [hc, Prod.mk.injEq] at h
          obtain ⟨rfl, hcount⟩ := h
          obtain ⟨hrew, hpos⟩ := hrest (Prod.ext rfl hcount)
          simp [rewriteAt, rewriteMember_some hc hrew, positions, hc, ← hpos]
      | _ =>
        obtain ⟨rfl, rfl⟩ := hskip (applyAtSegments_key_skip k rest (by simp))
        exact ⟨rfl, rfl⟩
    | index i =>
      cases v with
      | arr xs =>
        cases hn : Json.resolveIndex xs.length i with
        | none =>
          obtain ⟨rfl, rfl⟩ := hskip (by simp [applyAtSegments, hn])
          simp [rewriteAt, positions, hn]
        | some m =>
          obtain ⟨c, hc⟩ := resolved_item hn
          rw [applyAtSegments_index rest hn hc, Prod.mk.injEq] at h
          obtain ⟨rfl, hcount⟩ := h
          obtain ⟨hrew, hpos⟩ := hrest (Prod.ext rfl hcount)
          rw [positions_index rest hn hc]
          simp [rewriteAt, rewriteItem_some hc hrew, hn, ← hpos]
      | _ =>
        obtain ⟨rfl, rfl⟩ := hskip rfl
        exact ⟨rfl, rfl⟩
    | wild =>
      have hlr := hl.rest hl.wild_rest
      cases v with
      | arr xs =>
        cases hout : applyItems (applyAtSegments mode rest) xs with
        | mk ys r =>
          simp only [applyAtSegments, hout, Prod.mk.injEq] at h
          obtain ⟨rfl, rfl⟩ := h
          obtain ⟨rfl, rfl⟩ := applyItems_ok (fun x y m hx => ih hlr hx) hout
          simp [rewriteAt, positions_wild_length]
      | _ =>
        obtain ⟨rfl, rfl⟩ := hskip rfl
        exact ⟨rfl, rfl⟩

theorem applyItems_ok_iff {f : Json → Json × Except String ℕ} {xs : List Json} :
    (∃ n, (applyItems f xs).2 = .ok n) ↔ ∀ x ∈ xs, ∃ n, (f x).2 = .ok n := by
  induction xs with
  | nil => simp [applyItems]
  | cons x xs ih =>
    rw [List.forall_mem_cons, ← ih]
    cases hx : f x with
    | mk y r =>
      cases r with
      | error e => simp [applyItems, hx]
      | ok n => cases hxs : (applyItems f xs).2 <;> simp [applyItems, hx, hxs, Except.map]

/-- A descent raises exactly when the mode raises on a designated value. -/
theorem applyAtSegments_ok_iff {segments : List Sel} (hl : EndsDefinite segments) (v : Json) :
    (∃ n, (applyAtSegments mode segments v).2 = .ok n) ↔
      ∀ x ∈ valuesAt segments v, ∃ w, mode x = .ok w := by
  induction segments generalizing v with
  | nil => simp [EndsDefinite] at hl
  | cons s rest ih =>
    have hrest (c : Json) : (∃ n, (applyRest mode rest c).2 = .ok n) ↔
        ∀ x ∈ valuesAt rest c, ∃ w, mode x = .ok w := by
      by_cases hr : rest = []
      · subst hr
        cases hm : mode c <;> simp [applyRest, valuesAt, hm, Except.map]
      · simpa [applyRest, hr] using ih (hl.rest hr) c
    cases s with
    | key k =>
      cases v with
      | obj ms =>
        rw [applyAtSegments_key]
        cases hc : Dict.get? k ms with
        | none => simp [valuesAt, hc]
        | some c => simpa [valuesAt, hc] using hrest c
      | _ =>
        rw [applyAtSegments_key_skip k rest (by simp)]
        simp [valuesAt]
    | index i =>
      cases v with
      | arr xs =>
        cases hn : Json.resolveIndex xs.length i with
        | none => simp [applyAtSegments, valuesAt, hn]
        | some m =>
          obtain ⟨c, hc⟩ := resolved_item hn
          rw [applyAtSegments_index rest hn hc, hrest c]
          simp [valuesAt, hn, hc]
      | _ => simp [applyAtSegments, valuesAt]
    | wild =>
      cases v with
      | arr xs =>
        simp only [applyAtSegments, applyItems_ok_iff, valuesAt, List.mem_flatMap]
        constructor
        · rintro h x ⟨c, hc, hx⟩
          exact (ih (hl.rest hl.wild_rest) c).mp (h c hc) x hx
        · intro h c hc
          exact (ih (hl.rest hl.wild_rest) c).mpr fun x hx => h x ⟨c, hc, hx⟩
      | _ => simp [applyAtSegments, valuesAt]

theorem not_endsDefinite_rest {s : Sel} {rest : List Sel} (h : ¬ EndsDefinite (s :: rest)) :
    (s ≠ .wild → rest ≠ []) ∧ ¬ EndsDefinite rest := by
  cases rest with
  | nil => exact ⟨fun hs => absurd ⟨s, rfl, hs⟩ h, by simp [EndsDefinite]⟩
  | cons t rest =>
    exact ⟨by simp, fun hd => h (by simpa [EndsDefinite, List.getLast?_cons_cons] using hd)⟩

/-- A path that ends in a wildcard is not carried out. -/
theorem applyAtSegments_inert {segments : List Sel} (hl : ¬ EndsDefinite segments) (v : Json) :
    applyAtSegments mode segments v = (v, .ok 0) := by
  induction segments generalizing v with
  | nil => rfl
  | cons s rest ih =>
    obtain ⟨hr, hlr⟩ := not_endsDefinite_rest hl
    cases s with
    | key k =>
      cases v with
      | obj ms =>
        rw [applyAtSegments_key]
        cases hc : Dict.get? k ms with
        | none => rfl
        | some c => simp [applyRest, hr, ih hlr, Dict.set_self hc]
      | _ => exact applyAtSegments_key_skip k rest (by simp)
    | index i =>
      cases v with
      | arr xs =>
        cases hn : Json.resolveIndex xs.length i with
        | none => simp [applyAtSegments, hn]
        | some m =>
          obtain ⟨c, hc⟩ := resolved_item hn
          obtain ⟨hlt, rfl⟩ := List.getElem?_eq_some_iff.mp hc
          simp [applyAtSegments_index rest hn hc, applyRest, hr, ih hlr]
      | _ => rfl
    | wild =>
      have hloop (xs : List Json) : applyItems (applyAtSegments mode rest) xs = (xs, .ok 0) := by
        induction xs with
        | nil => rfl
        | cons x xs ihx => simp [applyItems, ih hlr, ihx, Except.map]
      cases v with
      | arr xs => simp [applyAtSegments, hloop]
      | _ => rfl

/-- Dropping below a member or a subscript: the value itself at the end of the path. -/
def dropRest (rest : List Sel) (c : Json) : Option Json × ℕ :=
  if rest.isEmpty then (none, 1) else (some (dropAtSegments rest c).1, (dropAtSegments rest c).2)

theorem dropAtSegments_key (k : String) (rest : List Sel) (ms : Json.Members) :
    dropAtSegments (.key k :: rest) (.obj ms) =
      match Dict.get? k ms with
      | some c => (.obj (rewriteMember k (fun _ => (dropRest rest c).1) ms), (dropRest rest c).2)
      | none => (.obj ms, 0) := by
  cases rest with
  | nil =>
    cases hc : Dict.get? k ms <;>
      simp [dropAtSegments, dropRest, rewriteMember, Dict.has, hc]
  | cons s r =>
    cases hc : Dict.get? k ms with
    | none => cases s <;> simp [dropAtSegments, hc]
    | some c =>
      cases s <;> cases c <;>
        simp [dropAtSegments, dropRest, rewriteMember, hc, Dict.set_self hc]

theorem dropAtSegments_key_skip (k : String) (rest : List Sel) {v : Json}
    (hv : ∀ ms, v ≠ .obj ms) : dropAtSegments (.key k :: rest) v = (v, 0) := by
  cases v with
  | obj ms => exact absurd rfl (hv ms)
  | _ =>
    cases rest with
    | nil => rfl
    | cons s r => cases s <;> rfl

theorem dropAtSegments_index {i : ℤ} (rest : List Sel) {xs : List Json} {n : ℕ} {c : Json}
    (hn : Json.resolveIndex xs.length i = some n) (hc : xs[n]? = some c) :
    dropAtSegments (.index i :: rest) (.arr xs) =
      (.arr (rewriteItem n (fun _ => (dropRest rest c).1) xs), (dropRest rest c).2) := by
  cases rest <;> simp [dropAtSegments, dropRest, rewriteItem, hn, hc]

/-- Dropping is the reference removal. -/
theorem dropAtSegments_eq {segments : List Sel} (hl : EndsDefinite segments) (v : Json) :
    rewriteAt (fun _ => none) segments v = some (dropAtSegments segments v).1 ∧
      (dropAtSegments segments v).2 = (positions segments v).length := by
  induction segments generalizing v with
  | nil => simp [EndsDefinite] at hl
  | cons s rest ih =>
    have hrest (c : Json) : rewriteAt (fun _ => none) rest c = (dropRest rest c).1 ∧
        (dropRest rest c).2 = (positions rest c).length := by
      by_cases hr : rest = []
      · subst hr
        simp [dropRest, rewriteAt, positions]
      · simpa [dropRest, hr] using ih (hl.rest hr) c
    cases s with
    | key k =>
      cases v with
      | obj ms =>
        rw [dropAtSegments_key]
        cases hc : Dict.get? k ms with
        | none => simp [rewriteAt, rewriteMember, positions, hc]
        | some c => simp [rewriteAt, rewriteMember, positions, hc, hrest]
      | _ =>
        rw [dropAtSegments_key_skip k rest (by simp)]
        exact ⟨rfl, rfl⟩
    | index i =>
      cases v with
      | arr xs =>
        cases hn : Json.resolveIndex xs.length i with
        | none => simp [dropAtSegments, rewriteAt, positions, hn]
        | some m =>
          obtain ⟨c, hc⟩ := resolved_item hn
          rw [dropAtSegments_index rest hn hc, positions_index rest hn hc]
          simp [rewriteAt, rewriteItem, hn, hc, hrest]
      | _ => exact ⟨rfl, rfl⟩
    | wild =>
      have hlr := hl.rest hl.wild_rest
      cases v with
      | arr xs =>
        have hmap : xs.filterMap (rewriteAt (fun _ => none) rest) =
            xs.map fun x => (dropAtSegments rest x).1 := by
          rw [← List.filterMap_eq_map]
          exact List.filterMap_congr fun x _ => (ih hlr x).1
        simp [dropAtSegments, dropItems, rewriteAt, positions_wild_length, hmap, (ih hlr _).2]
      | _ => exact ⟨rfl, rfl⟩

theorem dropAtSegments_inert {segments : List Sel} (hl : ¬ EndsDefinite segments) (v : Json) :
    dropAtSegments segments v = (v, 0) := by
  induction segments generalizing v with
  | nil => rfl
  | cons s rest ih =>
    obtain ⟨hr, hlr⟩ := not_endsDefinite_rest hl
    cases s with
    | key k =>
      cases v with
      | obj ms =>
        rw [dropAtSegments_key]
        cases hc : Dict.get? k ms with
        | none => rfl
        | some c => simp [dropRest, rewriteMember, hr, ih hlr, hc, Dict.set_self hc]
      | _ => exact dropAtSegments_key_skip k rest (by simp)
    | index i =>
      cases v with
      | arr xs =>
        cases hn : Json.resolveIndex xs.length i with
        | none => simp [dropAtSegments, hn]
        | some m =>
          obtain ⟨c, hc⟩ := resolved_item hn
          obtain ⟨hlt, rfl⟩ := List.getElem?_eq_some_iff.mp hc
          simp [dropAtSegments_index rest hn hc, dropRest, rewriteItem, hr, ih hlr, hc]
      | _ => rfl
    | wild =>
      cases v with
      | arr xs => simp [dropAtSegments, dropItems, ih hlr]
      | _ => rfl

end Descent

/-- What the rule makes of a designated value; `none` removes it. -/
def ruleOutput (ctx : ModeContext) (rule : Rule) (v : Json) : Option Json :=
  if rule.protectionMode = .dropField then none
  else some (modeOutput (applyProtectionMode ctx rule.fieldPath rule.protectionMode) v)

theorem ruleOutput_drop {ctx : ModeContext} {rule : Rule} (h : rule.protectionMode = .dropField) :
    ruleOutput ctx rule = fun _ => none := by
  funext x
  simp [ruleOutput, h]

theorem ruleOutput_replace {ctx : ModeContext} {rule : Rule}
    (h : rule.protectionMode ≠ .dropField) : ruleOutput ctx rule = fun x =>
      some (modeOutput (applyProtectionMode ctx rule.fieldPath rule.protectionMode) x) := by
  funext x
  simp [ruleOutput, h]

/-- The event that was left is the reference rewrite of the path, and the count is the number
of designated values. For a mode that replaces, this is spelled out position by position. -/
structure Covers (ctx : ModeContext) (rule : Rule) (segments : List Sel) (event : Json)
    (out : RuleOutcome) : Prop where
  rewritten : rewriteAt (ruleOutput ctx rule) segments event = some out.event
  counted : out.count = (positions segments event).length
  replaced : rule.protectionMode ≠ .dropField → ∀ p ∈ positions segments event, ∀ x,
    getAt p event = some x → getAt p out.event = ruleOutput ctx rule x
  untouched : rule.protectionMode ≠ .dropField → ∀ q, Apart segments event q →
    getAt q out.event = getAt q event

theorem covers_of_rewritten {ctx : ModeContext} {rule : Rule} {segments : List Sel} {event : Json}
    {out : RuleOutcome} (hrew : rewriteAt (ruleOutput ctx rule) segments event = some out.event)
    (hcount : out.count = (positions segments event).length) :
    Covers ctx rule segments event out := by
  refine ⟨hrew, hcount, fun hmode p hp x hx => ?_, fun hmode q hq => ?_⟩
  · rw [ruleOutput_replace hmode] at hrew ⊢
    exact getAt_rewriteAt_of_mem hrew hp hx
  · rw [ruleOutput_replace hmode] at hrew
    exact getAt_rewriteAt_of_apart hrew hq

theorem applySegments_inert {ctx : ModeContext} {rule : Rule} {segments : List Sel}
    (hl : ¬ EndsDefinite segments) (event : Json) :
    applySegments ctx rule segments event = ⟨event, 0, none⟩ := by
  unfold applySegments
  split_ifs
  · simp [dropAtSegments_inert hl]
  · simp [applyAtSegments_inert hl]

/-- The rewriting part of a rule, when it raises nothing. -/
theorem applySegments_covers_iff {ctx : ModeContext} {rule : Rule} {segments : List Sel}
    {event : Json} (hok : (applySegments ctx rule segments event).warning = none) :
    Covers ctx rule segments event (applySegments ctx rule segments event) ↔
      EndsDefinite segments ∨ positions segments event = [] := by
  by_cases hl : EndsDefinite segments
  · refine iff_of_true ?_ (.inl hl)
    unfold applySegments at hok ⊢
    by_cases hmode : rule.protectionMode = .dropField
    · rw [if_pos hmode]
      obtain ⟨hrew, hcount⟩ := dropAtSegments_eq hl event
      exact covers_of_rewritten (ruleOutput_drop hmode ▸ hrew) hcount
    · rw [if_neg hmode] at hok ⊢
      split at hok
      · next node count hres =>
        obtain ⟨hrew, hcount⟩ := applyAtSegments_ok hl hres
        exact covers_of_rewritten (ruleOutput_replace hmode ▸ hrew) hcount
      · simp at hok
  · rw [applySegments_inert hl]
    constructor
    · intro h
      right
      simpa using h.counted.symm
    · intro h
      have hnil := h.resolve_left hl
      exact covers_of_rewritten (rewriteAt_of_positions_nil hnil) (by simp [hnil])

/-- A path that parses and passes the guard is carried out. -/
theorem applyRuleToEvent_eq {ctx : ModeContext} {event : Event} {rule : Rule} {s : Sel}
    {rest : List Sel} (hparse : parseProtectionPath rule.fieldPath = .ok (s :: rest))
    (hguard : legacyPathHasLiteralDottedMember event rule.fieldPath (s :: rest) = .ok false) :
    applyRuleToEvent ctx event rule = .ok (applySegments ctx rule (s :: rest) (.obj event)) := by
  simp [applyRuleToEvent, hparse, hguard, bind, Except.bind, pure, Except.pure]

/-- A rule that returns without a warning covers its path exactly when the path does not end
in a wildcard or designates nothing. -/
theorem applyRule_covers_iff (ctx : ModeContext) (event : Event) (rule : Rule)
    (segments : List Sel) (out : RuleOutcome)
    (hparse : parseProtectionPath rule.fieldPath = .ok segments)
    (hrun : applyRuleToEvent ctx event rule = .ok out) (hok : out.warning = none) :
    Covers ctx rule segments (.obj event) out ↔
      segments.getLast? ≠ some .wild ∨ positions segments (.obj event) = [] := by
  cases segments with
  | nil =>
    simp only [applyRuleToEvent, hparse, Except.ok.injEq] at hrun
    simp [← hrun] at hok
  | cons s rest =>
    rw [← endsDefinite_iff (List.cons_ne_nil s rest)]
    cases hguard : legacyPathHasLiteralDottedMember event rule.fieldPath (s :: rest) with
    | error e => simp [applyRuleToEvent, hparse, hguard, bind, Except.bind] at hrun
    | ok aliased =>
      cases aliased with
      | true =>
        simp only [applyRuleToEvent, hparse, hguard, bind, Except.bind, pure, Except.pure,
          ↓reduceIte, Except.ok.injEq] at hrun
        simp [← hrun] at hok
      | false =>
        rw [applyRuleToEvent_eq hparse hguard, Except.ok.injEq] at hrun
        subst hrun
        exact applySegments_covers_iff hok

/-- A vault that hands out the same token for everything. -/
def fixedContext : ModeContext := ⟨fun _ => "00", fun _ _ => .ok "USER_000001"⟩

/-- A list of secrets. -/
def scalarListEvent : Event := [("secrets", .arr [.str "s1", .str "s2"])]

def scalarListRule (fieldPath : String) : Rule where
  streamId := 1
  fieldPath := fieldPath
  protectionMode := .fullMask

theorem scalarListRule_run {fieldPath : String} {s : Sel}
    (hparse : parseProtectionPath fieldPath = .ok [.key "secrets", s])
    (hflags : quotedSelectorFlags fieldPath = .ok [false, false]) (hs : ∀ k, s ≠ .key k) :
    applyRuleToEvent fixedContext scalarListEvent (scalarListRule fieldPath) =
      .ok (applySegments fixedContext (scalarListRule fieldPath) [.key "secrets", s]
        (.obj scalarListEvent)) := by
  refine applyRuleToEvent_eq hparse ?_
  have halias : couldAlias [(.key "secrets", false), (s, false)] (.obj scalarListEvent) = false := by
    cases s with
    | key k => exact absurd rfl (hs k)
    | index i => simp [couldAlias, scalarListEvent, dottedMember, unquotedRun, Option.any]; grind
    | wild => simp [couldAlias, scalarListEvent, dottedMember, unquotedRun]
  simp [legacyPathHasLiteralDottedMember, scalarListRule, hflags, bind, Except.bind, pure,
    Except.pure, halias]

/-- The first secret is masked by its subscript. -/
theorem scalarListRule_covers_first :
    applyRuleToEvent fixedContext scalarListEvent (scalarListRule "$.secrets[0]") =
        .ok ⟨.obj [("secrets", .arr [.str "********", .str "s2"])], 1, none⟩ ∧
      Covers fixedContext (scalarListRule "$.secrets[0]") [.key "secrets", .index 0]
        (.obj scalarListEvent) ⟨.obj [("secrets", .arr [.str "********", .str "s2"])], 1, none⟩ := by
  have hparse : parseProtectionPath "$.secrets[0]" = .ok [.key "secrets", .index 0] := by decide
  have hrun : applyRuleToEvent fixedContext scalarListEvent (scalarListRule "$.secrets[0]") =
      .ok ⟨.obj [("secrets", .arr [.str "********", .str "s2"])], 1, none⟩ :=
    (scalarListRule_run hparse (by decide) (by simp)).trans rfl
  exact ⟨hrun, (applyRule_covers_iff fixedContext scalarListEvent (scalarListRule "$.secrets[0]")
    [.key "secrets", .index 0] _ hparse hrun rfl).mpr (.inl (by decide))⟩

/-- Through the wildcard nothing is masked and nothing is reported. -/
theorem scalarListRule_not_covers :
    parseProtectionPath "$.secrets[]" = .ok [.key "secrets", .wild] ∧
      applyRuleToEvent fixedContext scalarListEvent (scalarListRule "$.secrets[]") =
        .ok ⟨.obj scalarListEvent, 0, none⟩ ∧
      ¬ Covers fixedContext (scalarListRule "$.secrets[]") [.key "secrets", .wild]
        (.obj scalarListEvent) ⟨.obj scalarListEvent, 0, none⟩ := by
  have hparse : parseProtectionPath "$.secrets[]" = .ok [.key "secrets", .wild] := by decide
  refine ⟨hparse, (scalarListRule_run hparse (by decide) (by simp)).trans rfl, fun h => ?_⟩
  have hlen : (positions [.key "secrets", .wild] (.obj scalarListEvent)).length = 2 := by decide
  have hcount := h.counted
  simp [hlen] at hcount

end Protection
