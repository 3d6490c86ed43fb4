import DataRelay.Lib.JsonPath
import DataRelay.Protection.Engine
import DataRelay.Protection.SelectorMarks

/-! The legacy readings of a path: runs of unquoted members joined with dots. The guard of the
engine fires exactly when one of them leads to a literal member. -/
namespace Protection
open JsonPath Delivery

/-- One selector of a joined path: kept as it is, or a run of unquoted members in one. -/
inductive JoinedSel where
  | kept (sel : Sel) (quoted : Bool)
  | run (names : List String) (long : 2 ≤ names.length)

namespace JoinedSel

/-- The selectors of the path it stands for. -/
def written : JoinedSel → List (Sel × Bool)
  | .kept sel quoted => [(sel, quoted)]
  | .run names _ => names.map fun k => (.key k, false)

/-- The selector it is followed by. -/
def sel : JoinedSel → Sel
  | .kept sel _ => sel
  | .run names _ => .key (String.intercalate "." names)

end JoinedSel

/-- A way of joining the path that leads to a dict with a joined name as a literal key. -/
def LiteralJoin (path : List (Sel × Bool)) (event : Json) : Prop :=
  ∃ before names long after ms,
    (before ++ .run names long :: after).flatMap JoinedSel.written = path ∧
      .obj ms ∈ valuesAt (before.map JoinedSel.sel) event ∧
      Dict.has (String.intercalate "." names) ms = true

theorem unquotedRun_append (names : List String) (rest : List (Sel × Bool)) :
    unquotedRun (names.map (fun k => (Sel.key k, false)) ++ rest) = names ++ unquotedRun rest := by
  induction names with
  | nil => rfl
  | cons k names ih => rw [List.map_cons, List.cons_append, unquotedRun, ih, List.cons_append]

/-- The front of a run of unquoted members is a front of the path. -/
theorem exists_rest_of_prefix {names : List String} {path : List (Sel × Bool)}
    (h : names <+: unquotedRun path) :
    ∃ rest, path = names.map (fun k => (Sel.key k, false)) ++ rest := by
  induction names generalizing path with
  | nil => exact ⟨path, rfl⟩
  | cons k names ih =>
    match path, h with
    | (.key l, false) :: path, h =>
      rw [unquotedRun, List.cons_prefix_cons] at h
      obtain ⟨rfl, htail⟩ := h
      obtain ⟨rest, rfl⟩ := ih htail
      exact ⟨rest, rfl⟩

/-- The guard fires on a dict that holds a joined name of the path's first members. -/
theorem couldAlias_run {names : List String} (long : 2 ≤ names.length) (rest : List (Sel × Bool))
    {ms : Json.Members} (h : Dict.has (String.intercalate "." names) ms = true) :
    couldAlias (names.map (fun k => (Sel.key k, false)) ++ rest) (.obj ms) = true := by
  have hrun := unquotedRun_append names rest
  cases names with
  | nil => simp at long
  | cons k names =>
    have hdotted : dottedMember ((k :: names) ++ unquotedRun rest) ms = true := by
      unfold dottedMember
      rw [List.any_eq_true]
      refine ⟨k :: names, (List.mem_inits _ _).mpr (List.prefix_append _ _), ?_⟩
      rw [h, Bool.and_true, decide_eq_true_eq]
      exact long
    rw [List.map_cons, List.cons_append] at hrun ⊢
    rw [couldAlias, hrun, hdotted, Bool.true_or]

/-- Complete: what the joined path leads to, the guard meets on its way. A joined name that is
followed as a key is itself a literal member. -/
theorem couldAlias_of_literalJoin {path : List (Sel × Bool)} {v : Json} (h : LiteralJoin path v) :
    couldAlias path v = true := by
  obtain ⟨before, names, long, after, ms, rfl, hvalue, hhas⟩ := h
  induction before generalizing v with
  | nil =>
    simp only [List.map_nil, valuesAt, List.mem_singleton] at hvalue
    subst hvalue
    rw [List.nil_append, List.flatMap_cons]
    exact couldAlias_run long _ hhas
  | cons j before ih =>
    rw [List.cons_append, List.flatMap_cons]
    cases j with
    | run names' long' =>
      simp only [List.map_cons, JoinedSel.sel] at hvalue
      cases v with
      | obj ms' =>
        rw [valuesAt] at hvalue
        have hhas' : Dict.has (String.intercalate "." names') ms' = true := by
          unfold Dict.has
          cases hc : Dict.get? (String.intercalate "." names') ms' with
          | none => simp [hc] at hvalue
          | some c => rfl
        exact couldAlias_run long' _ hhas'
      | _ => simp [valuesAt] at hvalue
    | kept sel quoted =>
      simp only [List.map_cons, JoinedSel.sel] at hvalue
      simp only [JoinedSel.written, List.singleton_append]
      cases sel with
      | key k =>
        cases v with
        | obj ms' =>
          rw [valuesAt] at hvalue
          cases hc : Dict.get? k ms' with
          | none => simp [hc] at hvalue
          | some c =>
            rw [hc, Option.map_some, Option.getD_some] at hvalue
            rw [couldAlias, hc, Option.any_some, ih hvalue, Bool.or_true]
        | _ => simp [valuesAt] at hvalue
      | index i =>
        cases v with
        | arr xs =>
          rw [valuesAt] at hvalue
          cases hc : (Json.resolveIndex xs.length i).bind (xs[·]?) with
          | none => simp [hc] at hvalue
          | some c =>
            rw [hc, Option.map_some, Option.getD_some] at hvalue
            rw [couldAlias, hc, Option.any_some, ih hvalue]
        | _ => simp [valuesAt] at hvalue
      | wild =>
        cases v with
        | arr xs =>
          rw [valuesAt, List.mem_flatMap] at hvalue
          obtain ⟨x, hx, hvalue⟩ := hvalue
          rw [couldAlias, List.any_eq_true]
          exact ⟨x, hx, ih hvalue⟩
        | _ => simp [valuesAt] at hvalue

/-- A joined path below one selector is a joined path. -/
theorem LiteralJoin.cons {sel : Sel} {quoted : Bool} {rest : List (Sel × Bool)} {c v : Json}
    (h : LiteralJoin rest c) (hvalue : ∀ sels, ∀ x ∈ valuesAt sels c, x ∈ valuesAt (sel :: sels) v) :
    LiteralJoin ((sel, quoted) :: rest) v := by
  obtain ⟨before, names, long, after, ms, rfl, hms, hhas⟩ := h
  exact ⟨.kept sel quoted :: before, names, long, after, ms, rfl, hvalue _ _ hms, hhas⟩

/-- Sound: where the guard fires there is a joining. -/
theorem literalJoin_of_couldAlias {path : List (Sel × Bool)} {v : Json}
    (h : couldAlias path v = true) : LiteralJoin path v := by
  induction path generalizing v with
  | nil => simp [couldAlias] at h
  | cons s rest ih =>
    obtain ⟨sel, quoted⟩ := s
    cases sel with
    | key k =>
      cases v with
      | obj ms =>
        rw [couldAlias, Bool.or_eq_true] at h
        rcases h with hdotted | hbelow
        · unfold dottedMember at hdotted
          rw [List.any_eq_true] at hdotted
          obtain ⟨names, hpre, hnames⟩ := hdotted
          rw [Bool.and_eq_true, decide_eq_true_eq] at hnames
          obtain ⟨tail, htail⟩ := exists_rest_of_prefix ((List.mem_inits _ _).mp hpre)
          refine ⟨[], names, hnames.1, tail.map fun t => .kept t.1 t.2, ms, ?_, by simp [valuesAt],
            hnames.2⟩
          have hkept : (tail.map fun t => JoinedSel.kept t.1 t.2).flatMap JoinedSel.written =
              tail := by
            simp [List.flatMap_map, JoinedSel.written]
          rw [List.nil_append, List.flatMap_cons, hkept, htail, JoinedSel.written]
        · cases hc : Dict.get? k ms with
          | none => simp [hc] at hbelow
          | some c =>
            rw [hc, Option.any_some] at hbelow
            refine (ih hbelow).cons fun sels x hx => ?_
            rw [valuesAt, hc, Option.map_some, Option.getD_some]
            exact hx
      | _ => simp [couldAlias] at h
    | index i =>
      cases v with
      | arr xs =>
        rw [couldAlias] at h
        cases hc : (Json.resolveIndex xs.length i).bind (xs[·]?) with
        | none => simp [hc] at h
        | some c =>
          rw [hc, Option.any_some] at h
          refine (ih h).cons fun sels x hx => ?_
          rw [valuesAt, hc, Option.map_some, Option.getD_some]
          exact hx
      | _ => simp [couldAlias] at h
    | wild =>
      cases v with
      | arr xs =>
        rw [couldAlias, List.any_eq_true] at h
        obtain ⟨c, hc, halias⟩ := h
        refine (ih halias).cons fun sels x hx => ?_
        rw [valuesAt, List.mem_flatMap]
        exact ⟨c, hc, hx⟩
      | _ => simp [couldAlias] at h

theorem couldAlias_iff (path : List (Sel × Bool)) (v : Json) :
    couldAlias path v = true ↔ LiteralJoin path v :=
  ⟨literalJoin_of_couldAlias, couldAlias_of_literalJoin⟩

/-- An accepted path with a legacy reading that leads to a literal member of the event. -/
def Ambiguous (fieldPath : String) (event : Event) : Prop :=
  ∃ z, markedSelectors fieldPath = .ok z ∧ LiteralJoin z (.obj event)

section Guard

variable {event : Event} {fieldPath : String} {segments : List Sel}

variable (event) in
/-- On an accepted path the guard answers, and its answer is the ambiguity. -/
theorem legacyGuard_eq (hparse : parseProtectionPath fieldPath = .ok segments)
    (hne : segments ≠ []) :
    ∃ fires, legacyPathHasLiteralDottedMember event fieldPath segments = .ok fires ∧
      (fires = true ↔ Ambiguous fieldPath event) := by
  obtain ⟨z, hz, rfl, hflags⟩ := markedSelectors_of_parse hparse
  refine ⟨couldAlias z (.obj event), ?_, ?_⟩
  · have hlen : (z.map Prod.snd).length = (z.map Prod.fst).length := by simp
    have hzip : (z.map Prod.fst).zip (z.map Prod.snd) = z := by
      rw [List.zip_map']
      simp
    simp only [legacyPathHasLiteralDottedMember, hflags hne, hlen, hzip, bind, Except.bind, pure,
      Except.pure, ne_eq, not_true_eq_false, ↓reduceIte]
  · rw [couldAlias_iff]
    unfold Ambiguous
    rw [hz]
    constructor
    · intro h
      exact ⟨z, rfl, h⟩
    · rintro ⟨z', hz', h⟩
      cases hz'
      exact h

/-- An ambiguous path has selectors and is accepted. -/
theorem Ambiguous.parse (h : Ambiguous fieldPath event) :
    ∃ s rest, parseProtectionPath fieldPath = .ok (s :: rest) := by
  obtain ⟨z, hz, hjoin⟩ := h
  have hparse := parse_of_markedSelectors hz
  cases z with
  | nil =>
    have halias := couldAlias_of_literalJoin hjoin
    simp [couldAlias] at halias
  | cons s z => exact ⟨s.1, z.map Prod.fst, hparse⟩

/-- A rule whose path is ambiguous on the event is refused. -/
theorem applyRuleToEvent_of_ambiguous (ctx : ModeContext) {rule : Rule}
    (h : Ambiguous rule.fieldPath event) :
    applyRuleToEvent ctx event rule =
      .ok ⟨.obj event, 0, some (ruleWarning rule ambiguousMessage)⟩ := by
  obtain ⟨s, rest, hparse⟩ := h.parse
  obtain ⟨fires, hguard, hfires⟩ := legacyGuard_eq event hparse (by simp)
  rw [hfires.mpr h] at hguard
  simp [applyRuleToEvent, hparse, hguard, bind, Except.bind, pure, Except.pure]

/-- Without a joining the guard stays silent. -/
theorem legacyGuard_of_not_ambiguous (h : ¬ Ambiguous fieldPath event)
    (hparse : parseProtectionPath fieldPath = .ok segments) (hne : segments ≠ []) :
    legacyPathHasLiteralDottedMember event fieldPath segments = .ok false := by
  obtain ⟨fires, hguard, hfires⟩ := legacyGuard_eq event hparse hne
  cases fires with
  | false => exact hguard
  | true => exact absurd (hfires.mp rfl) h

end Guard

end Protection
