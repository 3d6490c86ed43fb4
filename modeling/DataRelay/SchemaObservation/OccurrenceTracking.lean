import DataRelay.SchemaObservation.Visits

/-! Per-event occurrence counts of field paths. A second traversal looks for whatever may
have cut the walk of a sampled event short, and a batch counts as complete only when nothing
did: then the counts are those of a walk without limits. -/
namespace SchemaObservation
open BoundedCollect

inductive SampleWarning where
  | arraySampleLimit
  | depthLimit
  | eventSampleLimit
  | nodeInspectionLimit
  | nonObjectEventsIgnored
  | pathSampleLimit
  | unionPathLimit
  deriving DecidableEq, Repr

namespace SampleWarning

def text : SampleWarning → String
  | arraySampleLimit => "array_sample_limit"
  | depthLimit => "depth_limit"
  | eventSampleLimit => "event_sample_limit"
  | nodeInspectionLimit => "node_inspection_limit"
  | nonObjectEventsIgnored => "non_object_events_ignored"
  | pathSampleLimit => "path_sample_limit"
  | unionPathLimit => "union_path_limit"

/-- The warnings in the order of their texts. -/
def all : List SampleWarning :=
  [arraySampleLimit, depthLimit, eventSampleLimit, nodeInspectionLimit, nonObjectEventsIgnored,
    pathSampleLimit, unionPathLimit]

end SampleWarning

/-- What the inspection of one event carries along: the nodes it may still look at, and the
set of warnings raised so far. -/
structure Inspection where
  budget : ℕ
  warnings : List SampleWarning := []

def Inspection.warn (st : Inspection) (w : SampleWarning) : Inspection :=
  { st with warnings := st.warnings.insert w }

section Inspect

variable (maxDepth : ℕ)

mutual
/-- The inner `walk` of `_walk_sample_limit`. -/
def inspect : Json → (depth : ℕ) → Inspection → Inspection
  | v, depth, st =>
    if st.budget = 0 then st.warn .nodeInspectionLimit
    else
      let st := { st with budget := st.budget - 1 }
      if maxDepth < depth then st.warn .depthLimit
      else
        match v with
        | .arr xs =>
          inspectItems xs 3 (depth + 1)
            (if 3 < xs.length then st.warn .arraySampleLimit else st)
        | .obj ms => inspectMembers ms (depth + 1) st
        | _ => st

/-- The loop over the first `left` items of a list. -/
def inspectItems : List Json → (left depth : ℕ) → Inspection → Inspection
  | [], _, _, st => st
  | _, 0, _, st => st
  | x :: xs, left + 1, depth, st => inspectItems xs left depth (inspect x depth st)

/-- The loop over the values of an object. -/
def inspectMembers : Json.Members → (depth : ℕ) → Inspection → Inspection
  | [], _, st => st
  | (_, child) :: ms, depth, st =>
    if st.budget = 0 then st.warn .nodeInspectionLimit
    else inspectMembers ms depth (inspect child depth st)
end

/-- `_walk_sample_limit`. -/
def walkSampleLimit (maxPaths : ℕ) (value : Json) : List SampleWarning :=
  (inspect maxDepth value 0 { budget := maxPaths * 2 + 1 }).warnings

end Inspect

structure OccurrenceBatch where
  presentByPath : List (String × ℕ)
  sampledEvents : ℕ
  complete : Bool
  warnings : List String

/-- `counts[path] += 1` on a counter. -/
def bump (counts : List (String × ℕ)) (path : String) : List (String × ℕ) :=
  Dict.set path ((Dict.get? path counts).getD 0 + 1) counts

section Batch

variable (maxDepth maxPaths : ℕ) (permitted : List String)

/-- The loop over the sample. -/
def countSample : List Json → List (String × ℕ) → List SampleWarning →
    List (String × ℕ) × List SampleWarning
  | [], counts, warnings => (counts, warnings)
  | event :: sample, counts, warnings =>
    let fields := (collectPathsFromEvent maxDepth maxPaths event).out
    let warnings := if maxPaths ≤ fields.length then warnings.insert .pathSampleLimit else warnings
    let warnings := warnings ∪ walkSampleLimit maxDepth maxPaths event
    countSample sample
      ((permitted.filter fun path => Dict.has path fields).foldl bump counts) warnings

end Batch

/-- `collect_occurrence_batch`. -/
def collectOccurrenceBatch (sample : List Json) (batchPaths : List (String × InferredType))
    (maxDepth maxPaths : ℕ) (eventSampleTruncated invalidEventObjects : Bool) : OccurrenceBatch :=
  let permitted := batchPaths.map Prod.fst
  let (counts, warnings) := countSample maxDepth maxPaths permitted sample [] []
  let warnings := if eventSampleTruncated then warnings.insert .eventSampleLimit else warnings
  let warnings := if invalidEventObjects then warnings.insert .nonObjectEventsIgnored else warnings
  let warnings := if maxPaths ≤ permitted.length then warnings.insert .unionPathLimit else warnings
  { presentByPath := counts
    sampledEvents := sample.length
    complete := warnings.isEmpty
    warnings := (SampleWarning.all.filter (· ∈ warnings)).map SampleWarning.text }

section Unlimited

mutual
/-- The walk without limits: every path `walk_event_fields` would emit below `path` with no
bound on the depth, the paths or the items of a list. -/
def fieldPaths : Json → (path : String) → List String
  | .obj ms, path => path :: memberPaths ms path
  | .arr xs, path => path :: (path ++ "[]") :: itemPaths xs (path ++ "[]")
  | _, path => [path]

def memberPaths : Json.Members → (path : String) → List String
  | [], _ => []
  | (key, child) :: ms, path => fieldPaths child (appendFieldPath path key) ++ memberPaths ms path

def itemPaths : List Json → (path : String) → List String
  | [], _ => []
  | .obj ms :: xs, path => memberPaths ms path ++ itemPaths xs path
  | x :: xs, path => fieldPaths x (path ++ "[]") ++ itemPaths xs path
end

/-- The paths of one event in the walk without limits. -/
def eventPaths (event : Json) : List String :=
  match event with
  | .obj ms => memberPaths ms "$"
  | v => fieldPaths v "$"

end Unlimited

section Bounded

mutual
/-- A value that lies within the limits the inspection looks at: no nesting below `maxDepth`,
where every list counts as a level, and no list of more than three items. -/
def Within (maxDepth : ℕ) : Json → (depth : ℕ) → Prop
  | .arr xs, depth => depth ≤ maxDepth ∧ xs.length ≤ 3 ∧ WithinItems maxDepth xs (depth + 1)
  | .obj ms, depth => depth ≤ maxDepth ∧ WithinMembers maxDepth ms (depth + 1)
  | _, depth => depth ≤ maxDepth

def WithinItems (maxDepth : ℕ) : List Json → (depth : ℕ) → Prop
  | [], _ => True
  | x :: xs, depth => Within maxDepth x depth ∧ WithinItems maxDepth xs depth

def WithinMembers (maxDepth : ℕ) : Json.Members → (depth : ℕ) → Prop
  | [], _ => True
  | (_, child) :: ms, depth => Within maxDepth child depth ∧ WithinMembers maxDepth ms depth
end

variable {maxDepth : ℕ}

theorem insert_ne_nil (w : SampleWarning) (ws : List SampleWarning) : ws.insert w ≠ [] := by
  intro h
  have hmem : w ∈ ws.insert w := List.mem_insert_self
  rw [h] at hmem
  exact List.not_mem_nil hmem

theorem warn_raised (st : Inspection) (w : SampleWarning) : (st.warn w).warnings ≠ [] :=
  insert_ne_nil w st.warnings

mutual
/-- An inspection that ends without a warning has seen the whole value. -/
theorem inspect_within : ∀ (v : Json) (depth : ℕ) (st : Inspection),
    (inspect maxDepth v depth st).warnings = [] → st.warnings = [] ∧ Within maxDepth v depth
  | v, depth, st, h => by
    unfold inspect at h
    split_ifs at h with hbudget hdepth
    · exact absurd h (warn_raised _ _)
    · exact absurd h (warn_raised _ _)
    · have hle : depth ≤ maxDepth := Nat.le_of_not_lt hdepth
      cases v with
      | arr xs =>
        obtain ⟨hstart, hitems⟩ := inspectItems_within xs 3 (depth + 1) _ h
        split_ifs at hstart with hlong
        · exact absurd hstart (warn_raised _ _)
        · exact ⟨hstart, hle, Nat.le_of_not_lt hlong, hitems (Nat.le_of_not_lt hlong)⟩
      | obj ms =>
        obtain ⟨hstart, hmembers⟩ := inspectMembers_within ms (depth + 1) _ h
        exact ⟨hstart, hle, hmembers⟩
      | _ => exact ⟨h, hle⟩

theorem inspectItems_within : ∀ (xs : List Json) (left depth : ℕ) (st : Inspection),
    (inspectItems maxDepth xs left depth st).warnings = [] →
      st.warnings = [] ∧ (xs.length ≤ left → WithinItems maxDepth xs depth)
  | [], left, depth, st, h => by
    have hst : st.warnings = [] := by simpa [inspectItems] using h
    exact ⟨hst, fun _ => trivial⟩
  | x :: xs, 0, depth, st, h => by
    have hst : st.warnings = [] := by simpa [inspectItems] using h
    exact ⟨hst, fun hlen => absurd hlen (by simp)⟩
  | x :: xs, left + 1, depth, st, h => by
    rw [inspectItems] at h
    obtain ⟨hmid, hrest⟩ := inspectItems_within xs left depth _ h
    obtain ⟨hst, hx⟩ := inspect_within x depth st hmid
    refine ⟨hst, fun hlen => ⟨hx, hrest ?_⟩⟩
    simp only [List.length_cons] at hlen
    omega

theorem inspectMembers_within : ∀ (ms : Json.Members) (depth : ℕ) (st : Inspection),
    (inspectMembers maxDepth ms depth st).warnings = [] →
      st.warnings = [] ∧ WithinMembers maxDepth ms depth
  | [], depth, st, h => by
    have hst : st.warnings = [] := by simpa [inspectMembers] using h
    exact ⟨hst, trivial⟩
  | (_, child) :: ms, depth, st, h => by
    rw [inspectMembers] at h
    split_ifs at h with hbudget
    · exact absurd h (warn_raised _ _)
    · obtain ⟨hmid, hrest⟩ := inspectMembers_within ms depth _ h
      obtain ⟨hst, hchild⟩ := inspect_within child depth st hmid
      exact ⟨hst, hchild, hrest⟩
end

end Bounded

section Walk

variable {maxDepth maxPaths : ℕ}

mutual
/-- Where the value is within the limits, the places of the walk are those of the walk without
limits. The inspection counts at least the levels the walk counts. -/
theorem visitValue_paths : ∀ (v : Json) (depth level : ℕ) (p : Place),
    Within maxDepth v level → depth ≤ level →
      (visitValue maxDepth v depth p).map (fun x => x.1.path) = fieldPaths v p.path
  | v, depth, level, p, hv, hle => by
    have hlevel : level ≤ maxDepth := by
      cases v with
      | arr xs => exact hv.1
      | obj ms => exact hv.1
      | _ => exact hv
    unfold visitValue
    rw [if_neg (by omega)]
    cases v with
    | obj ms =>
      have hms := visitMembers_paths ms (depth + 1) (level + 1) p hv.2 (by omega)
      rw [fieldPaths, ← hms]
      rfl
    | arr xs =>
      have hxs := visitItems_paths xs arraySampleSize 0 (depth + 1) (level + 1) p.array hv.2.2
        hv.2.1 (by omega)
      rw [fieldPaths]
      exact congrArg (fun ps => p.path :: (p.path ++ "[]") :: ps) hxs
    | _ => simp [fieldPaths]

theorem visitMembers_paths : ∀ (ms : Json.Members) (depth level : ℕ) (p : Place),
    WithinMembers maxDepth ms level → depth ≤ level →
      (visitMembers maxDepth ms depth p).map (fun x => x.1.path) = memberPaths ms p.path
  | [], _, _, _, _, _ => by simp [visitMembers, memberPaths]
  | (key, child) :: ms, depth, level, p, hms, hle => by
    have hchild := visitValue_paths child depth level (p.member key) hms.1 hle
    have hrest := visitMembers_paths ms depth level p hms.2 hle
    rw [visitMembers, List.map_append, hchild, hrest, memberPaths]
    rfl

/-- The members of an item are two levels down for the inspection, one for the walk. -/
theorem visitItems_paths : ∀ (xs : List Json) (left n depth level : ℕ) (p : Place),
    WithinItems maxDepth xs level → xs.length ≤ left → depth ≤ level →
      (visitItems maxDepth xs left n depth p).map (fun x => x.1.path) = itemPaths xs p.path
  | [], left, _, _, _, _, _, _, _ => by simp [visitItems, itemPaths]
  | x :: xs, 0, _, _, _, _, _, hleft, _ => absurd hleft (by simp)
  | x :: xs, left + 1, n, depth, level, p, hxs, hleft, hle => by
    have hshort : xs.length ≤ left := by
      simp only [List.length_cons] at hleft
      omega
    have hrest := visitItems_paths xs left (n + 1) depth level p hxs.2 hshort hle
    cases x with
    | obj ms =>
      have hms := visitMembers_paths ms depth (level + 1) (p.item n) hxs.1.2 (by omega)
      simp only [visitItems, itemPaths, List.map_append, hms, hrest]
      rfl
    | arr ys =>
      have hx := visitValue_paths (.arr ys) depth level (p.array.item n) hxs.1 hle
      simp only [visitItems, itemPaths, List.map_append, hx, hrest]
      rfl
    | null =>
      have hx := visitValue_paths .null depth level (p.array.item n) hxs.1 hle
      simp only [visitItems, itemPaths, List.map_append, hx, hrest]
      rfl
    | bool b =>
      have hx := visitValue_paths (.bool b) depth level (p.array.item n) hxs.1 hle
      simp only [visitItems, itemPaths, List.map_append, hx, hrest]
      rfl
    | int i =>
      have hx := visitValue_paths (.int i) depth level (p.array.item n) hxs.1 hle
      simp only [visitItems, itemPaths, List.map_append, hx, hrest]
      rfl
    | float r =>
      have hx := visitValue_paths (.float r) depth level (p.array.item n) hxs.1 hle
      simp only [visitItems, itemPaths, List.map_append, hx, hrest]
      rfl
    | str s =>
      have hx := visitValue_paths (.str s) depth level (p.array.item n) hxs.1 hle
      simp only [visitItems, itemPaths, List.map_append, hx, hrest]
      rfl
end

theorem visits_paths {event : Json} (hclean : walkSampleLimit maxDepth maxPaths event = []) :
    (visits maxDepth event).map (fun x => x.1.path) = eventPaths event := by
  have hwithin := (inspect_within event 0 _ hclean).2
  cases event with
  | obj ms => exact visitMembers_paths ms 0 1 _ hwithin.2 (by omega)
  | _ => exact visitValue_paths _ 0 0 _ hwithin (by omega)

/-- An event the inspection has nothing to say about, and whose paths did not run out, yields
exactly the paths of the walk without limits. -/
theorem collectPathsFromEvent_emits {event : Json}
    (hclean : walkSampleLimit maxDepth maxPaths event = [])
    (hlen : (collectPathsFromEvent maxDepth maxPaths event).out.length < maxPaths) (q : String) :
    q ∈ (collectPathsFromEvent maxDepth maxPaths event).out.map Prod.fst ↔
      q ∈ eventPaths event := by
  rw [collectPathsFromEvent_out] at hlen ⊢
  rw [← visits_paths hclean]
  constructor
  · exact entersKey_enterType.collected q
  · intro hq
    obtain ⟨x, hx, rfl⟩ := List.mem_map.mp hq
    exact entersKey_enterType.mem_of_room hlen hx

end Walk

section Counting

/-- What a counter holds after `n` increments of a key. -/
def tally (n : ℕ) : Option ℕ := if n = 0 then none else some n

theorem get?_bump_self {counts : List (String × ℕ)} {p : String} {k : ℕ}
    (h : Dict.get? p counts = tally k) : Dict.get? p (bump counts p) = tally (k + 1) := by
  have hold : (Dict.get? p counts).getD 0 = k := by
    rw [h, tally]
    split_ifs with hk
    · exact hk.symm
    · rfl
  rw [bump, Dict.get?_set, if_pos rfl, hold]
  rfl

theorem get?_foldl_bump {p : String} : ∀ (ps : List String) {counts : List (String × ℕ)} {k : ℕ},
    Dict.get? p counts = tally k → Dict.get? p (ps.foldl bump counts) = tally (k + ps.count p)
  | [], counts, k, h => by simpa using h
  | q :: ps, counts, k, h => by
    rw [List.foldl_cons, List.count_cons]
    by_cases hq : q = p
    · subst hq
      rw [get?_foldl_bump ps (get?_bump_self h), beq_self_eq_true, if_pos rfl]
      congr 1
      omega
    · have hsame : Dict.get? p (bump counts q) = tally k := by
        rw [bump, Dict.get?_set, if_neg hq, h]
      rw [get?_foldl_bump ps hsame, if_neg (by simpa using hq), Nat.add_zero]

variable {maxDepth maxPaths : ℕ} {permitted : List String}

/-- Each sampled event adds one to every permitted path it yields. -/
theorem get?_countSample (hnodup : permitted.Nodup) (p : String) :
    ∀ (sample : List Json) {counts : List (String × ℕ)} (warnings : List SampleWarning) {k : ℕ},
      Dict.get? p counts = tally k →
      Dict.get? p (countSample maxDepth maxPaths permitted sample counts warnings).1 =
        tally (k + sample.countP fun event => decide (p ∈ permitted ∧
          p ∈ (collectPathsFromEvent maxDepth maxPaths event).out.map Prod.fst))
  | [], counts, warnings, k, h => by simpa [countSample] using h
  | event :: sample, counts, warnings, k, h => by
    have hnext := get?_foldl_bump (permitted.filter fun path =>
      Dict.has path (collectPathsFromEvent maxDepth maxPaths event).out) h
    rw [countSample, get?_countSample hnodup p sample _ hnext, (hnodup.filter _).count,
      List.countP_cons]
    simp only [List.mem_filter, Dict.has_iff, decide_eq_true_eq]
    congr 1
    omega

theorem union_eq_nil {ws vs : List SampleWarning} (h : ws ∪ vs = []) : ws = [] ∧ vs = [] := by
  simpa only [List.eq_nil_iff_forall_not_mem, List.mem_union_iff, not_or, forall_and] using h

/-- A loop that ends without a warning raised none for any event. -/
theorem countSample_clean : ∀ (sample : List Json) (counts : List (String × ℕ))
    (warnings : List SampleWarning),
    (countSample maxDepth maxPaths permitted sample counts warnings).2 = [] →
      warnings = [] ∧ ∀ event ∈ sample, walkSampleLimit maxDepth maxPaths event = [] ∧
        (collectPathsFromEvent maxDepth maxPaths event).out.length < maxPaths
  | [], counts, warnings, h => ⟨h, by simp⟩
  | event :: sample, counts, warnings, h => by
    obtain ⟨hmid, hrest⟩ := countSample_clean sample _ _ h
    obtain ⟨hwarn, hwalk⟩ := union_eq_nil hmid
    split_ifs at hwarn with hfull
    · exact absurd hwarn (insert_ne_nil _ _)
    · refine ⟨hwarn, fun e he => ?_⟩
      rcases List.mem_cons.mp he with rfl | he
      · exact ⟨hwalk, Nat.lt_of_not_le hfull⟩
      · exact hrest e he

end Counting

/-- Occurrence evidence is exact: where the batch counts as complete, the count of a path is
the number of sampled events that yield it in the walk without limits, and a path that none
yields has no entry. -/
theorem occurrence_exact (events : List Json) (maxDepth maxPaths maxEvents : ℕ)
    (hcomplete : (collectOccurrenceBatch (events.take maxEvents)
      (collectPathsFromEvents maxDepth maxPaths maxEvents (events.take maxEvents))
      maxDepth maxPaths false false).complete = true) (p : String) :
    Dict.get? p (collectOccurrenceBatch (events.take maxEvents)
      (collectPathsFromEvents maxDepth maxPaths maxEvents (events.take maxEvents))
      maxDepth maxPaths false false).presentByPath =
      tally ((events.take maxEvents).countP fun event => decide (p ∈ eventPaths event)) := by
  set sample := events.take maxEvents with hsample
  set batchPaths := collectPathsFromEvents maxDepth maxPaths maxEvents sample with hbatch
  have hwarn : (if maxPaths ≤ (batchPaths.map Prod.fst).length then
      (countSample maxDepth maxPaths (batchPaths.map Prod.fst) sample [] []).2.insert
        .unionPathLimit
      else (countSample maxDepth maxPaths (batchPaths.map Prod.fst) sample [] []).2) = [] := by
    simpa [collectOccurrenceBatch] using hcomplete
  split_ifs at hwarn with hunion
  · exact absurd hwarn (insert_ne_nil _ _)
  obtain ⟨-, hclean⟩ := countSample_clean sample [] [] hwarn
  have hroom : batchPaths.length < maxPaths := by
    rw [List.length_map] at hunion
    omega
  have hmerged : batchPaths = collect maxPaths enterMerged
      (sample.flatMap fun event => (collectPathsFromEvent maxDepth maxPaths event).out) [] := by
    have htake : sample.take maxEvents = sample := by rw [hsample, List.take_take, min_self]
    rw [hbatch, collectPathsFromEvents, htake]
    exact mergePaths_eq_collect _ _ (Nat.zero_lt_of_lt hroom)
  have hpermitted : ∀ event ∈ sample,
      p ∈ (collectPathsFromEvent maxDepth maxPaths event).out.map Prod.fst →
        p ∈ batchPaths.map Prod.fst := by
    intro event hevent hp
    rw [hmerged] at hroom ⊢
    obtain ⟨m, hm, rfl⟩ := List.mem_map.mp hp
    exact entersKey_enterMerged.mem_of_room hroom (List.mem_flatMap.mpr ⟨event, hevent, hm⟩)
  have hnodup : (batchPaths.map Prod.fst).Nodup := by
    rw [hmerged]
    exact entersKey_enterMerged.nodup_collect _
  have hcount : Dict.get? p
      (countSample maxDepth maxPaths (batchPaths.map Prod.fst) sample [] []).1 = _ :=
    get?_countSample hnodup p sample [] (k := 0) rfl
  have hsame : (sample.countP fun event => decide (p ∈ batchPaths.map Prod.fst ∧
        p ∈ (collectPathsFromEvent maxDepth maxPaths event).out.map Prod.fst)) =
      sample.countP fun event => decide (p ∈ eventPaths event) := by
    apply List.countP_congr
    intro event hevent
    obtain ⟨hwalk, hlen⟩ := hclean event hevent
    rw [decide_eq_true_eq, decide_eq_true_eq, ← collectPathsFromEvent_emits hwalk hlen]
    exact and_iff_right_of_imp (hpermitted event hevent)
  rw [Nat.zero_add, hsame] at hcount
  exact hcount

/-- Two events with a list between them. -/
def taggedEvents : List Json :=
  [.obj [("user", .str "alice"), ("tags", .arr [.obj [("name", .str "x")], .obj [("name", .null)]])],
    .obj [("user", .str "bob"), ("tags", .arr [])]]

theorem taggedEvents_counted :
    (collectOccurrenceBatch (taggedEvents.take 10)
      (collectPathsFromEvents 4 100 10 (taggedEvents.take 10)) 4 100 false false).complete = true ∧
    Dict.get? "$.tags[].name" (collectOccurrenceBatch (taggedEvents.take 10)
      (collectPathsFromEvents 4 100 10 (taggedEvents.take 10)) 4 100 false false).presentByPath =
      tally ((taggedEvents.take 10).countP fun event =>
        decide ("$.tags[].name" ∈ eventPaths event)) := by
  have hcomplete : (collectOccurrenceBatch (taggedEvents.take 10)
      (collectPathsFromEvents 4 100 10 (taggedEvents.take 10)) 4 100 false false).complete = true := by
    rfl
  exact ⟨hcomplete, occurrence_exact taggedEvents 4 100 10 hcomplete "$.tags[].name"⟩

end SchemaObservation
