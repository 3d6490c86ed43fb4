import DataRelay.Lib.Raising
import DataRelay.Lib.Steps
import DataRelay.SchemaObservation.DriftDetection

/-! The streaks of a path against what the runs saw. Beside the tables a run of the system is
followed with the batches since the last reset and the findings operators have closed. -/
namespace SchemaObservation

/-! ### Streaks -/

/-- `P` holds of the last `n` batches, and there are that many; the newest comes first. -/
def Lasts (n : ℕ) (P : BatchPaths → Prop) (since : List BatchPaths) : Prop :=
  n ≤ since.length ∧ ∀ b ∈ since.take n, P b

theorem lasts_zero (P : BatchPaths → Prop) (since : List BatchPaths) : Lasts 0 P since :=
  ⟨Nat.zero_le _, by simp⟩

theorem Lasts.next {n : ℕ} {P : BatchPaths → Prop} {since : List BatchPaths} (h : Lasts n P since)
    {b : BatchPaths} (hb : P b) : Lasts (n + 1) P (b :: since) := by
  constructor
  · exact Nat.succ_le_succ h.1
  · intro c hc
    rw [List.take_succ_cons, List.mem_cons] at hc
    rcases hc with rfl | hc
    · exact hb
    · exact h.2 c hc

theorem Lasts.of_le {n m : ℕ} {P : BatchPaths → Prop} {since : List BatchPaths}
    (h : Lasts m P since) (hle : n ≤ m) : Lasts n P since := by
  constructor
  · exact hle.trans h.1
  · intro b hb
    exact h.2 b ((List.take_prefix_take_left hle).subset hb)

/-- A path of the batch, a path missing from it, a path of another type. -/
def Seen (path : String) (b : BatchPaths) : Prop := path ∈ b.map Prod.fst
def Missing (path : String) (b : BatchPaths) : Prop := path ∉ b.map Prod.fst
def Retyped (path : String) (type : InferredType) (b : BatchPaths) : Prop :=
  ∃ u, Dict.get? path b = some u ∧ u ≠ type

/-! ### The system with its history -/

/-- The tables, the batches since the last reset, and the findings closed by operators. -/
structure Tracked where
  st : DriftState := {}
  since : List BatchPaths := []
  closed : List (String × DriftCategory) := []

variable (S : DriftSettings)

/-- One operation. A run that observes nothing is no observation run; a refused operation
changes nothing. -/
def trackStep (w : Tracked) : DriftOp → Tracked
  | .observe events now =>
    { w with
      st := observeExtractedEvents S now events w.st
      since := if observedSample S events = [] then w.since
        else observedBatch S events :: w.since }
  | .acknowledge findingId actor note now =>
    match acknowledgeFieldDrift findingId actor note now w.st with
    | .error _ => w
    | .ok st =>
      { w with
        st
        closed := w.closed ++ (w.st.findings.filter fun f => f.id = findingId).map (·.key) }
  | .reset actor reason now =>
    match resetSchemaBaseline actor reason now w.st with
    | .error _ => w
    | .ok st =>
      { st
        since := []
        closed := w.closed ++ (w.st.findings.filter fun f => f.status = .open).map (·.key) }

/-- The history is only watched. -/
theorem trackStep_st (w : Tracked) (op : DriftOp) :
    (trackStep S w op).st = driftStep S w.st op := by
  cases op with
  | observe events now => rfl
  | acknowledge findingId actor note now =>
    simp only [trackStep, driftStep]
    cases h : acknowledgeFieldDrift findingId actor note now w.st <;> rfl
  | reset actor reason now =>
    simp only [trackStep, driftStep]
    cases h : resetSchemaBaseline actor reason now w.st <;> rfl

/-- The streaks of an inventory tell the truth about the batches since the last reset. -/
structure StreaksHold (baseline : Option BatchPaths) (paths : List (String × PathMeta))
    (since : List BatchPaths) : Prop where
  seen : ∀ p m, Dict.get? p paths = some m → Lasts m.runsSinceSeen (Missing p) since
  added : ∀ base, baseline = some base → ∀ p m, Dict.get? p paths = some m →
    p ∉ base.map Prod.fst → Lasts m.addConfirmRuns (Seen p) since
  typed : ∀ base, baseline = some base → ∀ p m t, Dict.get? p paths = some m →
    Dict.get? p base = some t → Lasts m.typeChangeConfirmRuns (Retyped p t) since
  untyped : baseline = none → ∀ p m, Dict.get? p paths = some m → m.typeChangeConfirmRuns = 0

variable {S}

/-! ### The merge -/

/-- What the merge leaves of a path it knew, and how it starts a new one. -/
theorem mergeEntries_get {n : ℕ} {counts : List (String × ℕ)} (p : String) :
    ∀ (batch : BatchPaths) (old merged : List (String × PathMeta)),
      mergeEntries n counts batch old = .ok merged → ∀ m, Dict.get? p merged = some m →
      (∃ m₀, Dict.get? p old = some m₀ ∧ m.runsSinceSeen = m₀.runsSinceSeen ∧
        m.addConfirmRuns = m₀.addConfirmRuns ∧
        m.typeChangeConfirmRuns = m₀.typeChangeConfirmRuns) ∨
      (Dict.get? p old = none ∧ Seen p batch ∧ m.runsSinceSeen = 0 ∧ m.addConfirmRuns = 0 ∧
        m.typeChangeConfirmRuns = 0)
  | [], old, merged, h, m, hm => by
    obtain rfl := Except.ok.inj h
    exact .inl ⟨m, hm, rfl, rfl, rfl⟩
  | (path, type) :: batch, old, merged, h, m, hm => by
    rw [mergeEntries] at h
    obtain ⟨entry, hentry, hrest⟩ := Raising.bind_eq_ok h
    have hstart : (∃ m₀, Dict.get? path old = some m₀ ∧ entry.runsSinceSeen = m₀.runsSinceSeen ∧
          entry.addConfirmRuns = m₀.addConfirmRuns ∧
          entry.typeChangeConfirmRuns = m₀.typeChangeConfirmRuns) ∨
        (Dict.get? path old = none ∧ entry.runsSinceSeen = 0 ∧ entry.addConfirmRuns = 0 ∧
          entry.typeChangeConfirmRuns = 0) := by
      simp only [mergeEntry] at hentry
      split_ifs at hentry
      cases hold : Dict.get? path old with
      | none =>
        rw [hold] at hentry
        obtain rfl := Except.ok.inj hentry
        exact .inr ⟨rfl, rfl, rfl, rfl⟩
      | some m₀ =>
        rw [hold] at hentry
        obtain rfl := Except.ok.inj hentry
        exact .inl ⟨m₀, rfl, rfl, rfl, rfl⟩
    rcases mergeEntries_get p batch _ merged hrest m hm with ⟨m₁, hm₁, h1, h2, h3⟩ | ⟨hnone, hseen, hzero⟩
    · rw [Dict.get?_set] at hm₁
      split_ifs at hm₁ with hp
      · subst hp
        obtain rfl := Option.some.inj hm₁
        rcases hstart with ⟨m₀, hm₀, k1, k2, k3⟩ | ⟨hnew, k1, k2, k3⟩
        · exact .inl ⟨m₀, hm₀, h1.trans k1, h2.trans k2, h3.trans k3⟩
        · exact .inr ⟨hnew, List.mem_cons_self, h1.trans k1, h2.trans k2, h3.trans k3⟩
      · exact .inl ⟨m₁, hm₁, h1, h2, h3⟩
    · rw [Dict.get?_set] at hnone
      split_ifs at hnone with hp
      exact .inr ⟨hnone, List.mem_cons_of_mem _ hseen, hzero⟩

theorem mergePathInventories_get {n : ℕ} {counts : List (String × ℕ)} {batch : BatchPaths}
    {old merged : List (String × PathMeta)}
    (h : mergePathInventories old batch n counts = .ok merged) {p : String} {m : PathMeta}
    (hm : Dict.get? p merged = some m) :
    (∃ m₀, Dict.get? p old = some m₀ ∧ m.runsSinceSeen = m₀.runsSinceSeen ∧
      m.addConfirmRuns = m₀.addConfirmRuns ∧ m.typeChangeConfirmRuns = m₀.typeChangeConfirmRuns) ∨
    (Dict.get? p old = none ∧ Seen p batch ∧ m.runsSinceSeen = 0 ∧ m.addConfirmRuns = 0 ∧
      m.typeChangeConfirmRuns = 0) := by
  have hget := mergeEntries_get p batch _ merged h m hm
  rw [Dict.get?_mapValues] at hget
  rcases hget with ⟨m₁, hm₁, h1, h2, h3⟩ | ⟨hnone, hrest⟩
  · obtain ⟨m₀, hm₀, rfl⟩ := Option.map_eq_some_iff.mp hm₁
    exact .inl ⟨m₀, hm₀, h1, h2, h3⟩
  · exact .inr ⟨Option.map_eq_none_iff.mp hnone, hrest⟩

/-- Counts within the sample are accepted. -/
theorem mergeEntries_ok {n : ℕ} {counts : List (String × ℕ)}
    (hcounts : ∀ p, (Dict.get? p counts).getD 0 ≤ n) :
    ∀ (batch : BatchPaths) (old : List (String × PathMeta)),
      ∃ merged, mergeEntries n counts batch old = .ok merged
  | [], old => ⟨old, rfl⟩
  | (path, type) :: batch, old => by
    obtain ⟨entry, hentry⟩ : ∃ entry,
        mergeEntry n counts path type (Dict.get? path old) = .ok entry := by
      simp only [mergeEntry]
      rw [if_neg (not_not.mpr (hcounts path))]
      cases Dict.get? path old <;> exact ⟨_, rfl⟩
    rw [mergeEntries, hentry]
    exact mergeEntries_ok hcounts batch _

/-- The counts of a run never exceed its sample, so the merge goes through. -/
theorem evidence_le (events : List Json) (p : String) :
    (Dict.get? p (observedEvidence S events).presentByPath).getD 0 ≤
      (observedSample S events).length := by
  have hnodup : ((observedBatch S events).map Prod.fst).Nodup := by
    have hlimit : 0 < S.pathLimit := by
      unfold DriftSettings.pathLimit DriftSettings.atLeast
      omega
    unfold observedBatch collectPathsFromEvents
    rw [mergePaths_eq_collect _ _ hlimit]
    exact entersKey_enterMerged.nodup_collect _
  have hcount : Dict.get? p (observedEvidence S events).presentByPath = _ :=
    get?_countSample hnodup p (observedSample S events) [] (k := 0) rfl
  rw [hcount, Nat.zero_add, tally]
  split_ifs
  · exact Nat.zero_le _
  · exact List.countP_le_length

theorem merge_ok (events : List Json) (old : List (String × PathMeta)) :
    ∃ merged, mergePathInventories old (observedBatch S events) (observedSample S events).length
      (observedEvidence S events).presentByPath = .ok merged :=
  mergeEntries_ok (evidence_le events) _ _

/-! ### One run -/

theorem mem_keys_iff {p : String} {b : BatchPaths} : Seen p b ↔ ∃ u, Dict.get? p b = some u := by
  unfold Seen
  rw [← Dict.has_iff, Dict.has, Option.isSome_iff_exists]

theorem isPrimitiveTypeChange_ne {t u : InferredType} (h : isPrimitiveTypeChange t u = true) :
    u ≠ t := by
  rintro rfl
  simp [isPrimitiveTypeChange] at h

/-- What the two streak updates make of one path. -/
theorem streaked_get {baseline : Option BatchPaths} {batch : BatchPaths}
    {merged : List (String × PathMeta)} {p : String} {m' : PathMeta}
    (h : Dict.get? p (streaked baseline batch merged) = some m') :
    ∃ m, Dict.get? p merged = some m ∧
      m'.runsSinceSeen = (if p ∈ batch.map Prod.fst then 0 else m.runsSinceSeen + 1) ∧
      m'.addConfirmRuns = (if p ∈ batch.map Prod.fst then m.addConfirmRuns + 1 else 0) ∧
      m'.typeChangeConfirmRuns =
        match Dict.get? p (baseline.getD []), Dict.get? p batch with
        | none, _ => m.typeChangeConfirmRuns
        | some _, none => 0
        | some t, some u =>
          if isPrimitiveTypeChange t u then m.typeChangeConfirmRuns + 1 else 0 := by
  unfold streaked updateTypeChangeStreaks updatePathPresenceStreaks at h
  rw [Dict.get?_mapValues, Dict.get?_mapValues] at h
  obtain ⟨m₁, hm₁, rfl⟩ := Option.map_eq_some_iff.mp h
  obtain ⟨m, hm, rfl⟩ := Option.map_eq_some_iff.mp hm₁
  refine ⟨m, hm, ?_, ?_, ?_⟩
  all_goals
    cases Dict.get? p (baseline.getD []) with
    | none => split_ifs <;> rfl
    | some t =>
      cases Dict.get? p batch with
      | none => split_ifs <;> rfl
      | some u =>
        by_cases hp : p ∈ batch.map Prod.fst
        · cases hchange : isPrimitiveTypeChange t u <;> simp [hp, hchange]
        · cases hchange : isPrimitiveTypeChange t u <;> simp [hp, hchange]

theorem baselineOf_keys (observed : List (String × PathMeta)) :
    (baselineOf observed).map Prod.fst = observed.map Prod.fst := by
  simp [baselineOf]

theorem maybeEstablishBaseline_paths (row : StreamObservedSchema)
    (observed : List (String × PathMeta)) :
    (maybeEstablishBaseline S row observed).baseline = row.baseline ∨
      (row.baseline = none ∧ observed ≠ [] ∧
        (maybeEstablishBaseline S row observed).baseline = some (baselineOf observed)) := by
  unfold maybeEstablishBaseline
  split_ifs with h
  · exact .inl rfl
  · simp only [not_or, Option.not_isSome_iff_eq_none] at h
    exact .inr ⟨h.1, h.2.2.2, rfl⟩

/-- The streaks an inventory brings into the updates of a run, about the batches before it. -/
structure StreaksBefore (baseline : Option BatchPaths) (batch : BatchPaths)
    (merged : List (String × PathMeta)) (since : List BatchPaths) : Prop where
  seen : ∀ p m, Dict.get? p merged = some m → Missing p batch →
    Lasts m.runsSinceSeen (Missing p) since
  added : ∀ base, baseline = some base → ∀ p m, Dict.get? p merged = some m →
    p ∉ base.map Prod.fst → Lasts m.addConfirmRuns (Seen p) since
  typed : ∀ base, baseline = some base → ∀ p m t, Dict.get? p merged = some m →
    Dict.get? p base = some t → Lasts m.typeChangeConfirmRuns (Retyped p t) since
  untyped : baseline = none → ∀ p m, Dict.get? p merged = some m → m.typeChangeConfirmRuns = 0

/-- After a merge, the streaks of the known paths go on and new paths have none. -/
theorem StreaksHold.merged {baseline : Option BatchPaths} {batch : BatchPaths} {n : ℕ}
    {counts : List (String × ℕ)} {old merged : List (String × PathMeta)} {since : List BatchPaths}
    (h : StreaksHold baseline old since)
    (hmerge : mergePathInventories old batch n counts = .ok merged) :
    StreaksBefore baseline batch merged since where
  seen := by
    intro p m hm hmiss
    rcases mergePathInventories_get hmerge hm with ⟨m₀, hm₀, hseen, -, -⟩ | ⟨-, hseen, -⟩
    · rw [hseen]
      exact h.seen p m₀ hm₀
    · exact absurd hseen hmiss
  added := by
    intro base hbase p m hm hp
    rcases mergePathInventories_get hmerge hm with ⟨m₀, hm₀, -, hadd, -⟩ | ⟨-, -, -, hzero, -⟩
    · rw [hadd]
      exact h.added base hbase p m₀ hm₀ hp
    · rw [hzero]
      exact lasts_zero _ _
  typed := by
    intro base hbase p m t hm ht
    rcases mergePathInventories_get hmerge hm with ⟨m₀, hm₀, -, -, htype⟩ | ⟨-, -, -, -, hzero⟩
    · rw [htype]
      exact h.typed base hbase p m₀ t hm₀ ht
    · rw [hzero]
      exact lasts_zero _ _
  untyped := by
    intro hnone p m hm
    rcases mergePathInventories_get hmerge hm with ⟨m₀, hm₀, -, -, htype⟩ | ⟨-, -, -, -, hzero⟩
    · rw [htype]
      exact h.untyped hnone p m₀ hm₀
    · exact hzero

/-- The updates of a run carry the streaks on, whether or not it sets the baseline: a new one holds
every path of the inventory. -/
theorem StreaksBefore.finalized {row : StreamObservedSchema} {batch : BatchPaths}
    {merged : List (String × PathMeta)} {since : List BatchPaths}
    (h : StreaksBefore row.baseline batch merged since) :
    StreaksHold (maybeEstablishBaseline S row (updatePathPresenceStreaks batch merged)).baseline
      (streaked (maybeEstablishBaseline S row (updatePathPresenceStreaks batch merged)).baseline
        batch merged) (batch :: since) where
  seen := by
    intro p m' hm'
    obtain ⟨m, hm, hseen, -, -⟩ := streaked_get hm'
    rw [hseen]
    split_ifs with hp
    · exact lasts_zero _ _
    · exact (h.seen p m hm hp).next hp
  added := by
    intro base hbase p m' hm' hnot
    obtain ⟨m, hm, -, hadd, -⟩ := streaked_get hm'
    rw [hadd]
    split_ifs with hp
    · rcases maybeEstablishBaseline_paths (S := S) row (updatePathPresenceStreaks batch merged) with
        hsame | ⟨-, -, hset⟩
      · exact (h.added base (hsame ▸ hbase) p m hm hnot).next hp
      · rw [hset] at hbase
        obtain rfl := Option.some.inj hbase
        rw [baselineOf_keys, ← Dict.has_iff, Dict.has, updatePathPresenceStreaks,
          Dict.get?_mapValues, hm] at hnot
        exact absurd rfl hnot
    · exact lasts_zero _ _
  typed := by
    intro base hbase p m' t hm' ht
    obtain ⟨m, hm, -, -, htype⟩ := streaked_get hm'
    rw [hbase, Option.getD_some, ht] at htype
    rw [htype]
    have hbefore : Lasts m.typeChangeConfirmRuns (Retyped p t) since := by
      rcases maybeEstablishBaseline_paths (S := S) row (updatePathPresenceStreaks batch merged) with
        hsame | ⟨hnone, -, -⟩
      · exact h.typed base (hsame ▸ hbase) p m t hm ht
      · rw [h.untyped hnone p m hm]
        exact lasts_zero _ _
    cases hu : Dict.get? p batch with
    | none => exact lasts_zero _ _
    | some u =>
      show Lasts (if isPrimitiveTypeChange t u then _ else 0) _ _
      split_ifs with hchange
      · exact hbefore.next ⟨u, hu, isPrimitiveTypeChange_ne hchange⟩
      · exact lasts_zero _ _
  untyped := by
    intro hnone p m' hm'
    obtain ⟨m, hm, -, -, htype⟩ := streaked_get hm'
    rw [hnone, Option.getD_none, Dict.get?_nil] at htype
    rw [htype]
    rcases maybeEstablishBaseline_paths (S := S) row (updatePathPresenceStreaks batch merged) with
      hsame | ⟨-, -, hset⟩
    · exact h.untyped (hsame ▸ hnone) p m hm
    · rw [hset] at hnone
      cases hnone

/-! ### The findings -/

/-- The findings of a run against its gates: rows keep their keys and statuses, new rows are
open, and every confirmed change has a row. -/
theorem upsertOpenDrift_cases (now : ℕ) (st : DriftState) (change : String × DriftCategory) :
    (∃ f, f.key = change ∧ f.status = .open ∧ change ∉ st.findings.map (·.key) ∧
      (upsertOpenDrift now st change).findings = st.findings ++ [f]) ∨
    (change ∈ st.findings.map (·.key) ∧ ∃ g : StreamSchemaFieldDrift → StreamSchemaFieldDrift,
      (∀ f, (g f).key = f.key ∧ (g f).status = f.status) ∧
      (upsertOpenDrift now st change).findings = st.findings.map g) := by
  unfold upsertOpenDrift
  cases hfind : st.findings.find? fun f => f.key = change with
  | none =>
    refine .inl ⟨_, rfl, rfl, ?_, rfl⟩
    intro hmem
    obtain ⟨f, hf, hkey⟩ := List.mem_map.mp hmem
    have hno := List.find?_eq_none.mp hfind f hf
    exact hno (decide_eq_true hkey)
  | some f =>
    have hkey : f.key = change := by simpa using List.find?_some hfind
    refine .inr ⟨List.mem_map.mpr ⟨f, List.mem_of_find?_eq_some hfind, hkey⟩, ?_⟩
    by_cases hopen : f.status = .open
    · refine ⟨fun g => if g.key = change then { g with lastConfirmedAt := now } else g, ?_, ?_⟩
      · intro g
        by_cases hg : g.key = change
        · simp only [hg, ↓reduceIte]
          exact ⟨hg, trivial⟩
        · simp only [hg, ↓reduceIte]
          exact ⟨trivial, trivial⟩
      · simp only [ne_eq, hopen, not_true_eq_false, ↓reduceIte]
    · refine ⟨id, fun g => ⟨rfl, rfl⟩, ?_⟩
      simp only [ne_eq, hopen, not_false_eq_true, ↓reduceIte, List.map_id]

/-- What the findings have to do with the findings operators closed. -/
structure FindingsHold (findings : List StreamSchemaFieldDrift)
    (closed : List (String × DriftCategory)) : Prop where
  keys : (findings.map (·.key)).Nodup
  status : ∀ f ∈ findings, f.status ≠ .open ↔ f.key ∈ closed
  closed : ∀ k ∈ closed, k ∈ findings.map (·.key)

section Findings

variable {now : ℕ} {closed : List (String × DriftCategory)}

theorem map_key {g : StreamSchemaFieldDrift → StreamSchemaFieldDrift}
    (hg : ∀ f, (g f).key = f.key) (findings : List StreamSchemaFieldDrift) :
    (findings.map g).map (·.key) = findings.map (·.key) := by
  rw [List.map_map]
  apply List.map_congr_left
  intro f _
  exact hg f

theorem upsertOpenDrift_keys (st : DriftState) (change k : String × DriftCategory) :
    k ∈ (upsertOpenDrift now st change).findings.map (·.key) ↔
      k ∈ st.findings.map (·.key) ∨ k = change := by
  rcases upsertOpenDrift_cases now st change with ⟨f, hkey, -, -, heq⟩ | ⟨hmem, g, hg, heq⟩
  · rw [heq, List.map_append, List.mem_append, List.map_singleton, List.mem_singleton, hkey]
  · rw [heq, map_key fun f => (hg f).1]
    constructor
    · exact .inl
    · intro h
      rcases h with h | rfl
      · exact h
      · exact hmem

theorem upsertOpenDrift_holds {st : DriftState} (h : FindingsHold st.findings closed)
    (change : String × DriftCategory) :
    FindingsHold (upsertOpenDrift now st change).findings closed := by
  rcases upsertOpenDrift_cases now st change with ⟨f, hkey, hopen, hnew, heq⟩ | ⟨-, g, hg, heq⟩
  · rw [heq]
    constructor
    · rw [List.map_append, List.map_singleton, hkey, ← List.concat_eq_append]
      exact h.keys.concat hnew
    · intro e he
      rcases List.mem_append.mp he with he | he
      · exact h.status e he
      · obtain rfl := List.mem_singleton.mp he
        rw [hopen, hkey]
        constructor
        · intro hne
          exact absurd rfl hne
        · intro hclosed
          exact absurd (h.closed _ hclosed) hnew
    · intro k hk
      rw [List.map_append]
      exact List.mem_append_left _ (h.closed k hk)
  · rw [heq]
    constructor
    · rw [map_key fun f => (hg f).1]
      exact h.keys
    · intro e he
      obtain ⟨f, hf, rfl⟩ := List.mem_map.mp he
      rw [(hg f).1, (hg f).2]
      exact h.status f hf
    · rw [map_key fun f => (hg f).1]
      exact h.closed

theorem upserts_keys (changes : List (String × DriftCategory)) (st : DriftState)
    (k : String × DriftCategory) :
    k ∈ (changes.foldl (upsertOpenDrift now) st).findings.map (·.key) ↔
      k ∈ st.findings.map (·.key) ∨ k ∈ changes := by
  induction changes generalizing st with
  | nil => simp
  | cons change changes ih =>
    rw [List.foldl_cons, ih, upsertOpenDrift_keys, List.mem_cons, or_assoc]

theorem upserts_holds (changes : List (String × DriftCategory)) {st : DriftState}
    (h : FindingsHold st.findings closed) :
    FindingsHold (changes.foldl (upsertOpenDrift now) st).findings closed := by
  induction changes generalizing st with
  | nil => exact h
  | cons change changes ih => exact ih (upsertOpenDrift_holds h change)

theorem upsertOpenDrift_row (st : DriftState) (change : String × DriftCategory) :
    (upsertOpenDrift now st change).row = st.row := by
  unfold upsertOpenDrift
  cases st.findings.find? fun f => f.key = change with
  | none => rfl
  | some f =>
    simp only
    split_ifs <;> rfl

theorem upserts_row (changes : List (String × DriftCategory)) (st : DriftState) :
    (changes.foldl (upsertOpenDrift now) st).row = st.row := by
  induction changes generalizing st with
  | nil => rfl
  | cons change changes ih => rw [List.foldl_cons, ih, upsertOpenDrift_row]

/-- The loops go over the paths that can meet the gate at all. -/
theorem mem_confirmedChanges {baseline batch : BatchPaths} {observed : List (String × PathMeta)}
    {path : String} {category : DriftCategory} :
    (path, category) ∈ confirmedChanges S baseline batch observed ↔
      Gate S baseline batch observed path category = true := by
  simp only [confirmedChanges, List.mem_append, List.mem_map, List.mem_filter, Prod.mk.injEq]
  cases category with
  | fieldAdded =>
    simp only [reduceCtorEq, and_false, exists_false, or_false, and_true, exists_eq_right,
      and_iff_right_iff_imp]
    intro h
    simp only [Gate, Bool.and_eq_true] at h
    exact List.mem_map.mp (Dict.has_iff.mp h.1.1)
  | fieldRemoved =>
    simp only [reduceCtorEq, and_false, exists_false, or_false, false_or, and_true, exists_eq_right,
      and_iff_right_iff_imp]
    intro h
    simp only [Gate, Bool.and_eq_true] at h
    exact List.mem_map.mp (Dict.has_iff.mp h.1)
  | fieldTypeChanged =>
    simp only [reduceCtorEq, and_false, exists_false, false_or, and_true, exists_eq_right,
      and_iff_right_iff_imp]
    intro h
    unfold Gate at h
    cases hbase : Dict.get? path baseline with
    | none => simp [hbase] at h
    | some t => exact ⟨_, Dict.mem_of_get? hbase, rfl⟩

/-- What `detect_field_changes` leaves of the tables, where there is a baseline. -/
theorem detectFieldChanges_some {baseline batch : BatchPaths} {observed : List (String × PathMeta)}
    (hne : baseline ≠ []) (st : DriftState) :
    detectFieldChanges S now (some baseline) batch observed st =
      (confirmedChanges S baseline batch observed).foldl (upsertOpenDrift now) st := by
  cases baseline with
  | nil => exact absurd rfl hne
  | cons entry baseline => rfl

theorem detectFieldChanges_row (baseline : Option BatchPaths) (batch : BatchPaths)
    (observed : List (String × PathMeta)) (st : DriftState) :
    (detectFieldChanges S now baseline batch observed st).row = st.row := by
  unfold detectFieldChanges
  split
  · rfl
  · rfl
  · exact upserts_row _ st

theorem detectFieldChanges_holds (baseline : Option BatchPaths) (batch : BatchPaths)
    (observed : List (String × PathMeta)) {st : DriftState} (h : FindingsHold st.findings closed) :
    FindingsHold (detectFieldChanges S now baseline batch observed st).findings closed := by
  unfold detectFieldChanges
  split
  · exact h
  · exact h
  · exact upserts_holds _ h

end Findings

/-! ### Reachable states -/

/-- Every state the system reaches. -/
structure DriftInv (w : Tracked) : Prop where
  streaks : ∀ row, w.st.row = some row → StreaksHold row.baseline row.paths w.since
  based : ∀ row, w.st.row = some row → row.baseline ≠ some []
  findings : FindingsHold w.st.findings w.closed

theorem driftInv_start : DriftInv {} where
  streaks := by
    intro row h
    cases h
  based := by
    intro row h
    cases h
  findings := ⟨List.nodup_nil, by simp, by simp⟩

/-- The row a run writes: what it brings into the updates, and what detection then looks at. -/
theorem observe_eq {events : List Json} (hsample : observedSample S events ≠ []) (now : ℕ)
    {w : Tracked} (hw : DriftInv w) :
    ∃ row merged, StreaksBefore row.baseline (observedBatch S events) merged w.since ∧
      row.baseline ≠ some [] ∧
      observeExtractedEvents S now events w.st =
        finalizeObservationRow S now row merged (observedBatch S events) w.st := by
  unfold observeExtractedEvents
  simp only [hsample, ↓reduceIte]
  cases hrow : w.st.row with
  | none =>
    obtain ⟨merged, hmerged⟩ := merge_ok (S := S) events []
    simp only [hmerged]
    refine ⟨_, _, ?_, ?_, rfl⟩
    · constructor
      · intro p m hm hmiss
        rw [Dict.get?_mapValues] at hm
        obtain ⟨m₀, hm₀, -⟩ := Option.map_eq_some_iff.mp hm
        rcases mergePathInventories_get hmerged hm₀ with ⟨m₁, hm₁, -⟩ | ⟨-, hseen, -⟩
        · cases hm₁
        · exact absurd hseen hmiss
      · intro base hbase
        cases hbase
      · intro base hbase
        cases hbase
      · intro _ p m hm
        rw [Dict.get?_mapValues] at hm
        obtain ⟨m₀, hm₀, rfl⟩ := Option.map_eq_some_iff.mp hm
        rcases mergePathInventories_get hmerged hm₀ with ⟨m₁, hm₁, -⟩ | ⟨-, -, -, -, hzero⟩
        · cases hm₁
        · exact hzero
    · intro h
      cases h
  | some row =>
    obtain ⟨merged, hmerged⟩ := merge_ok (S := S) events (pathsFromRow row.paths)
    simp only [hmerged]
    refine ⟨_, merged, ?_, ?_, rfl⟩
    · have hold := hw.streaks row hrow
      have hread : StreaksHold row.baseline (pathsFromRow row.paths) w.since := by
        have hget {p : String} {m : PathMeta} (hm : Dict.get? p (pathsFromRow row.paths) = some m) :
            ∃ m₀, Dict.get? p row.paths = some m₀ ∧ m.runsSinceSeen = m₀.runsSinceSeen ∧
              m.addConfirmRuns = m₀.addConfirmRuns ∧
              m.typeChangeConfirmRuns = m₀.typeChangeConfirmRuns := by
          rw [pathsFromRow, Dict.get?_mapValues] at hm
          obtain ⟨m₀, hm₀, rfl⟩ := Option.map_eq_some_iff.mp hm
          exact ⟨m₀, hm₀, rfl, rfl, rfl⟩
        constructor
        · intro p m hm
          obtain ⟨m₀, hm₀, h1, -, -⟩ := hget hm
          exact h1 ▸ hold.seen p m₀ hm₀
        · intro base hbase p m hm hp
          obtain ⟨m₀, hm₀, -, h2, -⟩ := hget hm
          exact h2 ▸ hold.added base hbase p m₀ hm₀ hp
        · intro base hbase p m t hm ht
          obtain ⟨m₀, hm₀, -, -, h3⟩ := hget hm
          exact h3 ▸ hold.typed base hbase p m₀ t hm₀ ht
        · intro hnone p m hm
          obtain ⟨m₀, hm₀, -, -, h3⟩ := hget hm
          exact h3 ▸ hold.untyped hnone p m₀ hm₀
      exact hread.merged hmerged
    · exact hw.based row hrow

/-- After a run: the row with its streaks, and the findings detection left. -/
theorem observe_row {events : List Json} (hsample : observedSample S events ≠ []) (now : ℕ)
    {w : Tracked} (hw : DriftInv w) :
    ∃ row st, (observeExtractedEvents S now events w.st).row = some row ∧
      StreaksHold row.baseline row.paths (observedBatch S events :: w.since) ∧
      row.baseline ≠ some [] ∧ st.findings = w.st.findings ∧
      observeExtractedEvents S now events w.st =
        detectFieldChanges S now row.baseline (observedBatch S events) row.paths st := by
  obtain ⟨row, merged, hbefore, hbased, heq⟩ := observe_eq hsample now hw
  have hstreaks := hbefore.finalized (S := S)
  have hset : (maybeEstablishBaseline S row
      (updatePathPresenceStreaks (observedBatch S events) merged)).baseline ≠ some [] := by
    rcases maybeEstablishBaseline_paths (S := S) row
      (updatePathPresenceStreaks (observedBatch S events) merged) with hsame | ⟨-, hne, hset⟩
    · rw [hsame]
      exact hbased
    · rw [hset]
      intro h
      have hnil : baselineOf (updatePathPresenceStreaks (observedBatch S events) merged) = [] :=
        Option.some.inj h
      exact hne (List.map_eq_nil_iff.mp hnil)
  refine ⟨{ maybeEstablishBaseline S row
      (updatePathPresenceStreaks (observedBatch S events) merged) with
      paths := streaked (maybeEstablishBaseline S row
        (updatePathPresenceStreaks (observedBatch S events) merged)).baseline
        (observedBatch S events) merged }, _, ?_, hstreaks, hset, ?_, heq⟩
  · rw [heq, finalizeObservationRow, detectFieldChanges_row]
  · rfl

theorem observe_none {events : List Json} (hsample : observedSample S events = []) (now : ℕ)
    (st : DriftState) : observeExtractedEvents S now events st = st := by
  unfold observeExtractedEvents
  simp only [hsample, ↓reduceIte]

/-- A closing operation: the findings it picks become no longer open, the others stay. -/
theorem FindingsHold.close {findings : List StreamSchemaFieldDrift}
    {closed : List (String × DriftCategory)} (h : FindingsHold findings closed)
    (pick : StreamSchemaFieldDrift → Bool) (g : StreamSchemaFieldDrift → StreamSchemaFieldDrift)
    (hkey : ∀ f, (g f).key = f.key) (hstatus : ∀ f, (g f).status ≠ .open) :
    FindingsHold (findings.map fun f => if pick f then g f else f)
      (closed ++ (findings.filter pick).map (·.key)) := by
  have hkeys : (findings.map fun f => if pick f then g f else f).map (·.key) =
      findings.map (·.key) := by
    apply map_key
    intro f
    split_ifs
    · exact hkey f
    · rfl
  constructor
  · rw [hkeys]
    exact h.keys
  · intro e he
    obtain ⟨f, hf, rfl⟩ := List.mem_map.mp he
    by_cases hpick : pick f = true
    · simp only [hpick, ↓reduceIte]
      refine iff_of_true (hstatus f) (List.mem_append_right _ ?_)
      rw [hkey]
      exact List.mem_map.mpr ⟨f, List.mem_filter.mpr ⟨hf, hpick⟩, rfl⟩
    · simp only [hpick, Bool.false_eq_true, ↓reduceIte]
      rw [h.status f hf, List.mem_append, iff_self_or]
      intro hmem
      obtain ⟨f', hf', hsame⟩ := List.mem_map.mp hmem
      have : f' = f := List.inj_on_of_nodup_map h.keys (List.mem_of_mem_filter hf') hf hsame
      exact absurd (this ▸ (List.mem_filter.mp hf').2) hpick
  · intro k hk
    rw [hkeys]
    rcases List.mem_append.mp hk with hk | hk
    · exact h.closed k hk
    · obtain ⟨f, hf, rfl⟩ := List.mem_map.mp hk
      exact List.mem_map_of_mem (List.mem_of_mem_filter hf)

theorem driftInv_step {w : Tracked} (hw : DriftInv w) (op : DriftOp) : DriftInv (trackStep S w op) := by
  cases op with
  | observe events now =>
    by_cases hsample : observedSample S events = []
    · have hsame : trackStep S w (.observe events now) = w := by
        simp only [trackStep, hsample, ↓reduceIte, observe_none hsample]
      rw [hsame]
      exact hw
    · obtain ⟨row, st, hrow, hstreaks, hbased, hfindings, heq⟩ := observe_row hsample now hw
      simp only [trackStep, hsample, ↓reduceIte]
      refine ⟨?_, ?_, ?_⟩
      · intro row' hrow'
        obtain rfl := Option.some.inj (hrow.symm.trans hrow')
        exact hstreaks
      · intro row' hrow'
        obtain rfl := Option.some.inj (hrow.symm.trans hrow')
        exact hbased
      · show FindingsHold (observeExtractedEvents S now events w.st).findings w.closed
        rw [heq]
        exact detectFieldChanges_holds _ _ _ (hfindings ▸ hw.findings)
  | acknowledge findingId actor note now =>
    simp only [trackStep]
    cases hack : acknowledgeFieldDrift findingId actor note now w.st with
    | error e => exact hw
    | ok st =>
      unfold acknowledgeFieldDrift at hack
      cases hfind : w.st.findings.find? fun f => f.id = findingId with
      | none =>
        rw [hfind] at hack
        cases hack
      | some f =>
        rw [hfind] at hack
        simp only at hack
        split_ifs at hack
        obtain rfl := Except.ok.inj hack
        have hclose := hw.findings.close (fun f => f.id = findingId)
          (fun f => f.acknowledge actor note now) (fun _ => rfl) (fun _ => by
            show DriftStatus.acknowledged ≠ .open
            decide)
        simp only [decide_eq_true_eq] at hclose
        exact ⟨hw.streaks, hw.based, hclose⟩
  | reset actor reason now =>
    simp only [trackStep]
    cases hreset : resetSchemaBaseline actor reason now w.st with
    | error e => exact hw
    | ok st =>
      unfold resetSchemaBaseline at hreset
      cases hrow : w.st.row with
      | none =>
        rw [hrow] at hreset
        cases hreset
      | some row =>
        rw [hrow] at hreset
        by_cases hempty : pathsFromRow row.paths = []
        · simp only [hempty, ↓reduceIte] at hreset
          cases hreset
        simp only [hempty, ↓reduceIte] at hreset
        obtain rfl := Except.ok.inj hreset
        have hclose := hw.findings.close (fun f => f.status = .open) (fun f => f.resolve actor now)
          (fun _ => rfl) (fun _ => by
            show DriftStatus.resolved ≠ .open
            decide)
        simp only [decide_eq_true_eq] at hclose
        refine ⟨?_, ?_, hclose⟩
        · intro row' hrow'
          obtain rfl := Option.some.inj hrow'
          have hzero {p : String} {m : PathMeta} (hm : Dict.get? p (Dict.mapValues (fun _ m =>
                { m with runsSinceSeen := 0, addConfirmRuns := 0, typeChangeConfirmRuns := 0 })
                (pathsFromRow row.paths)) = some m) :
              m.runsSinceSeen = 0 ∧ m.addConfirmRuns = 0 ∧ m.typeChangeConfirmRuns = 0 := by
            rw [Dict.get?_mapValues] at hm
            obtain ⟨m₀, -, rfl⟩ := Option.map_eq_some_iff.mp hm
            exact ⟨rfl, rfl, rfl⟩
          constructor
          · intro p m hm
            rw [(hzero hm).1]
            exact lasts_zero _ _
          · intro _ _ p m hm _
            rw [(hzero hm).2.1]
            exact lasts_zero _ _
          · intro _ _ p m t hm _
            rw [(hzero hm).2.2]
            exact lasts_zero _ _
          · intro _ p m hm
            exact (hzero hm).2.2
        · intro row' hrow' hnone
          obtain rfl := Option.some.inj hrow'
          exact hempty (List.map_eq_nil_iff.mp (Option.some.inj hnone))

theorem driftInv_run (ops : List DriftOp) : DriftInv (Steps.run (trackStep S) {} ops) := by
  apply Steps.run_invariant (P := fun _ _ => True)
  · intro w op hw _
    exact driftInv_step hw op
  · exact driftInv_start
  · exact Steps.along_of_forall (fun _ _ => trivial) _ ops

end SchemaObservation
