import DataRelay.Logs.IncrementalAggregates

/-! When the read model agrees with the table. Its tests compare numbers of rows, so a committed
row it lacks can be hidden by a row it keeps that is not there; and between the locked sections of
a refresh the writers change both. -/
namespace DeliveryLogs

variable {parseInt : Json → Option ℤ} {w : World} {table seen : List DeliveryLog}
  {cache : Cache} {startId : ℕ}

/-! ### The condition -/

/-- The rows of the table that the cache lacks. -/
def missed (table : List DeliveryLog) (cache : Cache) : List DeliveryLog :=
  table.filter fun row => !Dict.has row.id cache.factsById

/-- The cached facts of rows that are not in the table. -/
def stale (table : List DeliveryLog) (cache : Cache) : List (ℕ × Fact) :=
  cache.factsById.filter fun fact => table.all fun row => row.id ≠ fact.1

/-- The ids that the last query of a refresh reads. -/
def inRange (startId stop : ℕ) (row : DeliveryLog) : Bool := startId < row.id && row.id ≤ stop

/-- At some moment the table held within the range what it holds now, and outside of it still what
the first query read. -/
def ChangedApart (stood : List (List DeliveryLog)) (seen : List DeliveryLog) (startId : ℕ)
    (table : List DeliveryLog) : Prop :=
  ∃ moment ∈ stood,
    (moment.filter (inRange startId (maxId seen))).Perm
        (table.filter (inRange startId (maxId seen))) ∧
      (moment.filter fun row => !inRange startId (maxId seen) row).Perm
        (seen.filter fun row => !inRange startId (maxId seen) row)

instance (stood : List (List DeliveryLog)) (seen : List DeliveryLog) (startId : ℕ)
    (table : List DeliveryLog) : Decidable (ChangedApart stood seen startId table) :=
  inferInstanceAs (Decidable (∃ moment ∈ stood, List.Perm _ _ ∧ List.Perm _ _))

/-- What is asked where a refresh goes on: what its tests keep is what its first query read, up to
the watermark; the table changes apart from what is read; and no other call waits for a list that
the refresh changes. -/
def Refresh.Judged (w : World) : Refresh → Prop
  | .counted seen =>
    maxId seen ≤ w.cache.watermarkId → seen.length = w.cache.tableCount →
      missed seen w.cache = [] ∧ stale seen w.cache = []
  | .compared _ _ _ => True
  | .marked seen markerFact markerCreatedAt =>
    if distrusts seen markerFact markerCreatedAt w.cache then w.calls = []
    else stale seen w.cache = [] ∧ ∀ row ∈ missed seen w.cache, w.cache.watermarkId < row.id
  | .judged seen startId => ChangedApart w.stood seen startId w.table
  | .loaded _ _ _ => w.calls = []

/-- The refresh has judged the cache and not yet merged what it reads. -/
def Refresh.settling : Refresh → Bool
  | .judged _ _ | .loaded _ _ _ => true
  | .counted _ | .compared _ _ _ | .marked _ _ _ => false

/-- What is asked of an action: no row is ingested between the section that judges the cache and
the taking of the list, and the refresh goes on in states its tests can judge. -/
def Judged (w : World) : Action → Prop
  | .ingest _ => w.calls = [] ∧ ∀ refresh ∈ w.refresh, refresh.settling = false
  | .proceed => ∀ refresh ∈ w.refresh, refresh.Judged w
  | _ => True

instance (w : World) : DecidablePred (Refresh.Judged w)
  | .counted _ => inferInstanceAs (Decidable (_ → _ → _ ∧ _))
  | .compared _ _ _ => .isTrue trivial
  | .marked _ _ _ => by
    unfold Refresh.Judged
    infer_instance
  | .judged _ _ => inferInstanceAs (Decidable (ChangedApart _ _ _ _))
  | .loaded _ _ _ => inferInstanceAs (Decidable (_ = _))

instance (w : World) : DecidablePred (Judged w)
  | .ingest _ => inferInstanceAs (Decidable (_ = _ ∧ ∀ _ ∈ w.refresh, _ = _))
  | .proceed => inferInstanceAs (Decidable (∀ refresh ∈ w.refresh, refresh.Judged w))
  | .flush _ => .isTrue trivial
  | .commit _ => .isTrue trivial
  | .rollback _ => .isTrue trivial
  | .delete _ => .isTrue trivial
  | .query => .isTrue trivial
  | .facts _ _ => .isTrue trivial

instance (parseInt : Json → Option ℤ) (w : World) : DecidablePred (Answers parseInt w)
  | .facts i q =>
    inferInstanceAs (Decidable (∀ stood ∈ w.calls[i]?, Coherent parseInt stood w.cache q))
  | .flush _ => .isTrue trivial
  | .ingest _ => .isTrue trivial
  | .commit _ => .isTrue trivial
  | .rollback _ => .isTrue trivial
  | .delete _ => .isTrue trivial
  | .query => .isTrue trivial
  | .proceed => .isTrue trivial

/-- The tests can tell the cache from the table. -/
def Detectable (table : List DeliveryLog) (cache : Cache) : Prop :=
  if cache.watermarkId < maxId table then
    (stale table cache = [] ∧ ∀ row ∈ missed table cache, cache.watermarkId < row.id) ∨
      (missed table cache).length < (stale table cache).length ∨
      (Dict.has cache.watermarkId cache.factsById ∧ ∀ row ∈ table, row.id ≠ cache.watermarkId)
  else
    table.length = cache.tableCount → missed table cache = [] ∧ stale table cache = []

instance (table : List DeliveryLog) (cache : Cache) : Decidable (Detectable table cache) := by
  unfold Detectable
  infer_instance

/-! ### The invariant -/

/-- A writer has flushed the row. -/
def Written (w : World) (row : DeliveryLog) : Prop :=
  ∃ (i : ℕ) (writer : Writer), w.writers[i]? = some writer ∧ row ∈ writer.rows

/-- Written rows, one for an id. -/
structure Rows (w : World) (table : List DeliveryLog) : Prop where
  nodup : (table.map (·.id)).Nodup
  written : ∀ row ∈ table, Written w row

/-- The rows of the writers and of the table, by their ids. -/
structure Sources (w : World) : Prop where
  positive : 0 < w.nextId
  below : ∀ row, Written w row → 0 < row.id ∧ row.id < w.nextId
  apart : ∀ (i j : ℕ) (x y : Writer), w.writers[i]? = some x → w.writers[j]? = some y →
    ∀ row ∈ x.rows, ∀ other ∈ y.rows, row.id = other.id → i = j ∧ row = other
  distinct : ∀ (i : ℕ) (x : Writer), w.writers[i]? = some x → (x.rows.map (·.id)).Nodup
  table : (w.table.map (·.id)).Nodup
  committed : ∀ row ∈ w.table, ∃ (i : ℕ) (x : Writer), w.writers[i]? = some x ∧
    x.settled = true ∧ row ∈ x.rows

/-- A cache of written rows up to its watermark. -/
structure Sound (parseInt : Json → Option ℤ) (written : DeliveryLog → Prop) (cache : Cache) :
    Prop where
  nodup : (cache.factsById.map Prod.fst).Nodup
  facts : ∀ fact ∈ cache.factsById, ∃ row, written row ∧ fact = (row.id, factFromRow parseInt row)
  above : ∀ fact ∈ cache.factsById, fact.1 ≤ cache.watermarkId

/-- The facts are those of the rows. -/
def Mirrors (parseInt : Json → Option ℤ) (members : List (ℕ × Fact)) (table : List DeliveryLog) :
    Prop :=
  (members.map Prod.snd).Perm (table.map (factFromRow parseInt))

/-- What a refresh has made sure of: once it has judged the cache, the facts it keeps are those of
the rows up to its start, and what it then reads are the rows above, of one table. -/
def Refresh.Holds (parseInt : Json → Option ℤ) (stood : List (List DeliveryLog)) (cache : Cache) :
    Refresh → Prop
  | .counted seen | .compared seen _ _ | .marked seen _ _ => seen ∈ stood
  | .judged seen startId =>
    seen ∈ stood ∧ startId = cache.watermarkId ∧ startId < maxId seen ∧
      Mirrors parseInt cache.factsById (seen.filter fun row => row.id ≤ startId)
  | .loaded seen startId rows =>
    startId = cache.watermarkId ∧ startId < maxId seen ∧ (∀ row ∈ rows, row.id ≤ maxId seen) ∧
      ∃ moment ∈ stood, rows.Perm (moment.filter fun row => startId < row.id) ∧
        Mirrors parseInt cache.factsById (moment.filter fun row => row.id ≤ startId)

structure Inv (parseInt : Json → Option ℤ) (w : World) : Prop where
  sources : Sources w
  sound : Sound parseInt (Written w) w.cache
  stood : ∀ table ∈ w.stood, Rows w table
  refresh : ∀ refresh ∈ w.refresh, refresh.Holds parseInt w.stood w.cache
  calls : ∀ stood ∈ w.calls, ∃ table ∈ stood, Mirrors parseInt w.cache.factsById table

theorem Sources.written (h : Sources w) {row : DeliveryLog} (hrow : row ∈ w.table) :
    Written w row := by
  obtain ⟨i, x, hx, -, hmem⟩ := h.committed row hrow
  exact ⟨i, x, hx, hmem⟩

theorem Sources.rows (h : Sources w) : Rows w w.table where
  nodup := h.table
  written _ hrow := h.written hrow

theorem Rows.filter (h : Rows w table) (p : DeliveryLog → Bool) : Rows w (table.filter p) :=
  ⟨h.nodup.sublist (List.filter_sublist.map _),
    fun row hrow => h.written row (List.mem_filter.mp hrow).1⟩

theorem Rows.perm (h : Rows w table) {rows : List DeliveryLog} (hperm : rows.Perm table) : Rows w rows :=
  ⟨(hperm.map _).nodup_iff.mpr h.nodup, fun row hrow => h.written row (hperm.mem_iff.mp hrow)⟩

theorem Sources.eq_of_id (h : Sources w) {row other : DeliveryLog} (hrow : Written w row)
    (hother : Written w other) (hid : row.id = other.id) : row = other := by
  obtain ⟨i, x, hx, hmem⟩ := hrow
  obtain ⟨j, y, hy, hmem'⟩ := hother
  exact (h.apart i j x y hx hy row hmem other hmem' hid).2

/-! ### Ids -/

theorem le_maxId {row : DeliveryLog} (h : row ∈ table) : row.id ≤ maxId table := by
  unfold maxId
  induction table with
  | nil => cases h
  | cons head rest ih =>
    rw [List.map_cons, List.foldr_cons]
    rcases List.mem_cons.mp h with rfl | h
    · exact Nat.le_max_left _ _
    · exact (ih h).trans (Nat.le_max_right _ _)

/-- What the cache lacks and what it has too much make up the difference in number. -/
theorem balance (htable : (table.map (·.id)).Nodup) (hfacts : (cache.factsById.map Prod.fst).Nodup) :
    table.length + (stale table cache).length =
      cache.factsById.length + (missed table cache).length := by
  have hsame : ((table.filter fun row => Dict.has row.id cache.factsById).map (·.id)).Perm
      ((cache.factsById.filter fun fact =>
        !table.all fun row => row.id ≠ fact.1).map Prod.fst) := by
    refine (List.perm_ext_iff_of_nodup ?_ ?_).mpr ?_
    · exact htable.sublist (List.filter_sublist.map _)
    · exact hfacts.sublist (List.filter_sublist.map _)
    · intro id
      simp only [List.mem_map, List.mem_filter, Dict.has_iff_mem, Bool.not_eq_true',
        List.all_eq_false, decide_eq_true_eq, not_not]
      constructor
      · rintro ⟨row, ⟨hrow, fact, hfact, hid⟩, rfl⟩
        exact ⟨fact, ⟨hfact, row, hrow, hid.symm⟩, hid⟩
      · rintro ⟨fact, ⟨hfact, row, hrow, hid⟩, rfl⟩
        exact ⟨row, ⟨hrow, fact, hfact, hid.symm⟩, hid⟩
  have hlength := hsame.length_eq
  rw [List.length_map, List.length_map] at hlength
  have htotal := List.length_eq_length_filter_add
    (l := table) fun row => Dict.has row.id cache.factsById
  have hkept := List.length_eq_length_filter_add
    (l := cache.factsById) fun fact => table.all fun row => row.id ≠ fact.1
  unfold stale missed
  omega

/-! ### Facts and rows -/

theorem Mirrors.has_iff (h : Mirrors parseInt cache.factsById table)
    (hsound : Sound parseInt (Written w) cache) {id : ℕ} :
    Dict.has id cache.factsById = true ↔ ∃ row ∈ table, row.id = id := by
  rw [Dict.has_iff_mem]
  constructor
  · rintro ⟨fact, hfact, rfl⟩
    obtain ⟨row, -, rfl⟩ := hsound.facts fact hfact
    have hmem := h.mem_iff.mp (List.mem_map_of_mem hfact)
    obtain ⟨other, hother, heq⟩ := List.mem_map.mp hmem
    exact ⟨other, hother, congrArg Fact.id heq⟩
  · rintro ⟨row, hrow, rfl⟩
    have hmem := h.mem_iff.mpr (List.mem_map_of_mem hrow)
    obtain ⟨fact, hfact, heq⟩ := List.mem_map.mp hmem
    obtain ⟨other, -, rfl⟩ := hsound.facts fact hfact
    exact ⟨_, hfact, congrArg Fact.id heq⟩

/-- Facts and rows with the same ids are the same. -/
theorem mirrors_of_ids (hsources : Sources w) (hsound : Sound parseInt (Written w) cache)
    (hrows : Rows w table)
    (hids : ∀ id, Dict.has id cache.factsById = true ↔ ∃ row ∈ table, row.id = id) :
    Mirrors parseInt cache.factsById table := by
  have hfacts : (cache.factsById.map Prod.snd).Nodup := by
    refine List.Nodup.of_map Fact.id ?_
    rw [List.map_map, List.map_congr_left (g := Prod.fst)]
    · exact hsound.nodup
    · intro fact hfact
      obtain ⟨row, -, rfl⟩ := hsound.facts fact hfact
      rfl
  have hnodup : (table.map (factFromRow parseInt)).Nodup := by
    refine List.Nodup.of_map Fact.id ?_
    rw [List.map_map]
    exact hrows.nodup
  refine (List.perm_ext_iff_of_nodup hfacts hnodup).mpr fun fact => ?_
  rw [List.mem_map, List.mem_map]
  constructor
  · rintro ⟨member, hmember, rfl⟩
    obtain ⟨row, hrow, rfl⟩ := hsound.facts member hmember
    obtain ⟨other, hother, hid⟩ := (hids row.id).mp (Dict.has_iff_mem.mpr ⟨_, hmember, rfl⟩)
    exact ⟨other, hother, by rw [hsources.eq_of_id (hrows.written other hother) hrow hid]⟩
  · rintro ⟨row, hrow, rfl⟩
    obtain ⟨member, hmember, hid⟩ := Dict.has_iff_mem.mp ((hids row.id).mpr ⟨row, hrow, rfl⟩)
    obtain ⟨other, hother, rfl⟩ := hsound.facts member hmember
    exact ⟨_, hmember, by rw [hsources.eq_of_id hother (hrows.written row hrow) hid]⟩

theorem stale_eq_nil_iff :
    stale table cache = [] ↔
      ∀ id, Dict.has id cache.factsById = true → ∃ row ∈ table, row.id = id := by
  unfold stale
  rw [List.filter_eq_nil_iff]
  constructor
  · intro h id hid
    obtain ⟨member, hmember, rfl⟩ := Dict.has_iff_mem.mp hid
    simpa using h member hmember
  · intro h member hmember
    simpa using h member.1 (Dict.has_iff_mem.mpr ⟨member, hmember, rfl⟩)

theorem mem_missed {row : DeliveryLog} :
    row ∈ missed table cache ↔ row ∈ table ∧ ¬ Dict.has row.id cache.factsById = true := by
  unfold missed
  rw [List.mem_filter]
  simp

/-- The facts are those of the rows up to the watermark, where none is stale and only rows above it
are missed. -/
theorem mirrors_upTo_iff (hsources : Sources w) (hsound : Sound parseInt (Written w) cache)
    (hrows : Rows w table) :
    Mirrors parseInt cache.factsById (table.filter fun row => row.id ≤ cache.watermarkId) ↔
      stale table cache = [] ∧ ∀ row ∈ missed table cache, cache.watermarkId < row.id := by
  constructor
  · intro h
    refine ⟨stale_eq_nil_iff.mpr fun id hid => ?_, fun row hrow => ?_⟩
    · obtain ⟨row, hrow, heq⟩ := (h.has_iff hsound).mp hid
      exact ⟨row, (List.mem_filter.mp hrow).1, heq⟩
    · obtain ⟨hrow, hnot⟩ := mem_missed.mp hrow
      by_contra hle
      refine hnot ((h.has_iff hsound).mpr ⟨row, List.mem_filter.mpr ⟨hrow, ?_⟩, rfl⟩)
      simpa using hle
  · rintro ⟨hstale, hmissed⟩
    refine mirrors_of_ids hsources hsound (hrows.filter _) fun id => ⟨fun hid => ?_, ?_⟩
    · obtain ⟨row, hrow, rfl⟩ := stale_eq_nil_iff.mp hstale id hid
      obtain ⟨member, hmember, heq⟩ := Dict.has_iff_mem.mp hid
      have hle := hsound.above member hmember
      exact ⟨row, List.mem_filter.mpr ⟨hrow, by simpa [heq] using hle⟩, rfl⟩
    · rintro ⟨row, hrow, rfl⟩
      obtain ⟨hrow, hle⟩ := List.mem_filter.mp hrow
      by_contra hnot
      have habove := hmissed row (mem_missed.mpr ⟨hrow, hnot⟩)
      exact absurd (of_decide_eq_true hle) (not_le.mpr habove)

theorem filter_le_eq_self {stop : ℕ} (h : maxId table ≤ stop) :
    (table.filter fun row => row.id ≤ stop) = table :=
  List.filter_eq_self.mpr fun _ hrow => decide_eq_true ((le_maxId hrow).trans h)

theorem mirrors_iff (hsources : Sources w) (hsound : Sound parseInt (Written w) cache)
    (hrows : Rows w table) :
    Mirrors parseInt cache.factsById table ↔
      missed table cache = [] ∧ stale table cache = [] := by
  constructor
  · intro h
    refine ⟨List.eq_nil_iff_forall_not_mem.mpr fun row hrow => ?_, stale_eq_nil_iff.mpr fun id hid =>
      (h.has_iff hsound).mp hid⟩
    obtain ⟨hrow, hnot⟩ := mem_missed.mp hrow
    exact hnot ((h.has_iff hsound).mpr ⟨row, hrow, rfl⟩)
  · rintro ⟨hmissed, hstale⟩
    refine mirrors_of_ids hsources hsound hrows fun id => ⟨stale_eq_nil_iff.mp hstale id, ?_⟩
    rintro ⟨row, hrow, rfl⟩
    by_contra hnot
    have hmem := mem_missed.mpr ⟨hrow, hnot⟩
    rw [hmissed] at hmem
    cases hmem

theorem sound_empty (written : DeliveryLog → Prop) : Sound parseInt written {} :=
  ⟨List.nodup_nil, by simp, by simp⟩

/-- A cleared cache has the facts of the rows up to its start, as ids are positive. -/
theorem mirrors_empty (hsources : Sources w) (hrows : Rows w table) :
    Mirrors parseInt [] (table.filter fun row => row.id ≤ 0) := by
  have hnone : (table.filter fun row => row.id ≤ 0) = [] := by
    refine List.filter_eq_nil_iff.mpr fun row hrow => ?_
    simpa using (hsources.below row (hrows.written row hrow)).1.ne'
  rw [hnone]
  exact List.Perm.refl _

/-! ### A merge -/

theorem set_eq_append {id : ℕ} {members : List (ℕ × Fact)} (fact : Fact)
    (h : ∀ member ∈ members, member.1 ≠ id) :
    Dict.set id fact members = members ++ [(id, fact)] := by
  induction members with
  | nil => rfl
  | cons member members ih =>
    rw [Dict.set, if_neg (h member List.mem_cons_self),
      ih fun other hother => h other (List.mem_cons_of_mem _ hother)]
    rfl

/-- Loading rows the cache has none of puts their facts after its own. -/
theorem foldl_set_eq {rows : List DeliveryLog} {members : List (ℕ × Fact)} (hnodup : (rows.map (·.id)).Nodup)
    (hnew : ∀ row ∈ rows, ∀ member ∈ members, member.1 ≠ row.id) :
    rows.foldl (fun facts row => Dict.set row.id (factFromRow parseInt row) facts) members =
      members ++ rows.map fun row => (row.id, factFromRow parseInt row) := by
  induction rows generalizing members with
  | nil => simp
  | cons row rows ih =>
    rw [List.map_cons, List.nodup_cons] at hnodup
    rw [List.foldl_cons, set_eq_append _ (hnew row List.mem_cons_self), ih hnodup.2]
    · simp
    · intro other hother member hmember
      rcases List.mem_append.mp hmember with hmember | hmember
      · exact hnew other (List.mem_cons_of_mem _ hother) member hmember
      · rw [List.mem_singleton.mp hmember]
        intro heq
        have hid : row.id = other.id := heq
        exact hnodup.1 (hid ▸ List.mem_map_of_mem hother)

theorem merge_eq {rows : List DeliveryLog} (hsound : Sound parseInt (Written w) cache)
    (hrows : Rows w rows) (habove : ∀ row ∈ rows, cache.watermarkId < row.id) :
    merge parseInt seen rows cache.watermarkId cache =
      { watermarkId := maxId seen
        tableCount := seen.length
        maxCreatedAt := maxCreatedAt seen
        factsById := cache.factsById ++ rows.map fun row => (row.id, factFromRow parseInt row) } := by
  unfold merge
  rw [if_neg fun h => h.1 rfl, foldl_set_eq hrows.nodup]
  intro row hrow member hmember heq
  have hle := hsound.above member hmember
  have hlt := habove row hrow
  omega

theorem sound_merge {rows : List DeliveryLog} (hsound : Sound parseInt (Written w) cache)
    (hrows : Rows w rows) (habove : ∀ row ∈ rows, cache.watermarkId < row.id)
    (hlt : cache.watermarkId < maxId seen)
    (hbelow : ∀ row ∈ rows, row.id ≤ maxId seen) :
    Sound parseInt (Written w) (merge parseInt seen rows cache.watermarkId cache) := by
  rw [merge_eq hsound hrows habove]
  constructor
  · rw [List.map_append, List.map_map, List.nodup_append]
    refine ⟨hsound.nodup, hrows.nodup, ?_⟩
    rintro old hold new hnew rfl
    obtain ⟨member, hmember, rfl⟩ := List.mem_map.mp hold
    obtain ⟨row, hmem, heq⟩ := List.mem_map.mp hnew
    have hle := hsound.above member hmember
    have hrow := habove row hmem
    have hid : row.id = member.1 := heq
    omega
  · intro fact hfact
    rcases List.mem_append.mp hfact with hfact | hfact
    · exact hsound.facts fact hfact
    · obtain ⟨row, hmem, rfl⟩ := List.mem_map.mp hfact
      exact ⟨row, hrows.written row hmem, rfl⟩
  · intro fact hfact
    rcases List.mem_append.mp hfact with hfact | hfact
    · exact (hsound.above fact hfact).trans hlt.le
    · obtain ⟨row, hmem, rfl⟩ := List.mem_map.mp hfact
      exact hbelow row hmem

/-- With the rows of a table above the watermark the facts are the table's, if those before were
up to the watermark. -/
theorem mirrors_merge_iff {rows : List DeliveryLog} (hsound : Sound parseInt (Written w) cache)
    (hrows : Rows w rows)
    (hperm : rows.Perm (table.filter fun row => cache.watermarkId < row.id)) :
    Mirrors parseInt (merge parseInt seen rows cache.watermarkId cache).factsById table ↔
      Mirrors parseInt cache.factsById (table.filter fun row => row.id ≤ cache.watermarkId) := by
  have habove : ∀ row ∈ rows, cache.watermarkId < row.id := fun row hrow =>
    of_decide_eq_true (List.mem_filter.mp (hperm.mem_iff.mp hrow)).2
  rw [merge_eq hsound hrows habove]
  unfold Mirrors
  have hnew : ((rows.map fun row => (row.id, factFromRow parseInt row)).map Prod.snd).Perm
      ((table.filter fun row => cache.watermarkId < row.id).map (factFromRow parseInt)) := by
    rw [List.map_map]
    exact hperm.map _
  have hsplit : (table.map (factFromRow parseInt)).Perm
      ((table.filter fun row => row.id ≤ cache.watermarkId).map (factFromRow parseInt) ++
        (table.filter fun row => cache.watermarkId < row.id).map (factFromRow parseInt)) := by
    rw [← List.map_append]
    refine List.Perm.map _ ?_
    have hall := List.filter_append_perm (fun row => decide (row.id ≤ cache.watermarkId)) table
    simpa only [← decide_not, not_le] using hall.symm
  dsimp only
  rw [List.map_append]
  constructor
  · intro h
    exact (List.perm_append_right_iff _).mp ((h.trans hsplit).trans (hnew.symm.append_left _))
  · exact fun h => (h.append hnew).trans hsplit.symm

theorem perm_rowsAbove (start stop : ℕ) (table : List DeliveryLog) :
    (rowsAbove start stop table).Perm (table.filter (inRange start stop)) :=
  List.perm_insertionSort _ _


/-- What the last query reads is what some table held above the start, which up to the start held
what the first query read. -/
theorem ChangedApart.moment {stood : List (List DeliveryLog)}
    (h : ChangedApart stood seen startId table) :
    ∃ moment ∈ stood,
      (rowsAbove startId (maxId seen) table).Perm (moment.filter fun row => startId < row.id) ∧
        (moment.filter fun row => row.id ≤ startId).Perm
          (seen.filter fun row => row.id ≤ startId) := by
  obtain ⟨moment, hmem, hinside, houtside⟩ := h
  refine ⟨moment, hmem, ?_, ?_⟩
  · have habove : (moment.filter fun row => startId < row.id) =
        moment.filter (inRange startId (maxId seen)) := by
      refine List.filter_congr fun row hrow => ?_
      by_cases hrange : inRange startId (maxId seen) row = true
      · rw [hrange]
        unfold inRange at hrange
        exact (Bool.and_eq_true_iff.mp hrange).1
      · have hout := houtside.mem_iff.mp (List.mem_filter.mpr ⟨hrow, by simpa using hrange⟩)
        have hle := le_maxId (List.mem_filter.mp hout).1
        simp only [inRange, Bool.and_eq_true, decide_eq_true_eq, not_and] at hrange
        have hnot : ¬ startId < row.id := fun hlt => hrange hlt hle
        simp [inRange, hnot]
    rw [habove]
    exact (perm_rowsAbove _ _ _).trans hinside.symm
  · have hupTo : ∀ rows : List DeliveryLog, (rows.filter fun row => row.id ≤ startId) =
        (rows.filter fun row => !inRange startId (maxId seen) row).filter
          fun row => row.id ≤ startId := by
      intro rows
      rw [List.filter_filter]
      refine List.filter_congr fun row _ => ?_
      by_cases hle : row.id ≤ startId
      · simp [inRange, hle, not_lt.mpr hle]
      · simp [hle]
    rw [hupTo moment, hupTo seen]
    exact houtside.filter _

theorem id_assignIds {next : ℕ} {rows : List DeliveryLog} :
    (assignIds next rows).map (·.id) = List.range' next rows.length := by
  induction rows generalizing next with
  | nil => rfl
  | cons row rows ih =>
    rw [assignIds, List.map_cons, ih, List.length_cons, List.range'_succ]

theorem nodup_assignIds {next : ℕ} {rows : List DeliveryLog} :
    ((assignIds next rows).map (·.id)).Nodup := by
  rw [id_assignIds]
  exact List.nodup_range'

theorem mem_assignIds {next : ℕ} {rows : List DeliveryLog} {row : DeliveryLog}
    (h : row ∈ assignIds next rows) : next ≤ row.id ∧ row.id < next + rows.length := by
  have hid : row.id ∈ (assignIds next rows).map (·.id) := List.mem_map_of_mem h
  rw [id_assignIds, List.mem_range'_1] at hid
  exact hid

theorem Sound.mono {written written' : DeliveryLog → Prop} (h : Sound parseInt written cache)
    (hsub : ∀ row, written row → written' row) : Sound parseInt written' cache where
  nodup := h.nodup
  facts fact hfact := by
    obtain ⟨row, hrow, heq⟩ := h.facts fact hfact
    exact ⟨row, hsub row hrow, heq⟩
  above := h.above

theorem Sound.ingest {written : DeliveryLog → Prop} (h : Sound parseInt written cache)
    {row : DeliveryLog} (hrow : written row) :
    Sound parseInt written (ingestDeliveryLogRow parseInt row cache) := by
  unfold ingestDeliveryLogRow
  dsimp only
  rw [show (factFromRow parseInt row).id = row.id from rfl]
  by_cases hhas : Dict.has row.id cache.factsById = true
  · rw [if_pos hhas]
    exact h
  rw [if_neg hhas, set_eq_append]
  · constructor
    · rw [List.map_append, List.nodup_append]
      refine ⟨h.nodup, List.nodup_singleton _, ?_⟩
      rintro old hold new hnew rfl
      obtain ⟨member, hmember, heq⟩ := List.mem_map.mp hold
      exact hhas (Dict.has_iff_mem.mpr ⟨member, hmember, heq.trans (List.mem_singleton.mp hnew)⟩)
    · intro fact hfact
      rcases List.mem_append.mp hfact with hfact | hfact
      · exact h.facts fact hfact
      · exact ⟨row, hrow, List.mem_singleton.mp hfact⟩
    · intro fact hfact
      show fact.1 ≤ if cache.watermarkId < row.id then row.id else cache.watermarkId
      rcases List.mem_append.mp hfact with hfact | hfact
      · have hle := h.above fact hfact
        split_ifs <;> omega
      · rw [List.mem_singleton.mp hfact]
        split_ifs <;> omega
  · exact fun member hmember heq => hhas (Dict.has_iff_mem.mpr ⟨member, hmember, heq⟩)

/-- A writer that goes on with the rows it has. -/
theorem written_set {i : ℕ} {x y : Writer} (hx : w.writers[i]? = some x) (hrows : y.rows = x.rows)
    {v : World} (hw : v.writers = w.writers.set i y) (row : DeliveryLog) :
    Written v row ↔ Written w row := by
  have hlt : i < w.writers.length := (List.getElem?_eq_some_iff.mp hx).1
  constructor
  · rintro ⟨j, z, hz, hmem⟩
    rw [hw, List.getElem?_set] at hz
    split_ifs at hz with hij
    · cases hz
      exact ⟨i, x, hx, hrows ▸ hmem⟩
    · exact ⟨j, z, hz, hmem⟩
  · rintro ⟨j, z, hz, hmem⟩
    by_cases hij : i = j
    · subst hij
      rw [hx] at hz
      cases hz
      exact ⟨i, y, by simp [hw, hlt], hrows.symm ▸ hmem⟩
    · exact ⟨j, z, by rw [hw, List.getElem?_set, if_neg hij]; exact hz, hmem⟩

/-- The rows stay apart, whoever goes on, as long as the table grows by rows of settled writers. -/
theorem Sources.set (h : Sources w) {i : ℕ} {x y : Writer} (hx : w.writers[i]? = some x)
    (hrows : y.rows = x.rows) (hsettled : x.settled = true → y.settled = true) {w' : World}
    (hw : w'.writers = w.writers.set i y) (hnext : w'.nextId = w.nextId)
    (htable : (w'.table.map (·.id)).Nodup)
    (hcommitted : ∀ row ∈ w'.table, row ∈ w.table ∨ row ∈ y.rows ∧ y.settled = true) :
    Sources w' := by
  have hlt : i < w.writers.length := (List.getElem?_eq_some_iff.mp hx).1
  have hback : ∀ (j : ℕ) (z : Writer), w'.writers[j]? = some z →
      ∃ z', w.writers[j]? = some z' ∧ z'.rows = z.rows := by
    intro j z hz
    rw [hw, List.getElem?_set] at hz
    split_ifs at hz with hij
    · cases hz
      exact ⟨x, hij ▸ hx, hrows.symm⟩
    · exact ⟨z, hz, rfl⟩
  constructor
  · exact hnext ▸ h.positive
  · intro row hrow
    rw [hnext]
    exact h.below row ((written_set hx hrows hw row).mp hrow)
  · intro j k a b ha hb row hrow other hother
    obtain ⟨a', ha', heq⟩ := hback j a ha
    obtain ⟨b', hb', heq'⟩ := hback k b hb
    exact h.apart j k a' b' ha' hb' row (heq ▸ hrow) other (heq' ▸ hother)
  · intro j a ha
    obtain ⟨a', ha', heq⟩ := hback j a ha
    exact heq ▸ h.distinct j a' ha'
  · exact htable
  · intro row hrow
    rcases hcommitted row hrow with hrow | ⟨hrow, hdone⟩
    · obtain ⟨j, z, hz, hzsettled, hmem⟩ := h.committed row hrow
      by_cases hij : i = j
      · subst hij
        rw [hx] at hz
        cases hz
        exact ⟨i, y, by simp [hw, hlt], hsettled hzsettled, hrows.symm ▸ hmem⟩
      · exact ⟨j, z, by rw [hw, List.getElem?_set, if_neg hij]; exact hz, hzsettled, hmem⟩
    · exact ⟨i, y, by simp [hw, hlt], hdone, hrow⟩

/-- The writers after a flush are those of before and one with the rows that were given ids. -/
theorem writer_of_flush {rows : List DeliveryLog} {j : ℕ} {z : Writer}
    (hz : (w.writers ++ [{ rows := assignIds w.nextId rows }])[j]? = some z) :
    w.writers[j]? = some z ∨ j = w.writers.length ∧ z.rows = assignIds w.nextId rows := by
  rcases Nat.lt_or_ge j w.writers.length with hlt | hge
  · rw [List.getElem?_append_left hlt] at hz
    exact .inl hz
  · rw [List.getElem?_append_right hge, List.getElem?_singleton] at hz
    split_ifs at hz with hj
    cases hz
    exact .inr ⟨by omega, rfl⟩

theorem Sources.flush (h : Sources w) (rows : List DeliveryLog) :
    Sources { w with
      nextId := w.nextId + rows.length
      writers := w.writers ++ [{ rows := assignIds w.nextId rows }] } := by
  have hold : ∀ (j : ℕ) (z : Writer), w.writers[j]? = some z → ∀ row ∈ z.rows,
      0 < row.id ∧ row.id < w.nextId :=
    fun j z hz row hrow => h.below row ⟨j, z, hz, hrow⟩
  constructor
  · exact Nat.add_pos_left h.positive _
  · rintro row ⟨j, z, hz, hrow⟩
    show 0 < row.id ∧ row.id < w.nextId + rows.length
    rcases writer_of_flush hz with hz | ⟨-, hrows⟩
    · have hbelow := hold j z hz row hrow
      omega
    · rw [hrows] at hrow
      have hbetween := mem_assignIds hrow
      have hpositive := h.positive
      omega
  · intro j k a b ha hb row hrow other hother hid
    rcases writer_of_flush ha with ha | ⟨hj, harows⟩
    · rcases writer_of_flush hb with hb | ⟨hk, hbrows⟩
      · exact h.apart j k a b ha hb row hrow other hother hid
      · rw [hbrows] at hother
        have hbetween := mem_assignIds hother
        have hbelow := hold j a ha row hrow
        omega
    · rw [harows] at hrow
      have hbetween := mem_assignIds hrow
      rcases writer_of_flush hb with hb | ⟨hk, hbrows⟩
      · have hbelow := hold k b hb other hother
        omega
      · rw [hbrows] at hother
        refine ⟨hj.trans hk.symm, ?_⟩
        exact List.inj_on_of_nodup_map nodup_assignIds hrow hother hid
  · intro j z hz
    rcases writer_of_flush hz with hz | ⟨-, hrows⟩
    · exact h.distinct j z hz
    · rw [hrows]
      exact nodup_assignIds
  · exact h.table
  · intro row hrow
    obtain ⟨j, z, hz, hsettled, hmem⟩ := h.committed row hrow
    have hlt : j < w.writers.length := (List.getElem?_eq_some_iff.mp hz).1
    exact ⟨j, z, by rw [List.getElem?_append_left hlt]; exact hz, hsettled, hmem⟩

/-! ### The invariant along a history -/

theorem inv_initial : Inv parseInt {} where
  sources := ⟨Nat.one_pos, by simp [Written], by simp, by simp, List.nodup_nil, by simp⟩
  sound := sound_empty _
  stood := by simp
  refresh := by simp
  calls := by simp

theorem Refresh.Holds.mono {refresh : Refresh} {stood stood' : List (List DeliveryLog)}
    (h : refresh.Holds parseInt stood cache) (hsub : stood ⊆ stood') :
    refresh.Holds parseInt stood' cache := by
  cases refresh with
  | counted seen => exact hsub h
  | compared seen markerId markerFact => exact hsub h
  | marked seen markerFact markerCreatedAt => exact hsub h
  | judged seen startId => exact ⟨hsub h.1, h.2⟩
  | loaded seen startId rows =>
    obtain ⟨hstart, hlt, hbelow, moment, hmem, hmoment⟩ := h
    exact ⟨hstart, hlt, hbelow, moment, hsub hmem, hmoment⟩

/-- Where the cache, the refresh and the calls stay, only the new table is to be looked at. -/
theorem Inv.mono (hinv : Inv parseInt w) {w' : World} (hsources : Sources w')
    (hwritten : ∀ row, Written w row → Written w' row) (hcache : w'.cache = w.cache)
    (hrefresh : w'.refresh = w.refresh) (hcalls : w'.calls = w.calls)
    (hstood : w'.stood = w.stood ∨ w'.stood = w.stood ++ [w'.table]) : Inv parseInt w' where
  sources := hsources
  sound := hcache ▸ hinv.sound.mono hwritten
  stood table htable := by
    have hold : ∀ table ∈ w.stood, Rows w' table := fun table htable =>
      ⟨(hinv.stood table htable).nodup, fun row hrow =>
        hwritten row ((hinv.stood table htable).written row hrow)⟩
    rcases hstood with hstood | hstood
    · exact hold table (hstood ▸ htable)
    · rw [hstood] at htable
      rcases List.mem_append.mp htable with htable | htable
      · exact hold table htable
      · rw [List.mem_singleton.mp htable]
        exact hsources.rows
  refresh refresh hmem := by
    rw [hrefresh] at hmem
    rw [hcache]
    refine (hinv.refresh refresh hmem).mono ?_
    rcases hstood with hstood | hstood
    · rw [hstood]
      exact List.Subset.refl _
    · rw [hstood]
      exact List.subset_append_left _ _
  calls := by
    rw [hcalls, hcache]
    exact hinv.calls

theorem Inv.flush (hinv : Inv parseInt w) (rows : List DeliveryLog) :
    Inv parseInt (step parseInt w (.flush rows)) := by
  refine hinv.mono (hinv.sources.flush rows) ?_ rfl rfl rfl (.inl rfl)
  rintro row ⟨j, z, hz, hrow⟩
  have hlt : j < w.writers.length := (List.getElem?_eq_some_iff.mp hz).1
  refine ⟨j, z, ?_, hrow⟩
  show (w.writers ++ [_])[j]? = some z
  rw [List.getElem?_append_left hlt]
  exact hz

theorem Inv.ingest (hinv : Inv parseInt w) {i : ℕ} (h : Judged w (.ingest i)) :
    Inv parseInt (step parseInt w (.ingest i)) := by
  simp only [step]
  cases hx : w.writers[i]? with
  | none => exact hinv
  | some x =>
    dsimp only
    cases hrow : x.rows[x.ingested]? with
    | none => exact hinv
    | some row =>
      dsimp only
      split_ifs with hsettled
      · exact hinv
      · have hmore := written_set (y := { x with ingested := x.ingested + 1 }) hx rfl
          (v := { w with
            writers := w.writers.set i { x with ingested := x.ingested + 1 }
            cache := ingestDeliveryLogRow parseInt row w.cache }) rfl
        obtain ⟨hcalls, hsettling⟩ := h
        constructor
        · refine hinv.sources.set (y := { x with ingested := x.ingested + 1 }) hx rfl
            (fun h => h) rfl rfl hinv.sources.table ?_
          exact fun row hrow => .inl hrow
        · exact (hinv.sound.ingest ⟨i, x, hx, List.mem_of_getElem? hrow⟩).mono
            fun other hother => (hmore other).mpr hother
        · exact fun table htable => ⟨(hinv.stood table htable).nodup, fun other hother =>
            (hmore other).mpr ((hinv.stood table htable).written other hother)⟩
        · intro refresh hmem
          have hholds := hinv.refresh refresh hmem
          have hearly := hsettling refresh hmem
          cases refresh with
          | counted seen => exact hholds
          | compared seen markerId markerFact => exact hholds
          | marked seen markerFact markerCreatedAt => exact hholds
          | judged seen startId => cases hearly
          | loaded seen startId rows => cases hearly
        · rw [hcalls]
          simp

theorem Inv.commit (hinv : Inv parseInt w) (i : ℕ) :
    Inv parseInt (step parseInt w (.commit i)) := by
  simp only [step]
  cases hx : w.writers[i]? with
  | none => exact hinv
  | some x =>
    dsimp only
    split_ifs with hrefused
    · exact hinv
    · have hopen : x.settled = false := by
        by_contra hsettled
        exact hrefused (.inl (by simpa using hsettled))
      refine hinv.mono ?_ (fun row hrow =>
        (written_set (y := { x with settled := true }) hx rfl rfl row).mpr hrow) rfl rfl rfl
          (.inr rfl)
      refine hinv.sources.set (y := { x with settled := true }) hx rfl (fun _ => rfl) rfl rfl ?_ ?_
      · show ((w.table ++ x.rows).map (·.id)).Nodup
        rw [List.map_append, List.nodup_append]
        refine ⟨hinv.sources.table, hinv.sources.distinct i x hx, ?_⟩
        rintro old hold new hnew rfl
        obtain ⟨row, hrow, hid⟩ := List.mem_map.mp hold
        obtain ⟨other, hother, hid'⟩ := List.mem_map.mp hnew
        obtain ⟨j, z, hz, hsettled, hmem⟩ := hinv.sources.committed row hrow
        have hsame := hinv.sources.apart j i z x hz hx row hmem other hother (hid.trans hid'.symm)
        rw [hsame.1, hx] at hz
        cases hz
        rw [hopen] at hsettled
        cases hsettled
      · intro row hrow
        rcases List.mem_append.mp hrow with hrow | hrow
        · exact .inl hrow
        · exact .inr ⟨hrow, rfl⟩

theorem Inv.rollback (hinv : Inv parseInt w) (i : ℕ) :
    Inv parseInt (step parseInt w (.rollback i)) := by
  simp only [step]
  cases hx : w.writers[i]? with
  | none => exact hinv
  | some x =>
    dsimp only
    split_ifs with hrefused
    · exact hinv
    · refine hinv.mono ?_ (fun row hrow =>
        (written_set (y := { x with settled := true }) hx rfl rfl row).mpr hrow) rfl rfl rfl
          (.inl rfl)
      exact hinv.sources.set (y := { x with settled := true }) hx rfl (fun _ => rfl) rfl rfl
        hinv.sources.table fun row hrow => .inl hrow

theorem Inv.delete (hinv : Inv parseInt w) (ids : List ℕ) :
    Inv parseInt (step parseInt w (.delete ids)) := by
  refine hinv.mono ?_ (fun row hrow => hrow) rfl rfl rfl (.inr rfl)
  exact ⟨hinv.sources.positive, hinv.sources.below, hinv.sources.apart, hinv.sources.distinct,
    (hinv.sources.rows.filter _).nodup,
    fun row hrow => hinv.sources.committed row (List.mem_filter.mp hrow).1⟩

theorem Inv.query (hinv : Inv parseInt w) : Inv parseInt (step parseInt w .query) := by
  simp only [step]
  cases hrefresh : w.refresh with
  | some refresh => exact hinv
  | none =>
    constructor
    · exact ⟨hinv.sources.positive, hinv.sources.below, hinv.sources.apart, hinv.sources.distinct,
        hinv.sources.table, hinv.sources.committed⟩
    · exact hinv.sound
    · intro table htable
      rw [List.mem_singleton.mp htable]
      exact ⟨hinv.sources.table, fun row hrow => hinv.sources.written hrow⟩
    · intro refresh hmem
      cases hmem
      exact List.mem_singleton_self _
    · exact hinv.calls

theorem Inv.facts (hinv : Inv parseInt w) (i : ℕ) (q : Query) :
    Inv parseInt (step parseInt w (.facts i q)) where
  sources := ⟨hinv.sources.positive, hinv.sources.below, hinv.sources.apart, hinv.sources.distinct,
    hinv.sources.table, hinv.sources.committed⟩
  sound := hinv.sound
  stood table htable := ⟨(hinv.stood table htable).nodup, (hinv.stood table htable).written⟩
  refresh := hinv.refresh
  calls stood hmem := hinv.calls stood (List.mem_of_mem_eraseIdx hmem)

/-- A refresh that goes on. -/
theorem Inv.goOn (hinv : Inv parseInt w) {next : Refresh}
    (hsound : Sound parseInt (Written w) cache) (hnext : next.Holds parseInt w.stood cache)
    (hcalls : ∀ stood ∈ w.calls, ∃ table ∈ stood, Mirrors parseInt cache.factsById table) :
    Inv parseInt { w with refresh := some next, cache := cache } where
  sources := ⟨hinv.sources.positive, hinv.sources.below, hinv.sources.apart, hinv.sources.distinct,
    hinv.sources.table, hinv.sources.committed⟩
  sound := hsound
  stood table htable := ⟨(hinv.stood table htable).nodup, (hinv.stood table htable).written⟩
  refresh refresh hmem := by
    cases hmem
    exact hnext
  calls := hcalls

/-- A refresh that returns. -/
theorem Inv.goBack (hinv : Inv parseInt w) (hsound : Sound parseInt (Written w) cache)
    (hstood : ∃ table ∈ w.stood, Mirrors parseInt cache.factsById table)
    (hcalls : ∀ stood ∈ w.calls, ∃ table ∈ stood, Mirrors parseInt cache.factsById table) :
    Inv parseInt { w with refresh := none, cache := cache, calls := w.calls ++ [w.stood] } where
  sources := ⟨hinv.sources.positive, hinv.sources.below, hinv.sources.apart, hinv.sources.distinct,
    hinv.sources.table, hinv.sources.committed⟩
  sound := hsound
  stood table htable := ⟨(hinv.stood table htable).nodup, (hinv.stood table htable).written⟩
  refresh refresh hmem := by cases hmem
  calls stood hmem := by
    rcases List.mem_append.mp hmem with hmem | hmem
    · exact hcalls stood hmem
    · rw [List.mem_singleton.mp hmem]
      exact hstood

/-- The section that judges the cache keeps the facts of the rows up to its watermark. -/
theorem Inv.judge (hinv : Inv parseInt w) (hseen : seen ∈ w.stood)
    (hsound : Sound parseInt (Written w) cache)
    (hmirrors : Mirrors parseInt cache.factsById
      (seen.filter fun row => row.id ≤ cache.watermarkId))
    (hcalls : ∀ stood ∈ w.calls, ∃ table ∈ stood, Mirrors parseInt cache.factsById table) :
    Inv parseInt (if maxId seen ≤ cache.watermarkId then
        { w with refresh := none, cache := cache, calls := w.calls ++ [w.stood] }
      else { w with refresh := some (.judged seen cache.watermarkId), cache := cache }) := by
  split_ifs with hle
  · rw [filter_le_eq_self hle] at hmirrors
    exact hinv.goBack hsound ⟨seen, hseen, hmirrors⟩ hcalls
  · exact hinv.goOn hsound ⟨hseen, rfl, not_le.mp hle, hmirrors⟩ hcalls

theorem Inv.proceed (hinv : Inv parseInt w) (h : Judged w .proceed) :
    Inv parseInt (step parseInt w .proceed) := by
  simp only [step]
  cases hrefresh : w.refresh with
  | none => exact hinv
  | some refresh =>
    have hholds := hinv.refresh refresh hrefresh
    have hjudged := h refresh hrefresh
    cases refresh with
    | counted seen =>
      simp only [Refresh.proceed]
      by_cases hearly : maxId seen ≤ w.cache.watermarkId ∧ seen.length = w.cache.tableCount
      · rw [if_pos hearly]
        have hmirrors := (mirrors_iff hinv.sources hinv.sound (hinv.stood seen hholds)).mpr
          (hjudged hearly.1 hearly.2)
        exact hinv.goBack hinv.sound ⟨seen, hholds, hmirrors⟩ hinv.calls
      · rw [if_neg hearly]
        exact hinv.goOn hinv.sound hholds hinv.calls
    | compared seen markerId markerFact => exact hinv.goOn hinv.sound hholds hinv.calls
    | marked seen markerFact markerCreatedAt =>
      simp only [Refresh.proceed]
      simp only [Refresh.Judged] at hjudged
      by_cases hdistrust : distrusts seen markerFact markerCreatedAt w.cache = true
      · rw [if_pos hdistrust] at hjudged ⊢
        have hkept := hinv.judge hholds (sound_empty _)
          (mirrors_empty hinv.sources (hinv.stood seen hholds)) (by simp [hjudged])
        split_ifs at hkept ⊢ <;> exact hkept
      · rw [if_neg hdistrust] at hjudged ⊢
        have hkept := hinv.judge hholds hinv.sound
          ((mirrors_upTo_iff hinv.sources hinv.sound (hinv.stood seen hholds)).mpr hjudged)
          hinv.calls
        split_ifs at hkept ⊢ <;> exact hkept
    | judged seen startId =>
      obtain ⟨-, hstart, hlt, hmirrors⟩ := hholds
      obtain ⟨moment, hmem, hrows, hupTo⟩ := ChangedApart.moment hjudged
      refine hinv.goOn hinv.sound ⟨hstart, hlt, fun row hrow => ?_, moment, hmem, hrows,
        hmirrors.trans (hupTo.symm.map _)⟩ hinv.calls
      have hrange := (List.mem_filter.mp ((perm_rowsAbove _ _ _).mem_iff.mp hrow)).2
      exact of_decide_eq_true (Bool.and_eq_true_iff.mp hrange).2
    | loaded seen startId rows =>
      obtain ⟨rfl, hlt, hbelow, moment, hmem, hrows, hmirrors⟩ := hholds
      have hread : Rows w rows := ((hinv.stood moment hmem).filter _).perm hrows
      have habove : ∀ row ∈ rows, w.cache.watermarkId < row.id := fun row hrow =>
        of_decide_eq_true (List.mem_filter.mp (hrows.mem_iff.mp hrow)).2
      have hcalls : w.calls = [] := hjudged
      exact hinv.goBack (sound_merge hinv.sound hread habove hlt hbelow)
        ⟨moment, hmem, (mirrors_merge_iff hinv.sound hread hrows).mpr hmirrors⟩ (by simp [hcalls])

theorem inv_step {a : Action} (hinv : Inv parseInt w) (ha : Judged w a) :
    Inv parseInt (step parseInt w a) := by
  cases a with
  | flush rows => exact hinv.flush rows
  | ingest i => exact hinv.ingest ha
  | commit i => exact hinv.commit i
  | rollback i => exact hinv.rollback i
  | delete ids => exact hinv.delete ids
  | query => exact hinv.query
  | proceed => exact hinv.proceed ha
  | facts i q => exact hinv.facts i q

theorem coherent_of_mirrors {stood : List (List DeliveryLog)} (q : Query)
    (h : ∃ table ∈ stood, Mirrors parseInt cache.factsById table) :
    Coherent parseInt stood cache q := by
  obtain ⟨table, htable, hmirrors⟩ := h
  exact ⟨table, htable, List.Perm.filter _ hmirrors⟩

theorem answers_of_inv (hinv : Inv parseInt w) (a : Action) : Answers parseInt w a := by
  cases a with
  | facts i q =>
    exact fun stood hstood => coherent_of_mirrors q (hinv.calls stood (List.mem_of_getElem? hstood))
  | flush rows => trivial
  | ingest i => trivial
  | commit i => trivial
  | rollback i => trivial
  | delete ids => trivial
  | query => trivial
  | proceed => trivial

/-! ### A call that nothing comes between -/

def wholeCall : List Action := [.query, .proceed, .proceed, .proceed, .proceed, .proceed]

def markerCreatedAt (table : List DeliveryLog) (cache : Cache) : Option ℤ :=
  if 0 < cache.watermarkId ∧ (Dict.get? cache.watermarkId cache.factsById).isSome ∧
      cache.watermarkId ≤ maxId table then
    createdAtOf cache.watermarkId table
  else none

/-- What the tests keep of the cache. -/
def kept (table : List DeliveryLog) (cache : Cache) : Cache :=
  if distrusts table (Dict.get? cache.watermarkId cache.factsById) (markerCreatedAt table cache) cache
  then {} else cache

/-- With the rows above what is kept. -/
def loadedOnto (parseInt : Json → Option ℤ) (table : List DeliveryLog) (cache : Cache) : Cache :=
  if maxId table ≤ cache.watermarkId then cache
  else merge parseInt table (rowsAbove cache.watermarkId (maxId table) table) cache.watermarkId cache

def refreshed (parseInt : Json → Option ℤ) (table : List DeliveryLog) (cache : Cache) : Cache :=
  if maxId table ≤ cache.watermarkId ∧ table.length = cache.tableCount then cache
  else loadedOnto parseInt table (kept table cache)

theorem proceed_counted (parseInt : Json → Option ℤ) (table : List DeliveryLog) (cache : Cache) :
    (Refresh.counted table).proceed parseInt table cache =
      if maxId table ≤ cache.watermarkId ∧ table.length = cache.tableCount then (none, cache)
      else (some (.compared table cache.watermarkId
        (Dict.get? cache.watermarkId cache.factsById)), cache) := rfl

theorem proceed_marked (parseInt : Json → Option ℤ) (table : List DeliveryLog) (cache : Cache) :
    (Refresh.marked table (Dict.get? cache.watermarkId cache.factsById)
        (markerCreatedAt table cache)).proceed parseInt table cache =
      if maxId table ≤ (kept table cache).watermarkId then (none, kept table cache)
      else (some (.judged table (kept table cache).watermarkId), kept table cache) := rfl

theorem proceed_compared (parseInt : Json → Option ℤ) (table : List DeliveryLog) (cache : Cache) :
    (Refresh.compared table cache.watermarkId
        (Dict.get? cache.watermarkId cache.factsById)).proceed parseInt table cache =
      (some (.marked table (Dict.get? cache.watermarkId cache.factsById)
        (markerCreatedAt table cache)), cache) := rfl

theorem proceed_judged (parseInt : Json → Option ℤ) (seen table : List DeliveryLog)
    (startId : ℕ) (cache : Cache) :
    (Refresh.judged seen startId).proceed parseInt table cache =
      (some (.loaded seen startId (rowsAbove startId (maxId seen) table)), cache) := rfl

theorem proceed_loaded (parseInt : Json → Option ℤ) (seen table rows : List DeliveryLog)
    (startId : ℕ) (cache : Cache) :
    (Refresh.loaded seen startId rows).proceed parseInt table cache =
      (none, merge parseInt seen rows startId cache) := rfl

theorem run_wholeCall (h : w.refresh = none) :
    Steps.run (step parseInt) w wholeCall =
      { w with
        refresh := none
        cache := refreshed parseInt w.table w.cache
        stood := [w.table]
        calls := w.calls ++ [[w.table]] } := by
  unfold refreshed
  by_cases hearly : maxId w.table ≤ w.cache.watermarkId ∧ w.table.length = w.cache.tableCount
  · simp only [wholeCall, Steps.run_cons, Steps.run_nil, step, h, proceed_counted, if_pos hearly]
  · unfold loadedOnto
    by_cases hle : maxId w.table ≤ (kept w.table w.cache).watermarkId
    · simp only [wholeCall, Steps.run_cons, Steps.run_nil, step, h, proceed_counted,
        if_neg hearly, proceed_compared, proceed_marked, if_pos hle]
    · simp only [wholeCall, Steps.run_cons, Steps.run_nil, step, h, proceed_counted,
        if_neg hearly, proceed_compared, proceed_marked, if_neg hle, proceed_judged,
        proceed_loaded]

theorem createdAtOf_eq_none {id : ℕ} (h : ∀ row ∈ table, row.id ≠ id) :
    createdAtOf id table = none := by
  unfold createdAtOf
  rw [List.find?_eq_none.mpr]
  · rfl
  · simpa using h

theorem createdAtOf_eq_some (hsources : Sources w) {row : DeliveryLog} (hrow : row ∈ w.table) :
    createdAtOf row.id w.table = some row.createdAt := by
  unfold createdAtOf
  cases hfind : w.table.find? (·.id = row.id) with
  | none =>
    have hnone := List.find?_eq_none.mp hfind row hrow
    simp at hnone
  | some other =>
    have hother := List.mem_of_find?_eq_some hfind
    have hid : other.id = row.id := by simpa using List.find?_some hfind
    rw [hsources.eq_of_id (hsources.written hother) (hsources.written hrow) hid]
    rfl

/-- Below the largest id the facts are given up for their number or for the marker's row. -/
theorem distrusts_iff (hsources : Sources w) (hsound : Sound parseInt (Written w) w.cache)
    (hlt : w.cache.watermarkId < maxId w.table) :
    distrusts w.table (Dict.get? w.cache.watermarkId w.cache.factsById)
        (markerCreatedAt w.table w.cache) w.cache = true ↔
      (missed w.table w.cache).length < (stale w.table w.cache).length ∨
        (Dict.has w.cache.watermarkId w.cache.factsById ∧
          ∀ row ∈ w.table, row.id ≠ w.cache.watermarkId) := by
  have hbalance := balance hsources.table hsound.nodup
  have hle : w.cache.watermarkId ≤ maxId w.table := hlt.le
  unfold distrusts markerCreatedAt
  simp only [not_lt.mpr hle, not_le.mpr hlt, decide_false, Bool.false_or, Bool.false_and,
    Bool.or_false, Bool.or_eq_true, decide_eq_true_eq]
  refine or_congr (by omega) ?_
  cases hget : Dict.get? w.cache.watermarkId w.cache.factsById with
  | none => simp [Dict.has, hget]
  | some fact =>
    obtain ⟨row, hrow, heq⟩ := hsound.facts _ (Dict.mem_of_get? hget)
    have hid : w.cache.watermarkId = row.id := congrArg Prod.fst heq
    have hfact : fact = factFromRow parseInt row := congrArg Prod.snd heq
    have hpos : 0 < w.cache.watermarkId := hid ▸ (hsources.below row hrow).1
    have hhas : Dict.has w.cache.watermarkId w.cache.factsById = true :=
      Dict.has_iff_mem.mpr ⟨_, Dict.mem_of_get? hget, rfl⟩
    simp only [hpos, hle, hhas, Option.isSome_some, and_self, if_true, Option.any_some,
      decide_eq_true_eq, true_and]
    constructor
    · intro hgone other hother hsame
      refine hgone ?_
      rw [← hsame, createdAtOf_eq_some hsources hother, hfact,
        hsources.eq_of_id (hsources.written hother) hrow (hsame.trans hid)]
      rfl
    · intro hgone
      rw [createdAtOf_eq_none hgone]
      simp

theorem distrusts_of_le {markerFact : Option Fact} {markerCreatedAt : Option ℤ}
    (hle : maxId seen ≤ cache.watermarkId) (hcount : seen.length ≠ cache.tableCount) :
    distrusts seen markerFact markerCreatedAt cache = true := by
  unfold distrusts
  simp [hle, hcount]

theorem mirrors_loadedOnto_iff (hsources : Sources w) (hsound : Sound parseInt (Written w) cache) :
    Mirrors parseInt (loadedOnto parseInt w.table cache).factsById w.table ↔
      Mirrors parseInt cache.factsById
        (w.table.filter fun row => row.id ≤ cache.watermarkId) := by
  unfold loadedOnto
  split_ifs with hle
  · rw [filter_le_eq_self hle]
  · have hperm := perm_rowsAbove cache.watermarkId (maxId w.table) w.table
    have hrows := (hsources.rows.filter (inRange cache.watermarkId (maxId w.table))).perm hperm
    refine mirrors_merge_iff hsound hrows (hperm.trans ?_)
    rw [List.filter_congr]
    intro row hrow
    simp [inRange, le_maxId hrow]

/-- A refresh that nothing comes between leaves the facts of the table exactly in the states its
tests can judge. -/
theorem mirrors_refreshed_iff (hsources : Sources w)
    (hsound : Sound parseInt (Written w) w.cache) :
    Mirrors parseInt (refreshed parseInt w.table w.cache).factsById w.table ↔
      Detectable w.table w.cache := by
  have hreload : Mirrors parseInt (loadedOnto parseInt w.table {}).factsById w.table :=
    (mirrors_loadedOnto_iff hsources (sound_empty _)).mpr (mirrors_empty hsources hsources.rows)
  unfold refreshed Detectable kept
  by_cases hlt : w.cache.watermarkId < maxId w.table
  · rw [if_neg fun h => absurd h.1 (not_le.mpr hlt), if_pos hlt,
      ← distrusts_iff hsources hsound hlt]
    split_ifs with hdistrust
    · simp only [hdistrust, or_true, iff_true]
      exact hreload
    · simp only [hdistrust, Bool.false_eq_true, or_false]
      exact (mirrors_loadedOnto_iff hsources hsound).trans
        (mirrors_upTo_iff hsources hsound hsources.rows)
  · have hle := not_lt.mp hlt
    rw [if_neg hlt]
    by_cases hcount : w.table.length = w.cache.tableCount
    · rw [if_pos ⟨hle, hcount⟩, mirrors_iff hsources hsound hsources.rows]
      exact ⟨fun h _ => h, fun h => h hcount⟩
    · rw [if_neg fun h => hcount h.2, if_pos (distrusts_of_le hle hcount)]
      exact iff_of_true hreload fun h => absurd h hcount

/-- The query that selects all of some facts. -/
theorem exists_selects_all (all : List Fact) : ∃ q : Query, ∀ fact ∈ all, q.selects fact = true := by
  have hbounds : ∃ lo hi : ℤ, ∀ fact ∈ all, lo ≤ fact.createdAt ∧ fact.createdAt < hi := by
    induction all with
    | nil => exact ⟨0, 0, by simp⟩
    | cons head rest ih =>
      obtain ⟨lo, hi, hrest⟩ := ih
      refine ⟨min lo head.createdAt, max hi (head.createdAt + 1), fun fact hfact => ?_⟩
      rcases List.mem_cons.mp hfact with rfl | hfact
      · omega
      · have hbetween := hrest fact hfact
        omega
  obtain ⟨lo, hi, hall⟩ := hbounds
  refine ⟨{ startAt := lo, endAt := hi, excludeDebug := false }, fun fact hfact => ?_⟩
  simp [Query.selects, hall fact hfact]

/-- Where every query is answered by the table, the cache has the table's facts. -/
theorem mirrors_of_coherent (h : ∀ q, Coherent parseInt [table] cache q) :
    Mirrors parseInt cache.factsById table := by
  obtain ⟨q, hq⟩ := exists_selects_all
    (cache.factsById.map Prod.snd ++ table.map (factFromRow parseInt))
  obtain ⟨other, hother, hperm⟩ := h q
  rw [List.mem_singleton.mp hother] at hperm
  unfold facts at hperm
  rw [List.filter_eq_self.mpr fun fact hfact => hq fact (List.mem_append_left _ hfact),
    List.filter_eq_self.mpr fun fact hfact => hq fact (List.mem_append_right _ hfact)] at hperm
  exact hperm

/-- In every history of judged steps every call is answered by a table that stood during its
refresh; and where no refresh is under way after it, the next call that nothing comes between is
answered by the table, whatever its filter, exactly if the tests can tell the cache from it. -/
theorem facts_coherent (parseInt : Json → Option ℤ) {actions : List Action}
    (h : Steps.Along (step parseInt) Judged {} actions) :
    Steps.Along (step parseInt) (Answers parseInt) {} actions ∧
      let w := Steps.run (step parseInt) {} actions
      w.refresh = none →
        ((∀ q, Answers parseInt (Steps.run (step parseInt) w wholeCall) (.facts w.calls.length q)) ↔
          Detectable w.table w.cache) := by
  have hstep : ∀ (w : World) a, Inv parseInt w → Judged w a → Inv parseInt (step parseInt w a) :=
    fun w a hinv ha => inv_step hinv ha
  have hinv := Steps.run_invariant hstep inv_initial h
  refine ⟨Steps.along_of_invariant hstep (fun w a hinv _ => answers_of_inv hinv a) inv_initial h,
    fun hnone => ?_⟩
  rw [run_wholeCall hnone, ← mirrors_refreshed_iff hinv.sources hinv.sound]
  constructor
  · intro hall
    exact mirrors_of_coherent fun q => hall q [_] (by simp)
  · intro hmirrors q stood hstood
    simp only [List.getElem?_concat_length, Option.mem_def, Option.some.injEq] at hstood
    rw [← hstood]
    exact coherent_of_mirrors q ⟨_, List.mem_singleton_self _, hmirrors⟩

def logRow (createdAt : ℤ) : DeliveryLog := { createdAt := createdAt, stage := "run_complete" }

def wholeDay : Query := { startAt := 0, endAt := 86400 }

/-- A call of `facts`. -/
def call (q : Query) : List Action := wholeCall ++ [.facts 0 q]

/-- Two writers whose transactions overlap, one of which is rolled back, and a deletion; the row of
the second is ingested after the first query of a call, and committed before its last. -/
def judgedHistory : List Action :=
  [.flush [logRow 10], .flush [logRow 20, logRow 25], .ingest 0, .commit 0, .query, .ingest 1,
    .ingest 1, .proceed, .proceed, .proceed, .commit 1, .proceed, .proceed, .facts 0 wholeDay] ++
  call wholeDay ++ [.flush [logRow 30], .ingest 2, .rollback 2, .delete [1]] ++ call wholeDay

theorem judgedHistory_coherent :
    Steps.Along (step fun _ => none) (Answers fun _ => none) {} judgedHistory ∧
      let w := Steps.run (step fun _ => none) {} judgedHistory
      w.refresh = none →
        ((∀ q, Answers (fun _ => none) (Steps.run (step fun _ => none) w wholeCall)
            (.facts w.calls.length q)) ↔ Detectable w.table w.cache) :=
  facts_coherent (fun _ => none) (by decide +kernel)

/-- A call while the third row is in flight drops it from the cache; after its commit and the
deletion of the first row the numbers agree again, and the deleted row is still counted. -/
def deletedRowKept : List Action :=
  [.flush [logRow 10, logRow 20], .ingest 0, .ingest 0, .commit 0, .flush [logRow 30], .ingest 1] ++
    call wholeDay ++ [.commit 1, .delete [1]] ++ call wholeDay

/-- A row ingested between the last test of a refresh and its merge, and then rolled back. -/
def rolledBackRowKept : List Action :=
  [.flush [logRow 10], .ingest 0, .commit 0, .delete [1], .flush [logRow 20], .flush [logRow 30],
    .ingest 1, .commit 1, .query, .proceed, .proceed, .proceed, .ingest 2, .proceed, .proceed,
    .rollback 2, .facts 0 wholeDay] ++ call wholeDay

theorem facts_keeps_deleted_row :
    ¬ Steps.Along (step fun _ => none) (Answers fun _ => none) {} deletedRowKept ∧
      ¬ Steps.Along (step fun _ => none) (Answers fun _ => none) {} rolledBackRowKept := by
  constructor <;> decide +kernel

end DeliveryLogs
