import DataRelay.Lib.Months
import DataRelay.Lib.OldestFirst
import DataRelay.Lib.Raising

/-! The monthly partitions of `delivery_logs`: their names, their creation, and the ones retention
may drop whole. A partition is known by its name, and its name is read for the month. -/
namespace Retention

inductive Fault where
  | valueError (text : String)
  /-- A date or a time outside of the years 1 to 9999. -/
  | outOfRange
  /-- PostgreSQL refuses the statement. -/
  | database
  deriving DecidableEq, Repr

/-- The digits `\d` matches, with the values `int` gives them. -/
structure Decimals where
  value : Char → Option ℕ
  value_ascii : ∀ n < 10, value (Char.ofNat (48 + n)) = some n
  value_lt : ∀ c d, value c = some d → d < 10

/-- `str.isdecimal` of the ASCII digits. -/
def asciiDecimals : Decimals where
  value := UtcTime.digitValue
  value_ascii _ := UtcTime.digitValue_digit
  value_lt c d h := by
    unfold UtcTime.digitValue at h
    split_ifs at h with hc
    injection h with h
    omega

structure LogRow where
  createdAt : UtcTime
  id : ℕ
  deriving DecidableEq

/-- `ORDER BY created_at ASC, id ASC`. -/
instance : LinearOrder LogRow :=
  LinearOrder.lift' (fun r => toLex (r.createdAt, r.id)) fun r r' h => by
    cases r
    cases r'
    simpa using h

/-- A child table and the times its rows are of. -/
structure Partition where
  name : String
  lower : UtcTime
  upper : UtcTime
  deriving DecidableEq

def Partition.holds (p : Partition) (t : UtcTime) : Bool := p.lower ≤ t ∧ t < p.upper

/-- `delivery_logs` with its partitions. A row is in the partition that holds its time, or else in
the default one. -/
structure LogTable where
  partitions : List Partition
  hasDefault : Bool
  rows : List LogRow
  nextId : ℕ
  deriving DecidableEq

/-! ### Names -/

def partitionPrefix : List Char := "delivery_logs_".toList

/-- `partition_name`. -/
def partitionName (m : Month) : String :=
  String.ofList (partitionPrefix ++ (UtcTime.digits 4 m.year ++ '_' :: UtcTime.digits 2 m.month))

/-- Digits of any script, on top of the number read so far. -/
def readDecimals (D : Decimals) : (width acc : ℕ) → List Char → Option (ℕ × List Char)
  | 0, acc, cs => some (acc, cs)
  | _ + 1, _, [] => none
  | width + 1, acc, c :: cs => (D.value c).bind fun d => readDecimals D width (acc * 10 + d) cs

/-- `_PARTITION_RE.match`, with the two groups read as numbers. A line break may follow: `$`. -/
def matchPartition (D : Decimals) (name : String) : Option (ℕ × ℕ) := do
  let cs := name.toList
  if cs.take partitionPrefix.length = partitionPrefix then
    let (year, cs) ← readDecimals D 4 0 (cs.drop partitionPrefix.length)
    let cs ← UtcTime.readChar '_' cs
    let (month, cs) ← readDecimals D 2 0 cs
    if cs = [] ∨ cs = ['\n'] then some (year, month) else none
  else none

/-- `date(year, month, 1)`. -/
def dateOf (year month : ℕ) : Except Fault Month :=
  if h : (1 ≤ year ∧ year < 10000) ∧ 1 ≤ month ∧ month < 13 then .ok ⟨year, month, h.1, h.2⟩
  else .error .outOfRange

/-- `add_month`. -/
def addMonth (m : Month) : Except Fault Month := m.next.elim (.error .outOfRange) .ok

/-- `partition_month_from_name`. -/
def partitionMonthFromName (D : Decimals) (name : String) : Except Fault (Option Month) :=
  match matchPartition D name with
  | none => .ok none
  | some (year, month) =>
    if month < 1 ∨ 12 < month then .ok none else (dateOf year month).map some

/-- `protected_partition_months`. -/
def protectedPartitionMonths (now : UtcTime) : Except Fault (List Month) :=
  (addMonth now.inMonth).map fun next => [now.inMonth, next]

/-- `quote_delivery_log_partition_ident`. -/
def quotePartitionIdent (D : Decimals) (name : String) : Except Fault String :=
  if (matchPartition D name).isSome then .ok ("\"" ++ name.replace "\"" "\"\"" ++ "\"")
  else .error (.valueError ("unexpected delivery_logs partition name: " ++ name))

/-! ### Creation -/

namespace LogTable

variable (T : LogTable)

/-- `CREATE TABLE IF NOT EXISTS … PARTITION OF delivery_logs FOR VALUES FROM … TO …`, which fails
where the times are those of another partition or of rows in the default one. -/
def createPartition (name : String) (lower upper : UtcTime) : Except Fault LogTable :=
  if T.partitions.any (·.name = name) then .ok T
  else if T.partitions.any (fun p => p.lower < upper ∧ lower < p.upper) then .error .database
  else if T.rows.any (fun r => lower ≤ r.createdAt ∧ r.createdAt < upper) then .error .database
  else .ok { T with partitions := T.partitions ++ [⟨name, lower, upper⟩] }

/-- `ensure_delivery_log_partition`. -/
def ensurePartition (m : Month) : Except Fault LogTable := do
  let next ← addMonth m
  T.createPartition (partitionName m) m.first next.first

/-- `ensure_delivery_log_default_partition`. -/
def ensureDefaultPartition : LogTable := { T with hasDefault := true }

/-- The loop of `ensure_delivery_log_partitions`, which looks at the month after each one too. -/
def ensureMonths : (count : ℕ) → Month → LogTable → Except Fault LogTable
  | 0, _, T => .ok T
  | count + 1, m, T => do
    let T ← T.ensurePartition m
    let next ← addMonth m
    ensureMonths count next T

/-- `ensure_delivery_log_partitions`. -/
def ensurePartitions (startMonth : UtcTime) (monthsAhead : ℤ) : Except Fault LogTable :=
  (ensureMonths ((max 0 monthsAhead).toNat + 1) startMonth.inMonth T).map ensureDefaultPartition

/-- `_ensure_delivery_log_partition_for_insert`. The month may be one the process has seen a
partition of, which is then not made again. -/
def ensureForInsert (ensured : Bool) (createdAt : UtcTime) : Except Fault LogTable :=
  if ensured then .ok T else T.ensurePartition createdAt.inMonth

/-- An insert. A statement that fails before it takes the transaction, and the insert with it. -/
def insert (ensured : Bool) (createdAt : UtcTime) : Except Fault LogTable := do
  let T ← T.ensureForInsert ensured createdAt
  if T.hasDefault ∨ T.partitions.any (·.holds createdAt) then
    .ok { T with rows := T.rows ++ [⟨createdAt, T.nextId⟩], nextId := T.nextId + 1 }
  else .error .database

/-- The row is in the partition of that name. -/
def inPartition (name : String) (r : LogRow) : Bool :=
  T.partitions.any fun p => p.name = name ∧ p.holds r.createdAt

/-- `DROP TABLE IF EXISTS`. -/
def dropTable (name : String) : LogTable :=
  { T with
    partitions := T.partitions.filter fun p => p.name ≠ name
    rows := T.rows.filter fun r => !T.inPartition name r }

/-- `list_delivery_log_monthly_partitions`. -/
def listMonthlyPartitions (D : Decimals) : Except Fault (List (String × Month)) := do
  let names := (T.partitions.map (·.name)).insertionSort (· ≤ ·)
  let months ← names.mapM (partitionMonthFromName D)
  .ok ((names.zip months).filterMap fun p => p.2.map (Prod.mk p.1))

/-- `_partition_row_count`: the estimate of the catalog for a large partition. -/
def partitionRowCount (estimate : String → Option ℕ) (name : String) : ℕ :=
  (estimate name).getD (T.rows.countP (T.inPartition name))

end LogTable

/-! ### Dropping -/

/-- `DeliveryLogPartitionDropTarget`. -/
structure DropTarget where
  partitionName : String
  monthStart : Month
  monthEnd : Month
  rowCount : ℕ
  cutoffUtc : UtcTime
  deriving DecidableEq

/-- `now - timedelta(days=max(1, days))`. -/
def retentionCutoff (now : UtcTime) (days : ℤ) : Except Fault UtcTime :=
  (now.minusDays (max 1 days).toNat).elim (.error .outOfRange) .ok

/-- One turn of the loop of `calculate_delivery_log_partition_drop_targets`. -/
def dropTarget (T : LogTable) (estimate : String → Option ℕ) (cutoff : UtcTime)
    (protectedMonths : List Month) (listed : String × Month) :
    Except Fault (Option DropTarget) := do
  let monthEnd ← addMonth listed.2
  if listed.2 ∈ protectedMonths then .ok none
  else if cutoff.inMonth < monthEnd then .ok none
  else .ok (some ⟨listed.1, listed.2, monthEnd, T.partitionRowCount estimate listed.1, cutoff⟩)

/-- `calculate_delivery_log_partition_drop_targets`. -/
def calculateDropTargets (D : Decimals) (T : LogTable) (estimate : String → Option ℕ)
    (retentionDays : ℤ) (now : UtcTime) : Except Fault (List DropTarget) := do
  let cutoff ← retentionCutoff now retentionDays
  let protectedMonths ← protectedPartitionMonths now
  let listed ← T.listMonthlyPartitions D
  let targets ← listed.mapM (dropTarget T estimate cutoff protectedMonths)
  .ok (targets.filterMap id)

/-- One turn of the loop of `drop_delivery_log_partitions`. -/
def dropPartition (D : Decimals) (protectedMonths : List Month) (done : LogTable × ℕ)
    (target : DropTarget) : Except Fault (LogTable × ℕ) := do
  if target.monthStart ∈ protectedMonths then
    .error (.valueError
      ("refusing to drop protected delivery_logs partition: " ++ target.partitionName))
  else
    let _ ← quotePartitionIdent D target.partitionName
    let month ← partitionMonthFromName D target.partitionName
    if month = some target.monthStart then
      .ok (done.1.dropTable target.partitionName, done.2 + target.rowCount)
    else
      .error (.valueError
        ("delivery_logs partition target metadata mismatch: " ++ target.partitionName))

/-- `drop_delivery_log_partitions`, the whole of which is one transaction. -/
def dropPartitions (D : Decimals) (T : LogTable) (targets : List DropTarget) (now : UtcTime) :
    Except Fault (LogTable × ℕ) := do
  let protectedMonths ← protectedPartitionMonths now
  targets.foldlM (dropPartition D protectedMonths) (T, 0)

/-! ### A name is read for its month -/

section Names

variable (D : Decimals)

theorem readDecimals_digits (width acc n : ℕ) (rest : List Char) :
    readDecimals D width acc (UtcTime.digits width n ++ rest) =
      some (acc * 10 ^ width + n % 10 ^ width, rest) := by
  induction width generalizing acc with
  | zero => simp [readDecimals, UtcTime.digits, Nat.mod_one]
  | succ width ih =>
    simp only [UtcTime.digits, List.cons_append, readDecimals,
      D.value_ascii _ (Nat.mod_lt _ (by norm_num)), Option.bind_some, ih]
    congr 2
    rw [Nat.mod_pow_succ, pow_succ]
    ring

theorem readDecimals_field {width n : ℕ} (h : n < 10 ^ width) (rest : List Char) :
    readDecimals D width 0 (UtcTime.digits width n ++ rest) = some (n, rest) := by
  rw [readDecimals_digits, Nat.mod_eq_of_lt h, zero_mul, zero_add]

theorem matchPartition_partitionName (m : Month) :
    matchPartition D (partitionName m) = some (m.year, m.month) := by
  have hy : m.year < 10 ^ 4 := m.year_bounds.2
  have hm : m.month < 10 ^ 2 := m.month_bounds.2.trans (by norm_num)
  have hmonth := readDecimals_field D hm []
  rw [List.append_nil] at hmonth
  simp only [matchPartition, partitionName, String.toList_ofList, List.take_left, List.drop_left,
    ↓reduceIte, readDecimals_field D hy, Option.bind_eq_bind, Option.bind_some,
    UtcTime.readChar_cons, hmonth, true_or]

theorem partitionMonthFromName_partitionName (m : Month) :
    partitionMonthFromName D (partitionName m) = .ok (some m) := by
  have hm := m.month_bounds
  have hmonth : ¬ (m.month < 1 ∨ 12 < m.month) := by omega
  rw [partitionMonthFromName, matchPartition_partitionName]
  simp only [if_neg hmonth, dateOf, dif_pos (And.intro m.year_bounds m.month_bounds)]
  rfl

/-- Only a name the pattern matches is read for a month. -/
theorem matchPartition_of_month {name : String} {m : Month}
    (h : partitionMonthFromName D name = .ok (some m)) : (matchPartition D name).isSome := by
  unfold partitionMonthFromName at h
  cases hmatch : matchPartition D name with
  | none => simp [hmatch] at h
  | some _ => rfl

end Names

theorem addMonth_ok {m n : Month} : addMonth m = .ok n ↔ m.next = some n := by
  unfold addMonth
  cases h : m.next <;> simp

/-! ### What every statement keeps of the table -/

/-- The times of the partition are those of the month in its name, if there is one. -/
def Partition.Sound (D : Decimals) (p : Partition) : Prop :=
  ∀ m, partitionMonthFromName D p.name = .ok (some m) →
    ∃ next, m.next = some next ∧ p.lower = m.first ∧ p.upper = next.first

namespace LogTable

structure Sound (D : Decimals) (T : LogTable) : Prop where
  partitions : ∀ p ∈ T.partitions, p.Sound D
  names : (T.partitions.map (·.name)).Nodup
  disjoint : T.partitions.Pairwise fun p q => ∀ t, p.holds t = true → q.holds t = false
  ids : (T.rows.map (·.id)).Nodup
  fresh : ∀ r ∈ T.rows, r.id < T.nextId

variable {D : Decimals} {T T' : LogTable}

/-- Fewer rows and fewer partitions are no less sound. -/
theorem Sound.sublist (h : T.Sound D) (hpartitions : T'.partitions.Sublist T.partitions)
    (hrows : T'.rows.Sublist T.rows) (hid : T'.nextId = T.nextId) : T'.Sound D where
  partitions p hp := h.partitions p (hpartitions.subset hp)
  names := h.names.sublist (hpartitions.map _)
  disjoint := h.disjoint.sublist hpartitions
  ids := h.ids.sublist (hrows.map _)
  fresh r hr := by
    rw [hid]
    exact h.fresh r (hrows.subset hr)

theorem Sound.dropTable (h : T.Sound D) (name : String) : (T.dropTable name).Sound D :=
  h.sublist List.filter_sublist List.filter_sublist rfl

theorem Sound.ensureDefaultPartition (h : T.Sound D) : T.ensureDefaultPartition.Sound D :=
  ⟨h.partitions, h.names, h.disjoint, h.ids, h.fresh⟩

/-- A month's partition is there or is made, and the rows stay as they are. -/
theorem ensurePartition_ok {m : Month} (hT : T.ensurePartition m = .ok T') :
    T' = T ∨ ∃ next, m.next = some next ∧ partitionName m ∉ T.partitions.map (·.name) ∧
      (∀ p ∈ T.partitions, p.lower < next.first → p.upper ≤ m.first) ∧
      T' = { T with
        partitions := T.partitions ++ [⟨partitionName m, m.first, next.first⟩] } := by
  obtain ⟨next, hnext, hcreate⟩ := Raising.bind_eq_ok hT
  rw [addMonth_ok] at hnext
  unfold createPartition at hcreate
  split_ifs at hcreate with hname hoverlap
  · exact Or.inl (Except.ok.inj hcreate).symm
  · refine Or.inr ⟨next, hnext, by simpa using hname, ?_, (Except.ok.inj hcreate).symm⟩
    simpa using hoverlap

theorem Sound.ensurePartition (h : T.Sound D) {m : Month} (hT : T.ensurePartition m = .ok T') :
    T'.Sound D := by
  obtain rfl | ⟨next, hnext, hname, hapart, rfl⟩ := ensurePartition_ok hT
  · exact h
  · refine ⟨?_, ?_, ?_, h.ids, h.fresh⟩
    · intro p hp
      rcases List.mem_append.1 hp with hp | hp
      · exact h.partitions p hp
      · obtain rfl := List.mem_singleton.1 hp
        intro month hmonth
        rw [partitionMonthFromName_partitionName] at hmonth
        injection hmonth with hmonth
        injection hmonth with hmonth
        subst hmonth
        exact ⟨next, hnext, rfl, rfl⟩
    · rw [List.map_append]
      exact List.Nodup.append h.names (List.nodup_singleton _) (by simpa using hname)
    · rw [List.pairwise_append]
      refine ⟨h.disjoint, List.pairwise_singleton _ _, ?_⟩
      intro p hp q hq t ht
      obtain rfl := List.mem_singleton.1 hq
      have hheld : p.lower ≤ t ∧ t < p.upper := by simpa [Partition.holds] using ht
      have hnot (hlt : t < next.first) : t < m.first :=
        hheld.2.trans_le (hapart p hp (hheld.1.trans_lt hlt))
      simp only [Partition.holds, decide_eq_false_iff_not]
      exact fun hin => absurd (hnot hin.2) (not_lt.2 hin.1)

theorem ensurePartition_rows {m : Month} (hT : T.ensurePartition m = .ok T') :
    T'.rows = T.rows := by
  obtain rfl | ⟨next, -, -, -, rfl⟩ := ensurePartition_ok hT <;> rfl

theorem ensureMonths_ok {count : ℕ} {m : Month} (h : T.Sound D)
    (hT : ensureMonths count m T = .ok T') : T'.Sound D ∧ T'.rows = T.rows := by
  induction count generalizing m T with
  | zero =>
    obtain rfl := Except.ok.inj hT
    exact ⟨h, rfl⟩
  | succ count ih =>
    obtain ⟨U, hU, hT⟩ := Raising.bind_eq_ok hT
    obtain ⟨next, -, hT⟩ := Raising.bind_eq_ok hT
    obtain ⟨hsound, hrows⟩ := ih (h.ensurePartition hU) hT
    exact ⟨hsound, hrows.trans (ensurePartition_rows hU)⟩

/-- Making partitions is additive only. -/
theorem ensurePartitions_ok {start : UtcTime} {monthsAhead : ℤ} (h : T.Sound D)
    (hT : T.ensurePartitions start monthsAhead = .ok T') : T'.Sound D ∧ T'.rows = T.rows := by
  obtain ⟨U, hU, rfl⟩ := Raising.map_eq_ok hT
  obtain ⟨hsound, hrows⟩ := ensureMonths_ok h hU
  exact ⟨hsound.ensureDefaultPartition, hrows⟩

theorem insert_ok {ensured : Bool} {t : UtcTime} (h : T.Sound D)
    (hT : T.insert ensured t = .ok T') :
    T'.Sound D ∧ ∃ id, T'.rows = T.rows ++ [⟨t, id⟩] := by
  obtain ⟨U, hU, hT⟩ := Raising.bind_eq_ok hT
  obtain ⟨hsound, hrows⟩ : U.Sound D ∧ U.rows = T.rows := by
    cases ensured with
    | true =>
      obtain rfl := Except.ok.inj hU
      exact ⟨h, rfl⟩
    | false => exact ⟨h.ensurePartition hU, ensurePartition_rows hU⟩
  split_ifs at hT
  obtain rfl := Except.ok.inj hT
  refine ⟨⟨hsound.partitions, hsound.names, hsound.disjoint, ?_, ?_⟩, U.nextId, by rw [hrows]⟩
  · rw [List.map_append]
    refine List.Nodup.append hsound.ids (List.nodup_singleton _) ?_
    rw [List.map_singleton, List.disjoint_singleton, List.mem_map]
    rintro ⟨r, hr, hid⟩
    exact (hsound.fresh r hr).ne hid
  · intro r hr
    rcases List.mem_append.1 hr with hr | hr
    · exact (hsound.fresh r hr).trans (Nat.lt_succ_self _)
    · obtain rfl := List.mem_singleton.1 hr
      exact Nat.lt_succ_self _

end LogTable

/-! ### What is dropped -/

theorem retentionCutoff_ok {now cutoff : UtcTime} {days : ℤ}
    (h : retentionCutoff now days = .ok cutoff) : cutoff < now := by
  unfold retentionCutoff at h
  cases hminus : now.minusDays (max 1 days).toNat with
  | none => simp [hminus] at h
  | some t =>
    simp only [hminus, Option.elim_some, Except.ok.injEq] at h
    subst h
    exact UtcTime.minusDays_lt (by omega) hminus

/-- A target is a partition whose month was over before the month of the cutoff. -/
structure DropTarget.Due (D : Decimals) (cutoff : UtcTime) (t : DropTarget) : Prop where
  month : partitionMonthFromName D t.partitionName = .ok (some t.monthStart)
  next : t.monthStart.next = some t.monthEnd
  past : t.monthEnd ≤ cutoff.inMonth

theorem due_of_dropTarget {D : Decimals} {T : LogTable} {estimate : String → Option ℕ}
    {cutoff : UtcTime} {protectedMonths : List Month} {listed : String × Month} {t : DropTarget}
    (hlisted : partitionMonthFromName D listed.1 = .ok (some listed.2))
    (h : dropTarget T estimate cutoff protectedMonths listed = .ok (some t)) : t.Due D cutoff := by
  obtain ⟨monthEnd, hnext, h⟩ := Raising.bind_eq_ok h
  split_ifs at h with hprotected hlate
  · cases h
  · cases h
  · injection h with h
    injection h with h
    subst h
    exact ⟨hlisted, addMonth_ok.1 hnext, not_lt.1 hlate⟩

theorem month_of_listed {D : Decimals} {T : LogTable} {listed : List (String × Month)}
    (h : T.listMonthlyPartitions D = .ok listed) {p : String × Month} (hp : p ∈ listed) :
    partitionMonthFromName D p.1 = .ok (some p.2) := by
  obtain ⟨months, hmonths, h⟩ := Raising.bind_eq_ok h
  injection h with h
  subst h
  obtain ⟨⟨name, month⟩, hzip, hp⟩ := List.mem_filterMap.1 hp
  obtain ⟨m, rfl, rfl⟩ := Option.map_eq_some_iff.1 hp
  exact List.forall₂_iff_zip.1 (Raising.forall₂_of_mapM_ok hmonths) |>.2 hzip

/-- Every target of a calculation is due at the cutoff of its clock. -/
theorem due_of_calculate {D : Decimals} {T : LogTable} {estimate : String → Option ℕ} {days : ℤ}
    {now : UtcTime} {targets : List DropTarget}
    (h : calculateDropTargets D T estimate days now = .ok targets) :
    ∃ cutoff, retentionCutoff now days = .ok cutoff ∧ ∀ t ∈ targets, t.Due D cutoff := by
  obtain ⟨cutoff, hcutoff, h⟩ := Raising.bind_eq_ok h
  obtain ⟨protectedMonths, -, h⟩ := Raising.bind_eq_ok h
  obtain ⟨listed, hlisted, h⟩ := Raising.bind_eq_ok h
  obtain ⟨found, hfound, h⟩ := Raising.bind_eq_ok h
  injection h with h
  subst h
  refine ⟨cutoff, hcutoff, ?_⟩
  intro t ht
  obtain ⟨o, ho, rfl⟩ := List.mem_filterMap.1 ht
  obtain ⟨p, hp, hdrop⟩ := Raising.of_mem_mapM_ok hfound ho
  exact due_of_dropTarget (month_of_listed hlisted hp) hdrop

/-- The targets have the names of partitions, each once, in the order of the list. -/
theorem targets_sublist {T : LogTable} {estimate : String → Option ℕ}
    {cutoff : UtcTime} {protectedMonths : List Month} {listed : List (String × Month)}
    {found : List (Option DropTarget)}
    (h : listed.mapM (dropTarget T estimate cutoff protectedMonths) = .ok found) :
    ((found.filterMap id).map (·.partitionName)).Sublist (listed.map Prod.fst) ∧
      ∀ t ∈ found.filterMap id, t.rowCount = T.partitionRowCount estimate t.partitionName := by
  have hpairs := Raising.forall₂_of_mapM_ok h
  clear h
  induction hpairs with
  | nil => simp
  | @cons p o listed found hhead _ ih =>
    obtain ⟨monthEnd, -, hhead⟩ := Raising.bind_eq_ok hhead
    split_ifs at hhead with hprotected hlate
    · obtain rfl := Except.ok.inj hhead
      exact ⟨ih.1.cons _, ih.2⟩
    · obtain rfl := Except.ok.inj hhead
      exact ⟨ih.1.cons _, ih.2⟩
    · obtain rfl := Except.ok.inj hhead
      refine ⟨ih.1.cons_cons _, ?_⟩
      intro t ht
      rcases List.mem_cons.1 ht with rfl | ht
      · rfl
      · exact ih.2 t ht

theorem names_of_zip (names : List String) (months : List (Option Month)) :
    (((names.zip months).filterMap fun p => p.2.map (Prod.mk p.1)).map Prod.fst).Sublist names := by
  induction names generalizing months with
  | nil => simp
  | cons name names ih =>
    cases months with
    | nil => simp
    | cons month months =>
      cases month with
      | none => exact (ih months).cons _
      | some m => exact (ih months).cons_cons _

theorem nodup_of_calculate {D : Decimals} {T : LogTable} (hT : T.Sound D)
    {estimate : String → Option ℕ} {days : ℤ} {now : UtcTime} {targets : List DropTarget}
    (h : calculateDropTargets D T estimate days now = .ok targets) :
    (targets.map (·.partitionName)).Nodup ∧
      ∀ t ∈ targets, t.rowCount = T.partitionRowCount estimate t.partitionName := by
  obtain ⟨cutoff, -, h⟩ := Raising.bind_eq_ok h
  obtain ⟨protectedMonths, -, h⟩ := Raising.bind_eq_ok h
  obtain ⟨listed, hlisted, h⟩ := Raising.bind_eq_ok h
  obtain ⟨found, hfound, h⟩ := Raising.bind_eq_ok h
  obtain rfl := Except.ok.inj h
  obtain ⟨months, -, hlisted⟩ := Raising.bind_eq_ok hlisted
  obtain rfl := Except.ok.inj hlisted
  obtain ⟨hsub, hcounts⟩ := targets_sublist hfound
  refine ⟨(hsub.trans (names_of_zip _ _)).nodup ?_, hcounts⟩
  exact (List.perm_insertionSort _ _).nodup_iff.2 hT.names

/-! ### What dropping leaves -/

namespace LogTable

/-- One table after the other is dropped. -/
def dropTables (T : LogTable) (names : List String) : LogTable := names.foldl dropTable T

variable {D : Decimals} {T : LogTable}

theorem Sound.dropTables (h : T.Sound D) (names : List String) : (T.dropTables names).Sound D := by
  induction names generalizing T with
  | nil => exact h
  | cons name names ih => exact ih (h.dropTable name)

theorem inPartition_dropTable_self (name : String) (r : LogRow) :
    (T.dropTable name).inPartition name r = false := by
  simp only [inPartition, dropTable, List.any_eq_false, List.mem_filter, decide_eq_true_eq]
  rintro p ⟨-, hne⟩ ⟨heq, -⟩
  exact hne heq

theorem inPartition_dropTable_of_ne {name name' : String} (hne : name' ≠ name) (r : LogRow) :
    (T.dropTable name).inPartition name' r = T.inPartition name' r := by
  simp only [inPartition, dropTable, List.any_filter]
  congr 1
  funext p
  by_cases hp : p.name = name'
  · simp [hp, hne]
  · simp [hp]

/-- No row is in two partitions. -/
theorem Sound.inPartition_unique (h : T.Sound D) {name name' : String} {r : LogRow}
    (hname : T.inPartition name r = true) (hname' : T.inPartition name' r = true) :
    name = name' := by
  simp only [inPartition, List.any_eq_true, decide_eq_true_eq] at hname hname'
  obtain ⟨p, hp, rfl, hheld⟩ := hname
  obtain ⟨q, hq, rfl, hheld'⟩ := hname'
  by_contra hne
  have hpq : p ≠ q := fun heq => hne (congrArg Partition.name heq)
  have : Std.Symm fun p q : Partition => ∀ t, p.holds t = true → q.holds t = false := by
    constructor
    intro p q hapart t ht
    by_contra hp
    exact absurd ht (by simpa using hapart t (by simpa using hp))
  have hapart := h.disjoint.forall hp hq hpq
  rw [hapart _ hheld] at hheld'
  exact Bool.false_ne_true hheld'

/-- What is left are the rows in none of the partitions. -/
theorem dropTables_rows (names : List String) :
    (T.dropTables names).rows =
      T.rows.filter fun r => names.all fun name => !T.inPartition name r := by
  induction names generalizing T with
  | nil => simp [dropTables]
  | cons name names ih =>
    rw [show T.dropTables (name :: names) = (T.dropTable name).dropTables names from rfl, ih]
    rw [show (T.dropTable name).rows = T.rows.filter fun r => !T.inPartition name r from rfl,
      List.filter_filter]
    congr 1
    funext r
    rw [List.all_cons, Bool.and_comm]
    cases hin : T.inPartition name r with
    | true => rfl
    | false =>
      congr 2
      funext name'
      by_cases hne : name' = name
      · subst hne
        rw [inPartition_dropTable_self, hin]
      · rw [inPartition_dropTable_of_ne hne]

/-- Rows that disjoint conditions single out, and the rest, add up to all rows. -/
theorem sum_countP_add_length (rows : List LogRow) {names : List String} (hnodup : names.Nodup)
    {inside : String → LogRow → Bool}
    (hunique : ∀ name name' r, inside name r = true → inside name' r = true → name = name') :
    (names.map fun name => rows.countP (inside name)).sum +
      (rows.filter fun r => names.all fun name => !inside name r).length = rows.length := by
  induction names generalizing rows with
  | nil => simp
  | cons name names ih =>
    obtain ⟨hnot, hnodup⟩ := List.nodup_cons.1 hnodup
    have hrest := ih (rows.filter fun r => !inside name r) hnodup
    rw [List.filter_filter] at hrest
    have hcounts : (names.map fun name' =>
        (rows.filter fun r => !inside name r).countP (inside name')).sum =
        (names.map fun name' => rows.countP (inside name')).sum := by
      congr 1
      apply List.map_congr_left
      intro name' hname'
      rw [List.countP_filter]
      apply List.countP_congr
      intro r _
      simp only [Bool.and_eq_true, Bool.not_eq_true', and_iff_left_iff_imp]
      intro hin
      by_contra hin'
      rw [Bool.not_eq_false] at hin'
      exact hnot (hunique _ _ r hin hin' ▸ hname')
    have hfilter :
        (rows.filter fun r => (names.all fun name' => !inside name' r) && !inside name r) =
        rows.filter fun r => (name :: names).all fun name' => !inside name' r := by
      congr 1
      funext r
      rw [List.all_cons, Bool.and_comm]
    rw [hcounts, hfilter] at hrest
    have hsplit := List.length_eq_countP_add_countP (l := rows) (inside name)
    have hout : rows.countP (fun r => decide ¬ inside name r = true) =
        (rows.filter fun r => !inside name r).length := by
      rw [List.countP_eq_length_filter]
      congr 2
      funext r
      cases inside name r <;> rfl
    rw [List.map_cons, List.sum_cons]
    omega

end LogTable

/-- Targets that are due are dropped, whatever the clock has gone on to since. -/
theorem foldlM_dropPartition {D : Decimals} {cutoff : UtcTime} {protectedMonths : List Month}
    {targets : List DropTarget} (hdue : ∀ t ∈ targets, t.Due D cutoff)
    (hprotected : ∀ t ∈ targets, t.monthStart ∉ protectedMonths) (T : LogTable) (n : ℕ) :
    targets.foldlM (dropPartition D protectedMonths) (T, n) =
      .ok (T.dropTables (targets.map (·.partitionName)),
        n + (targets.map (·.rowCount)).sum) := by
  induction targets generalizing T n with
  | nil => rfl
  | cons t targets ih =>
    have ht := hdue t List.mem_cons_self
    have hturn : dropPartition D protectedMonths (T, n) t =
        .ok (T.dropTable t.partitionName, n + t.rowCount) := by
      simp only [dropPartition, if_neg (hprotected t List.mem_cons_self), quotePartitionIdent,
        matchPartition_of_month D ht.month, ht.month, ↓reduceIte]
      exact if_pos rfl
    rw [List.foldlM_cons, hturn]
    change List.foldlM _ (T.dropTable t.partitionName, n + t.rowCount) targets = _
    rw [ih (fun u hu => hdue u (List.mem_cons_of_mem _ hu))
      (fun u hu => hprotected u (List.mem_cons_of_mem _ hu)), List.map_cons, List.map_cons,
      List.sum_cons, Nat.add_assoc]
    rfl

/-- A month that is due is over before the one of the clock. -/
theorem DropTarget.Due.not_protected {D : Decimals} {cutoff now : UtcTime} {t : DropTarget}
    (h : t.Due D cutoff) (hcutoff : cutoff ≤ now) {protectedMonths : List Month}
    (hprotected : protectedPartitionMonths now = .ok protectedMonths) :
    t.monthStart ∉ protectedMonths := by
  have hlt : t.monthStart < now.inMonth :=
    (Month.lt_next h.next).trans_le (h.past.trans (UtcTime.inMonth_mono hcutoff))
  obtain ⟨next, hnext, rfl⟩ := Raising.map_eq_ok hprotected
  have hnow := Month.lt_next (addMonth_ok.1 hnext)
  simp only [List.mem_cons, List.not_mem_nil, or_false]
  rintro (heq | heq)
  · exact hlt.ne heq
  · exact (hlt.trans hnow).ne heq

/-- The drop of due targets never fails where the protected months can be told. -/
theorem dropPartitions_ok {D : Decimals} {cutoff now : UtcTime} {targets : List DropTarget}
    {protectedMonths : List Month} (hdue : ∀ t ∈ targets, t.Due D cutoff) (hcutoff : cutoff ≤ now)
    (hprotected : protectedPartitionMonths now = .ok protectedMonths) (T : LogTable) :
    dropPartitions D T targets now = .ok (T.dropTables (targets.map (·.partitionName)),
      (targets.map (·.rowCount)).sum) := by
  rw [dropPartitions, hprotected]
  change List.foldlM _ (T, 0) targets = _
  rw [foldlM_dropPartition hdue (fun t ht => (hdue t ht).not_protected hcutoff hprotected),
    Nat.zero_add]

/-- The rows of a partition that is due are of months before the one of the cutoff. -/
theorem DropTarget.Due.older {D : Decimals} {T : LogTable} (hT : T.Sound D) {cutoff : UtcTime}
    {t : DropTarget} (h : t.Due D cutoff) {r : LogRow}
    (hr : T.inPartition t.partitionName r = true) : r.createdAt < cutoff.inMonth.first := by
  simp only [LogTable.inPartition, List.any_eq_true, decide_eq_true_eq] at hr
  obtain ⟨p, hp, hname, hheld⟩ := hr
  have hmonth : partitionMonthFromName D p.name = .ok (some t.monthStart) := by
    rw [hname]
    exact h.month
  obtain ⟨monthEnd, hnext, -, hupper⟩ := hT.partitions p hp t.monthStart hmonth
  obtain rfl : monthEnd = t.monthEnd := Option.some.inj (hnext.symm.trans h.next)
  have hlt : r.createdAt < t.monthEnd.first := by
    rw [← hupper]
    simp only [Partition.holds, decide_eq_true_eq] at hheld
    exact hheld.2
  exact hlt.trans_le (UtcTime.first_le_iff.2 h.past)

/-- What a drop leaves of the rows, and that it counts those that went where nothing is
estimated. -/
theorem dropped_rows {D : Decimals} {T : LogTable} (hT : T.Sound D) {cutoff : UtcTime}
    {targets : List DropTarget} (hdue : ∀ t ∈ targets, t.Due D cutoff)
    (hnodup : (targets.map (·.partitionName)).Nodup) {estimate : String → Option ℕ}
    (hcounts : ∀ t ∈ targets, t.rowCount = T.partitionRowCount estimate t.partitionName) :
    (∀ r ∈ T.rows, r ∉ (T.dropTables (targets.map (·.partitionName))).rows →
      r.createdAt < cutoff.inMonth.first) ∧
    ((∀ name, estimate name = none) → (targets.map (·.rowCount)).sum +
      (T.dropTables (targets.map (·.partitionName))).rows.length = T.rows.length) := by
  rw [LogTable.dropTables_rows]
  constructor
  · intro r hr hgone
    have hsome : ∃ t ∈ targets, T.inPartition t.partitionName r = true := by
      simpa [hr] using hgone
    obtain ⟨t, ht, hin⟩ := hsome
    exact (hdue t ht).older hT hin
  · intro hexact
    have hsums : targets.map (·.rowCount) = (targets.map (·.partitionName)).map fun name =>
        T.rows.countP (T.inPartition name) := by
      rw [List.map_map]
      apply List.map_congr_left
      intro t ht
      rw [hcounts t ht, LogTable.partitionRowCount, hexact]
      rfl
    rw [hsums]
    exact LogTable.sum_countP_add_length T.rows hnodup fun _ _ _ => hT.inPartition_unique

end Retention
