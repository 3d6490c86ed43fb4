import DataRelay.Sources.DatabasePaging

/-! A single checkpoint column with ties. The filter is strict and the page is cut at its limit,
so that the rest of a group of equal values is passed over when a page ends inside it. -/
namespace Sources
open Delivery Runner Keyset

namespace Poller

variable {V : Type*} {p : Poller V}

structure Single (p : Poller V) : Prop where
  mode : p.cursor.mode = .singleColumn
  column_valid : validSqlIdentifier p.cursor.checkpointColumn = true

def HasColumn (p : Poller V) (row : SqlRow V) : Prop :=
  ∃ a, row.cell p.cursor.checkpointColumn = some a

def column (p : Poller V) : SqlRow V → WithTop V := rank p.cursor.checkpointColumn

theorem build_single (hp : p.Single) (checkpoint : Option Json.Members) :
    p.cursor.buildWrappedSelect p.maxRows checkpoint none = .ok
      ⟨match extractWatermarkOnly checkpoint p.cursor.checkpointColumn with
        | none => []
        | some last => [.gt p.cursor.checkpointColumn last],
        [p.cursor.checkpointColumn], p.limit⟩ := by
  cases hlast : extractWatermarkOnly checkpoint p.cursor.checkpointColumn <;>
    simp [DatabaseCursor.buildWrappedSelect, DatabaseCursor.checkpointFilter,
      DatabaseCursor.orderParts, hp.mode, ne_empty_of_identifier hp.column_valid,
      validateSqlIdentifier_ok hp.column_valid, Except.bind, Except.map, limit, hlast]

theorem attach_single (hp : p.Single) {row : SqlRow V} {a : V}
    (ha : row.cell p.cursor.checkpointColumn = some a) :
    p.cursor.attach (p.db.rowEvent row) =
      Dict.set "gdc_db_watermark" (p.watermarkOf a) (p.db.rowEvent row) := by
  simp only [DatabaseCursor.attach, get?_rowEvent_of_cell p.db ha, hp.mode, watermarkOf]
  split <;> simp [ne_empty_of_identifier hp.column_valid]

/-- The checkpoint after a page stands for the column of its last row. -/
theorem singleCursor_next (hp : p.Single) {page : List (SqlRow V)}
    (hcolumn : ∀ r ∈ page, p.HasColumn r) (hkeeps : ∀ r ∈ page, p.Keeps r)
    {checkpoint : Option Json.Members} {cursor : WithBot (WithTop V)}
    (hc : p.singleCursor checkpoint = some cursor) :
    p.singleCursor (p.nextCheckpoint checkpoint page) = some (advance p.column cursor page) := by
  rcases List.eq_nil_or_concat page with rfl | ⟨front, last, rfl⟩
  · simpa [nextCheckpoint] using hc
  rw [List.concat_eq_append] at *
  obtain ⟨a, ha⟩ := hcolumn last (by simp)
  have hkeep := hkeeps last (by simp)
  obtain ⟨hsome, hdecode⟩ := hkeep.binds _ (by simp [cursorColumns, hp.mode]) a ha
  have hextract : extractWatermarkOnly (p.nextCheckpoint checkpoint (front ++ [last]))
      p.cursor.checkpointColumn = some (p.watermarkOf a) := by
    have hroute := hkeep.route
    simp only [Unshadowed, SourceOrigin.attach, hp.mode, attach_single hp ha] at hroute
    have hread := hroute (p.watermarkOf a) (by simp)
    have hsome' : p.watermarkOf a ≠ .null := hsome
    rw [nextCheckpoint_concat, attach_single hp ha, extractWatermarkOnly,
      (storedFields_seen _ _ _).extractComposite_eq]
    simp only [get?_copyEventMetadata, hread, hsome', ↓reduceIte, Option.map_some]
  have hcol : p.column last = (a : WithTop V) := ha
  simp only [singleCursor, hextract, watermarkOf, hdecode, advance_concat, hcol]

/-- A route that keeps the column and its metadata, or leaves them out, keeps the row. -/
theorem Single.keeps (hp : p.Single) {row : SqlRow V} {a : V}
    (ha : row.cell p.cursor.checkpointColumn = some a)
    (hroute : ∀ k ∈ [p.cursor.checkpointColumn, "gdc_db_watermark"], ∀ v,
      Dict.get? k (p.transform (p.cursor.attach (p.db.rowEvent row))) = some v →
        Dict.get? k (p.cursor.attach (p.db.rowEvent row)) = some v)
    (hbinds : p.db.ReadsBack p.cursor.checkpointColumn a) : p.Keeps row := by
  refine ⟨?_, fun column hcolumn v hv => ?_⟩
  swap
  · simp only [cursorColumns, hp.mode, List.mem_singleton] at hcolumn
    subst hcolumn
    exact Option.some.inj (ha.symm.trans hv) ▸ hbinds
  simp only [Unshadowed, SourceOrigin.attach, hp.mode, attach_single hp ha] at hroute ⊢
  intro wm hwm
  rw [Dict.get?_set, if_pos rfl, Option.some_inj] at hwm
  rw [← hwm]
  refine read_of_keeps (hroute _ (by simp)) (hroute _ (by simp)) (by decide) ?_ (by simp)
  rw [Dict.get?_set, get?_rowEvent_of_cell p.db ha, ← watermarkOf, ite_self]

variable [LinearOrder V]

/-- With a readable checkpoint the query returns the pages past its cursor. -/
theorem fetches_single_iff (hp : p.Single) {table page : List (SqlRow V)}
    (hcolumn : ∀ r ∈ table, p.HasColumn r) {checkpoint : Option Json.Members}
    {cursor : WithBot (WithTop V)} (hc : p.singleCursor checkpoint = some cursor) :
    p.Fetches table checkpoint page ↔ IsPage p.column p.limit table cursor page := by
  unfold singleCursor at hc
  have hbuild := build_single hp checkpoint
  cases hlast : extractWatermarkOnly checkpoint p.cursor.checkpointColumn with
  | none =>
    rw [hlast] at hc hbuild
    obtain rfl := Option.some.inj hc
    rw [fetches_iff_returns hbuild rfl]
    apply returns_iff_isPage
    · exact rowLe_iff_rank p.cursor.checkpointColumn
    · simp
  | some last =>
    rw [hlast] at hc hbuild
    cases hx : p.db.decode p.cursor.checkpointColumn last with
    | none => simp [hx] at hc
    | some x =>
      simp only [hx, Option.some.injEq] at hc
      subst hc
      refine (fetches_iff_returns hbuild (show p.db.bind _ = some (⟨[.gt p.cursor.checkpointColumn x],
        [p.cursor.checkpointColumn], p.limit⟩ : WrappedSelect V)
          by simp [Database.bind, Database.bindCondition, hx])).trans ?_
      apply returns_iff_isPage
      · exact rowLe_iff_rank p.cursor.checkpointColumn
      · intro r hr
        obtain ⟨a, ha⟩ := hcolumn r hr
        rw [List.all_cons, List.all_nil, Bool.and_true, Bool.eq_iff_iff, decide_eq_true_eq,
          WithBot.coe_lt_coe]
        exact holds_gt_iff p.cursor.checkpointColumn x ha

/-- Fetch, deliver and checkpoint until a fetch is empty; `emitted` are the rows in between. -/
inductive Drains (p : Poller V) (table : List (SqlRow V)) :
    Option Json.Members → List (SqlRow V) → Prop where
  | done {checkpoint : Option Json.Members} (h : p.Fetches table checkpoint []) :
    Drains p table checkpoint []
  | read {checkpoint : Option Json.Members} {page rest : List (SqlRow V)} (hne : page ≠ [])
    (h : p.Fetches table checkpoint page)
    (hrest : Drains p table (p.nextCheckpoint checkpoint page) rest) :
    Drains p table checkpoint (page ++ rest)

/-- Polling a table from the beginning ends, and every row is among those emitted by then. -/
def LosesNothing (p : Poller V) (table : List (SqlRow V)) : Prop :=
  (∃ emitted, p.Drains table none emitted) ∧
    ∀ emitted, p.Drains table none emitted → table.Subperm emitted

/-- Draining by the code's checkpoints is draining by the cursors they stand for. -/
theorem drains_iff (hp : p.Single) {table emitted : List (SqlRow V)}
    (hcolumn : ∀ r ∈ table, p.HasColumn r) (hkeeps : ∀ r ∈ table, p.Keeps r)
    {checkpoint : Option Json.Members} {cursor : WithBot (WithTop V)}
    (hc : p.singleCursor checkpoint = some cursor) :
    p.Drains table checkpoint emitted ↔ Keyset.Drains p.column p.limit table cursor emitted := by
  have hnext {page : List (SqlRow V)} {checkpoint : Option Json.Members}
      {cursor : WithBot (WithTop V)} (hc : p.singleCursor checkpoint = some cursor)
      (hpage : IsPage p.column p.limit table cursor page) :
      p.singleCursor (p.nextCheckpoint checkpoint page) = some (advance p.column cursor page) := by
    have hmem : ∀ r ∈ page, r ∈ table := fun r hr => (mem_above.mp (hpage.mem_above hr)).1
    exact singleCursor_next hp (fun r hr => hcolumn r (hmem r hr))
      (fun r hr => hkeeps r (hmem r hr)) hc
  constructor
  · intro h
    induction h generalizing cursor with
    | done h => exact .done ((fetches_single_iff hp hcolumn hc).mp h)
    | read hne h _ ih =>
      have hpage := (fetches_single_iff hp hcolumn hc).mp h
      exact .read hne hpage (ih (hnext hc hpage))
  · intro h
    induction h generalizing checkpoint with
    | done h => exact .done ((fetches_single_iff hp hcolumn hc).mpr h)
    | read hne h _ ih =>
      exact .read hne ((fetches_single_iff hp hcolumn hc).mpr h) (ih (hnext hc h))

/-- The values of the column in ascending order. -/
def sortedColumn (p : Poller V) (table : List (SqlRow V)) : List (WithTop V) :=
  (table.map p.column).insertionSort (· ≤ ·)

end Poller

open Poller in
/-- No row is lost exactly when no page ends inside a group of equal values. -/
theorem single_losesNothing_iff {V : Type*} [LinearOrder V] (p : Poller V) (hp : p.Single)
    (table : List (SqlRow V)) (hcolumn : ∀ r ∈ table, p.HasColumn r)
    (hkeeps : ∀ r ∈ table, p.Keeps r) :
    p.LosesNothing table ↔ Aligned p.limit (p.sortedColumn table) := by
  have hdrains (emitted : List (SqlRow V)) : p.Drains table none emitted ↔
      Keyset.Drains p.column p.limit table ⊥ emitted := drains_iff hp hcolumn hkeeps rfl
  have hall : above p.column ⊥ table = table := above_eq_self fun r _ => WithBot.bot_lt_coe _
  have hperm := List.perm_insertionSort (fun a b => p.column a ≤ p.column b) table
  have hsorted := List.pairwise_insertionSort (fun a b => p.column a ≤ p.column b) table
  have hkeys : (table.insertionSort fun a b => p.column a ≤ p.column b).map p.column =
      p.sortedColumn table := by
    refine ((hperm.map p.column).trans (List.perm_insertionSort _ _).symm).eq_of_pairwise
      (fun _ _ _ _ => le_antisymm) (List.pairwise_map.mpr hsorted) (List.pairwise_insertionSort _ _)
  have hcomplete {emitted : List (SqlRow V)}
      (h : Keyset.Drains p.column p.limit table ⊥ emitted) :
      table.Subperm emitted ↔ Aligned p.limit (p.sortedColumn table) := by
    have hiff := h.complete_iff one_le_limit (hall.symm ▸ hperm) hsorted
    rwa [hall, hkeys] at hiff
  obtain ⟨emitted, h⟩ := exists_drains p.column p.limit table ⊥
  constructor
  · rintro ⟨-, hlost⟩
    exact (hcomplete h).mp (hlost emitted ((hdrains emitted).mpr h))
  · intro haligned
    refine ⟨⟨emitted, (hdrains emitted).mpr h⟩, fun emitted' h' => ?_⟩
    exact (hcomplete ((hdrains emitted').mp h')).mpr haligned

/-- Rows by the time they were written, two to a page. -/
def auditPoller : Poller ℤ where
  db := intDatabase
  cursor := { mode := .singleColumn, checkpointColumn := "updated_at" }
  maxRows := 2

def auditRow (id updatedAt : ℤ) : SqlRow ℤ := [("id", some id), ("updated_at", some updatedAt)]

theorem auditPoller_single : auditPoller.Single := ⟨rfl, by rfl⟩

theorem auditRow_keeps (id updatedAt : ℤ) : auditPoller.Keeps (auditRow id updatedAt) :=
  auditPoller_single.keeps rfl (fun _ _ _ h => h) (intDatabase_readsBack _ _)

/-- The tie is inside the first page. -/
theorem auditPoller_losesNothing :
    auditPoller.LosesNothing [auditRow 1 10, auditRow 3 20, auditRow 2 10, auditRow 4 30] := by
  refine (single_losesNothing_iff auditPoller auditPoller_single _ ?_ ?_).mpr ?_
  · simp [Poller.HasColumn, auditRow, SqlRow.cell, auditPoller]
  · simp [auditRow_keeps]
  · have hsorted : auditPoller.sortedColumn
        [auditRow 1 10, auditRow 3 20, auditRow 2 10, auditRow 4 30] = [10, 10] ++ [20, 30] := by
      rfl
    have hlimit : auditPoller.limit = 2 := rfl
    rw [hsorted, hlimit]
    have hboundary : (10 : WithTop ℤ) < 20 := by decide
    exact (aligned_append rfl two_pos).mpr ⟨by simp [hboundary], aligned_of_length_le (by simp)⟩

/-- The second of the rows written at 20 is on no page. -/
theorem tiedAcrossPages_not_losesNothing :
    ¬ auditPoller.LosesNothing [auditRow 1 10, auditRow 2 20, auditRow 3 20] := by
  rintro ⟨-, h⟩
  have hdrains : auditPoller.Drains [auditRow 1 10, auditRow 2 20, auditRow 3 20] none
      ([auditRow 1 10, auditRow 2 20] ++ []) := by
    rw [Poller.drains_iff auditPoller_single ?_ ?_ (show auditPoller.singleCursor none = some ⊥ from rfl)]
    · refine .read (by simp) ⟨_, .refl _, by decide +kernel, rfl⟩ (.done ⟨[], ?_, by simp, rfl⟩)
      rfl
    · simp [Poller.HasColumn, auditRow, SqlRow.cell, auditPoller]
    · simp [auditRow_keeps]
  have hlength := (h _ hdrains).length_le
  simp at hlength

end Sources
