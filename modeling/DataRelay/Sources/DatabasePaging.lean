import DataRelay.Sources.DatabaseQuery

/-! Polling a database page after page. The wrapped query with its binds is a page of the keyset
library past the cursor the checkpoint stands for, and the checkpoint written after a page stands
for the last row of it. -/
namespace Sources
open Delivery Runner Keyset

section text

theorem not_isSpace_of_identifier {c : Char} (h : isIdentifierChar c = true) :
    PyText.isSpace c = false := by
  simp only [isIdentifierChar, isIdentifierStart, Bool.or_eq_true, Bool.and_eq_true,
    decide_eq_true_eq] at h
  have hnat : (65 ≤ c.toNat ∧ c.toNat ≤ 90) ∨ (97 ≤ c.toNat ∧ c.toNat ≤ 122) ∨ c.toNat = 95 ∨
      (48 ≤ c.toNat ∧ c.toNat ≤ 57) := by
    rcases h with ((h | h) | rfl) | h
    · exact .inl h
    · exact .inr (.inl h)
    · exact .inr (.inr (.inl rfl))
    · exact .inr (.inr (.inr h))
  simp only [PyText.isSpace, Bool.or_eq_false_iff, Bool.and_eq_false_iff, decide_eq_false_iff_not,
    beq_eq_false_iff_ne, ne_eq]
  omega

theorem strip_identifier {name : String} (h : validSqlIdentifier name = true) :
    PyText.strip name = name := by
  have hall : ∀ c ∈ name.toList, PyText.isSpace c = false := by
    intro c hc
    apply not_isSpace_of_identifier
    unfold validSqlIdentifier at h
    split at h
    · cases h
    · rename_i d cs hname
      rw [hname] at hc
      rw [Bool.and_eq_true, List.all_eq_true] at h
      rcases List.mem_cons.mp hc with rfl | hc
      · simp [isIdentifierChar, h.1]
      · exact h.2 c hc
  rw [PyText.strip, PyText.stripChars_eq_self (fun c hc => hall c (List.mem_of_mem_head? hc))
    (fun c hc => hall c (List.mem_of_mem_getLast? hc)), String.ofList_toList]

theorem validateSqlIdentifier_ok {name : String} (h : validSqlIdentifier name = true)
    (field : String) : validateSqlIdentifier name field = .ok name := by
  rw [validateSqlIdentifier, strip_identifier h, if_pos h]

theorem ne_empty_of_identifier {name : String} (h : validSqlIdentifier name = true) : name ≠ "" := by
  rintro rfl
  simp [validSqlIdentifier] at h

end text

section rows

variable {V : Type*} (db : Database V)

theorem get?_rowEvent (row : SqlRow V) (k : String) :
    Dict.get? k (db.rowEvent row) = (Dict.get? k row).map fun v => v.elim .null (db.encode k) := by
  induction row with
  | nil => rfl
  | cons m row ih =>
    obtain ⟨l, v⟩ := m
    by_cases hl : l = k
    · subst hl
      simp [Database.rowEvent]
    · simp only [Database.rowEvent, List.map_cons, Dict.get?_cons, hl, ↓reduceIte]
      exact ih

theorem get?_rowEvent_of_cell {row : SqlRow V} {k : String} {v : V} (h : row.cell k = some v) :
    Dict.get? k (db.rowEvent row) = some (db.encode k v) := by
  rw [SqlRow.cell, Option.join_eq_some_iff] at h
  rw [get?_rowEvent, h]
  rfl

end rows

/-! ### The cursor -/

namespace Poller

variable {V : Type*} (p : Poller V)

/-- The place of a row in the order of the query. -/
def rank (column : String) (row : SqlRow V) : WithTop V := row.cell column

/-- The pair a composite cursor goes by. -/
def pair (row : SqlRow V) : WithTop V ×ₗ WithTop V :=
  toLex (rank p.cursor.checkpointColumn row, rank p.cursor.checkpointOrderColumn row)

def limit : ℕ := (max 1 p.maxRows).toNat

/-- The cursor a checkpoint stands for; `none` when the database cannot read it. -/
def compositeCursor (checkpoint : Option Json.Members) :
    Option (WithBot (WithTop V ×ₗ WithTop V)) :=
  match extractComposite checkpoint p.cursor.checkpointColumn (some p.cursor.checkpointOrderColumn) with
  | none => some ⊥
  | some (lw, lo) =>
    match p.db.decode p.cursor.checkpointColumn lw, p.db.decode p.cursor.checkpointOrderColumn lo with
    | some x, some y =>
      some ((toLex ((x : WithTop V), (y : WithTop V)) : WithTop V ×ₗ WithTop V) : WithBot _)
    | _, _ => none

def singleCursor (checkpoint : Option Json.Members) : Option (WithBot (WithTop V)) :=
  match extractWatermarkOnly checkpoint p.cursor.checkpointColumn with
  | none => some ⊥
  | some lw =>
    match p.db.decode p.cursor.checkpointColumn lw with
    | some x => some ((x : WithTop V) : WithBot _)
    | none => none

/-- The columns whose values a run resumes from. -/
def cursorColumns : List String :=
  match p.cursor.mode with
  | .none => []
  | .singleColumn => [p.cursor.checkpointColumn]
  | .compositeOrder => [p.cursor.checkpointColumn, p.cursor.checkpointOrderColumn]

/-- The event of a row is read back as the row was, whatever the route makes of it, and so are its
cursor values when they are bound. -/
structure Keeps (row : SqlRow V) : Prop where
  route : Unshadowed {} (.database p.cursor) (p.db.rowEvent row)
    (p.transform (p.cursor.attach (p.db.rowEvent row)))
  binds : ∀ column ∈ p.cursorColumns, ∀ v, row.cell column = some v → p.db.ReadsBack column v

variable {p}

theorem one_le_limit : 0 < p.limit := by
  unfold limit
  omega

theorem nextCheckpoint_concat (checkpoint : Option Json.Members) (front : List (SqlRow V))
    (last : SqlRow V) : p.nextCheckpoint checkpoint (front ++ [last]) =
      some (checkpointValue p.cursorValue (copyEventMetadata (p.cursor.attach (p.db.rowEvent last))
        (p.transform (p.cursor.attach (p.db.rowEvent last))))) := by
  simp [nextCheckpoint, events, storedCheckpoint_append]

/-! ### Composite cursor -/

/-- A row with both columns set. -/
def Full (p : Poller V) (row : SqlRow V) : Prop :=
  (∃ a, row.cell p.cursor.checkpointColumn = some a) ∧
    ∃ b, row.cell p.cursor.checkpointOrderColumn = some b

/-- A composite cursor over two columns. -/
structure Composite (p : Poller V) : Prop where
  mode : p.cursor.mode = .compositeOrder
  column_valid : validSqlIdentifier p.cursor.checkpointColumn = true
  order_valid : validSqlIdentifier p.cursor.checkpointOrderColumn = true

theorem build_composite (hp : p.Composite) (checkpoint : Option Json.Members) :
    p.cursor.buildWrappedSelect p.maxRows checkpoint none = .ok
      ⟨match extractComposite checkpoint p.cursor.checkpointColumn
          (some p.cursor.checkpointOrderColumn) with
        | none => []
        | some (lw, lo) => [.or (.gt p.cursor.checkpointColumn lw)
          (.and (.eq p.cursor.checkpointColumn lw) (.gt p.cursor.checkpointOrderColumn lo))],
        [p.cursor.checkpointColumn, p.cursor.checkpointOrderColumn], p.limit⟩ := by
  cases hlast : extractComposite checkpoint p.cursor.checkpointColumn
      (some p.cursor.checkpointOrderColumn) <;>
    simp [DatabaseCursor.buildWrappedSelect, DatabaseCursor.checkpointFilter,
      DatabaseCursor.orderParts, hp.mode, ne_empty_of_identifier hp.column_valid,
      ne_empty_of_identifier hp.order_valid, validateSqlIdentifier_ok hp.column_valid,
      validateSqlIdentifier_ok hp.order_valid, Except.bind, Except.map, limit, hlast]

/-- The member of the checkpoint column, and that of the order column. -/
def watermarkOf (p : Poller V) (a : V) : Json := p.db.encode p.cursor.checkpointColumn a
def orderOf (p : Poller V) (b : V) : Json := p.db.encode p.cursor.checkpointOrderColumn b

theorem attach_composite (hp : p.Composite) {row : SqlRow V} {a b : V}
    (ha : row.cell p.cursor.checkpointColumn = some a)
    (hb : row.cell p.cursor.checkpointOrderColumn = some b) :
    p.cursor.attach (p.db.rowEvent row) = Dict.set "gdc_db_order_value" (p.orderOf b)
      (Dict.set "gdc_db_watermark" (p.watermarkOf a) (p.db.rowEvent row)) := by
  simp [DatabaseCursor.attach, get?_rowEvent_of_cell p.db ha, get?_rowEvent_of_cell p.db hb,
    hp.mode, ne_empty_of_identifier hp.column_valid, ne_empty_of_identifier hp.order_valid,
    watermarkOf, orderOf]

theorem Keeps.readsBack (hp : p.Composite) {row : SqlRow V} (h : p.Keeps row) {a b : V}
    (ha : row.cell p.cursor.checkpointColumn = some a)
    (hb : row.cell p.cursor.checkpointOrderColumn = some b) :
    p.db.ReadsBack p.cursor.checkpointColumn a ∧
      p.db.ReadsBack p.cursor.checkpointOrderColumn b :=
  ⟨h.binds _ (by simp [cursorColumns, hp.mode]) a ha, h.binds _ (by simp [cursorColumns, hp.mode]) b hb⟩

/-- The checkpoint after a page stands for its last row. -/
theorem compositeCursor_next (hp : p.Composite) {page : List (SqlRow V)}
    (hfull : ∀ r ∈ page, p.Full r) (hkeeps : ∀ r ∈ page, p.Keeps r)
    {checkpoint : Option Json.Members} {cursor : WithBot (WithTop V ×ₗ WithTop V)}
    (hc : p.compositeCursor checkpoint = some cursor) :
    p.compositeCursor (p.nextCheckpoint checkpoint page) = some (advance p.pair cursor page) := by
  rcases List.eq_nil_or_concat page with rfl | ⟨front, last, rfl⟩
  · simpa [nextCheckpoint] using hc
  rw [List.concat_eq_append] at *
  obtain ⟨⟨a, ha⟩, b, hb⟩ := hfull last (by simp)
  have hkeep := hkeeps last (by simp)
  obtain ⟨⟨hsome, hdecode⟩, ⟨-, hdecode'⟩⟩ := hkeep.readsBack hp ha hb
  have hextract : extractComposite (p.nextCheckpoint checkpoint (front ++ [last]))
      p.cursor.checkpointColumn (some p.cursor.checkpointOrderColumn) =
        some (p.watermarkOf a, p.orderOf b) := by
    have hroute := hkeep.route
    simp only [Unshadowed, SourceOrigin.attach, hp.mode, attach_composite hp ha hb] at hroute
    obtain ⟨hread, hnull | horder⟩ := hroute (p.watermarkOf a) (p.orderOf b) (by simp) (by simp)
    · exact absurd hnull hsome
    have hsome' : p.watermarkOf a ≠ .null := hsome
    rw [nextCheckpoint_concat, attach_composite hp ha hb,
      (storedFields_seen _ _ _).extractComposite_eq]
    simp only [get?_copyEventMetadata, hread, hsome', ↓reduceIte, horder]
  have hpair : p.pair last = toLex ((a : WithTop V), (b : WithTop V)) := by
    rw [pair, show rank _ last = (a : WithTop V) from ha, show rank _ last = (b : WithTop V) from hb]
  simp only [compositeCursor, hextract, watermarkOf, orderOf, hdecode, hdecode', advance_concat,
    hpair]

theorem seen_of_keeps {raw mapped : Event} {k : String}
    (h : ∀ v, Dict.get? k mapped = some v → Dict.get? k raw = some v) :
    seen raw mapped k = Dict.get? k raw ∨ seen raw mapped k = none ∧ k ∉ transportMetaKeys := by
  unfold seen
  cases hm : Dict.get? k mapped with
  | some v => simp [h v hm]
  | none =>
    by_cases hk : k ∈ transportMetaKeys
    · left
      simp [hk]
    · by_cases hk' : k ∈ transportMetaKeys ++ [Dedup.gdcDedupKeyMeta, Dedup.gdcDedupQueueIdMeta]
      · left
        rw [if_pos hk']
        rfl
      · right
        rw [if_neg hk']
        exact ⟨rfl, hk⟩

/-- A column, or the metadata in its place, reads as the row had it. -/
theorem read_of_keeps {raw mapped : Event} {column attached : String} {v : Json}
    (hcol : ∀ v, Dict.get? column mapped = some v → Dict.get? column raw = some v)
    (hattached : ∀ v, Dict.get? attached mapped = some v → Dict.get? attached raw = some v)
    (hmeta : attached ∈ transportMetaKeys) (hv : Dict.get? column raw = some v)
    (hv' : Dict.get? attached raw = some v) :
    (seen raw mapped column).getD (seenOrNull raw mapped attached) = v := by
  rcases seen_of_keeps hcol with hseen | ⟨hseen, -⟩
  · rw [hseen, hv]
    rfl
  · rcases seen_of_keeps hattached with hseen' | ⟨-, hnot⟩
    · rw [hseen, seenOrNull, hseen', hv']
      rfl
    · exact absurd hmeta hnot

/-- A route that keeps the members of the cursor or leaves them out keeps the row. -/
theorem keeps_of_unchanged (hp : p.Composite)
    (hcolumn : p.cursor.checkpointColumn ≠ "gdc_db_order_value")
    (horder : p.cursor.checkpointOrderColumn ≠ "gdc_db_watermark") {row : SqlRow V} {a b : V}
    (hroute : ∀ k ∈ [p.cursor.checkpointColumn, p.cursor.checkpointOrderColumn, "gdc_db_watermark",
      "gdc_db_order_value"], ∀ v,
        Dict.get? k (p.transform (p.cursor.attach (p.db.rowEvent row))) = some v →
          Dict.get? k (p.cursor.attach (p.db.rowEvent row)) = some v)
    (ha : row.cell p.cursor.checkpointColumn = some a)
    (hb : row.cell p.cursor.checkpointOrderColumn = some b)
    (hbinds : p.db.ReadsBack p.cursor.checkpointColumn a ∧
      p.db.ReadsBack p.cursor.checkpointOrderColumn b) : p.Keeps row := by
  refine ⟨?_, fun column hcolumn v hv => ?_⟩
  swap
  · simp only [cursorColumns, hp.mode, List.mem_cons, List.not_mem_nil, or_false] at hcolumn
    rcases hcolumn with rfl | rfl
    · exact Option.some.inj (ha.symm.trans hv) ▸ hbinds.1
    · exact Option.some.inj (hb.symm.trans hv) ▸ hbinds.2
  simp only [Unshadowed, hp.mode]
  set raw := p.cursor.attach (p.db.rowEvent row) with hraw
  rw [attach_composite hp ha hb] at hraw
  have hget (k : String) : Dict.get? k raw =
      if "gdc_db_order_value" = k then some (p.orderOf b)
      else if "gdc_db_watermark" = k then some (p.watermarkOf a)
      else Dict.get? k (p.db.rowEvent row) := by
    rw [hraw, Dict.get?_set, Dict.get?_set]
  have hread1 : (seen raw (p.transform raw) p.cursor.checkpointColumn).getD
      (seenOrNull raw (p.transform raw) "gdc_db_watermark") = p.watermarkOf a := by
    refine read_of_keeps (hroute _ (by simp)) (hroute _ (by simp)) (by decide) ?_ ?_
    · rw [hget, if_neg hcolumn.symm, get?_rowEvent_of_cell p.db ha, ← watermarkOf, ite_self]
    · rw [hget, if_neg (by decide), if_pos rfl]
  have hread2 : (seen raw (p.transform raw) p.cursor.checkpointOrderColumn).getD
      (seenOrNull raw (p.transform raw) "gdc_db_order_value") = p.orderOf b := by
    refine read_of_keeps (hroute _ (by simp)) (hroute _ (by simp)) (by decide) ?_ ?_
    · rw [hget, if_neg horder.symm, get?_rowEvent_of_cell p.db hb, ← orderOf, ite_self]
    · rw [hget, if_pos rfl]
  intro wm order (hwm : Dict.get? _ raw = some wm) (hvalue : Dict.get? _ raw = some order)
  rw [hget, if_neg (by decide), if_pos rfl, Option.some_inj] at hwm
  rw [hget, if_pos rfl, Option.some_inj] at hvalue
  refine ⟨hread1.trans hwm, .inr ?_⟩
  show (if (seen raw (p.transform raw) p.cursor.checkpointOrderColumn).getD
    (seenOrNull raw (p.transform raw) "gdc_db_order_value") = .null then defaultOrderSeed wm
      else (seen raw (p.transform raw) p.cursor.checkpointOrderColumn).getD
        (seenOrNull raw (p.transform raw) "gdc_db_order_value")) = order
  have hsome : p.orderOf b ≠ .null := hbinds.2.1
  rw [hread2, if_neg hsome, hvalue]

/-! ### Pages of the query -/

variable [LinearOrder V]

theorem rowLe_iff_pair (a b : SqlRow V) :
    RowLe [p.cursor.checkpointColumn, p.cursor.checkpointOrderColumn] a b ↔ p.pair a ≤ p.pair b := by
  simp only [RowLe, pair, rank, Prod.Lex.le_iff, ofLex_toLex, and_true]
  exact or_congr_right (and_congr_right fun _ => le_iff_lt_or_eq.symm)

theorem rowLe_iff_rank (column : String) (a b : SqlRow V) :
    RowLe [column] a b ↔ rank column a ≤ rank column b := by
  simp only [RowLe, rank, and_true]
  exact le_iff_lt_or_eq.symm

theorem holds_gt_iff (column : String) (x : V) {row : SqlRow V} {a : V}
    (ha : row.cell column = some a) :
    (SqlCondition.gt column x).holds row = true ↔ (x : WithTop V) < rank column row := by
  have hrank : rank column row = (a : WithTop V) := ha
  rw [hrank, WithTop.coe_lt_coe]
  simp [SqlCondition.holds, ha]

theorem holds_composite_iff (x y : V) {row : SqlRow V} {a b : V}
    (ha : row.cell p.cursor.checkpointColumn = some a)
    (hb : row.cell p.cursor.checkpointOrderColumn = some b) :
    (SqlCondition.or (.gt p.cursor.checkpointColumn x) (.and (.eq p.cursor.checkpointColumn x)
      (.gt p.cursor.checkpointOrderColumn y))).holds row = true ↔
        (toLex ((x : WithTop V), (y : WithTop V)) : WithTop V ×ₗ WithTop V) < p.pair row := by
  have hpair : p.pair row = toLex ((a : WithTop V), (b : WithTop V)) := by
    rw [pair, show rank _ row = (a : WithTop V) from ha, show rank _ row = (b : WithTop V) from hb]
  rw [hpair, Prod.Lex.toLex_lt_toLex, WithTop.coe_lt_coe, WithTop.coe_lt_coe, WithTop.coe_inj,
    @eq_comm _ x a]
  simp [SqlCondition.holds, ha, hb]

/-- A query in the order of a key, filtered past a cursor, returns the pages past the cursor. -/
theorem returns_iff_isPage {κ : Type*} [LinearOrder κ] {key : SqlRow V → κ} {columns : List String}
    (hsorted : ∀ a b, RowLe columns a b ↔ key a ≤ key b) {parts : List (SqlCondition V)}
    {limit : ℕ} {table page : List (SqlRow V)} {cursor : WithBot κ}
    (hparts : ∀ r ∈ table, parts.all (·.holds r) = decide (cursor < (key r : WithBot κ))) :
    (⟨parts, columns, limit⟩ : WrappedSelect V).Returns table page ↔
      IsPage key limit table cursor page := by
  have hle : RowLe columns = fun a b => key a ≤ key b := by
    funext a b
    exact propext (hsorted a b)
  unfold WrappedSelect.Returns IsPage above
  simp only [hle, List.filter_congr hparts]

theorem fetches_iff_returns {q : WrappedSelect Json} {bound : WrappedSelect V}
    {table page : List (SqlRow V)} {checkpoint : Option Json.Members}
    (hq : p.cursor.buildWrappedSelect p.maxRows checkpoint none = .ok q)
    (hbound : p.db.bind q = some bound) :
    p.Fetches table checkpoint page ↔ bound.Returns table page := by
  simp [Fetches, hq, hbound]

/-- With a readable checkpoint the query returns the pages past its cursor. -/
theorem fetches_composite_iff (hp : p.Composite) {table page : List (SqlRow V)}
    (hfull : ∀ r ∈ table, p.Full r) {checkpoint : Option Json.Members}
    {cursor : WithBot (WithTop V ×ₗ WithTop V)} (hc : p.compositeCursor checkpoint = some cursor) :
    p.Fetches table checkpoint page ↔ IsPage p.pair p.limit table cursor page := by
  unfold compositeCursor at hc
  have hbuild := build_composite hp checkpoint
  cases hpair : extractComposite checkpoint p.cursor.checkpointColumn
      (some p.cursor.checkpointOrderColumn) with
  | none =>
    rw [hpair] at hc hbuild
    obtain rfl := Option.some.inj hc
    rw [fetches_iff_returns hbuild rfl]
    apply returns_iff_isPage
    · exact rowLe_iff_pair
    · simp
  | some lwlo =>
    obtain ⟨lw, lo⟩ := lwlo
    rw [hpair] at hc hbuild
    cases hx : p.db.decode p.cursor.checkpointColumn lw with
    | none => simp [hx] at hc
    | some x =>
      cases hy : p.db.decode p.cursor.checkpointOrderColumn lo with
      | none => simp [hx, hy] at hc
      | some y =>
        simp only [hx, hy, Option.some.injEq] at hc
        subst hc
        refine (fetches_iff_returns hbuild (show p.db.bind _ = some (⟨[.or
            (.gt p.cursor.checkpointColumn x)
            (.and (.eq p.cursor.checkpointColumn x) (.gt p.cursor.checkpointOrderColumn y))],
          [p.cursor.checkpointColumn, p.cursor.checkpointOrderColumn], p.limit⟩ : WrappedSelect V)
            by simp [Database.bind, Database.bindCondition, hx, hy])).trans ?_
        apply returns_iff_isPage
        · exact rowLe_iff_pair
        · intro r hr
          obtain ⟨⟨a, ha⟩, b, hb⟩ := hfull r hr
          rw [List.all_cons, List.all_nil, Bool.and_true, Bool.eq_iff_iff, decide_eq_true_eq,
            WithBot.coe_lt_coe]
          exact holds_composite_iff x y ha hb

/-- A table being polled: its rows, the stored checkpoint and the rows emitted so far. -/
structure PollState (V : Type*) where
  table : List (SqlRow V)
  checkpoint : Option Json.Members
  emitted : List (SqlRow V) := []

/-- Fetch, deliver and checkpoint, with nothing appended before. -/
def Quiet (p : Poller V) (s t : PollState V) : Prop :=
  ∃ page, p.Fetches s.table s.checkpoint page ∧
    t = ⟨s.table, p.nextCheckpoint s.checkpoint page, s.emitted ++ page⟩

/-- Full rows with new pairs are appended past the watermark, then a run follows. -/
def Round (p : Poller V) (s t : PollState V) : Prop :=
  ∃ new, (∀ r ∈ new, p.Full r) ∧ ((s.table ++ new).map p.pair).Nodup ∧
    (∀ cursor, p.compositeCursor s.checkpoint = some cursor →
      ∀ r ∈ new, cursor < (p.pair r : WithBot _)) ∧
    p.Quiet ⟨s.table ++ new, s.checkpoint, s.emitted⟩ t

/-- What every round keeps. -/
structure Sweeping (p : Poller V) (start : WithBot (WithTop V ×ₗ WithTop V)) (s : PollState V)
    (cursor : WithBot (WithTop V ×ₗ WithTop V)) : Prop where
  full : ∀ r ∈ s.table, p.Full r
  keeps : ∀ r ∈ s.table, p.Keeps r
  distinct : (s.table.map p.pair).Nodup
  cursor_eq : p.compositeCursor s.checkpoint = some cursor
  swept : Swept p.pair start s.table cursor s.emitted

section composite

variable {start cursor : WithBot (WithTop V ×ₗ WithTop V)} {s t : PollState V}

theorem Composite.fetches_iff (hp : p.Composite) (h : Sweeping p start s cursor)
    {page : List (SqlRow V)} : p.Fetches s.table s.checkpoint page ↔
      IsPage p.pair p.limit s.table cursor page :=
  fetches_composite_iff hp h.full h.cursor_eq

theorem Sweeping.quiet (hp : p.Composite) (h : Sweeping p start s cursor) (hq : p.Quiet s t) :
    ∃ page, IsPage p.pair p.limit s.table cursor page ∧ t.table = s.table ∧
      Sweeping p start t (advance p.pair cursor page) := by
  obtain ⟨page, hfetch, rfl⟩ := hq
  have hpage := (hp.fetches_iff h).mp hfetch
  have hmem : ∀ r ∈ page, r ∈ s.table := fun r hr => (mem_above.mp (hpage.mem_above hr)).1
  have hnext := compositeCursor_next hp (fun r hr => h.full r (hmem r hr))
    (fun r hr => h.keeps r (hmem r hr)) h.cursor_eq
  exact ⟨page, hpage, rfl, h.full, h.keeps, h.distinct, hnext, h.swept.read h.distinct hpage⟩

theorem Round.subset (hr : p.Round s t) : s.table ⊆ t.table := by
  obtain ⟨new, -, -, -, page, -, rfl⟩ := hr
  exact List.subset_append_left s.table new

theorem Sweeping.round (hp : p.Composite) (h : Sweeping p start s cursor) (hr : p.Round s t)
    (hkeeps : ∀ r ∈ t.table, p.Keeps r) : ∃ cursor', Sweeping p start t cursor' := by
  obtain ⟨new, hfull, hdistinct, habove, hq⟩ := hr
  have htable : t.table = s.table ++ new := by
    obtain ⟨page, -, rfl⟩ := hq
    rfl
  have hnew : Sweeping p start ⟨s.table ++ new, s.checkpoint, s.emitted⟩ cursor := by
    refine ⟨fun r hr => ?_, htable ▸ hkeeps, hdistinct, h.cursor_eq,
      h.swept.append (habove cursor h.cursor_eq)⟩
    exact (List.mem_append.mp hr).elim (h.full r) (hfull r)
  obtain ⟨page, -, -, ht⟩ := hnew.quiet hp hq
  exact ⟨_, ht⟩

/-- Rounds with nothing appended come to an empty fetch: the rows still to come decrease with every
page that is not empty. -/
theorem Sweeping.reaches_empty (hp : p.Composite) (h : Sweeping p start s cursor)
    (f : ℕ → PollState V) (h0 : f 0 = s) (hf : ∀ n, p.Quiet (f n) (f (n + 1))) :
    ∃ n cursor, Sweeping p start (f n) cursor ∧ above p.pair cursor (f n).table = [] := by
  induction hn : (above p.pair cursor s.table).length using Nat.strong_induction_on
    generalizing s cursor f with
  | _ k ih =>
    by_cases hempty : above p.pair cursor s.table = []
    · exact ⟨0, cursor, by rw [h0]; exact h, by rw [h0]; exact hempty⟩
    · have hq : p.Quiet s (f 1) := h0 ▸ hf 0
      obtain ⟨page, hpage, htable, hnext⟩ := h.quiet hp hq
      have hne : page ≠ [] := fun hnil => hempty ((hpage.eq_nil_iff one_le_limit).mp hnil)
      have hlt := hpage.above_advance_length_lt hne
      obtain ⟨n, cursor', hn', hdone⟩ := ih _ (by rw [← hn, htable]; exact hlt) hnext
        (fun n => f (n + 1)) rfl (fun n => hf (n + 1)) rfl
      exact ⟨n + 1, cursor', hn', hdone⟩

/-- Every row past the start is emitted once, in ascending order, or still to come. -/
structure EmitsOnce (p : Poller V) (start : WithBot (WithTop V ×ₗ WithTop V))
    (s : PollState V) : Prop where
  ascending : s.emitted.Pairwise fun a b => p.pair a < p.pair b
  pending : ∃ cursor, p.compositeCursor s.checkpoint = some cursor ∧
    (s.emitted ++ above p.pair cursor s.table).Perm (above p.pair start s.table)
  fetches : ∃ page, p.Fetches s.table s.checkpoint page
  complete : p.Fetches s.table s.checkpoint [] → s.emitted.Perm (above p.pair start s.table)

theorem Sweeping.emitsOnce (hp : p.Composite) (h : Sweeping p start s cursor) :
    EmitsOnce p start s := by
  refine ⟨h.swept.sorted, ⟨cursor, h.cursor_eq, h.swept.perm⟩, ?_, fun hfetch => ?_⟩
  · obtain ⟨page, hpage⟩ := exists_isPage p.pair p.limit s.table cursor
    exact ⟨page, (hp.fetches_iff h).mpr hpage⟩
  · exact h.swept.complete ((((hp.fetches_iff h).mp hfetch).eq_nil_iff one_le_limit).mp rfl)

/-- From every start, whatever is appended past the watermark between the rounds, the rows past
the start are emitted once; without more appended a fetch comes out empty. -/
def ExactlyOnce (p : Poller V) (s : PollState V) : Prop :=
  ∀ table checkpoint start, p.compositeCursor checkpoint = some start →
    (∀ r ∈ table, p.Full r) → (table.map p.pair).Nodup →
    Relation.ReflTransGen p.Round ⟨table, checkpoint, []⟩ s →
      EmitsOnce p start s ∧
        ∀ f : ℕ → PollState V, f 0 = s → (∀ n, p.Quiet (f n) (f (n + 1))) →
          ∃ n, p.Fetches (f n).table (f n).checkpoint [] ∧ EmitsOnce p start (f n)

/-- A row that is neither on the first page nor past the cursor after it is lost. -/
theorem not_exactlyOnce_of_skipped (hp : p.Composite) (table page : List (SqlRow V))
    (hfull : ∀ r ∈ table, p.Full r) (hdistinct : (table.map p.pair).Nodup)
    (hpage : IsPage p.pair p.limit table ⊥ page)
    (hc : p.compositeCursor (p.nextCheckpoint none page) = some cursor)
    (hskip : (page ++ above p.pair cursor table).length ≠ table.length) :
    ¬ p.ExactlyOnce ⟨table, p.nextCheckpoint none page, page⟩ := by
  intro h
  have hround : p.Round ⟨table, none, []⟩ ⟨table, p.nextCheckpoint none page, page⟩ := by
    refine ⟨[], by simp, by simpa using hdistinct, by simp, page, ?_, by simp⟩
    exact (fetches_composite_iff hp (by simpa using hfull) rfl).mpr (by simpa using hpage)
  obtain ⟨cursor', hc', hperm⟩ := (h table none ⊥ rfl hfull hdistinct (.single hround)).1.pending
  obtain rfl : cursor' = cursor := Option.some.inj (hc'.symm.trans hc)
  have hall : above p.pair ⊥ table = table := above_eq_self fun r _ => WithBot.bot_lt_coe _
  exact hskip (hperm.length_eq.trans (congrArg List.length hall))

end composite

end Poller

open Poller in
/-- Every row past the start is emitted exactly once in ascending order, where the route leaves
each row's cursor readable. -/
theorem composite_exactly_once {V : Type*} [LinearOrder V] (p : Poller V) (hp : p.Composite)
    (s : PollState V) (hkeeps : ∀ r ∈ s.table, p.Keeps r) : p.ExactlyOnce s := by
  intro table checkpoint start hstart hfull hdistinct hrun
  obtain ⟨cursor, h⟩ : ∃ cursor, Sweeping p start s cursor := by
    induction hrun with
    | refl => exact ⟨start, hfull, hkeeps, hdistinct, hstart, .init start table⟩
    | tail _ hround ih =>
      obtain ⟨cursor, h⟩ := ih fun r hr => hkeeps r (hround.subset hr)
      exact h.round hp hround hkeeps
  refine ⟨h.emitsOnce hp, fun f h0 hf => ?_⟩
  obtain ⟨n, cursor', hn, hdone⟩ := h.reaches_empty hp f h0 hf
  refine ⟨n, (hp.fetches_iff hn).mpr ?_, hn.emitsOnce hp⟩
  exact ⟨[], by simp [hdone], by simp, by simp⟩

/-- Integer columns, bound and read as they are. -/
def intDatabase : Database ℤ where
  fetched _ := .int
  decode _ v :=
    match v with
    | .int i => some i
    | _ => none

theorem intDatabase_readsBack (column : String) (i : ℤ) : intDatabase.ReadsBack column i :=
  ⟨by simp [Database.encode, intDatabase, jsonSafeValue], rfl⟩

def eventLogPoller : Poller ℤ where
  db := intDatabase
  cursor := ⟨.compositeOrder, "updated_at", "id"⟩
  maxRows := 2

/-- Two of the three rows share their time, so that the first page ends inside a tie. -/
def eventLogTable : List (SqlRow ℤ) :=
  [[("id", some 1), ("updated_at", some 10)], [("id", some 3), ("updated_at", some 20)],
    [("id", some 2), ("updated_at", some 20)]]

theorem eventLogPoller_exactly_once :
    eventLogPoller.ExactlyOnce ⟨eventLogTable, none, []⟩ := by
  have hp : eventLogPoller.Composite := ⟨rfl, by rfl, by rfl⟩
  refine composite_exactly_once eventLogPoller hp _ ?_
  intro r hr
  simp only [eventLogTable, List.mem_cons, List.not_mem_nil, or_false] at hr
  have hunchanged (e : Event) (k : String) (v : Json) (h : Dict.get? k (eventLogPoller.transform e) =
    some v) : Dict.get? k e = some v := h
  rcases hr with rfl | rfl | rfl
  all_goals
    exact Poller.keeps_of_unchanged hp (by decide) (by decide) (fun k _ v h => hunchanged _ k v h)
      rfl rfl ⟨intDatabase_readsBack _ _, intDatabase_readsBack _ _⟩

/-- The checkpoint column is named like the metadata of the order column. -/
def reservedColumnPoller : Poller ℤ where
  db := intDatabase
  cursor := ⟨.compositeOrder, "gdc_db_order_value", "id"⟩
  maxRows := 1

def reservedColumnTable : List (SqlRow ℤ) :=
  [[("id", some 5), ("gdc_db_order_value", some 1)], [("id", some 1), ("gdc_db_order_value", some 2)]]

/-- The mapping of the route fills `updated_at` from another member. -/
def rewrittenColumnPoller : Poller ℤ where
  db := intDatabase
  cursor := ⟨.compositeOrder, "updated_at", "id"⟩
  maxRows := 1
  transform e := Dict.set "updated_at" (getOrNull "received_at" e) e

def rewrittenColumnTable : List (SqlRow ℤ) :=
  [[("id", some 1), ("updated_at", some 1), ("received_at", some 9)],
    [("id", some 2), ("updated_at", some 2), ("received_at", some 9)]]

/-- Texts, and a column `digest` of bytes, for which the driver hands over a memory view. The
database takes the text of one for the bytes it spells. -/
def byteaDatabase : Database String where
  fetched column v := if column = "digest" then .other "<memory at 0x7f3a5c>" else .str v
  decode _ v :=
    match v with
    | .str s => some s
    | _ => none

def byteaPoller : Poller String where
  db := byteaDatabase
  cursor := ⟨.compositeOrder, "digest", "id"⟩
  maxRows := 1

def byteaTable : List (SqlRow String) :=
  [[("id", some "a"), ("digest", some "0")], [("id", some "b"), ("digest", some "1")]]

theorem overwrittenColumn_not_exactlyOnce :
    (¬ ∀ s, reservedColumnPoller.ExactlyOnce s) ∧ (¬ ∀ s, rewrittenColumnPoller.ExactlyOnce s) ∧
      ¬ ∀ s, byteaPoller.ExactlyOnce s := by
  have hreserved : reservedColumnPoller.compositeCursor (reservedColumnPoller.nextCheckpoint none
      (reservedColumnTable.take 1)) = some ((toLex ((5 : WithTop ℤ), (5 : WithTop ℤ)) :
        WithTop ℤ ×ₗ WithTop ℤ) : WithBot _) := by
    rfl
  have hrewritten : rewrittenColumnPoller.compositeCursor (rewrittenColumnPoller.nextCheckpoint none
      (rewrittenColumnTable.take 1)) = some ((toLex ((9 : WithTop ℤ), (1 : WithTop ℤ)) :
        WithTop ℤ ×ₗ WithTop ℤ) : WithBot _) := by
    rfl
  have hbytea : byteaPoller.compositeCursor (byteaPoller.nextCheckpoint none
      (byteaTable.take 1)) = some ((toLex ((("<memory at 0x7f3a5c>" : String) : WithTop String),
        (("a" : String) : WithTop String)) : WithTop String ×ₗ WithTop String) : WithBot _) := by
    rfl
  refine ⟨fun h => ?_, fun h => ?_, fun h => ?_⟩
  · refine Poller.not_exactlyOnce_of_skipped ⟨rfl, by decide +kernel, by decide +kernel⟩
      reservedColumnTable _ ?_ (by decide +kernel) ⟨_, .refl _, by decide +kernel, rfl⟩ hreserved
      (by decide +kernel) (h _)
    intro r hr
    simp only [reservedColumnTable, List.mem_cons, List.not_mem_nil, or_false] at hr
    rcases hr with rfl | rfl <;> exact ⟨⟨_, rfl⟩, _, rfl⟩
  · refine Poller.not_exactlyOnce_of_skipped ⟨rfl, by decide +kernel, by decide +kernel⟩
      rewrittenColumnTable _ ?_ (by decide +kernel) ⟨_, .refl _, by decide +kernel, rfl⟩ hrewritten
      (by decide +kernel) (h _)
    intro r hr
    simp only [rewrittenColumnTable, List.mem_cons, List.not_mem_nil, or_false] at hr
    rcases hr with rfl | rfl <;> exact ⟨⟨_, rfl⟩, _, rfl⟩
  · refine Poller.not_exactlyOnce_of_skipped ⟨rfl, by decide +kernel, by decide +kernel⟩
      byteaTable _ ?_ (by decide +kernel) ⟨_, .refl _, by decide +kernel, rfl⟩ hbytea
      (by decide +kernel) (h _)
    intro r hr
    simp only [byteaTable, List.mem_cons, List.not_mem_nil, or_false] at hr
    rcases hr with rfl | rfl <;> exact ⟨⟨_, rfl⟩, _, rfl⟩

end Sources
