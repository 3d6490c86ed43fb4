import DataRelay.Sources.TransportMetadata

/-! What the adapter reads from the checkpoint against what it attached to the last event. The
writer and the readers pick their fields from an event in which the payload, the route mapping
and the transport metadata share one set of names. -/
namespace Sources
open Delivery Runner

/-- Where the last event of a batch came from. -/
inductive SourceOrigin where
  | s3 (m : S3ObjectMeta)
  | remoteFile (m : RemoteFileMeta)
  | database (c : DatabaseCursor)

def SourceOrigin.attach : SourceOrigin → Event → Event
  | .s3 m, record => m.attach record
  | .remoteFile m, record => m.attach record
  | .database c, row => c.attach row

/-- The checkpoint written after a batch whose events the route transforms one by one. -/
def storedCheckpoint (cursorValue : Event → Option Json) (transform : Event → Event)
    (raws : List Event) : Option Json.Members :=
  (copyTransportMetadata raws (raws.map transform)).getLast?.map (checkpointValue cursorValue)

theorem storedCheckpoint_append (cursorValue : Event → Option Json) (transform : Event → Event)
    (earlier : List Event) (raw : Event) :
    storedCheckpoint cursorValue transform (earlier ++ [raw]) =
      some (checkpointValue cursorValue (copyEventMetadata raw (transform raw))) := by
  simp [storedCheckpoint, copyTransportMetadata, List.zipWith_append]

/-! ### What the writer stores -/

@[simp] theorem getOrNull_setUnlessNone (k l : String) (v : Json) (ms : Json.Members) :
    getOrNull k (setUnlessNone l v ms) = if l = k ∧ v ≠ .null then v else getOrNull k ms := by
  unfold setUnlessNone
  by_cases hv : v = .null
  · simp [hv]
  · by_cases hl : l = k <;> simp [getOrNull, hv, hl]

theorem getOrNull_singleton (k l : String) (v : Json) :
    getOrNull k [(l, v)] = if l = k then v else .null := by
  by_cases h : l = k <;> simp [getOrNull, h]

theorem ite_null_left (v : Json) : (if v = .null then .null else v) = v := by
  split_ifs with h
  · exact h.symm
  · rfl

theorem get?_setDefault_ne {k l : String} (h : l ≠ k) (v : Json) (ms : Json.Members) :
    Dict.get? k (setDefault l v ms) = Dict.get? k ms := by
  unfold setDefault
  split_ifs <;> simp [h]

/-- The members the cursor aliases fill. -/
def cursorAliases : List String :=
  ["cursor", "value", "last_seen", "next_cursor", "last_timestamp", "last_timestamp_ms"]

/-- `a or b` under the names `remote_*` and `gdc_remote_*`, else the member of the S3 adapter. -/
def picked (get : String → Json) (remote gdcRemote s3 : String) : Json :=
  if orElse (get remote) (get gdcRemote) = .null then get s3 else orElse (get remote) (get gdcRemote)

structure StoredFields (get : String → Json) (last : Event) (cp : Json.Members) : Prop where
  event : getOrNull "last_success_event" cp = .obj last
  key : getOrNull "last_processed_key" cp = picked get "remote_path" "gdc_remote_path" "s3_key"
  lastModified : getOrNull "last_processed_last_modified" cp =
    picked get "remote_mtime" "gdc_remote_mtime" "s3_last_modified"
  file : getOrNull "last_processed_file" cp = orElse (get "remote_path") (get "gdc_remote_path")
  mtime : getOrNull "last_processed_mtime" cp =
    orElse (get "remote_mtime") (get "gdc_remote_mtime")
  offset : getOrNull "last_processed_offset" cp = get "gdc_remote_offset"
  watermark : getOrNull "last_processed_db_watermark" cp = get "gdc_db_watermark"
  order : getOrNull "last_processed_db_order" cp = get "gdc_db_order_value"

/-- The aliases of the cursor touch no other member. -/
theorem getOrNull_aliases {k : String} (hk : k ∉ cursorAliases) (cursor : Json)
    (ms : Json.Members) : getOrNull k (cursorAliases.foldl (fun ms l => setDefault l cursor ms) ms) =
      getOrNull k ms := by
  have hfold : ∀ (ls : List String) (ms : Json.Members), k ∉ ls →
      Dict.get? k (ls.foldl (fun ms l => setDefault l cursor ms) ms) = Dict.get? k ms := by
    intro ls
    induction ls with
    | nil => intro ms _; rfl
    | cons l ls ih =>
      intro ms hkl
      rw [List.mem_cons, not_or] at hkl
      rw [List.foldl_cons, ih _ hkl.2, get?_setDefault_ne (fun h => hkl.1 h.symm)]
  simp only [getOrNull, hfold cursorAliases ms hk]

theorem getOrNull_checkpointValue {k : String} (hk : k ∉ cursorAliases)
    (cursorValue : Event → Option Json) (last : Event) :
    getOrNull k (checkpointValue cursorValue last) =
      getOrNull k (checkpointValue (fun _ => none) last) := by
  unfold checkpointValue
  cases cursorValue last with
  | none => rfl
  | some cursor => exact getOrNull_aliases hk cursor _

theorem checkpointValue_stored (cursorValue : Event → Option Json) (last : Event) :
    StoredFields (fun k => getOrNull k last) last (checkpointValue cursorValue last) := by
  constructor
  all_goals
    rw [getOrNull_checkpointValue (by decide)]
    simp +contextual [checkpointValue, picked, orElse, getOrNull_singleton, ite_null_left]

/-! ### What the readers find -/

section readers

variable {rt : TextRuntime} {get : String → Json} {last : Event} {cp : Json.Members}

theorem picked_eq_null {get : String → Json} {a b c : String} (h : picked get a b c = .null) :
    orElse (get a) (get b) = .null ∧ get c = .null := by
  unfold picked at h
  split_ifs at h with hor
  · exact ⟨hor, h⟩
  · exact absurd h hor

theorem StoredFields.s3Watermark_iff (h : StoredFields get last cp)
    (hlast : ∀ k, getOrNull k last = get k) (t : UtcTime) (key : String) :
    s3Watermark rt (some cp) = .ok (some t, some key) ↔
      picked get "remote_path" "gdc_remote_path" "s3_key" ≠ .null ∧
      rt.str (picked get "remote_path" "gdc_remote_path" "s3_key") = key ∧
      picked get "remote_mtime" "gdc_remote_mtime" "s3_last_modified" ≠ .null ∧
      rt.parseIsoDt (some (rt.str (picked get "remote_mtime" "gdc_remote_mtime"
        "s3_last_modified"))) = .ok (some t) := by
  simp only [s3Watermark, h.key, h.lastModified, h.event]
  generalize hk : picked get "remote_path" "gdc_remote_path" "s3_key" = k
  generalize ht : picked get "remote_mtime" "gdc_remote_mtime" "s3_last_modified" = lm
  by_cases hknull : k = .null
  · subst hknull
    by_cases htnull : lm = .null
    · subst htnull
      simp [hlast, (picked_eq_null hk).2, (picked_eq_null ht).2, TextRuntime.parseIsoDt, Except.map]
    · simp only [ne_eq, not_true_eq_false, htnull, not_false_eq_true, or_true, ↓reduceIte, false_and,
        iff_false]
      cases rt.parseIsoDt (some (rt.str lm)) <;> simp [Except.map]
  · by_cases htnull : lm = .null
    · subst htnull
      simp [hknull, TextRuntime.parseIsoDt, Except.map]
    · simp only [ne_eq, hknull, not_false_eq_true, htnull, or_self, ↓reduceIte, true_and]
      cases rt.parseIsoDt (some (rt.str lm)) <;> simp [Except.map, and_comm]

@[simp] theorem orElse_null (b : Json) : orElse .null b = b := rfl

theorem orElse_of_falsy {a : Json} (h : truthy a = false) (b : Json) : orElse a b = b := by
  simp [orElse, h]

theorem orElse_eq_null {a b : Json} (h : orElse a b = .null) : truthy a = false ∧ b = .null := by
  unfold orElse at h
  split_ifs at h with ha
  · simp [h, truthy] at ha
  · exact ⟨by simpa using ha, h⟩

/-- The alternative of the reader is the member the writer stored in its place. -/
theorem orElse_picked (get : String → Json) (a b c : String) :
    orElse (orElse (get a) (get b)) (picked get a b c) = picked get a b c := by
  unfold picked
  by_cases hnull : orElse (get a) (get b) = .null
  · simp [hnull]
  · rw [if_neg hnull]
    generalize orElse (get a) (get b) = p
    unfold orElse
    split_ifs <;> rfl

/-- With nothing stored the reader finds nothing in the event either. -/
theorem orElse_falsy_of_picked_null {get : String → Json} {a b c : String}
    (h : picked get a b c = .null) : truthy (orElse (get b) (get a)) = false := by
  obtain ⟨hfalsy, hnull⟩ := orElse_eq_null (picked_eq_null h).1
  rw [hnull, orElse_null, hfalsy]

/-- The file read back is the first that counts of the path members. -/
theorem StoredFields.resume_file (h : StoredFields get last cp)
    (hlast : ∀ k, getOrNull k last = get k) :
    (checkpointResumeFields rt (some cp)).file =
      rt.str (orElse (picked get "remote_path" "gdc_remote_path" "s3_key") (.str "")) := by
  simp only [checkpointResumeFields, h.key, h.lastModified, h.event, h.file, h.mtime, orElse_picked,
    hlast]
  split
  · rfl
  · split
    · rfl
    · rename_i _ hnone
      push Not at hnone
      rw [orElse_of_falsy (orElse_falsy_of_picked_null hnone.1), hnone.1, orElse_null]

theorem StoredFields.resume_mtime (h : StoredFields get last cp)
    (hlast : ∀ k, getOrNull k last = get k) {v : Json} (hv : truthy v = true) :
    (checkpointResumeFields rt (some cp)).mtime = v ↔
      picked get "remote_mtime" "gdc_remote_mtime" "s3_last_modified" = v := by
  simp only [checkpointResumeFields, h.key, h.lastModified, h.event, h.file, h.mtime, orElse_picked,
    hlast]
  split
  · rfl
  · split
    · rfl
    · rename_i _ hnone
      push Not at hnone
      have hfalsy := orElse_falsy_of_picked_null hnone.2
      rw [hnone.2]
      constructor
      · intro heq
        have heq : orElse (get "gdc_remote_mtime") (get "remote_mtime") = v := heq
        rw [heq, hv] at hfalsy
        cases hfalsy
      · rintro rfl
        simp [truthy] at hv

theorem StoredFields.resume_offset (h : StoredFields get last cp)
    (hlast : ∀ k, getOrNull k last = get k) :
    (checkpointResumeFields rt (some cp)).offset = get "gdc_remote_offset" := by
  simp only [checkpointResumeFields, h.event, h.offset]
  split
  · rfl
  · split
    · rfl
    · exact hlast _

theorem StoredFields.extractComposite_eq (h : StoredFields get last cp) (c1 : String)
    (c2 : Option String) : extractComposite (some cp) c1 c2 =
      if (Dict.get? c1 last).getD (get "gdc_db_watermark") = .null then none
      else some ((Dict.get? c1 last).getD (get "gdc_db_watermark"),
        match c2 with
        | none => .null
        | some c2 =>
          if (Dict.get? c2 last).getD (get "gdc_db_order_value") = .null then
            defaultOrderSeed ((Dict.get? c1 last).getD (get "gdc_db_watermark"))
          else (Dict.get? c2 last).getD (get "gdc_db_order_value")) := by
  simp only [extractComposite, h.event, h.watermark, h.order]
  split_ifs <;> cases c2 <;> rfl

end readers

/-! ### Agreement -/

/-- What the checkpoint is derived from: a member of the mapped event, or the raw event's where
the mapping leaves a carried member out. -/
def seen (raw mapped : Event) (k : String) : Option Json :=
  (Dict.get? k mapped).or
    (if k ∈ transportMetaKeys ++ [Dedup.gdcDedupKeyMeta, Dedup.gdcDedupQueueIdMeta] then
      Dict.get? k raw else none)

def seenOrNull (raw mapped : Event) (k : String) : Json := (seen raw mapped k).getD .null

/-- The watermark the adapter decodes is the metadata it attached to the last event. -/
def Agrees (rt : TextRuntime) : SourceOrigin → (record : Event) → Option Json.Members → Prop
  | .s3 m, _, cp => s3Watermark rt cp = .ok (some m.lastModified, some m.key)
  | .remoteFile m, _, cp =>
    (checkpointResumeFields rt cp).file = m.path ∧
      (checkpointResumeFields rt cp).mtime = .str m.mtime.isoText ∧
      (checkpointResumeFields rt cp).offset = .int m.offset
  | .database c, row, cp =>
    match c.mode with
    | .none => True
    | .singleColumn => ∀ wm, Dict.get? "gdc_db_watermark" (c.attach row) = some wm →
      extractWatermarkOnly cp c.checkpointColumn = if wm = .null then none else some wm
    | .compositeOrder => ∀ wm order, Dict.get? "gdc_db_watermark" (c.attach row) = some wm →
      Dict.get? "gdc_db_order_value" (c.attach row) = some order →
      extractComposite cp c.checkpointColumn (some c.checkpointOrderColumn) =
        if wm = .null then none else some (wm, order)

/-- Nothing in the payload or the mapping stands before the metadata: the members the writer and
the reader look at first are missing or say the same. -/
def Unshadowed (rt : TextRuntime) (origin : SourceOrigin) (record mapped : Event) : Prop :=
  let raw := origin.attach record
  let key := picked (seenOrNull raw mapped) "remote_path" "gdc_remote_path" "s3_key"
  let time := picked (seenOrNull raw mapped) "remote_mtime" "gdc_remote_mtime" "s3_last_modified"
  match origin with
  | .s3 m => key ≠ .null ∧ rt.str key = m.key ∧ time ≠ .null ∧
    rt.parseIsoDt (some (rt.str time)) = .ok (some m.lastModified)
  | .remoteFile m => rt.str (orElse key (.str "")) = m.path ∧ time = .str m.mtime.isoText ∧
    seenOrNull raw mapped "gdc_remote_offset" = .int m.offset
  | .database c =>
    let read (column attached : String) : Json :=
      (seen raw mapped column).getD (seenOrNull raw mapped attached)
    match c.mode with
    | .none => True
    | .singleColumn => ∀ wm, Dict.get? "gdc_db_watermark" raw = some wm →
      read c.checkpointColumn "gdc_db_watermark" = wm
    | .compositeOrder => ∀ wm order, Dict.get? "gdc_db_watermark" raw = some wm →
      Dict.get? "gdc_db_order_value" raw = some order →
      read c.checkpointColumn "gdc_db_watermark" = wm ∧ (wm = .null ∨
        (if read c.checkpointOrderColumn "gdc_db_order_value" = .null then defaultOrderSeed wm
          else read c.checkpointOrderColumn "gdc_db_order_value") = order)

theorem get?_copyEventMetadata (raw mapped : Event) (k : String) :
    Dict.get? k (copyEventMetadata raw mapped) = seen raw mapped k := by
  rw [copyEventMetadata, get?_carryOver, seen]

/-- The stored fields by what is seen of the raw and the mapped event. -/
theorem storedFields_seen (cursorValue : Event → Option Json) (raw mapped : Event) :
    StoredFields (seenOrNull raw mapped) (copyEventMetadata raw mapped)
      (checkpointValue cursorValue (copyEventMetadata raw mapped)) := by
  have hstored := checkpointValue_stored cursorValue (copyEventMetadata raw mapped)
  simp only [getOrNull, get?_copyEventMetadata] at hstored
  exact hstored

theorem isoText_ne_empty (t : UtcTime) : t.isoText ≠ "" := by
  intro h
  have hchars := congrArg String.toList h
  simp [UtcTime.isoText, UtcTime.isoChars] at hchars

theorem truthy_isoText (t : UtcTime) : truthy (.str t.isoText) = true := by
  simpa [truthy] using isoText_ne_empty t

theorem strip_isoText (t : UtcTime) : PyText.strip t.isoText = t.isoText := by
  have hhead : ∀ c ∈ t.isoChars.head?, PyText.isSpace c = false := by
    intro c hc
    simp only [UtcTime.isoChars, UtcTime.digits, List.cons_append, List.head?_cons,
      Option.mem_some_iff] at hc
    have hdigit := UtcTime.toNat_digit (Nat.mod_lt (t.year / 10 ^ 3) (show 0 < 10 by norm_num))
    simp only [PyText.isSpace, ← hc, hdigit]
    simp
    omega
  have hlast : ∀ c ∈ t.isoChars.getLast?, PyText.isSpace c = false := by
    intro c hc
    have hz : t.isoChars.getLast? = some 'Z' := by
      simp [UtcTime.isoChars, List.getLast?_append, List.getLast?_cons]
    rw [hz, Option.mem_some_iff] at hc
    subst hc
    decide
  simp [PyText.strip, UtcTime.isoText, PyText.stripChars_eq_self hhead hlast]

/-- The text an adapter attaches for a time is read back as that time. -/
theorem parseIsoDt_isoText (rt : TextRuntime) (t : UtcTime) :
    rt.parseIsoDt (some t.isoText) = .ok (some t) := by
  have hread : rt.fromIsoFormat t.isoText = .ok t := by
    simp [TextRuntime.fromIsoFormat, UtcTime.isoText, UtcTime.ofIsoChars_isoChars]
  simp [TextRuntime.parseIsoDt, strip_isoText, isoText_ne_empty, hread, Except.map]

/-- The adapter reads back what it attached exactly when nothing stands before it. -/
theorem checkpoint_agrees_iff (rt : TextRuntime) (cursorValue : Event → Option Json)
    (transform : Event → Event) (earlier : List Event) (origin : SourceOrigin) (record : Event) :
    Agrees rt origin record
        (storedCheckpoint cursorValue transform (earlier ++ [origin.attach record])) ↔
      Unshadowed rt origin record (transform (origin.attach record)) := by
  rw [storedCheckpoint_append]
  have hget (k : String) : getOrNull k (copyEventMetadata (origin.attach record)
      (transform (origin.attach record))) =
        seenOrNull (origin.attach record) (transform (origin.attach record)) k := by
    rw [getOrNull, get?_copyEventMetadata, seenOrNull]
  have hstored := storedFields_seen cursorValue (origin.attach record)
    (transform (origin.attach record))
  cases origin with
  | s3 m => exact hstored.s3Watermark_iff hget m.lastModified m.key
  | remoteFile m =>
    simp only [Agrees, Unshadowed, hstored.resume_file hget, hstored.resume_offset hget,
      hstored.resume_mtime hget (truthy_isoText m.mtime)]
  | database c =>
    simp only [Agrees, Unshadowed, extractWatermarkOnly, hstored.extractComposite_eq,
      get?_copyEventMetadata]
    cases c.mode with
    | none => rfl
    | singleColumn =>
      refine forall_congr' fun wm => imp_congr_right fun _ => ?_
      generalize (seen _ _ c.checkpointColumn).getD _ = read
      by_cases hread : read = .null <;> by_cases hwm : wm = .null <;>
        simp [hread, hwm, eq_comm]
    | compositeOrder =>
      refine forall_congr' fun wm => forall_congr' fun order => imp_congr_right fun _ =>
        imp_congr_right fun _ => ?_
      generalize (seen _ _ c.checkpointColumn).getD _ = read
      generalize (seen _ _ c.checkpointOrderColumn).getD _ = readOrder
      by_cases hread : read = .null
      · by_cases hwm : wm = .null <;> simp [hread, hwm, eq_comm]
      · by_cases hwm : wm = .null
        · simp [hread, hwm]
        · simp only [hread, hwm, ↓reduceIte, Option.some.injEq, Prod.mk.injEq, false_or]
          exact and_congr_right fun heq => by rw [heq]

/-- An object whose record has a member `remote_path` of its own. -/
def shadowedObject : S3ObjectMeta where
  bucket := "logs"
  key := "2026/01/01/a.json"
  etag := "e1"
  lastModified := { year := 2026, month := 1, day := 1, hour := 0, minute := 0, second := 0 }
  size := 40

theorem shadowedObject_disagrees :
    ¬ Agrees {} (.s3 shadowedObject) [("remote_path", .str "/home/alice")]
      (storedCheckpoint (fun _ => none) id
        [(SourceOrigin.s3 shadowedObject).attach [("remote_path", .str "/home/alice")]]) := by
  intro h
  rw [Agrees, ← List.nil_append [_], storedCheckpoint_append] at h
  have hstored := checkpointValue_stored (fun _ => none) (copyEventMetadata
    ((SourceOrigin.s3 shadowedObject).attach [("remote_path", .str "/home/alice")])
    (id ((SourceOrigin.s3 shadowedObject).attach [("remote_path", .str "/home/alice")])))
  have hkey := ((hstored.s3Watermark_iff (fun _ => rfl) _ _).mp h).2.1
  revert hkey
  decide +kernel

end Sources
