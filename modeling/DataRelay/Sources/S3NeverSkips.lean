import DataRelay.Lib.Steps
import DataRelay.Sources.S3Polling

/-! Uploads between polling runs. A run moves the watermark to the last object it emitted a
record of, and every object at or before it was read; an object that arrives later and still
falls at or before the watermark is never read. -/
namespace Sources
open Delivery Runner

/-- A stream on a bucket: how it is read, and what its route makes of an event. -/
structure S3Poller where
  rt : FileRuntime
  fnmatch : String → String → Bool := fun _ _ => true
  src : S3Source
  strictJsonLines : Bool := false
  transform : Event → Event := id
  cursorValue : Event → Option Json := fun _ => none

structure BucketState where
  objects : List S3Object := []
  checkpoint : Option Json.Members := none
  /-- The events of the runs so far. -/
  runs : List (List Event) := []

inductive BucketAction where
  | upload (o : S3Object)
  | poll (maxObjectsPerRun : ℤ)

namespace S3Poller

variable (p : S3Poller)

def adapter (maxObjectsPerRun : ℤ) : S3Adapter where
  rt := p.rt
  fnmatch := p.fnmatch
  src := p.src
  cfg := { maxObjectsPerRun := maxObjectsPerRun, strictJsonLines := p.strictJsonLines }

def selects (o : S3Object) : Bool := p.src.selects p.fnmatch o

def records (o : S3Object) : Except PollError (List Event) := (p.adapter 0).objectRecords o

def watermark (s : BucketState) : Except IsoFormatError (Option UtcTime × Option String) :=
  s3Watermark p.rt.toTextRuntime s.checkpoint

/-- An upload replaces the object of its key. A run is one action, from its listing to its
checkpoint: what is uploaded meanwhile counts as uploaded after it. A run whose fetch fails changes
nothing; else its events are delivered, and the checkpoint moves when there are any. -/
def step (s : BucketState) : BucketAction → BucketState
  | .upload o => { s with objects := s.objects.filter (·.key ≠ o.key) ++ [o] }
  | .poll maxObjectsPerRun =>
    match (p.adapter maxObjectsPerRun).fetch (some s.objects) s.checkpoint with
    | .error _ => s
    | .ok events =>
      { s with
        runs := s.runs ++ [events]
        checkpoint :=
          if events = [] then s.checkpoint
          else storedCheckpoint p.cursorValue p.transform events }

/-- One of the runs emitted every record of the object. -/
def Emitted (s : BucketState) (o : S3Object) : Prop :=
  ∀ records, p.records o = .ok records → records ≠ [] →
    ∃ run ∈ s.runs, (records.map (o.origin p.src).attach).Sublist run

/-- Every object at or before the watermark has been emitted. -/
def NeverSkips (s : BucketState) : Prop :=
  ∀ lm key, p.watermark s = .ok (some lm, some key) → ∀ o ∈ s.objects, p.selects o = true →
    o.objectTuple ≤ toLex (lm, key) → p.Emitted s o

/-- The event of every record of the object reads back as the object. -/
def ReadsBack (o : S3Object) : Prop :=
  ∀ records, p.records o = .ok records → ∀ record ∈ records,
    Unshadowed p.rt.toTextRuntime (.s3 (o.origin p.src)) record
      (p.transform ((o.origin p.src).attach record))

/-- An uploaded object of the stream is past the watermark of that moment, unless it has no
record, and its events read back. -/
def ArrivesBeyond (s : BucketState) : BucketAction → Prop
  | .upload o => p.selects o = true → p.ReadsBack o ∧
    ∀ watermark, p.watermark s = .ok watermark → o.shouldSkip watermark = true →
      ∀ records, p.records o = .ok records → records = []
  | .poll _ => True

/-- What uploads past the watermark keep. -/
structure Polled (s : BucketState) : Prop where
  keys : (s.objects.map S3Object.key).Nodup
  readsBack : ∀ o ∈ s.objects, p.selects o = true → p.ReadsBack o
  neverSkips : p.NeverSkips s

variable {p}

theorem shouldSkip_eq_true_iff {watermark : Option UtcTime × Option String} {o : S3Object} :
    o.shouldSkip watermark = true ↔
      ∃ lm key, watermark = (some lm, some key) ∧ o.objectTuple ≤ toLex (lm, key) := by
  obtain ⟨_ | lm, _ | key⟩ := watermark <;> simp [S3Object.shouldSkip]

theorem Polled.upload {s : BucketState} {o : S3Object} (h : p.Polled s)
    (ho : p.ArrivesBeyond s (.upload o)) : p.Polled (p.step s (.upload o)) := by
  have hmem {x : S3Object} (hx : x ∈ (p.step s (.upload o)).objects) :
      x ∈ s.objects ∧ x.key ≠ o.key ∨ x = o := by
    simpa [step, List.mem_append, List.mem_filter] using hx
  refine ⟨?_, fun x hx hsel => ?_, fun lm key hw x hx hsel hle => ?_⟩
  · have hold : ((s.objects.filter (·.key ≠ o.key)).map S3Object.key).Nodup :=
      h.keys.sublist (List.filter_sublist.map S3Object.key)
    simp only [step, List.map_append, List.map_cons, List.map_nil]
    rw [List.nodup_append]
    refine ⟨hold, by simp, ?_⟩
    simp only [List.mem_map, List.mem_filter, decide_eq_true_eq, List.mem_cons, List.not_mem_nil,
      or_false]
    rintro k ⟨x, ⟨-, hx⟩, rfl⟩ k' rfl
    exact hx
  · rcases hmem hx with ⟨hx, -⟩ | rfl
    · exact h.readsBack x hx hsel
    · exact (ho hsel).1
  · rcases hmem hx with ⟨hx, -⟩ | rfl
    · exact h.neverSkips lm key hw x hx hsel hle
    · intro records hrecords hne
      have hskip := shouldSkip_eq_true_iff.mpr ⟨lm, key, rfl, hle⟩
      exact absurd ((ho hsel).2 _ hw hskip records hrecords) hne

/-- The watermark a run stores is the object its last event came from. -/
theorem watermark_stored (front : List Event) {o : S3Object} {records : List Event} {record : Event}
    (hback : p.ReadsBack o) (hrecords : p.records o = .ok records) (hmem : record ∈ records) :
    s3Watermark p.rt.toTextRuntime (storedCheckpoint p.cursorValue p.transform
      (front ++ [(o.origin p.src).attach record])) = .ok (some o.lastModified, some o.key) := by
  rw [storedCheckpoint_append]
  refine ((storedFields_seen p.cursorValue _ _).s3Watermark_iff (fun k => ?_) o.lastModified
    o.key).mpr (hback records hrecords record hmem)
  rw [getOrNull, get?_copyEventMetadata]
  rfl

theorem emitted_eq {m : ℤ} {o : S3Object} {records : List Event}
    (h : p.records o = .ok records) :
    (p.adapter m).emitted o = records.map (o.origin p.src).attach := by
  have hrecords : (p.adapter m).objectRecords o = .ok records := h
  simp only [S3Adapter.emitted, S3Adapter.objectEvents, hrecords, Except.map]
  rfl

/-- Every event of a run is the event of a record of an object it read. -/
theorem record_of_mem_emitted {m : ℤ} {o : S3Object} {event : Event}
    (h : event ∈ (p.adapter m).emitted o) :
    ∃ records, p.records o = .ok records ∧ ∃ record ∈ records,
      (o.origin p.src).attach record = event := by
  cases hrecords : p.records o with
  | error e =>
    have hfail : (p.adapter m).objectRecords o = .error e := hrecords
    simp [S3Adapter.emitted, S3Adapter.objectEvents, hfail, Except.map] at h
  | ok records =>
    rw [emitted_eq hrecords] at h
    exact ⟨records, rfl, List.mem_map.mp h⟩

/-- Whatever is past the watermark and not after an object a run reads is read as well: it could
only be left out as a tie, and a key names one object. -/
theorem mem_fetched_of_le {m : ℤ} {s : BucketState} (hkeys : (s.objects.map S3Object.key).Nodup)
    {watermark : Option UtcTime × Option String} {o x : S3Object}
    (ho : o ∈ (p.adapter m).fetched watermark s.objects) (hx : x ∈ s.objects)
    (hsel : p.selects x = true) (hskip : x.shouldSkip watermark = false)
    (hle : x.objectTuple ≤ o.objectTuple) : x ∈ (p.adapter m).fetched watermark s.objects := by
  unfold S3Adapter.fetched at ho ⊢
  set rest := ((p.adapter m).contents s.objects).filter fun o => !(p.adapter m).skips watermark o
    with hrest
  have hxrest : x ∈ rest := by
    rw [hrest, List.mem_filter, S3Adapter.mem_contents]
    exact ⟨⟨hx, hsel⟩, by simpa [S3Adapter.skips, adapter] using hskip⟩
  have hsorted : rest.Pairwise fun x y => x.objectTuple ≤ y.objectTuple :=
    (S3Adapter.contents_sorted s.objects).sublist List.filter_sublist
  rw [← List.take_append_drop (p.adapter m).cfg.maxObjects rest] at hxrest hsorted
  rcases List.mem_append.mp hxrest with hxrest | hxrest
  · exact hxrest
  · have hge := (List.pairwise_append.mp hsorted).2.2 o ho x hxrest
    have hkey : x.key = o.key := congrArg (fun t => (ofLex t).2) (le_antisymm hle hge)
    have homem : o ∈ s.objects := by
      have := List.mem_of_mem_take ho
      rw [hrest, List.mem_filter, S3Adapter.mem_contents] at this
      exact this.1.1
    rwa [List.inj_on_of_nodup_map hkeys hx homem hkey]

theorem Emitted.append {s : BucketState} {x : S3Object} (h : p.Emitted s x) (run : List Event)
    (checkpoint : Option Json.Members) :
    p.Emitted { s with runs := s.runs ++ [run], checkpoint := checkpoint } x := by
  intro records hrecords hne
  obtain ⟨earlier, hearlier, hsub⟩ := h records hrecords hne
  exact ⟨earlier, List.mem_append_left _ hearlier, hsub⟩

/-- An object at or before the watermark a run stores was emitted before or by that run. -/
theorem Polled.emitted_after {s : BucketState} (h : p.Polled s) {m : ℤ} {events : List Event}
    (hfetch : (p.adapter m).fetch (some s.objects) s.checkpoint = .ok events) (hne : events ≠ [])
    {lm : UtcTime} {key : String} (hwm : s3Watermark p.rt.toTextRuntime
      (storedCheckpoint p.cursorValue p.transform events) = .ok (some lm, some key)) {x : S3Object}
    (hx : x ∈ s.objects) (hsel : p.selects x = true) (hle : x.objectTuple ≤ toLex (lm, key)) :
    p.Emitted
      { s with
        runs := s.runs ++ [events]
        checkpoint := storedCheckpoint p.cursorValue p.transform events } x := by
  obtain ⟨w, hvalid, hw⟩ := S3Adapter.watermark_of_fetch hfetch
  obtain ⟨-, hevents⟩ := (S3Adapter.fetch_eq_ok_iff hvalid hw events).mp hfetch
  by_cases hskip : x.shouldSkip w = true
  · obtain ⟨lm', key', rfl, hle'⟩ := shouldSkip_eq_true_iff.mp hskip
    exact (h.neverSkips lm' key' hw x hx hsel hle').append _ _
  · obtain ⟨front, last, rfl⟩ := (List.eq_nil_or_concat events).resolve_left hne
    rw [List.concat_eq_append] at *
    have hlast : last ∈ ((p.adapter m).fetched w s.objects).flatMap (p.adapter m).emitted := by
      rw [← hevents]
      simp
    obtain ⟨o, ho, hlasto⟩ := List.mem_flatMap.mp hlast
    obtain ⟨orecords, horecords, record, hrecord, rfl⟩ := record_of_mem_emitted hlasto
    obtain ⟨homem, hosel⟩ := S3Adapter.mem_of_mem_fetched ho
    have hstored := watermark_stored front (h.readsBack o homem hosel) horecords hrecord
    have hpair := Except.ok.inj (hstored.symm.trans hwm)
    obtain ⟨rfl, rfl⟩ : o.lastModified = lm ∧ o.key = key := by simpa using hpair
    have hxread := mem_fetched_of_le h.keys ho hx hsel (by simpa using hskip) hle
    intro records hrecords _
    refine ⟨_, List.mem_append_right _ List.mem_cons_self, ?_⟩
    rw [hevents, ← emitted_eq hrecords]
    exact List.sublist_flatten_of_mem (List.mem_map_of_mem hxread)

theorem Polled.poll {s : BucketState} (h : p.Polled s) (m : ℤ) : p.Polled (p.step s (.poll m)) := by
  simp only [step]
  cases hfetch : (p.adapter m).fetch (some s.objects) s.checkpoint with
  | error e => exact h
  | ok events =>
    refine ⟨h.keys, h.readsBack, fun lm key hwm x hx hsel hle => ?_⟩
    by_cases hne : events = []
    · simp only [hne, ↓reduceIte] at hwm ⊢
      exact (h.neverSkips lm key hwm x hx hsel hle).append _ _
    · simp only [hne, ↓reduceIte] at hwm ⊢
      exact h.emitted_after hfetch hne hwm hx hsel hle

end S3Poller

def BucketAction.uploadTime : BucketAction → Option UtcTime
  | .upload o => some o.lastModified
  | .poll _ => none

/-- Times of modification in whole seconds that do not decrease. -/
def UploadsInOrder (actions : List BucketAction) : Prop :=
  (actions.filterMap BucketAction.uploadTime).Pairwise (· ≤ ·) ∧
    ∀ t ∈ actions.filterMap BucketAction.uploadTime, t.micro = 0

/-- In every run of uploads and polls, with any number of objects a poll, whose uploads arrive
past the watermark, no object at or before the watermark was left out. -/
theorem s3_neverSkips (p : S3Poller) (actions : List BucketAction)
    (hbeyond : Steps.Along p.step p.ArrivesBeyond {} actions) :
    p.NeverSkips (Steps.run p.step {} actions) := by
  have hinit : p.Polled {} := by
    refine ⟨by simp, by simp, fun lm key hw => ?_⟩
    simp [S3Poller.watermark, s3Watermark] at hw
  have hstep (s : BucketState) (action : BucketAction) (h : p.Polled s)
      (haction : p.ArrivesBeyond s action) : p.Polled (p.step s action) := by
    cases action with
    | upload o => exact h.upload haction
    | poll m => exact h.poll m
  exact (Steps.run_invariant hstep hinit hbeyond).neverSkips

/-- ASCII texts, and one JSON text. -/
def asciiRuntime : FileRuntime where
  decode _ bytes := some (String.ofList (bytes.map fun b => Char.ofNat b.toNat))
  loads text := if text = "\x7b\"id\": 1\x7d" then some (.obj [("id", .int 1)]) else none

def asciiBytes (text : String) : List UInt8 := text.toList.map fun c => UInt8.ofNat c.toNat

def auditBucket : S3Poller where
  rt := asciiRuntime
  src := { endpointUrl := "http://127.0.0.1:9000", bucket := "audit", accessKey := "k", secretKey := "s" }

def auditTime : UtcTime :=
  { year := 2027, month := 3, day := 9, hour := 14, minute := 25, second := 37 }

def auditObject (key : String) : S3Object where
  key := key
  lastModified := auditTime
  body := some (asciiBytes "\x7b\"id\": 1\x7d")

/-- What an upload past the watermark comes to for an object with that one record. -/
theorem arrivesBeyond_of_eval {p : S3Poller} {s : BucketState} {o : S3Object} {record : Event}
    {watermark : Option UtcTime × Option String} (hrecords : p.records o = .ok [record])
    (hback : Unshadowed p.rt.toTextRuntime (.s3 (o.origin p.src)) record
      (p.transform ((o.origin p.src).attach record)))
    (hw : p.watermark s = .ok watermark) (hskip : o.shouldSkip watermark = false) :
    p.ArrivesBeyond s (.upload o) := by
  refine fun _ => ⟨fun records h record' hmem => ?_, fun w hw' hskip' => ?_⟩
  · obtain rfl := Except.ok.inj (hrecords.symm.trans h)
    rw [List.mem_singleton.mp hmem]
    exact hback
  · obtain rfl := Except.ok.inj (hw.symm.trans hw')
    rw [hskip] at hskip'
    cases hskip'

theorem auditBucket_neverSkips : auditBucket.NeverSkips
    (Steps.run auditBucket.step {} [.upload (auditObject "a.json"), .poll 1,
      .upload (auditObject "b.json"), .poll 1]) := by
  refine s3_neverSkips auditBucket _ ⟨?_, trivial, ?_, trivial, trivial⟩
  · exact arrivesBeyond_of_eval
      (show auditBucket.records (auditObject "a.json") = .ok [[("id", .int 1)]] by decide +kernel)
      ⟨by decide +kernel, by decide +kernel, by decide +kernel, by decide +kernel⟩ rfl rfl
  · have hw : auditBucket.watermark (Steps.run auditBucket.step {}
        [.upload (auditObject "a.json"), .poll 1]) = .ok (some auditTime, some "a.json") := by
      rfl
    exact arrivesBeyond_of_eval
      (show auditBucket.records (auditObject "b.json") = .ok [[("id", .int 1)]] by decide +kernel)
      ⟨by decide +kernel, by decide +kernel, by decide +kernel, by decide +kernel⟩ hw
      (by decide +kernel)

/-- The second object has the time of the first and a smaller key, and no run will read it. -/
theorem sameSecondUpload_skipped :
    UploadsInOrder [.upload (auditObject "b.json"), .poll 20, .upload (auditObject "a.json")] ∧
      ¬ auditBucket.NeverSkips (Steps.run auditBucket.step {} [.upload (auditObject "b.json"),
        .poll 20, .upload (auditObject "a.json")]) := by
  refine ⟨⟨by decide +kernel, by decide +kernel⟩, fun h => ?_⟩
  have hw : auditBucket.watermark (Steps.run auditBucket.step {} [.upload (auditObject "b.json"),
      .poll 20, .upload (auditObject "a.json")]) = .ok (some auditTime, some "b.json") := by
    decide +kernel
  have hle : (auditObject "a.json").objectTuple ≤ toLex (auditTime, "b.json") := by decide +kernel
  obtain ⟨run, hrun, hsub⟩ := h auditTime "b.json" hw (auditObject "a.json") (by decide +kernel)
    (by decide +kernel) hle [[("id", .int 1)]] (by decide +kernel) (by simp)
  have hnone : ∀ run ∈ (Steps.run auditBucket.step {} [.upload (auditObject "b.json"), .poll 20,
      .upload (auditObject "a.json")]).runs, ¬ ([[("id", Json.int 1)]].map
        ((auditObject "a.json").origin auditBucket.src).attach).Sublist run := by
    decide +kernel
  exact hnone run hrun hsub

end Sources
