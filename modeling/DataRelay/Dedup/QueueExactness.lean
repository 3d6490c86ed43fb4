import DataRelay.Lib.KeyedQueue
import DataRelay.Dedup.Queue

/-! One ingest on a fresh queue: the queue is the one that keeps a place for every key, with
the metadata of the place on the event it holds. -/
namespace Dedup
open Delivery KeyedQueue

variable (extractOne : Event → String → Option Json) (config : StreamDedupConfig)
  (seedKeys : List String)

/-- The event queued for an element: one that is not an object is wrapped. -/
def asEvent : Json → Event
  | .obj event => event
  | value => [("value", value)]

/-- The key of an element; only objects have one. -/
def itemKey (item : Json) : Option (String × String) :=
  match item with
  | .obj event => extractDedupKey extractOne event config
  | _ => none

namespace StreamDedupQueue

/-- One turn of the loop in `ingest`, for any element. -/
def ingestItem (q : StreamDedupQueue) (item : Json) : StreamDedupQueue :=
  match item with
  | .obj event => q.ingestOne extractOne config seedKeys event
  | value => q.insertNew [("value", value)] none

/-- `ingest` on a fresh queue, for any elements. -/
def ingestItems (items : List Json) : StreamDedupQueue :=
  items.foldl (ingestItem extractOne config seedKeys)
    { summary := {
        totalEvents := items.length
        duplicateHandling := config.duplicateHandling
        dedupScope := config.scope } }

end StreamDedupQueue

/-- The keys of the elements, in order. -/
def itemKeys (items : List Json) : List (Option String) :=
  items.map fun item => (itemKey extractOne config item).map Prod.fst

/-- The entry is what the place stands for: the event it holds, with the key and the queue id of
the place as metadata. -/
structure Fills (items : List Json) (slot : Slot String) (x : DedupQueueEntry) : Prop where
  event : ∃ item, items[slot.held]? = some item ∧
    x.event = attachDedupMetadata (asEvent item) slot.key x.queueId
  key : ∀ k, slot.key = some k → x.dedupKey = k

/-- The queue after the items: one entry for each place, numbered from one, an index of the keys,
and counters that leave no item out. -/
structure Refines (items : List Json) (slots : List (Slot String)) (q : StreamDedupQueue) :
    Prop where
  entries : List.Forall₂ (Fills items) slots q.entries
  ids : q.entries.map (·.queueId) = List.range' 1 q.entries.length
  next : q.nextQueueId = q.entries.length + 1
  index : ∀ k i, q.keyToIndex.lookup k = some i ↔ (slots[i]?).map (·.key) = some (some k)
  inserted : q.summary.inserted = q.entries.length
  counted : q.summary.inserted + q.summary.duplicateEvents = items.length

section Steps

variable {extractOne config seedKeys} {items : List Json} {slots : List (Slot String)}
  {q : StreamDedupQueue} {item : Json} {k source : String}

theorem Fills.concat {slot : Slot String} {x : DedupQueueEntry} (h : Fills items slot x)
    (item : Json) : Fills (items ++ [item]) slot x := by
  obtain ⟨held, hheld, hevent⟩ := h.event
  have hlt : slot.held < items.length := (List.getElem?_eq_some_iff.mp hheld).1
  exact ⟨⟨held, by rwa [List.getElem?_append_left hlt], hevent⟩, h.key⟩

theorem Refines.lengths (h : Refines items slots q) : slots.length = q.entries.length :=
  h.entries.length_eq

/-- No two places have the same key. -/
theorem Refines.index_unique (h : Refines items slots q) {i j : ℕ} {s t : Slot String}
    (hs : slots[i]? = some s) (ht : slots[j]? = some t) (hk : s.key = some k)
    (hl : t.key = some k) : i = j := by
  have hi := (h.index k i).mpr (by rw [hs, Option.map_some, hk])
  have hj := (h.index k j).mpr (by rw [ht, Option.map_some, hl])
  exact Option.some.inj (hi.symm.trans hj)

theorem Refines.mem_keys (h : Refines items slots q) :
    some k ∈ slots.map (·.key) ↔ ∃ i, q.keyToIndex.lookup k = some i := by
  constructor
  · intro hmem
    obtain ⟨i, hi⟩ := List.mem_iff_getElem?.mp hmem
    exact ⟨i, (h.index k i).mpr (by rwa [List.getElem?_map] at hi)⟩
  · rintro ⟨i, hi⟩
    have hget := (h.index k i).mp hi
    rw [← List.getElem?_map] at hget
    exact List.mem_of_getElem? hget

/-- An element that is queued anew. -/
theorem Refines.insertNew (h : Refines items slots q) (key : Option (String × String))
    (hnew : ∀ k, key.map Prod.fst = some k → some k ∉ slots.map (·.key)) :
    Refines (items ++ [item])
      (slots ++ [⟨key.map Prod.fst, items.length, items.length⟩])
      (q.insertNew (asEvent item) key) := by
  have hlen := h.lengths
  refine ⟨?_, ?_, ?_, ?_, ?_, ?_⟩
  · apply List.rel_append (h.entries.imp fun _ _ hfill => hfill.concat item)
    refine .cons ⟨⟨item, by simp, rfl⟩, fun k hk => ?_⟩ .nil
    have hkey : key.map Prod.fst = some k := hk
    simp [hkey]
  · simp only [StreamDedupQueue.insertNew, List.map_append, List.map_cons, List.map_nil,
      List.length_append, List.length_singleton, h.ids, h.next, List.range'_concat]
    simp [Nat.add_comm]
  · simp [StreamDedupQueue.insertNew, h.next]
  · intro k i
    have hlast : (slots ++ [⟨key.map Prod.fst, items.length, items.length⟩] :
        List (Slot String))[slots.length]? =
          some ⟨key.map Prod.fst, items.length, items.length⟩ := by simp
    have hold : ∀ i < slots.length, (slots ++ [⟨key.map Prod.fst, items.length, items.length⟩] :
        List (Slot String))[i]? = slots[i]? := fun i hi => List.getElem?_append_left hi
    have hbound : ∀ i, (slots[i]?).map (·.key) = some (some k) → i < slots.length := by
      intro i hi
      obtain ⟨s, hs, -⟩ := Option.map_eq_some_iff.mp hi
      exact (List.getElem?_eq_some_iff.mp hs).1
    have houtside : ∀ i, ¬ i < slots.length → i ≠ slots.length →
        (slots ++ [⟨key.map Prod.fst, items.length, items.length⟩] : List (Slot String))[i]? =
          none := by
      intro i hi hne
      apply List.getElem?_eq_none
      rw [List.length_append, List.length_singleton]
      omega
    have hlookup : (q.insertNew (asEvent item) key).keyToIndex.lookup k =
        if key.map Prod.fst = some k then some q.entries.length else q.keyToIndex.lookup k := by
      cases key with
      | none => rfl
      | some ks =>
        obtain ⟨l, source⟩ := ks
        simp only [StreamDedupQueue.insertNew, List.lookup_cons, Option.map_some, Option.some.injEq]
        by_cases hl : l = k
        · simp [hl]
        · have hne : (k == l) = false := by simpa using Ne.symm hl
          rw [hne, if_neg hl]
    rw [hlookup]
    split_ifs with hkey
    · rw [← hlen]
      constructor
      · intro hi
        obtain rfl := Option.some.inj hi
        rw [hlast, Option.map_some, hkey]
      · intro hi
        by_cases hlt : i < slots.length
        · rw [hold i hlt] at hi
          exact absurd (h.mem_keys.mpr ⟨i, (h.index k i).mpr hi⟩) (hnew k hkey)
        · by_cases heq : i = slots.length
          · rw [heq]
          · rw [houtside i hlt heq] at hi
            cases hi
    · rw [h.index k i]
      constructor
      · intro hi
        rwa [hold i (hbound i hi)]
      · intro hi
        by_cases hlt : i < slots.length
        · rwa [hold i hlt] at hi
        · by_cases heq : i = slots.length
          · rw [heq, hlast, Option.map_some] at hi
            exact absurd (Option.some.inj hi) hkey
          · rw [houtside i hlt heq] at hi
            cases hi
  · simp [StreamDedupQueue.insertNew, h.inserted]
  · have hcount := h.counted
    simp only [StreamDedupQueue.insertNew, List.length_append, List.length_singleton]
    omega

theorem countDuplicate_counts (summary : DedupSummary) (source : String) (inSeed inRun : Bool) :
    (countDuplicate summary source inSeed inRun).inserted = summary.inserted ∧
      (countDuplicate summary source inSeed inRun).duplicateEvents =
        summary.duplicateEvents + 1 := by
  unfold countDuplicate incDuplicateCounter
  simp only
  split_ifs <;> exact ⟨rfl, rfl⟩

/-- An element that is passed over: only counters and the record of duplicates change. -/
theorem Refines.suppress (h : Refines items slots q) (item : Json) {inSeed inRun : Bool}
    (duplicates : List DuplicateLog) :
    Refines (items ++ [item]) slots
      { q with summary := countDuplicate q.summary source inSeed inRun, duplicates } := by
  obtain ⟨hinserted, hdup⟩ := countDuplicate_counts q.summary source inSeed inRun
  refine ⟨h.entries.imp fun _ _ hfill => hfill.concat item, h.ids, h.next, h.index, ?_, ?_⟩
  · rw [hinserted]
    exact h.inserted
  · have hcount := h.counted
    simp only [hinserted, hdup, List.length_append, List.length_singleton]
    omega

/-- `keep_latest` puts the element in the place of its key. -/
theorem Refines.replace (h : Refines items slots q) (event : Event) {i : ℕ}
    (hi : q.keyToIndex.lookup k = some i) {inSeed inRun : Bool} :
    Refines (items ++ [.obj event])
      (slots.map fun s => if s.key = some k then { s with held := items.length } else s)
      (({ q with summary := countDuplicate q.summary source inSeed inRun } :
        StreamDedupQueue).replaceEntry i event k source) := by
  obtain ⟨hinserted, hdup⟩ := countDuplicate_counts q.summary source inSeed inRun
  obtain ⟨s, hs, hskey⟩ := Option.map_eq_some_iff.mp ((h.index k i).mp hi)
  have hlt : i < q.entries.length := by
    rw [← h.lengths]
    exact (List.getElem?_eq_some_iff.mp hs).1
  have hold : q.entries[i]? = some q.entries[i] := List.getElem?_eq_getElem hlt
  simp only [StreamDedupQueue.replaceEntry, hold]
  refine ⟨?_, ?_, ?_, ?_, ?_, ?_⟩
  · obtain ⟨hlen, hfills⟩ := List.forall₂_iff_get.mp h.entries
    refine List.forall₂_iff_get.mpr ⟨by simpa using hlen, fun j hj hj' => ?_⟩
    have hjslots : j < slots.length := by simpa using hj
    have hjentries : j < q.entries.length := by rwa [← hlen]
    have hfill := hfills j hjslots hjentries
    simp only [List.get_eq_getElem, List.getElem_map, List.getElem_set] at hfill ⊢
    by_cases hij : i = j
    · subst hij
      have hkey : slots[i].key = some k := by
        rw [← hskey]
        exact congrArg Slot.key (Option.some.inj ((List.getElem?_eq_getElem hjslots).symm.trans hs))
      rw [if_pos rfl, if_pos hkey]
      refine ⟨⟨.obj event, by simp, ?_⟩, fun l hl => ?_⟩
      · rw [hkey]
        rfl
      · exact Option.some.inj (hkey.symm.trans hl)
    · have hkey : slots[j].key ≠ some k := fun hk =>
        hij (h.index_unique hs (List.getElem?_eq_getElem hjslots) hskey hk)
      rw [if_neg hij, if_neg hkey]
      exact hfill.concat _
  · rw [List.length_set, ← h.ids]
    apply List.ext_getElem (by simp)
    intro j hj hj'
    rw [List.getElem_map, List.getElem_map, List.getElem_set]
    split_ifs with hij
    · subst hij
      rfl
    · rfl
  · simpa using h.next
  · have hkeys : (slots.map fun s => if s.key = some k then { s with held := items.length } else s).map
        (·.key) = slots.map (·.key) := by
      rw [List.map_map]
      apply List.map_congr_left
      intro s _
      show (if s.key = some k then { s with held := items.length } else s).key = s.key
      split_ifs <;> rfl
    intro l j
    rw [← List.getElem?_map, hkeys, List.getElem?_map]
    exact h.index l j
  · simpa [hinserted] using h.inserted
  · have hcount := h.counted
    simp only [hinserted, hdup, List.length_append, List.length_singleton]
    omega

/-- One turn of the loop. -/
theorem Refines.ingestItem (h : Refines items slots q)
    (hexact : Exact (decide (config.duplicateHandling = .keepLatest)) seedKeys
      (itemKeys extractOne config items) slots) (item : Json) :
    Refines (items ++ [item])
      (enter (decide (config.duplicateHandling = .keepLatest)) seedKeys slots items.length
        ((itemKey extractOne config item).map Prod.fst))
      (q.ingestItem extractOne config seedKeys item) := by
  have hunkeyed (hnone : itemKey extractOne config item = none) :
      Refines (items ++ [item]) (enter (decide (config.duplicateHandling = .keepLatest)) seedKeys
        slots items.length ((itemKey extractOne config item).map Prod.fst))
        (q.insertNew (asEvent item) none) := by
    rw [hnone]
    exact h.insertNew none (by simp)
  cases item with
  | obj event =>
    show Refines _ _ (q.ingestOne extractOne config seedKeys event)
    unfold StreamDedupQueue.ingestOne
    cases hkey : extractDedupKey extractOne event config with
    | none => exact hunkeyed hkey
    | some ks =>
      obtain ⟨k, source⟩ := ks
      have hitem : itemKey extractOne config (.obj event) = some (k, source) := hkey
      rw [hitem, Option.map_some]
      unfold enter
      cases hlookup : q.keyToIndex.lookup k with
      | none =>
        have hnew : some k ∉ slots.map (·.key) := by
          rw [h.mem_keys]
          rintro ⟨i, hi⟩
          rw [hlookup] at hi
          cases hi
        by_cases hseed : k ∈ seedKeys
        · simp only [hseed, hlookup, decide_true, if_true]
          exact h.suppress _ _
        · simp only [hseed, hlookup, decide_false, if_false, if_neg hnew]
          refine h.insertNew (some (k, source)) fun l hl => ?_
          obtain rfl := Option.some.inj hl
          exact hnew
      | some i =>
        have hmem : some k ∈ slots.map (·.key) := h.mem_keys.mpr ⟨i, hlookup⟩
        have hseed : k ∉ seedKeys := (hexact.mem_keys_iff.mp hmem).1
        simp only [hlookup, hseed, if_false, if_pos hmem]
        by_cases hlatest : config.duplicateHandling = .keepLatest
        · simp only [hlatest, decide_true, true_and, if_true]
          exact h.replace event hlookup
        · simp only [hlatest, decide_false, Bool.false_eq_true, false_and, if_false, List.map_id']
          exact h.suppress _ _
  | null => exact hunkeyed rfl
  | bool b => exact hunkeyed rfl
  | int i => exact hunkeyed rfl
  | float repr => exact hunkeyed rfl
  | str s => exact hunkeyed rfl
  | arr xs => exact hunkeyed rfl

end Steps

/-- The queue after one ingest. -/
theorem ingestItems_refines (items : List Json) :
    Refines items (run (decide (config.duplicateHandling = .keepLatest)) seedKeys
      (itemKeys extractOne config items))
      (StreamDedupQueue.ingestItems extractOne config seedKeys items) := by
  have hfold (total : ℕ) (items : List Json) : Refines items
      (run (decide (config.duplicateHandling = .keepLatest)) seedKeys
        (itemKeys extractOne config items))
      (items.foldl (StreamDedupQueue.ingestItem extractOne config seedKeys)
        { summary := {
            totalEvents := total
            duplicateHandling := config.duplicateHandling
            dedupScope := config.scope } }) := by
    induction items using List.reverseRecOn with
    | nil => exact ⟨.nil, rfl, rfl, by simp [run, itemKeys], rfl, rfl⟩
    | append_singleton items item ih =>
      have hkeys : itemKeys extractOne config (items ++ [item]) =
          itemKeys extractOne config items ++ [(itemKey extractOne config item).map Prod.fst] := by
        simp [itemKeys]
      have hlen : (itemKeys extractOne config items).length = items.length := by simp [itemKeys]
      rw [hkeys, run_concat, hlen, List.foldl_append]
      exact ih.ingestItem (exact_run _ _ _) item
  exact hfold items.length items

theorem ingestItem_totalEvents (q : StreamDedupQueue) (item : Json) :
    (q.ingestItem extractOne config seedKeys item).summary.totalEvents =
      q.summary.totalEvents := by
  have hcount (source : String) (inSeed inRun : Bool) :
      (countDuplicate q.summary source inSeed inRun).totalEvents = q.summary.totalEvents := by
    unfold countDuplicate incDuplicateCounter
    simp only
    split_ifs <;> rfl
  cases item with
  | obj event =>
    show (q.ingestOne extractOne config seedKeys event).summary.totalEvents = _
    unfold StreamDedupQueue.ingestOne StreamDedupQueue.replaceEntry
    split
    · rfl
    · simp only
      split
      · rfl
      · exact hcount ..
      · split_ifs
        · split <;> exact hcount ..
        · exact hcount ..
  | _ => rfl

theorem ingestItems_totalEvents (items : List Json) :
    (StreamDedupQueue.ingestItems extractOne config seedKeys items).summary.totalEvents =
      items.length := by
  have hfold (q : StreamDedupQueue) (items : List Json) :
      (items.foldl (StreamDedupQueue.ingestItem extractOne config seedKeys) q).summary.totalEvents =
        q.summary.totalEvents := by
    induction items generalizing q with
    | nil => rfl
    | cons item items ih =>
      rw [List.foldl_cons, ih, ingestItem_totalEvents]
  exact hfold _ items

/-- One ingest on a fresh queue: the items that open places are those without a key and the first
with each key that is not seeded, in order; a place holds its item, or the last one with its key
under `keep_latest`; the events returned are those held, under rising queue ids; and every item
is counted once. -/
theorem ingest_exact (items : List Json) :
    ∃ places : List (Slot String),
      let keys := itemKeys extractOne config items
      let q := StreamDedupQueue.ingestItems extractOne config seedKeys items
      Exact (decide (config.duplicateHandling = .keepLatest)) seedKeys keys places ∧
        List.Forall₂ (Fills items) places q.entries ∧
        q.events = q.entries.map (·.event) ∧
        (q.entries.map (·.queueId)).Pairwise (· < ·) ∧
        (places.filterMap (·.key)).Nodup ∧
        (∀ k, k ∈ places.filterMap (·.key) ↔ k ∉ seedKeys ∧ some k ∈ keys) ∧
        (∀ i, keys[i]? = some none → ∃! place, place ∈ places ∧ place.held = i) ∧
        q.summary.totalEvents = items.length ∧
        q.summary.totalEvents = q.summary.inserted + q.summary.duplicateEvents := by
  have hexact := exact_run (decide (config.duplicateHandling = .keepLatest)) seedKeys
    (itemKeys extractOne config items)
  have hrefines := ingestItems_refines extractOne config seedKeys items
  have htotal := ingestItems_totalEvents extractOne config seedKeys items
  refine ⟨_, hexact, hrefines.entries, rfl, ?_, hexact.nodup_keys, fun k => ?_,
    fun i hi => hexact.keyless hi, htotal, htotal.trans hrefines.counted.symm⟩
  · rw [hrefines.ids]
    exact List.pairwise_lt_range'
  · rw [← hexact.mem_keys_iff]
    simp

end Dedup
