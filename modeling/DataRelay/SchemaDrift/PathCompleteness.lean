import DataRelay.SchemaDrift.PathResolve
import DataRelay.SchemaObservation.Enforcement

/-! Which drift paths the policy finds in the batch again. The schema walk and the inventory of
the batch write a path alike only where it steps from object to object under plain names; every
other path is left to the fallbacks of the resolution. -/
namespace SchemaDrift
open Protection Delivery PyText JsonPath SchemaObservation

/-- The words the path library keeps for itself. -/
def reservedWords : List String := ["where", "wherenot"]

/-- A name that is written without quotes and that the library reads as a name. -/
def PlainName (name : String) : Prop := isPlainMember name.toList = true ∧ name ∉ reservedWords

def dottedPath (names : List String) : String :=
  String.ofList ('$' :: names.flatMap fun name => '.' :: name.toList)

/-- The library follows plain members. -/
def ReadsMembers (engine : JsonPathEngine) : Prop :=
  ∀ (event : Json) (names : List String) (v : Json), names ≠ [] → (∀ name ∈ names, PlainName name) →
    getAt (names.map .member) event = some v → engine.find event (dottedPath names) = some [v]

section Plain

variable {names : List String}

theorem PlainName.readable {name : String} (h : PlainName name) : Readable (.key name) := by
  refine .inr ⟨name, rfl, ?_⟩
  rintro rfl
  have hplain := h.1
  revert hplain
  decide

theorem selsChars_plain (h : ∀ name ∈ names, PlainName name) :
    selsChars (names.map .key) = names.flatMap fun name => '.' :: name.toList := by
  induction names with
  | nil => rfl
  | cons name names ih =>
    have hname := (h name List.mem_cons_self).1
    have hrest := ih fun other hother => h other (List.mem_cons_of_mem _ hother)
    unfold selsChars at hrest ⊢
    rw [List.map_cons, List.flatMap_cons, List.flatMap_cons, hrest, selChars, memberChars,
      if_pos hname]

theorem readable_plain (h : ∀ name ∈ names, PlainName name) :
    ∀ s ∈ names.map Sel.key, Readable s := by
  intro s hs
  obtain ⟨name, hname, rfl⟩ := List.mem_map.mp hs
  exact (h name hname).readable

theorem toList_dottedPath (h : ∀ name ∈ names, PlainName name) :
    (dottedPath names).toList = '$' :: selsChars (names.map .key) := by
  rw [selsChars_plain h, dottedPath, String.toList_ofList]

theorem normalize_dottedPath (h : ∀ name ∈ names, PlainName name) :
    normalizeProtectionJsonPath (dottedPath names) = dottedPath names := by
  have hchars := toList_dottedPath h
  have hstrip : strip (dottedPath names) = dottedPath names := by
    unfold strip
    rw [hchars, stripChars_path (readable_plain h), ← hchars, String.ofList_toList]
  unfold normalizeProtectionJsonPath
  simp only [hstrip]
  have hempty : (dottedPath names).isEmpty = false := by
    rw [Bool.eq_false_iff, ne_eq, String.isEmpty_iff, ← String.toList_inj, hchars]
    simp
  rw [hempty, hchars]
  simp

theorem dottedPath_ne (h : names ≠ []) : dottedPath names ≠ "" ∧ dottedPath names ≠ "$" := by
  obtain ⟨name, rest, rfl⟩ := List.exists_cons_of_ne_nil h
  constructor <;> intro heq
  · have := congrArg String.toList heq
    simp [dottedPath] at this
  · have := congrArg String.toList heq
    simp [dottedPath] at this

/-- A place reached through plain members only: its path is dotted and leads to its value. -/
theorem recorded_plain {event : Json} {place : Place} (h : Recorded event place)
    (hsels : place.sels = names.map .key) (hplain : ∀ name ∈ names, PlainName name) :
    place.path = dottedPath names ∧ ∃ v, getAt (names.map .member) event = some v := by
  constructor
  · rw [← String.toList_inj, h.text, hsels, toList_dottedPath hplain]
  · have hwild : .wild ∉ place.sels := by
      rw [hsels]
      simp
    have hpos : place.pos = names.map .member := by
      rcases h.leads with hacc | hdouble | hlast
      · rw [hsels, List.forall₂_map_left_iff] at hacc
        clear hsels hplain hwild
        generalize place.pos = pos at hacc
        induction hacc with
        | nil => rfl
        | @cons name step names pos hstep _ ih =>
          cases step with
          | item n => exact hstep.elim
          | member other =>
            obtain rfl : name = other := hstep
            rw [List.map_cons, ih]
      · exact absurd (hdouble.subset List.mem_cons_self) hwild
      · exact absurd (List.mem_of_getLast? hlast) hwild
    exact hpos ▸ h.value

end Plain

/-! ### What the inventory lists -/

section Listed

theorem childPath_eq (path key : String) : childPath path key = path ++ "." ++ key := by
  unfold childPath
  split_ifs with h
  · rw [h]
    rfl
  · rfl

theorem prefix_listed (path : String) (out : List String) : out <+: listed path out := by
  unfold listed
  split_ifs
  · exact List.prefix_rfl
  · exact List.prefix_append _ _

mutual
theorem prefix_flattenWalk : ∀ (v : Json) (path : String) (depth : ℕ) (out : List String),
    out <+: flattenWalk v path depth out
  | v, path, depth, out => by
    unfold flattenWalk
    split_ifs
    · exact List.prefix_rfl
    · cases v with
      | obj ms => exact (prefix_listed path out).trans (prefix_flattenMembers ms path _ _)
      | _ => exact prefix_listed path out

theorem prefix_flattenMembers : ∀ (ms : Json.Members) (path : String) (depth : ℕ)
    (out : List String), out <+: flattenMembers ms path depth out
  | [], _, _, _ => by
    rw [flattenMembers]
  | (key, val) :: ms, path, depth, out => by
    unfold flattenMembers
    split_ifs
    · exact List.prefix_rfl
    · exact (prefix_flattenWalk val _ depth out).trans (prefix_flattenMembers ms path depth _)
end

/-- Within its limits the loop over an object walks every member. -/
theorem flattenWalk_of_member {ms : Json.Members} {key : String} {val : Json}
    (hget : Dict.get? key ms = some val) {path : String} {depth : ℕ} {out : List String}
    (hfew : (flattenMembers ms path depth out).length < maxFlatFields) :
    ∃ before, flattenWalk val (childPath path key) depth before <+:
      flattenMembers ms path depth out := by
  induction ms generalizing out with
  | nil => simp at hget
  | cons m ms ih =>
    obtain ⟨l, w⟩ := m
    have hopen : ¬ maxFlatFields ≤ out.length := by
      have hle := (prefix_flattenMembers ((l, w) :: ms) path depth out).length_le
      omega
    rw [flattenMembers, if_neg hopen] at hfew ⊢
    by_cases hl : l = key
    · subst hl
      obtain rfl : w = val := by simpa using hget
      exact ⟨out, prefix_flattenMembers ms path depth _⟩
    · rw [Dict.get?_cons, if_neg hl] at hget
      exact ih hget hfew

/-- A path of members within the limits of the inventory is listed. -/
theorem mem_flattenWalk {names : List String} {v x : Json} {path : String} {depth : ℕ}
    {out : List String} (hget : getAt (names.map .member) v = some x)
    (hdepth : depth + names.length ≤ maxFlatDepth)
    (hfew : (flattenWalk v path depth out).length < maxFlatFields)
    (hpath : names = [] → path ≠ "" ∧ path ≠ "$") :
    names.foldl childPath path ∈ flattenWalk v path depth out := by
  induction names generalizing v path depth out with
  | nil =>
    obtain ⟨hempty, hroot⟩ := hpath rfl
    have hopen : ¬ (maxFlatFields ≤ out.length ∨ maxFlatDepth < depth) := by
      have hle := (prefix_flattenWalk v path depth out).length_le
      simp only [List.length_nil] at hdepth
      omega
    have hself : path ∈ listed path out := by
      simp [listed, hroot, String.isEmpty_iff, hempty]
    rw [List.foldl_nil]
    unfold flattenWalk
    rw [if_neg hopen]
    cases v with
    | obj ms => exact (prefix_flattenMembers ms path _ _).subset hself
    | _ => exact hself
  | cons name names ih =>
    cases v with
    | obj ms =>
      rw [List.map_cons, getAt] at hget
      obtain ⟨val, hval, hget⟩ := Option.bind_eq_some_iff.mp hget
      rw [List.length_cons] at hdepth
      have hopen : ¬ (maxFlatFields ≤ out.length ∨ maxFlatDepth < depth) := by
        have hle := (prefix_flattenWalk (.obj ms) path depth out).length_le
        omega
      rw [flattenWalk, if_neg hopen] at hfew ⊢
      obtain ⟨before, hbefore⟩ := flattenWalk_of_member hval hfew
      refine hbefore.subset (ih hget ?_ ?_ ?_)
      · omega
      · exact hbefore.length_le.trans_lt hfew
      · intro _
        rw [childPath_eq]
        constructor <;> intro heq
        · have := congrArg String.toList heq
          simp at this
        · have hdot : '.' ∈ (path ++ "." ++ name).toList := by simp
          rw [heq] at hdot
          exact absurd hdot (by decide)
    | _ => simp [getAt] at hget

theorem foldl_childPath (names : List String) (path : String) :
    (names.foldl childPath path).toList =
      path.toList ++ names.flatMap fun name => '.' :: name.toList := by
  induction names generalizing path with
  | nil => simp
  | cons name names ih => simp [ih, childPath_eq]

theorem mem_collect {events : List Event} {path : String} :
    path ∈ collectEnrichedFieldPaths events ↔
      path ≠ "" ∧ ∃ event ∈ events, ∃ listed ∈ flattenFieldPaths event,
        normalizeProtectionJsonPath listed = path := by
  unfold collectEnrichedFieldPaths Reordering.sortBy
  rw [(List.perm_insertionSort _ _).mem_iff, List.mem_eraseDups, List.mem_filter, List.mem_map]
  simp only [List.mem_flatMap, Bool.not_eq_eq_eq_not, Bool.not_true, String.isEmpty_eq_false_iff]
  constructor
  · rintro ⟨⟨listed, ⟨event, hevent, hlisted⟩, hpath⟩, hne⟩
    exact ⟨hne, event, hevent, listed, hlisted, hpath⟩
  · rintro ⟨hne, event, hevent, listed, hlisted, hpath⟩
    exact ⟨⟨listed, ⟨event, hevent, hlisted⟩, hpath⟩, hne⟩

/-- Plain members, not too deep, in an event the inventory lists in full. -/
theorem plain_mem_collect {names : List String} (hnames : names ≠ [])
    (hplain : ∀ name ∈ names, PlainName name) {events : List Event} {event : Event}
    (hevent : event ∈ events) {x : Json}
    (hget : getAt (names.map .member) (.obj event) = some x) (hdepth : names.length ≤ maxFlatDepth)
    (hfew : (flattenFieldPaths event).length < maxFlatFields) :
    dottedPath names ∈ collectEnrichedFieldPaths events := by
  have hfold : names.foldl childPath "$" = dottedPath names := by
    rw [← String.toList_inj, foldl_childPath]
    simp [dottedPath]
  have hmem : dottedPath names ∈ flattenFieldPaths event := by
    rw [← hfold]
    exact mem_flattenWalk hget (by omega) hfew fun h => absurd h hnames
  exact mem_collect.mpr ⟨(dottedPath_ne hnames).1, event, hevent, _, hmem,
    normalize_dottedPath hplain⟩

end Listed

/-! ### What the policy makes of an emitted path -/

section Followed

variable {T : CaseTable} {engine : JsonPathEngine} {b : DriftBatch} {path : String}

/-- The open drift on the path is one of the unknown fields the policy acts on. -/
def Followed (T : CaseTable) (engine : JsonPathEngine) (b : DriftBatch) (path : String) : Prop :=
  ∀ drift ∈ b.openDrifts, drift.category = "field_added" → strip drift.fieldPath = path →
    ∃ item ∈ (b.atRuntime T engine).unknownFields,
      item.driftFindingId = drift.id ∧ item.enrichedPath = path

theorem mem_pathSet_of_normal {runtimePaths : List String} (h : path ∈ runtimePaths)
    (hnormal : normalizeProtectionJsonPath path = path) : path ∈ pathSet runtimePaths := by
  unfold pathSet
  rw [List.mem_eraseDups]
  exact List.mem_map.mpr ⟨path, h, hnormal⟩

theorem resolve_of_mem {runtimePaths : List String} {aliasMap : List (String × String)}
    (h : path ∈ runtimePaths) (hne : path ≠ "")
    (hnormal : normalizeProtectionJsonPath path = path) :
    resolveProtectionFieldPath T path runtimePaths aliasMap = .ok path := by
  have hempty : ¬ path.isEmpty = true := by rwa [String.isEmpty_iff]
  unfold resolveProtectionFieldPath
  simp only [hnormal]
  rw [if_neg hempty, if_pos (mem_pathSet_of_normal h hnormal)]

/-- A path that resolves to itself and stands in the batch is followed. -/
theorem followed_of_resolves (hne : path ≠ "")
    (hresolve : resolveProtectionFieldPath T path (collectEnrichedFieldPaths b.enrichedEvents)
      b.aliasMap = .ok path)
    (hexists : pathExistsInBatch engine b.enrichedEvents path = true) :
    Followed T engine b path := by
  intro drift hdrift hcategory hpath
  have hempty : ¬ path.isEmpty = true := by rwa [String.isEmpty_iff]
  have hpresent : (b.atRuntime T engine).pathExistsInBatch path = true := by
    rw [DriftBatch.atRuntime]
    exact hexists
  have hresolved : (b.atRuntime T engine).resolvePath path = .ok path := by
    rw [DriftBatch.atRuntime_resolvePath, hresolve]
  have hmatch : ∃ item, (b.atRuntime T engine).matchDrift drift = .field item ∧
      item.driftFindingId = drift.id ∧ item.enrichedPath = path := by
    unfold DriftBatch.matchDrift
    simp only [hpath]
    rw [if_neg hempty, hresolved]
    simp only [hpresent]
    exact ⟨_, rfl, rfl, rfl⟩
  obtain ⟨item, hitem, hid, henriched⟩ := hmatch
  refine ⟨item, ?_, hid, henriched⟩
  refine List.mem_filterMap.mpr ⟨.field item, ?_, rfl⟩
  refine List.mem_map.mpr ⟨drift, List.mem_filter.mpr ⟨?_, decide_eq_true hcategory⟩, hitem⟩
  rw [DriftBatch.atRuntime_openDrifts]
  exact hdrift

/-- A path the inventory lacks, without an alias in it and without an only namesake, is given up. -/
theorem resolve_error {runtimePaths : List String} {aliasMap : List (String × String)}
    (hpath : normalizeProtectionJsonPath path ∉ pathSet runtimePaths)
    (halias : usableAlias runtimePaths aliasMap (normalizeProtectionJsonPath path) = none)
    (hleaf : (leafMatches T runtimePaths (normalizeProtectionJsonPath path)).length ≠ 1) :
    ∃ error, resolveProtectionFieldPath T path runtimePaths aliasMap = .error error := by
  unfold resolveProtectionFieldPath
  simp only
  split_ifs
  · exact ⟨_, rfl⟩
  · rw [halias]
    simp only
    split
    · next only hmatches =>
      rw [hmatches] at hleaf
      exact absurd rfl hleaf
    · exact ⟨_, rfl⟩
    · exact ⟨_, rfl⟩

/-- A path the walk emits for an event of the batch, through plain members only, is listed in the
inventory where it is in reach; listed, it resolves to itself, designates what it designated, and
is followed. A path that is not listed is given up where no fallback applies. -/
theorem drift_path_followed (T : CaseTable) {engine : JsonPathEngine} (hengine : ReadsMembers engine)
    (b : DriftBatch) {event : Event} (hevent : event ∈ b.enrichedEvents)
    (hwf : (Json.obj event).WellFormed) {maxDepth maxPaths : ℕ} {place : Place}
    (hplace : place ∈ (collectPathsFromEvent maxDepth maxPaths (.obj event)).sites) :
    (∀ names : List String, names ≠ [] → place.sels = names.map .key →
      (∀ name ∈ names, PlainName name) → names.length ≤ maxFlatDepth →
      (flattenFieldPaths event).length < maxFlatFields →
      place.path ∈ collectEnrichedFieldPaths b.enrichedEvents) ∧
    (∀ names : List String, names ≠ [] → place.sels = names.map .key →
      (∀ name ∈ names, PlainName name) →
      place.path ∈ collectEnrichedFieldPaths b.enrichedEvents →
      resolveProtectionFieldPath T place.path (collectEnrichedFieldPaths b.enrichedEvents)
          b.aliasMap = .ok place.path ∧
        parseProtectionPath place.path = .ok place.sels ∧
        pathExistsInBatch engine b.enrichedEvents place.path = true ∧
        Followed T engine b place.path) ∧
    (normalizeProtectionJsonPath place.path ∉
        pathSet (collectEnrichedFieldPaths b.enrichedEvents) →
      usableAlias (collectEnrichedFieldPaths b.enrichedEvents) b.aliasMap
        (normalizeProtectionJsonPath place.path) = none →
      (leafMatches T (collectEnrichedFieldPaths b.enrichedEvents)
        (normalizeProtectionJsonPath place.path)).length ≠ 1 →
      ∃ error, resolveProtectionFieldPath T place.path
        (collectEnrichedFieldPaths b.enrichedEvents) b.aliasMap = .error error) := by
  have hrecorded := (collectPaths_walked hwf maxDepth maxPaths).sites place hplace
  refine ⟨fun names hnames hsels hplain hdepth hfew => ?_,
    fun names hnames hsels hplain hlisted => ?_, resolve_error⟩
  · obtain ⟨hpath, v, hvalue⟩ := recorded_plain hrecorded hsels hplain
    rw [hpath]
    exact plain_mem_collect hnames hplain hevent hvalue hdepth hfew
  obtain ⟨hpath, v, hvalue⟩ := recorded_plain hrecorded hsels hplain
  obtain ⟨hempty, hroot⟩ := dottedPath_ne hnames
  rw [hpath] at hlisted ⊢
  have hnormal := normalize_dottedPath hplain
  have hresolve : resolveProtectionFieldPath T (dottedPath names)
      (collectEnrichedFieldPaths b.enrichedEvents) b.aliasMap = .ok (dottedPath names) :=
    resolve_of_mem hlisted hempty hnormal
  have hexists : pathExistsInBatch engine b.enrichedEvents (dottedPath names) = true := by
    refine List.any_eq_true.mpr ⟨event, hevent, ?_⟩
    have hfound := hengine (.obj event) names v hnames hplain hvalue
    simp [pathExistsOnEvent, hnormal, hroot, String.isEmpty_iff, hempty, hfound]
  refine ⟨hresolve, ?_, hexists, followed_of_resolves hempty hresolve hexists⟩
  rw [hsels]
  exact (parse_observed (toList_dottedPath hplain) (readable_plain hplain)).1

theorem valuesAt_members {names : List String} {v x : Json}
    (h : getAt (names.map .member) v = some x) : valuesAt (names.map .key) v = [x] := by
  induction names generalizing v with
  | nil => simpa [getAt, valuesAt] using h
  | cons name names ih =>
    cases v with
    | obj ms =>
      rw [List.map_cons, getAt] at h
      obtain ⟨val, hval, hx⟩ := Option.bind_eq_some_iff.mp h
      simp [valuesAt, hval, ih hx]
    | _ => simp [getAt] at h

theorem grammarEngine_readsMembers : ReadsMembers DriftBatch.grammarEngine := by
  intro event names v _ hplain hget
  have hparse := (parse_observed (toList_dottedPath hplain) (readable_plain hplain)).1
  simp only [DriftBatch.grammarEngine, hparse, valuesAt_members hget]

/-- A batch with one event and one open drift. -/
def oneDriftBatch (event : Event) (path : String) : DriftBatch where
  enrichedEvents := [event]
  openDrifts := [⟨7, "field_added", path⟩]
  resolvePath := .ok
  pathExistsInBatch := fun _ => false

def nestedEvent : Event := [("user", .obj [("email", .str "a@b.c")])]

theorem nestedEvent_followed :
    Followed asciiCase DriftBatch.grammarEngine (oneDriftBatch nestedEvent "$.user.email")
      "$.user.email" := by
  have hplace : (⟨"$.user.email", [.key "user", .key "email"], [.member "user", .member "email"]⟩ :
      Place) ∈ (collectPathsFromEvent 12 500 (.obj nestedEvent)).sites := by
    decide +kernel
  have hwf : (Json.obj nestedEvent).WellFormed := by
    simp [nestedEvent, Json.WellFormed, Json.WellFormedMembers]
  obtain ⟨hlisted, hmembers, -⟩ := drift_path_followed asciiCase grammarEngine_readsMembers
    (oneDriftBatch nestedEvent "$.user.email") (List.mem_singleton_self nestedEvent) hwf hplace
  have hplain : ∀ name ∈ ["user", "email"], PlainName name := by
    unfold PlainName
    decide
  have hmem := hlisted ["user", "email"] (by simp) rfl hplain (by decide) (by decide +kernel)
  exact (hmembers ["user", "email"] (by simp) rfl hplain hmem).2.2.2

/-- A drift inside a list is present in the batch and skipped. -/
def listEvent : Event := [("items", .arr [.obj [("sku", .str "a")]])]

theorem listEvent_skipped :
    "$.items[].sku" ∈ (collectPathsFromEvent 12 500 (.obj listEvent)).out.map Prod.fst ∧
      resolveProtectionFieldPath asciiCase "$.items[].sku" (collectEnrichedFieldPaths [listEvent]) [] =
        .error "Protection path $.items[].sku does not exist on the runtime enriched event." ∧
      ((oneDriftBatch listEvent "$.items[].sku").atRuntime asciiCase
        DriftBatch.grammarEngine).unknownFields = [] := by
  decide +kernel

end Followed

end SchemaDrift
