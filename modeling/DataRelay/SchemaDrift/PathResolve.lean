import DataRelay.Lib.LetterCase
import DataRelay.Protection.Modes
import DataRelay.Lib.Reordering
import DataRelay.Protection.FieldPathParser
import DataRelay.SchemaDrift.Precedence
import Mathlib.Data.String.Basic

/-! Which path of the enriched events a drift path stands for: the path itself, the output its
mapping alias points to, or the one path with the same last segment. -/
namespace SchemaDrift
open Protection Delivery PyText

/-- `normalize_protection_json_path`. -/
def normalizeProtectionJsonPath (path : String) : String :=
  let trimmed := strip path
  if trimmed.isEmpty then ""
  else if trimmed.toList.head? = some '$' then trimmed
  else "$." ++ trimmed

/-- `_ARRAY_INDEX_RE.sub("", …)`; `fuel` bounds the length of the text. -/
def dropIndexes : (fuel : ℕ) → List Char → List Char
  | 0, cs => cs
  | _, [] => []
  | fuel + 1, c :: cs =>
    match c, cs.takeWhile isDecimal, cs.dropWhile isDecimal with
    | '[', _ :: _, ']' :: rest => dropIndexes fuel rest
    | _, _, _ => c :: dropIndexes fuel cs

section Resolve

-- what `str.lower` makes of letters
variable (T : CaseTable)

/-- `_leaf_segment`. -/
def leafSegment (fieldPath : String) : String :=
  let leaf := (normalizeProtectionJsonPath fieldPath).toList.rtakeWhile (· ≠ '.')
  T.lowerText (String.ofList ((dropIndexes leaf.length leaf).filter (· ≠ '$')))

/-- The normalized runtime paths; the set of the program, in the order of the list. -/
def pathSet (runtimePaths : List String) : List String :=
  (runtimePaths.map normalizeProtectionJsonPath).eraseDups

/-- The alias of a path, where it names a runtime path. -/
def usableAlias (runtimePaths : List String) (aliasMap : List (String × String))
    (normalized : String) : Option String :=
  (Dict.get? normalized aliasMap).filter fun aliased =>
    !aliased.isEmpty && decide (aliased ∈ pathSet runtimePaths)

def leafMatches (runtimePaths : List String) (normalized : String) : List String :=
  (pathSet runtimePaths).filter fun path => leafSegment T path = leafSegment T normalized

/-- `resolve_protection_field_path`: the path, or the error. -/
def resolveProtectionFieldPath (selectedPath : String) (runtimePaths : List String)
    (aliasMap : List (String × String)) : Except String String :=
  let normalized := normalizeProtectionJsonPath selectedPath
  if normalized.isEmpty then .error "Protection field path is required."
  else if normalized ∈ pathSet runtimePaths then .ok normalized
  else
    match usableAlias runtimePaths aliasMap normalized with
    | some aliased => .ok aliased
    | none =>
      match leafMatches T runtimePaths normalized with
      | [path] => .ok path
      | [] => .error ("Protection path " ++ normalized ++
          " does not exist on the runtime enriched event.")
      | paths => .error ("Ambiguous protection path " ++ normalized ++ "; matches: " ++
          String.intercalate ", " paths)

end Resolve

/-! ### The inventory of a batch -/

def maxFlatFields : ℕ := 220
def maxFlatDepth : ℕ := 8

/-- A path is listed unless it is the root. -/
def listed (path : String) (out : List String) : List String :=
  if path.isEmpty || path = "$" then out else out ++ [path]

def childPath (path key : String) : String :=
  if path = "$" then "$." ++ key else path ++ "." ++ key

mutual
/-- `walk` of `flatten_field_paths`. -/
def flattenWalk : Json → (path : String) → (depth : ℕ) → List String → List String
  | v, path, depth, out =>
    if maxFlatFields ≤ out.length ∨ maxFlatDepth < depth then out
    else
      match v with
      | .obj ms => flattenMembers ms path (depth + 1) (listed path out)
      | _ => listed path out

/-- The loop over the members of an object. -/
def flattenMembers : Json.Members → (path : String) → (depth : ℕ) → List String → List String
  | [], _, _, out => out
  | (key, val) :: ms, path, depth, out =>
    if maxFlatFields ≤ out.length then out
    else flattenMembers ms path depth (flattenWalk val (childPath path key) depth out)
end

/-- `flatten_field_paths`. -/
def flattenFieldPaths (event : Event) : List String := flattenWalk (.obj event) "$" 0 []

/-- `collect_enriched_field_paths`. -/
def collectEnrichedFieldPaths (events : List Event) : List String :=
  Reordering.sortBy id
    (((events.flatMap flattenFieldPaths).map normalizeProtectionJsonPath).filter (!·.isEmpty)).eraseDups

/-- The path library: the values it finds, `none` where it raises. -/
structure JsonPathEngine where
  find : Json → String → Option (List Json)

/-- `path_exists_on_event`. -/
def pathExistsOnEvent (engine : JsonPathEngine) (fieldPath : String) (event : Event) : Bool :=
  let normalized := normalizeProtectionJsonPath fieldPath
  if normalized.isEmpty || normalized = "$" then false
  else (engine.find (.obj event) normalized).any (!·.isEmpty)

/-- `path_exists_in_batch`. -/
def pathExistsInBatch (engine : JsonPathEngine) (events : List Event) (fieldPath : String) : Bool :=
  events.any (pathExistsOnEvent engine fieldPath)

theorem pathExistsInBatch_empty (engine : JsonPathEngine) (events : List Event) :
    pathExistsInBatch engine events "" = false := by
  have hempty : normalizeProtectionJsonPath "" = "" := by rfl
  simp [pathExistsInBatch, pathExistsOnEvent, hempty]

/-- The batch with its paths resolved against its own events. -/
def DriftBatch.atRuntime (T : CaseTable) (engine : JsonPathEngine) (b : DriftBatch) : DriftBatch :=
  { b with
    resolvePath := fun path =>
      resolveProtectionFieldPath T path (collectEnrichedFieldPaths b.enrichedEvents) b.aliasMap
    pathExistsInBatch := SchemaDrift.pathExistsInBatch engine b.enrichedEvents
    empty_absent := pathExistsInBatch_empty engine b.enrichedEvents }

theorem DriftBatch.atRuntime_resolvePath (T : CaseTable) (engine : JsonPathEngine) (b : DriftBatch)
    (path : String) : (b.atRuntime T engine).resolvePath path =
      resolveProtectionFieldPath T path (collectEnrichedFieldPaths b.enrichedEvents) b.aliasMap := by
  rw [DriftBatch.atRuntime]

theorem DriftBatch.atRuntime_openDrifts (T : CaseTable) (engine : JsonPathEngine) (b : DriftBatch) :
    (b.atRuntime T engine).openDrifts = b.openDrifts := by
  rw [DriftBatch.atRuntime]


/-! ### What a resolved path is -/

section Stands

variable {T : CaseTable}

/-- A runtime path stands for a drift path: it is that path, or the output of its alias, or,
where neither is a runtime path, the only one with the same last segment. -/
def StandsFor (T : CaseTable) (selectedPath : String) (runtimePaths : List String)
    (aliasMap : List (String × String)) (path : String) : Prop :=
  path ∈ pathSet runtimePaths ∧
    (path = normalizeProtectionJsonPath selectedPath ∨
      Dict.get? (normalizeProtectionJsonPath selectedPath) aliasMap = some path ∨
      normalizeProtectionJsonPath selectedPath ∉ pathSet runtimePaths ∧
        usableAlias runtimePaths aliasMap (normalizeProtectionJsonPath selectedPath) = none ∧
        ∀ other ∈ pathSet runtimePaths,
          leafSegment T other = leafSegment T (normalizeProtectionJsonPath selectedPath) ↔
            other = path)

theorem usableAlias_eq_some {runtimePaths : List String} {aliasMap : List (String × String)}
    {normalized aliased : String} (h : usableAlias runtimePaths aliasMap normalized = some aliased) :
    Dict.get? normalized aliasMap = some aliased ∧ aliased ∈ pathSet runtimePaths := by
  obtain ⟨hget, hkept⟩ := Option.filter_eq_some_iff.mp h
  rw [Bool.and_eq_true, decide_eq_true_eq] at hkept
  exact ⟨hget, hkept.2⟩

/-- The only match of a last segment is the only runtime path that has it. -/
theorem leafMatches_singleton {runtimePaths : List String} {normalized path : String}
    (h : leafMatches T runtimePaths normalized = [path]) :
    path ∈ pathSet runtimePaths ∧ ∀ other ∈ pathSet runtimePaths,
      leafSegment T other = leafSegment T normalized ↔ other = path := by
  have hmem : ∀ other, other ∈ leafMatches T runtimePaths normalized ↔ other = path := by
    intro other
    rw [h, List.mem_singleton]
  have hmatch : ∀ other, other ∈ leafMatches T runtimePaths normalized ↔
      other ∈ pathSet runtimePaths ∧ leafSegment T other = leafSegment T normalized := by
    intro other
    rw [leafMatches, List.mem_filter, decide_eq_true_eq]
  refine ⟨((hmatch path).mp ((hmem path).mpr rfl)).1, fun other hother => ?_⟩
  rw [← hmem, hmatch]
  exact ⟨fun hleaf => ⟨hother, hleaf⟩, fun hboth => hboth.2⟩

theorem resolve_standsFor {selectedPath path : String} {runtimePaths : List String}
    {aliasMap : List (String × String)}
    (h : resolveProtectionFieldPath T selectedPath runtimePaths aliasMap = .ok path) :
    StandsFor T selectedPath runtimePaths aliasMap path := by
  unfold resolveProtectionFieldPath at h
  simp only at h
  split_ifs at h with hempty hmem
  · obtain rfl := Except.ok.inj h
    exact ⟨hmem, .inl rfl⟩
  · cases halias : usableAlias runtimePaths aliasMap (normalizeProtectionJsonPath selectedPath) with
    | some aliased =>
      rw [halias] at h
      obtain rfl := Except.ok.inj h
      obtain ⟨hget, hset⟩ := usableAlias_eq_some halias
      exact ⟨hset, .inr (.inl hget)⟩
    | none =>
      rw [halias] at h
      simp only at h
      split at h
      · next only hmatches =>
        obtain rfl := Except.ok.inj h
        obtain ⟨hset, hunique⟩ := leafMatches_singleton hmatches
        exact ⟨hset, .inr (.inr ⟨hmem, halias, hunique⟩)⟩
      · cases h
      · cases h

theorem normalize_strip (path : String) :
    normalizeProtectionJsonPath (strip path) = normalizeProtectionJsonPath path := by
  unfold normalizeProtectionJsonPath
  rw [strip_strip]

namespace DriftBatch

variable {b : DriftBatch} {engine : JsonPathEngine}

/-- Every rule a batch mints is for one of its unknown fields. -/
theorem item_of_minted {rule : Rule} (h : rule ∈ b.result.ephemeralProtectionRules) :
    ∃ item ∈ b.unknownFields, rule.fieldPath = item.enrichedPath := by
  have hlist : rule ∈ (b.autoProtected.map fun item =>
        b.ephemeralRule item (autoProtectModeForClass item.sensitivityClass)) ∨
      rule ∈ b.dropped.map fun item => b.ephemeralRule item .dropField := by
    unfold result applySchemaDriftPolicyToBatch at h
    split_ifs at h
    · exact absurd h List.not_mem_nil
    · simp only at h
      split at h
      · exact absurd h List.not_mem_nil
      · next action _ =>
        cases action with
        | autoProtect => exact .inl h
        | dropField => exact .inr h
        | passThrough => exact absurd h List.not_mem_nil
        | requireReview => exact absurd h List.not_mem_nil
        | quarantine => exact absurd h List.not_mem_nil
  rcases hlist with hrule | hrule <;> obtain ⟨item, hitem, rfl⟩ := List.mem_map.mp hrule
  · exact ⟨item, (List.mem_filter.mp hitem).1, rfl⟩
  · exact ⟨item, (List.mem_filter.mp hitem).1, rfl⟩

/-- What a drift path resolves to stands for it, and so does the path of every rule the policy
mints for the batch. -/
theorem minted_rules_stand (T : CaseTable) (engine : JsonPathEngine) (b : DriftBatch) :
    (∀ selectedPath runtimePaths aliasMap path,
        resolveProtectionFieldPath T selectedPath runtimePaths aliasMap = .ok path →
        StandsFor T selectedPath runtimePaths aliasMap path) ∧
      ∀ rule ∈ (b.atRuntime T engine).result.ephemeralProtectionRules,
        ∃ drift ∈ b.openDrifts, drift.category = "field_added" ∧
          StandsFor T drift.fieldPath (collectEnrichedFieldPaths b.enrichedEvents) b.aliasMap
            rule.fieldPath := by
  refine ⟨fun _ _ _ _ => resolve_standsFor, fun rule hrule => ?_⟩
  obtain ⟨item, hitem, hpath⟩ := item_of_minted hrule
  obtain ⟨drift, hdrift, hcategory, hresolved, -⟩ := drift_of_mem hitem
  rw [atRuntime_openDrifts] at hdrift
  rw [atRuntime_resolvePath] at hresolved
  have hstands := resolve_standsFor hresolved
  refine ⟨drift, hdrift, hcategory, ?_⟩
  rw [hpath]
  unfold StandsFor at hstands ⊢
  rwa [normalize_strip] at hstands

/-- The engine that reads the paths of the protection grammar. -/
def grammarEngine : JsonPathEngine where
  find event path :=
    match parseProtectionPath path with
    | .ok sels => some (JsonPath.valuesAt sels event)
    | .error _ => none

/-- A known field that shares its last segment with an unknown one the batch does not have. -/
def contactBatch : DriftBatch where
  streamConfigJson := .obj [("governance", .obj [("schema_drift_policy", .obj
    [("unknown_normal_field_policy", .str "drop_field")])])]
  enrichedEvents := [[("contact", .obj [("email", .str "a@b.c")])]]
  openDrifts := [⟨1, "field_added", "$.user.email"⟩]
  resolvePath := .ok
  pathExistsInBatch := fun _ => false

/-- The policy for the unknown field drops the known one. -/
theorem contactBatch_drops_known :
    resolveProtectionFieldPath asciiCase "$.user.email" ["$.contact", "$.contact.email"] [] =
        .ok "$.contact.email" ∧
      (contactBatch.atRuntime asciiCase grammarEngine).result.ephemeralProtectionRules =
        [{ streamId := 1, fieldPath := "$.contact.email", protectionMode := .dropField }] := by
  decide +kernel

end DriftBatch

end Stands

end SchemaDrift
