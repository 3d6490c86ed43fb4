import DataRelay.Connectors.Requirements
import Mathlib.Data.List.Sort

/-! What the registry loader finds under the built-in and the installed root, and the package
versions at hand for a requirement. An entry's status is left to the registry: the lifecycle
reads entries of every status. -/
namespace Connectors
open PyText

/-- A loaded module: its connector id, and its manifest when it parsed. -/
structure Entry where
  connectorId : String
  manifest : Option ConnectorManifest
  deriving DecidableEq, Repr

/-- `_package_identity`. -/
def Entry.packageIdentity (entry : Entry) : String × Option String :=
  match entry.manifest with
  | none => (entry.connectorId, none)
  | some manifest =>
    (orText (some (strip (orText manifest.packageId (orText (some manifest.id) entry.connectorId))))
        entry.connectorId,
      some (orText manifest.packVersion manifest.version))

/-- The unpacked package of an uploaded archive. `digest` is the archive it came from. -/
structure PackageTree where
  manifest : ConnectorManifest
  files : List (String × String) := []
  digest : String
  deriving DecidableEq, Repr

/-- `(manifest.package_id or manifest.id or "").strip()`. -/
def PackageTree.packageId (tree : PackageTree) : String :=
  strip (orText tree.manifest.packageId tree.manifest.id)

/-- `(manifest.pack_version or manifest.version or "").strip()`. -/
def PackageTree.packVersion (tree : PackageTree) : String :=
  strip (orText tree.manifest.packVersion tree.manifest.version)

/-- A module with no connector id is not loaded. -/
def PackageTree.entry (tree : PackageTree) : Option Entry :=
  if strip tree.manifest.id = "" then none
  else some { connectorId := strip tree.manifest.id, manifest := some tree.manifest }

/-- A directory holds a whole package, or what an interrupted copy or removal left of one. -/
inductive Dir where
  | whole (tree : PackageTree)
  | part (entry : Option Entry)
  deriving DecidableEq, Repr

def Dir.entry : Dir → Option Entry
  | .whole tree => tree.entry
  | .part entry => entry

/-- The ids and versions of a readable built-in manifest, normalized. -/
structure Declared where
  packageId : Option String := none
  packVersion : Option String := none
  version : Option String := none
  deriving DecidableEq, Repr

structure BuiltinDir where
  name : String
  declared : Option Declared := none
  entry : Option Entry := none
  deriving DecidableEq, Repr

/-- What the lifecycle finds around it: the `packaging` library, the text of a value, the
built-in packages and the ids of the legacy catalog. -/
structure Host where
  packaging : Packaging
  repr : String → String
  str : Json → String
  installedRoot : String
  builtin : List BuiltinDir
  legacyCatalog : List String

/-! ### The loader -/

/-- `detect_duplicate_ids`: the first path wins. -/
def dropDuplicateIds (entries : List Entry) : List Entry :=
  entries.foldl (fun kept entry =>
    if kept.any fun other => other.connectorId = entry.connectorId then kept
    else kept ++ [entry]) []

/-- `_scan_single_root`, over the children in the order of their names. -/
def scanSingleRoot (children : List (String × Option Entry)) : List Entry :=
  dropDuplicateIds ((children.insertionSort fun a b => a.1 ≤ b.1).filterMap Prod.snd)

/-- `_finalize_parsed_modules`: an entry whose connector id or package id is taken is rejected. -/
def finalizeParsedModules (parsed : List Entry) : List Entry :=
  parsed.foldl (fun modules entry =>
    if modules.any fun other => other.connectorId = entry.connectorId ||
        other.packageIdentity.1 = entry.packageIdentity.1 then modules
    else modules ++ [entry]) []

/-- `load_connector_modules`: the built-in root before the installed one. -/
def loadConnectorModules (host : Host) (root : List (String × Dir)) : List Entry :=
  finalizeParsedModules
    (scanSingleRoot (host.builtin.map fun dir => (dir.name, dir.entry)) ++
      scanSingleRoot (root.map fun dir => (dir.1, dir.2.entry)))

/-! ### Versions at hand -/

inductive InstallStatus where
  | installed
  | failed
  | removed
  deriving DecidableEq, Repr

/-- `MarketplacePackageInstall`. -/
structure InstallRow where
  packageKind : PackageKind
  packVersion : String
  origin : String := "upload"
  status : InstallStatus := .installed
  digest : String
  installedPath : String
  previousVersion : Option String := none
  previousDigest : Option String := none
  installedAt : ℤ
  updatedAt : ℤ
  deriving DecidableEq, Repr

abbrev Rows := List (String × InstallRow)

/-- The row of a package that is installed. -/
def installedRow (packageId : String) (rows : Rows) : Option InstallRow :=
  (Dict.get? packageId rows).filter (·.status = .installed)

theorem installedRow_eq_some {packageId : String} {rows : Rows} {row : InstallRow} :
    installedRow packageId rows = some row ↔
      Dict.get? packageId rows = some row ∧ row.status = .installed := by
  unfold installedRow
  rw [Option.filter_eq_some_iff]
  simp

theorem installedRow_set (packageId name : String) (row : InstallRow) (rows : Rows) :
    installedRow name (Dict.set packageId row rows) =
      if packageId = name then (some row).filter (·.status = .installed)
      else installedRow name rows := by
  unfold installedRow
  rw [Dict.get?_set]
  split_ifs <;> rfl

abbrev Versions := List (String × String)

/-- `if key and version and key not in versions: versions[key] = version`. -/
def setIfAbsent (key version : String) (versions : Versions) : Versions :=
  if key ≠ "" ∧ version ≠ "" ∧ Dict.get? key versions = none then Dict.set key version versions
  else versions

/-- A built-in package is at hand under its package id and under its directory's name. -/
def addBuiltin (versions : Versions) (dir : BuiltinDir) : Versions :=
  if dir.name.startsWith "." then versions
  else
    match dir.declared with
    | none => versions
    | some declared =>
      let packageId := strip (orText declared.packageId dir.name)
      let packVersion := strip (orText declared.packVersion (declared.version.getD ""))
      if packageId ≠ "" ∧ packVersion ≠ "" then
        Dict.set dir.name packVersion (Dict.set packageId packVersion versions)
      else versions

def builtinVersions (host : Host) : Versions := host.builtin.foldl addBuiltin []

def addRow (versions : Versions) (row : String × InstallRow) : Versions :=
  if row.2.status = .installed then Dict.set row.1 row.2.packVersion versions else versions

/-- The versions by package id: built-in packages, overridden by the installed rows. -/
def packageVersions (host : Host) (rows : Rows) : Versions :=
  rows.foldl addRow (builtinVersions host)

/-- `list_connector_summaries`, as far as ids and versions go. -/
def connectorSummaries (host : Host) (registry : List Entry) : List Entry :=
  let legacy := host.legacyCatalog.filter fun id =>
    !registry.any fun entry => entry.connectorId = id
  (registry ++ legacy.map fun id => (⟨id, none⟩ : Entry)).insertionSort
    fun a b => a.connectorId ≤ b.connectorId

def addSummary (versions : Versions) (entry : Entry) : Versions :=
  let packageId := strip (orText (entry.manifest.bind (·.packageId)) entry.connectorId)
  let packVersion := strip (match entry.manifest with
    | none => "—"
    | some manifest => orText manifest.packVersion manifest.version)
  setIfAbsent entry.connectorId packVersion (setIfAbsent packageId packVersion versions)

/-- `_available_package_versions`. -/
def availablePackageVersions (host : Host) (rows : Rows) (registry : List Entry) : Versions :=
  (connectorSummaries host registry).foldl addSummary (packageVersions host rows)

theorem get?_setIfAbsent {key name version v : String} {versions : Versions}
    (h : Dict.get? name versions = some v) :
    Dict.get? name (setIfAbsent key version versions) = some v := by
  unfold setIfAbsent
  split_ifs with hc
  · rw [Dict.get?_set, if_neg]
    · exact h
    · rintro rfl
      rw [hc.2.2] at h
      cases h
  · exact h

/-- What is at hand by package id is not overridden by the registry. -/
theorem get?_availablePackageVersions {host : Host} {rows : Rows} {registry : List Entry}
    {name v : String} (h : Dict.get? name (packageVersions host rows) = some v) :
    Dict.get? name (availablePackageVersions host rows registry) = some v := by
  unfold availablePackageVersions
  generalize packageVersions host rows = versions at h
  induction connectorSummaries host registry generalizing versions with
  | nil => exact h
  | cons entry entries ih => exact ih _ (get?_setIfAbsent (get?_setIfAbsent h))

/-- The version of an installed row comes before the built-in one. -/
theorem get?_packageVersions {host : Host} {rows : Rows} (hd : (rows.map Prod.fst).Nodup)
    (name : String) :
    Dict.get? name (packageVersions host rows) =
      ((installedRow name rows).map (·.packVersion)).or
        (Dict.get? name (builtinVersions host)) := by
  unfold packageVersions installedRow
  generalize builtinVersions host = versions
  induction rows generalizing versions with
  | nil => simp
  | cons row rows ih =>
    obtain ⟨key, row⟩ := row
    rw [List.map_cons, List.nodup_cons] at hd
    rw [List.foldl_cons, ih hd.2]
    by_cases hkey : key = name
    · subst hkey
      have hnone : Dict.get? key rows = none := by
        cases hget : Dict.get? key rows with
        | none => rfl
        | some v => exact absurd (List.mem_map_of_mem (Dict.mem_of_get? hget)) hd.1
      by_cases hs : row.status = .installed
      · simp [hnone, addRow, hs, Option.filter]
      · simp [hnone, addRow, hs, Option.filter]
    · by_cases hs : row.status = .installed
      · simp [addRow, hs, hkey]
      · simp [addRow, hs, hkey]

end Connectors
