import DataRelay.Connectors.Publish
import DataRelay.Runner.StreamRun

/-! Install, upgrade, rollback and uninstall of connector packages. Each operation checks first,
then changes the files, then commits the row; a failure after the first change is answered by a
compensating step. A row that is changed and not committed is rolled back, so only the commit
writes to the stored rows. -/
namespace Connectors
open PyText Outcomes Runner

/-- An uploaded archive: its digest, and the manifest and files it unpacks to. -/
structure Archive where
  digest : String
  contents : Except LifecycleError (ConnectorManifest × List (String × String))

/-- `stage_archive_bytes`. -/
def stageArchive (archive : Archive) : Except LifecycleError PackageTree := do
  let contents ← archive.contents
  let tree : PackageTree := {
    manifest := contents.1, files := contents.2, digest := archive.digest }
  reject (tree.packageId = "") {
    errorCode := .manifestInvalid, message := "package_id is required after normalization" }
  reject (tree.packVersion = "") {
    errorCode := .manifestInvalid, message := "pack_version is required after normalization" }
  .ok tree

/-- A stream, as far as its provenance is read. -/
structure StreamRow where
  id : ℤ
  configJson : Json
  deriving DecidableEq

/-! ### Checks -/

variable (host : Host)

/-- `_builtin_package_ids`. -/
def builtinPackageIds : List String :=
  (host.builtin.filter fun dir => !dir.name.startsWith ".").map (·.name)

def Site.modules (s : Site) : List Entry := loadConnectorModules host s.root

def Site.available (s : Site) : Versions := availablePackageVersions host s.rows s.registry

/-- `_assert_connector_id_available`. -/
def assertConnectorIdAvailable (connectorId packageId : String) (allow : Option String)
    (modules : List Entry) : Except LifecycleError Unit :=
  match modules.find? (·.connectorId = connectorId) with
  | none => .ok ()
  | some existing =>
    let existingPackageId :=
      strip (orText (existing.manifest.bind (·.packageId)) existing.connectorId)
    reject (nonempty allow ≠ some existingPackageId) {
      errorCode := .connectorIdCollision
      message := "connector id collision: connector_id=" ++ host.repr connectorId ++
        " is already owned by package_id=" ++ host.repr existingPackageId
      details := [("connector_id", .str connectorId), ("package_id", .str packageId),
        ("existing_package_id", .str existingPackageId)] }

/-- The directory an id has under the installed root, when it is there. `.lifecycle` is made by
the staging of every archive. -/
def activeDir (packageId : String) (s : Site) : Except LifecycleError (Option Dir) :=
  (activePackagePath host.repr packageId).map fun name => Dict.get? (.active name) s.files

/-- `_assert_no_install_collision`. -/
def assertNoInstallCollision (packageId connectorId : String) (s : Site) :
    Except LifecycleError Unit := do
  reject (packageId ∈ builtinPackageIds host) {
    errorCode := .builtinShadowForbidden
    message := "cannot install package that shadows builtin package_id=" ++ host.repr packageId
    details := [("package_id", .str packageId)] }
  reject (installedRow packageId s.rows ≠ none) {
    errorCode := .packageAlreadyInstalled
    message := "package already installed: " ++ packageId
    details := [("package_id", .str packageId),
      ("pack_version", .str (((Dict.get? packageId s.rows).map (·.packVersion)).getD ""))] }
  let active ← activeDir host packageId s
  reject (active ≠ none ∨ packageId = ".lifecycle") {
    errorCode := .packageAlreadyInstalled
    message := "package already present on filesystem: " ++ packageId
    details := [("package_id", .str packageId),
      ("path", .str (host.installedRoot ++ "/" ++ packageId))] }
  assertConnectorIdAvailable host connectorId packageId none (s.modules host)

/-- One requirement of a loaded module, against a new version of a package. -/
def acceptsCandidate (packageId candidateVersion : String) (entry : Entry)
    (requirement : PackageRequirement) : Except LifecycleError Unit :=
  if strip requirement.packageId ≠ packageId then .ok ()
  else
    match nonempty requirement.version with
    | none => .ok ()
    | some spec => do
      let accepted ← versionSatisfiesRequirement host.packaging host.repr candidateVersion spec
      reject (accepted = false) {
        errorCode := .dependencyVersionMismatch
        message := "upgrade would invalidate dependent package " ++ host.repr entry.connectorId ++
          ": candidate=" ++ host.repr candidateVersion ++ " requires=" ++ host.repr spec
        details := [("package_id", .str packageId), ("candidate_version", .str candidateVersion),
          ("dependent_package_id", .str entry.connectorId), ("requires", .str spec)] }

/-- `_assert_dependents_accept_candidate`. -/
def assertDependentsAcceptCandidate (packageId candidateVersion : String) (modules : List Entry) :
    Except LifecycleError Unit :=
  eachOk (fun entry => eachOk (acceptsCandidate host packageId candidateVersion entry)
    (iterRequirements entry.manifest)) modules

/-- The row of a package an operation is asked for. -/
def requireInstalled (packageId : String) (s : Site) : Except LifecycleError InstallRow :=
  match installedRow packageId s.rows with
  | some row => .ok row
  | none => .error {
      errorCode := .packageNotInstalled, message := "package not installed: " ++ packageId }

def requireFiles (packageId : String) (s : Site) : Except LifecycleError Dir := do
  let active ← activeDir host packageId s
  match active with
  | some dir => .ok dir
  | none => .error {
      errorCode := .packageFilesMissing
      message := "installed package files missing: " ++ packageId }

def installChecks (archive : Archive) (s : Site) : Except LifecycleError PackageTree := do
  let tree ← stageArchive archive
  assertNoInstallCollision host tree.packageId tree.manifest.id s
  validateStreamExtensionRequires host.packaging host.repr tree.manifest (s.available host)
  .ok tree

structure UpgradeStart where
  row : InstallRow
  tree : PackageTree
  current : Dir

def upgradeChecks (packageId : String) (archive : Archive) (s : Site) :
    Except LifecycleError UpgradeStart := do
  let row ← requireInstalled packageId s
  let tree ← stageArchive archive
  reject (tree.packageId ≠ packageId) {
    errorCode := .packageIdMismatch
    message := "upgrade package_id mismatch: expected " ++ host.repr packageId ++
      ", archive has " ++ host.repr tree.packageId }
  reject (tree.packVersion = row.packVersion) {
    errorCode := .sameVersion
    message := "upgrade requires a different pack_version (current=" ++
      host.repr row.packVersion ++ ")" }
  assertConnectorIdAvailable host tree.manifest.id packageId (some packageId) (s.modules host)
  assertDependentsAcceptCandidate host packageId tree.packVersion (s.modules host)
  validateStreamExtensionRequires host.packaging host.repr tree.manifest (s.available host)
  let current ← requireFiles host packageId s
  .ok { row := row, tree := tree, current := current }

structure RollbackStart where
  row : InstallRow
  previousVersion : String
  previousDigest : String
  current : Dir

def previousGeneration (packageId : String) (row : InstallRow) :
    Except LifecycleError (String × String) :=
  match nonempty row.previousVersion, nonempty row.previousDigest with
  | some version, some digest => .ok (version, digest)
  | _, _ => .error {
      errorCode := .rollbackUnavailable
      message := "no previous generation available for rollback: " ++ packageId }

def rollbackChecks (packageId : String) (s : Site) : Except LifecycleError RollbackStart := do
  let row ← requireInstalled packageId s
  let previous ← previousGeneration packageId row
  let current ← requireFiles host packageId s
  .ok { row := row, previousVersion := previous.1, previousDigest := previous.2, current := current }

/-- The package a stream was materialized from. -/
def provenancePackage (config : Json) : Option String :=
  match config with
  | .obj members =>
    match getOrNull "marketplace_provenance" members with
    | .obj provenance =>
      let value := getOrNull "package_id" provenance
      some (strip (if truthy value then host.str value else ""))
    | _ => none
  | _ => none

/-- `streams_depending_on_package`. -/
def streamsDependingOnPackage (packageId : String) (streams : List StreamRow) : List StreamRow :=
  streams.filter fun stream => provenancePackage host stream.configJson = some packageId

/-- One requirement of a loaded module, against the removal of a package. -/
def notRequired (packageId : String) (entry : Entry) (requirement : PackageRequirement) :
    Except LifecycleError Unit :=
  reject (strip requirement.packageId = packageId) {
    errorCode := .dependencyProtected
    message := "uninstall blocked: package " ++ host.repr entry.connectorId ++ " requires " ++
      host.repr packageId
    details := [("package_id", .str packageId), ("dependent_package_id", .str entry.connectorId)] }

/-- Other installed packages, and only with them any loaded module, block the removal of a
package they require. -/
def assertNoDependents (packageId : String) (s : Site) : Except LifecycleError Unit :=
  if s.rows.all fun row => row.1 = packageId || row.2.status ≠ .installed then .ok ()
  else
    eachOk (fun entry =>
      if entry.connectorId = packageId then .ok ()
      else eachOk (notRequired host packageId entry) (iterRequirements entry.manifest))
      (s.modules host)

structure UninstallStart where
  row : InstallRow
  current : Option Dir

def uninstallChecks (packageId : String) (streams : List StreamRow) (s : Site) :
    Except LifecycleError UninstallStart := do
  reject (packageId ∈ builtinPackageIds host) {
    errorCode := .builtinUninstallForbidden
    message := "builtin package cannot be uninstalled: " ++ packageId }
  let row ← requireInstalled packageId s
  let dependents := streamsDependingOnPackage host packageId streams
  reject (dependents ≠ []) {
    errorCode := .dependencyProtected
    message := "uninstall blocked: " ++ toString dependents.length ++
      " stream(s) materialized from package_id=" ++ host.repr packageId
    details := [("package_id", .str packageId),
      ("stream_ids", .arr (dependents.map fun stream => .int stream.id))] }
  assertNoDependents host packageId s
  let current ← activeDir host packageId s
  .ok { row := row, current := current }

/-! ### Operations -/

/-- Where an operation fails: the text of the error, and for a copy or a removal what it leaves.
Compensating steps have no fault. -/
structure Faults where
  before : Option String := none
  preserve : PreserveFaults := {}
  publish : ReplaceFaults := {}
  removeActive : Option Cut := none
  lookup : Option String := none
  commit : Option String := none
  refresh : Option String := none
  dropAbandoned : Option Cut := none
  removeGenerations : Option GenerationsCut := none
  reload : Option String := none

def failing (text : Option String) : Op PUnit := fun s =>
  match text with
  | none => .ok ⟨⟩ s
  | some text => .error (.other text) s

/-- `db.commit()`: nothing is stored when it fails. -/
def commit (packageId : String) (row : InstallRow) (fails : Option String) : Op PUnit := do
  failing fails
  modify fun s => { s with rows := Dict.set packageId row s.rows }

/-- `_reload`. -/
def reload (fails : Option String) : Op PUnit := do
  failing fails
  modify fun s => { s with registry := s.modules host }

/-- An error that is not the lifecycle's own is raised again as one. -/
def asLifecycle {α : Type} (code : ErrorCode) (what : String) (x : Op α) : Op α :=
  tryCatch x fun
    | .lifecycle e => throw (.lifecycle e)
    | .os text => throw (.lifecycle { errorCode := code, message := what ++ " failed: " ++ text })
    | .other text => throw (.lifecycle { errorCode := code, message := what ++ " failed: " ++ text })

/-- A compensating step after which the error is raised again. -/
def compensated {α : Type} (x : Op α) (undo : Op PUnit) : Op α :=
  tryCatch x fun e => do
    undo
    throw e

/-- A compensating step whose own error is logged and dropped. -/
def logged (x : Op PUnit) : Op PUnit := tryCatch x fun _ => pure ⟨⟩

/-- The commit of a row and its refresh. -/
def storeRow (packageId : String) (row : InstallRow) (faults : Faults) : Op PUnit := do
  commit packageId row faults.commit
  failing faults.refresh

def installedRowOf (tree : PackageTree) (now : ℤ) : InstallRow := {
  packageKind := tree.manifest.packageKind.getD .source
  packVersion := tree.packVersion
  digest := tree.digest
  installedPath := host.installedRoot ++ "/" ++ tree.packageId
  installedAt := now
  updatedAt := now }

def installPackage (archive : Archive) (pid : ℕ) (now : ℤ) (faults : Faults) : Op InstallRow :=
  asLifecycle .installFailed "install" do
    failing faults.before
    let tree ← check (installChecks host archive)
    atomicPublishPackage host.repr (.whole tree) tree.packageId pid faults.publish
    let row := installedRowOf host tree now
    compensated (do
      failing faults.lookup
      storeRow tree.packageId row faults)
      (removeActivePackage host.repr tree.packageId none)
    reload host faults.reload
    pure row

def upgradedRow (packageId : String) (row : InstallRow) (tree : PackageTree) (now : ℤ) :
    InstallRow := { row with
  packageKind := tree.manifest.packageKind.getD .source
  packVersion := tree.packVersion
  origin := "upload"
  status := .installed
  digest := tree.digest
  installedPath := host.installedRoot ++ "/" ++ packageId
  previousVersion := some row.packVersion
  previousDigest := some row.digest
  updatedAt := now }

def upgradePackage (id : String) (archive : Archive) (pid : ℕ) (now : ℤ) (faults : Faults) :
    Op InstallRow :=
  asLifecycle .upgradeFailed "upgrade" do
    let packageId := strip id
    failing faults.before
    let start ← check (upgradeChecks host packageId archive)
    let previousVersion := start.row.packVersion
    preserveGeneration host.repr packageId previousVersion start.current faults.preserve
    compensated
      (atomicPublishPackage host.repr (.whole start.tree) packageId pid faults.publish)
      (restoreGeneration host.repr packageId previousVersion pid {})
    let row := upgradedRow host packageId start.row start.tree now
    compensated (storeRow packageId row faults)
      (logged (restoreGeneration host.repr packageId previousVersion pid {}))
    reload host faults.reload
    pure row

def rolledBackRow (packageId : String) (start : RollbackStart) (now : ℤ) : InstallRow :=
  { start.row with
    packVersion := start.previousVersion
    digest := start.previousDigest
    installedPath := host.installedRoot ++ "/" ++ packageId
    previousVersion := none
    previousDigest := none
    updatedAt := now }

def rollbackPackage (id : String) (pid : ℕ) (now : ℤ) (faults : Faults) : Op InstallRow :=
  asLifecycle .rollbackFailed "rollback" do
    let packageId := strip id
    failing faults.before
    let start ← check (rollbackChecks host packageId)
    let currentVersion := start.row.packVersion
    preserveGeneration host.repr packageId currentVersion start.current faults.preserve
    restoreGeneration host.repr packageId start.previousVersion pid faults.publish
    let row := rolledBackRow host packageId start now
    compensated (storeRow packageId row faults)
      (logged (restoreGeneration host.repr packageId currentVersion pid {}))
    let abandoned ← raiseLifecycle (generationPath host.repr packageId currentVersion)
    dropTree abandoned faults.dropAbandoned
    reload host faults.reload
    pure row

def removedRow (row : InstallRow) (now : ℤ) : InstallRow := { row with
  status := .removed
  installedPath := ""
  previousVersion := none
  previousDigest := none
  updatedAt := now }

/-- A package whose directory is there is preserved, for the compensation. -/
def preserveIfPresent (packageId packVersion : String) (current : Option Dir)
    (faults : PreserveFaults) : Op PUnit :=
  match current with
  | none => pure ⟨⟩
  | some dir => preserveGeneration host.repr packageId packVersion dir faults

def restoreIfPresent (packageId packVersion : String) (current : Option Dir) (pid : ℕ) : Op PUnit :=
  match current with
  | none => pure ⟨⟩
  | some _ => logged (restoreGeneration host.repr packageId packVersion pid {})

def uninstallPackage (id : String) (streams : List StreamRow) (pid : ℕ) (now : ℤ)
    (faults : Faults) : Op InstallRow :=
  asLifecycle .uninstallFailed "uninstall" do
    let packageId := strip id
    failing faults.before
    let start ← check (uninstallChecks host packageId streams)
    let currentVersion := start.row.packVersion
    preserveIfPresent host packageId currentVersion start.current faults.preserve
    removeActivePackage host.repr packageId faults.removeActive
    let row := removedRow start.row now
    compensated (storeRow packageId row faults)
      (restoreIfPresent host packageId currentVersion start.current pid)
    removeGenerations packageId faults.removeGenerations
    reload host faults.reload
    pure row

inductive Operation where
  | install (archive : Archive)
  | upgrade (id : String) (archive : Archive)
  | rollback (id : String)
  | uninstall (id : String) (streams : List StreamRow)

/-- One request, with the process that serves it, its clock and its faults. -/
structure Call where
  operation : Operation
  pid : ℕ := 1
  now : ℤ := 0
  faults : Faults := {}

def perform (call : Call) : Op InstallRow :=
  match call.operation with
  | .install archive => installPackage host archive call.pid call.now call.faults
  | .upgrade id archive => upgradePackage host id archive call.pid call.now call.faults
  | .rollback id => rollbackPackage host id call.pid call.now call.faults
  | .uninstall id streams => uninstallPackage host id streams call.pid call.now call.faults

/-- The request returns. -/
def succeeds (s : Site) (call : Call) : Bool :=
  match perform host call s with
  | .ok _ _ => true
  | .error _ _ => false

/-- The site after a request, whether it returned or raised. -/
def step (s : Site) (call : Call) : Site :=
  match perform host call s with
  | .ok _ t => t
  | .error _ t => t

/-- Nothing is installed, and the registry has the built-in packages. -/
def Site.initial : Site := { registry := loadConnectorModules host [] }

end Connectors
