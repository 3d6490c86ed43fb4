import DataRelay.Connectors.Catalog
import DataRelay.Lib.Outcomes

/-! The filesystem helpers of the package lifecycle: copies and renames under the installed root
and in the store of preserved generations, each of which may fail half way. -/
namespace Connectors
open PyText Outcomes

/-- A package directory under the installed root, or a generation kept for rollback. -/
inductive Path where
  | active (name : String)
  | generation (packageId version : String)
  deriving DecidableEq, Repr

abbrev Files := List (Path × Dir)

/-- The committed rows, the files under the installed root and the registry in memory. -/
structure Site where
  rows : Rows := []
  files : Files := []
  registry : List Entry := []
  deriving DecidableEq

/-- The children of the installed root the loader looks at. -/
def Site.root (s : Site) : List (String × Dir) :=
  s.files.filterMap fun file => match file.1 with
    | .active name => some (name, file.2)
    | .generation _ _ => none

inductive Raised where
  | lifecycle (e : LifecycleError)
  | os (text : String)
  | other (text : String)
  deriving DecidableEq

abbrev Op := EStateM Raised Site

/-- What a failed copy or removal leaves at its place. -/
inductive Left where
  | nothing
  | whole
  | part (entry : Option Entry)
  deriving DecidableEq, Repr

def Left.apply (left : Left) (path : Path) (dir : Dir) (files : Files) : Files :=
  match left with
  | .nothing => Dict.restrict (· ≠ path) files
  | .whole => Dict.set path dir files
  | .part entry => Dict.set path (.part entry) files

/-- A copy or a removal that fails: what it leaves, and the text of the error. -/
structure Cut where
  left : Left
  text : String
  deriving DecidableEq, Repr

/-! ### Single steps -/

/-- `shutil.copytree`. -/
def copyTree (src : Dir) (path : Path) (cut : Option Cut) : Op PUnit := fun s =>
  match cut with
  | none => .ok ⟨⟩ { s with files := Dict.set path src s.files }
  | some cut => .error (.os cut.text) { s with files := cut.left.apply path src s.files }

/-- `shutil.rmtree` of a path that exists. -/
def removeTree (path : Path) (cut : Option Cut) : Op PUnit := fun s =>
  match Dict.get? path s.files, cut with
  | none, _ => .ok ⟨⟩ s
  | some _, none => .ok ⟨⟩ { s with files := Dict.restrict (· ≠ path) s.files }
  | some dir, some cut => .error (.os cut.text) { s with files := cut.left.apply path dir s.files }

/-- `shutil.rmtree(path, ignore_errors=True)`. -/
def dropTree (path : Path) (cut : Option Cut) : Op PUnit :=
  tryCatch (removeTree path cut) fun _ => pure ⟨⟩

/-- `os.rename`. -/
def moveTree (src dest : Path) (fails : Option String) : Op PUnit := fun s =>
  match Dict.get? src s.files, fails with
  | some dir, none =>
    .ok ⟨⟩ { s with files := Dict.set dest dir (Dict.restrict (· ≠ src) s.files) }
  | none, none => .error (.os "No such file or directory") s
  | _, some text => .error (.os text) s

def raiseLifecycle {α : Type} (x : Except LifecycleError α) : Op α := fun s =>
  match x with
  | .ok a => .ok a s
  | .error e => .error (.lifecycle e) s

/-! ### Publishing -/

/-- `active_package_path`: the directory's name. -/
def activePackagePath (repr : String → String) (packageId : String) :
    Except LifecycleError String :=
  let safeId := strip packageId
  if safeId = "" ∨ '/' ∈ safeId.toList ∨ '\\' ∈ safeId.toList ∨ safeId = "." ∨ safeId = ".." then
    .error {
      errorCode := .invalidPackageId
      message := "invalid package_id for filesystem path: " ++ repr packageId }
  else .ok safeId

/-- `pack_version.strip().replace("/", "_").replace("\\", "_")`. -/
def safeVersion (packVersion : String) : String :=
  String.ofList ((strip packVersion).toList.map fun c => if c = '/' ∨ c = '\\' then '_' else c)

def generationPath (repr : String → String) (packageId packVersion : String) :
    Except LifecycleError Path :=
  if safeVersion packVersion = "" ∨ safeVersion packVersion = "." ∨
      safeVersion packVersion = ".." then
    .error {
      errorCode := .invalidPackVersion
      message := "invalid pack_version for generation path: " ++ repr packVersion }
  else .ok (.generation (strip packageId) (safeVersion packVersion))

def publishTmp (name : String) (pid : ℕ) : String := ".publish_tmp_" ++ name ++ "_" ++ toString pid

def publishBak (name : String) (pid : ℕ) : String := ".publish_bak_" ++ name ++ "_" ++ toString pid

structure ReplaceFaults where
  clearTmp : Option Cut := none
  copy : Option Cut := none
  clearBackup : Option Cut := none
  renameAway : Option String := none
  renameIn : Option String := none
  dropBackup : Option Cut := none
  deriving DecidableEq, Repr

/-- A destination that exists is renamed to the backup; the result says whether it was. -/
def setAside (dest backup : Path) (faults : ReplaceFaults) : Op Bool :=
  branch (fun s => Dict.has dest s.files)
    (do
      removeTree backup faults.clearBackup
      moveTree dest backup faults.renameAway
      pure true)
    (pure false)

/-- `if backup is not None and backup.exists() and not dest.exists(): os.rename(backup, dest)`. -/
def putBack (aside : Bool) (dest backup : Path) : Op PUnit :=
  branch (fun s => aside && Dict.has backup s.files && !Dict.has dest s.files)
    (moveTree backup dest none) (pure ⟨⟩)

/-- `_replace_tree`. -/
def replaceTree (src : Dir) (name : String) (pid : ℕ) (faults : ReplaceFaults) : Op PUnit := do
  let dest := Path.active name
  let tmp := Path.active (publishTmp name pid)
  let backup := Path.active (publishBak name pid)
  removeTree tmp faults.clearTmp
  copyTree src tmp faults.copy
  let aside ← setAside dest backup faults
  tryCatch (moveTree tmp dest faults.renameIn) fun e => do
    putBack aside dest backup
    dropTree tmp none
    throw e
  if aside then dropTree backup faults.dropBackup else pure ⟨⟩

/-- `atomic_publish_package`. -/
def atomicPublishPackage (repr : String → String) (src : Dir) (packageId : String) (pid : ℕ)
    (faults : ReplaceFaults) : Op PUnit := do
  let name ← raiseLifecycle (activePackagePath repr packageId)
  tryCatch (replaceTree src name pid faults) fun
    | .os text => throw (.lifecycle {
        errorCode := .publishFailed
        message := "atomic publish failed: " ++ text })
    | e => throw e

structure PreserveFaults where
  clear : Option Cut := none
  copy : Option Cut := none
  deriving DecidableEq, Repr

/-- `preserve_generation`. -/
def preserveGeneration (repr : String → String) (packageId packVersion : String) (source : Dir)
    (faults : PreserveFaults) : Op PUnit := do
  let dest ← raiseLifecycle (generationPath repr packageId packVersion)
  removeTree dest faults.clear
  tryCatch (copyTree source dest faults.copy) fun
    | .os text => throw (.lifecycle {
        errorCode := .generationPreserveFailed
        message := "failed to preserve previous generation: " ++ text })
    | e => throw e

/-- The generation to restore, when its directory is there. -/
def generationDir (repr : String → String) (packageId packVersion : String) (s : Site) :
    Except LifecycleError Dir := do
  let source ← generationPath repr packageId packVersion
  match Dict.get? source s.files with
  | some dir => .ok dir
  | none => .error {
      errorCode := .rollbackUnavailable
      message := "no rollback generation for " ++ repr packageId ++ " version " ++
        repr packVersion }

/-- A check against the state, before anything is changed. -/
def check {α : Type} (x : Site → Except LifecycleError α) : Op α := fun s => raiseLifecycle (x s) s

/-- `restore_generation`. -/
def restoreGeneration (repr : String → String) (packageId packVersion : String) (pid : ℕ)
    (faults : ReplaceFaults) : Op PUnit := do
  let source ← check (generationDir repr packageId packVersion)
  atomicPublishPackage repr source packageId pid faults

/-- `remove_active_package`. -/
def removeActivePackage (repr : String → String) (packageId : String) (cut : Option Cut) :
    Op PUnit := do
  let name ← raiseLifecycle (activePackagePath repr packageId)
  removeTree (.active name) cut

/-- A removal of all generations that fails: what it leaves of each. -/
structure GenerationsCut where
  left : String → Left
  text : String

/-- The path is not a generation of the package. -/
def Path.notOf (packageId : String) : Path → Bool
  | .active _ => true
  | .generation id _ => id ≠ packageId

/-- What the removal leaves of one directory; `none` when it is gone. -/
def GenerationsCut.leaves (cut : GenerationsCut) (packageId : String) (path : Path) (dir : Dir) :
    Option Dir :=
  match path with
  | .active _ => some dir
  | .generation id version =>
    if id ≠ packageId then some dir
    else
      match cut.left version with
      | .nothing => none
      | .whole => some dir
      | .part entry => some (.part entry)

def GenerationsCut.apply (cut : GenerationsCut) (packageId : String) (files : Files) : Files :=
  Dict.mapValues (fun path dir => (cut.leaves packageId path dir).getD dir)
    (Dict.restrict (fun path => (cut.leaves packageId path (.part none)).isSome) files)

/-- `remove_generations`. -/
def removeGenerations (packageId : String) (cut : Option GenerationsCut) : Op PUnit := fun s =>
  if s.files.all fun file => file.1.notOf (strip packageId) then .ok ⟨⟩ s
  else
    match cut with
    | none => .ok ⟨⟩ { s with files := Dict.restrict (Path.notOf (strip packageId)) s.files }
    | some cut => .error (.os cut.text) { s with files := cut.apply (strip packageId) s.files }

end Connectors
