import DataRelay.Lib.Json
import DataRelay.Lib.PyText
import DataRelay.Lib.Raising

/-! Package manifests as the lifecycle reads them, and the check of their declared requirements
against the versions at hand. Version arithmetic is the `packaging` library's. -/
namespace Connectors
open PyText

inductive ErrorCode where
  | archive (code : String)
  | manifestInvalid
  | builtinShadowForbidden
  | packageAlreadyInstalled
  | connectorIdCollision
  | dependencyVersionInvalid
  | dependencySpecInvalid
  | dependencyRequired
  | dependencyMissing
  | dependencyVersionMismatch
  | dependencyProtected
  | packageNotInstalled
  | packageIdMismatch
  | sameVersion
  | packageFilesMissing
  | rollbackUnavailable
  | builtinUninstallForbidden
  | invalidPackageId
  | invalidPackVersion
  | publishFailed
  | generationPreserveFailed
  | installFailed
  | upgradeFailed
  | rollbackFailed
  | uninstallFailed
  deriving DecidableEq, Repr

structure LifecycleError where
  errorCode : ErrorCode
  message : String
  details : Json.Members := []
  deriving DecidableEq

/-- `packaging.version.Version` and `packaging.specifiers.SpecifierSet`; `none` where the
constructor raises. -/
structure Packaging where
  Version : Type
  SpecifierSet : Type
  version : String → Option Version
  specifierSet : String → Option SpecifierSet
  contains : SpecifierSet → Version → Bool

inductive PackageKind where
  | source
  | streamExtension
  deriving DecidableEq, Repr

def PackageKind.text : PackageKind → String
  | .source => "source"
  | .streamExtension => "stream_extension"

structure PackageRequirement where
  packageId : String
  version : Option String := none
  deriving DecidableEq, Repr

/-- `requires: PackageRequirement | list[PackageRequirement] | None`. -/
inductive Requires where
  | absent
  | one (requirement : PackageRequirement)
  | many (requirements : List PackageRequirement)
  deriving DecidableEq, Repr

structure ConnectorManifest where
  id : String
  version : String
  packageId : Option String := none
  packageKind : Option PackageKind := none
  packVersion : Option String := none
  requires : Requires := .absent
  deriving DecidableEq, Repr

/-- `a or b` on texts. -/
def orText (a : Option String) (b : String) : String :=
  match a with
  | none => b
  | some text => if text = "" then b else text

/-- A text that is neither missing nor empty. -/
def nonempty (text : Option String) : Option String := text.filter (· ≠ "")

def iterRequirements : Option ConnectorManifest → List PackageRequirement
  | none => []
  | some manifest =>
    match manifest.requires with
    | .absent => []
    | .one requirement => [requirement]
    | .many requirements => requirements

/-- `text.split()`. -/
def words (text : List Char) : List (List Char) := (text.splitOnP isSpace).filter (· ≠ [])

/-- `",".join(part for part in specifier.replace(",", " ").split() if part)`. -/
def normalizedSpecifier (specifier : String) : String :=
  String.ofList ([','].intercalate (words (specifier.toList.map fun c => if c = ',' then ' ' else c)))

def reject (condition : Prop) [Decidable condition] (e : LifecycleError) :
    Except LifecycleError Unit :=
  if condition then .error e else .ok ()

theorem reject_eq_ok {condition : Prop} [Decidable condition] {e : LifecycleError} {u : Unit}
    (h : reject condition e = .ok u) : ¬ condition := by
  intro hc
  unfold reject at h
  rw [if_pos hc] at h
  cases h

/-- A check of every member, stopped by the first error. -/
def eachOk {α : Type} (f : α → Except LifecycleError Unit) : List α → Except LifecycleError Unit
  | [] => .ok ()
  | a :: as => do
    f a
    eachOk f as

theorem eachOk_eq_ok {α : Type} {f : α → Except LifecycleError Unit} {as : List α} :
    eachOk f as = .ok () ↔ ∀ a ∈ as, f a = .ok () := by
  induction as with
  | nil => simp [eachOk]
  | cons a as ih =>
    rw [List.forall_mem_cons, ← ih]
    constructor
    · intro h
      obtain ⟨u, hfirst, hrest⟩ := Raising.bind_eq_ok h
      exact ⟨hfirst, hrest⟩
    · rintro ⟨hfirst, hrest⟩
      unfold eachOk
      rw [hfirst]
      exact hrest

variable (pk : Packaging) (repr : String → String)

/-- `_version_in_specifier`. -/
def versionInSpecifier (version specifier : String) : Except LifecycleError Bool :=
  match pk.version version with
  | none => .error {
      errorCode := .dependencyVersionInvalid
      message := "installed dependency version is not comparable: " ++ repr version }
  | some parsed =>
    match pk.specifierSet (normalizedSpecifier specifier) with
    | none => .error {
        errorCode := .dependencySpecInvalid
        message := "invalid dependency version requirement: " ++ repr specifier }
    | some spec => .ok (pk.contains spec parsed)

def versionSatisfiesRequirement (version specifier : String) : Except LifecycleError Bool :=
  versionInSpecifier pk repr version specifier

/-- The version part of a requirement, against the version at hand. -/
def checkVersion (requiredId installed : String) (requirement : PackageRequirement) :
    Except LifecycleError Unit :=
  match nonempty requirement.version with
  | none => .ok ()
  | some spec => do
    let accepted ← versionInSpecifier pk repr installed spec
    reject (accepted = false) {
      errorCode := .dependencyVersionMismatch
      message := "required package version mismatch for " ++ requiredId ++ ": installed=" ++
        repr installed ++ " requires=" ++ repr spec
      details := [("package_id", .str requiredId), ("installed_version", .str installed),
        ("requires", .str spec)] }

def checkRequirement (available : List (String × String)) (requirement : PackageRequirement) :
    Except LifecycleError Unit :=
  if strip requirement.packageId = "" then
    .error { errorCode := .dependencyRequired, message := "requires.package_id is required" }
  else
    match Dict.get? (strip requirement.packageId) available with
    | none => .error {
        errorCode := .dependencyMissing
        message := "required package not installed: " ++ strip requirement.packageId
        details := [("package_id", .str (strip requirement.packageId))] }
    | some installed => checkVersion pk repr (strip requirement.packageId) installed requirement

def checkRequirements (available : List (String × String))
    (requirements : List PackageRequirement) : Except LifecycleError Unit :=
  eachOk (checkRequirement pk repr available) requirements

/-- `validate_stream_extension_requires`: only stream extensions are checked. -/
def validateStreamExtensionRequires (manifest : ConnectorManifest)
    (available : List (String × String)) : Except LifecycleError Unit :=
  if manifest.packageKind.getD .source ≠ .streamExtension then .ok ()
  else if iterRequirements (some manifest) = [] then
    .error {
      errorCode := .dependencyRequired
      message := "stream_extension package must declare requires" }
  else checkRequirements pk repr available (iterRequirements (some manifest))

/-! ### What a check says -/

/-- The installed version answers the version part of the requirement. -/
def Accepts (version : String) (requirement : PackageRequirement) : Prop :=
  ∀ spec ∈ nonempty requirement.version, versionSatisfiesRequirement pk repr version spec = .ok true

instance (version : String) (requirement : PackageRequirement) :
    Decidable (Accepts pk repr version requirement) :=
  inferInstanceAs (Decidable (∀ spec ∈ nonempty requirement.version, _))

variable {pk repr}

theorem checkVersion_eq_ok {requiredId installed : String} {requirement : PackageRequirement} :
    checkVersion pk repr requiredId installed requirement = .ok () ↔
      Accepts pk repr installed requirement := by
  unfold checkVersion Accepts versionSatisfiesRequirement
  cases nonempty requirement.version with
  | none => simp
  | some spec =>
    constructor
    · intro h s hs
      obtain rfl := Option.some.inj hs
      obtain ⟨accepted, hv, hr⟩ := Raising.bind_eq_ok h
      have htrue : accepted = true := by simpa using reject_eq_ok hr
      rw [hv, htrue]
    · intro h
      have hv := h spec rfl
      simp only [hv]
      rfl

/-- A requirement is met by a package at hand under its id, at a version it accepts. -/
theorem checkRequirement_eq_ok {available : List (String × String)}
    {requirement : PackageRequirement} :
    checkRequirement pk repr available requirement = .ok () ↔
      strip requirement.packageId ≠ "" ∧
        ∃ version, Dict.get? (strip requirement.packageId) available = some version ∧
          Accepts pk repr version requirement := by
  unfold checkRequirement
  by_cases hid : strip requirement.packageId = ""
  · simp [hid]
  · rw [if_neg hid]
    cases hv : Dict.get? (strip requirement.packageId) available with
    | none => simp
    | some version =>
      simp only [checkVersion_eq_ok, Option.some.injEq, exists_eq_left']
      exact ⟨fun h => ⟨hid, h⟩, fun h => h.2⟩

/-! ### Plain release numbers

The part of the version syntax that has release numbers and ordered comparisons only. -/

def releaseNumber (text : List Char) : Option ℕ :=
  if text = [] ∨ ¬ text.all Char.isDigit then none
  else some (text.foldl (fun n c => 10 * n + (c.toNat - 48)) 0)

/-- A dotted release, without trailing zeros. -/
def release (text : List Char) : Option (List ℕ) :=
  ((text.splitOnP (· = '.')).mapM releaseNumber).map (List.rdropWhile (· = 0))

def releaseLe : List ℕ → List ℕ → Bool
  | [], _ => true
  | _ :: _, [] => false
  | a :: as, b :: bs => a < b || (a = b && releaseLe as bs)

def releaseClause : List Char → Option (List ℕ → Bool)
  | '>' :: '=' :: text => (release text).map fun bound v => releaseLe bound v
  | '<' :: '=' :: text => (release text).map fun bound v => releaseLe v bound
  | '=' :: '=' :: text => (release text).map fun bound v => bound = v
  | '>' :: text => (release text).map fun bound v => !releaseLe v bound
  | '<' :: text => (release text).map fun bound v => !releaseLe bound v
  | _ => none

def releasePackaging : Packaging where
  Version := List ℕ
  SpecifierSet := List (List ℕ → Bool)
  version text := release text.toList
  specifierSet text := ((text.toList.splitOnP (· = ',')).filter (· ≠ [])).mapM releaseClause
  contains spec v := spec.all (· v)

end Connectors
