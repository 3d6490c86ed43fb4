import DataRelay.Connectors.Atomicity

/-! A rollback puts back what the package was before its latest upgrade, exactly when the two
versions are not preserved in one directory. -/
namespace Connectors
open PyText Outcomes

/-- A package as it is in place: its files, version and digest. -/
structure InPlace where
  dir : Option Dir
  packVersion : String
  digest : String
  deriving DecidableEq

def Site.inPlace (s : Site) (packageId : String) : Option InPlace :=
  (installedRow packageId s.rows).map fun row => {
    dir := Dict.get? (.active packageId) s.files
    packVersion := row.packVersion
    digest := row.digest }

section definitions

variable (host : Host)

/-- The site, and each package as it was right before its latest upgrade. -/
structure Upgrades where
  site : Site
  before : String → Option InPlace

def Upgrades.initial : Upgrades where
  site := Site.initial host
  before _ := none

def Upgrades.record (t : Upgrades) (site : Site) : Operation → Upgrades
  | .upgrade id _ => {
      site := site
      before := Function.update t.before (strip id) (t.site.inPlace (strip id)) }
  | .install _ => { t with site := site }
  | .rollback _ => { t with site := site }
  | .uninstall _ _ => { t with site := site }

def upgradesStep (t : Upgrades) (call : Call) : Upgrades :=
  match perform host call t.site with
  | .ok _ site => t.record site call.operation
  | .error _ site => { t with site := site }

/-- The package is in place as it was before its latest upgrade. -/
def Undone (t : Upgrades) (packageId : String) : Prop :=
  t.before packageId ≠ none ∧ t.site.inPlace packageId = t.before packageId

instance (t : Upgrades) (packageId : String) : Decidable (Undone t packageId) :=
  inferInstanceAs (Decidable (_ ∧ _))

/-- The files in place are already those before the latest upgrade. -/
def SameFiles (t : Upgrades) (packageId : String) : Prop :=
  (t.before packageId).map (·.dir) = some (Dict.get? (.active packageId) t.site.files)

instance (t : Upgrades) (packageId : String) : Decidable (SameFiles t packageId) :=
  inferInstanceAs (Decidable (_ = _))

end definitions

variable {host : Host} {packageId : String} {pid : ℕ} {now : ℤ} {t : Upgrades} {u : Site}

/-- A row with a previous version has the package before its latest upgrade in the directory
of that version. -/
def KeptBefore (t : Upgrades) (packageId : String) : Prop :=
  ∀ row, installedRow packageId t.site.rows = some row → ∀ version digest,
    row.previousVersion = some version → row.previousDigest = some digest →
    t.before packageId = some {
      dir := Dict.get? (.generation packageId (safeVersion version)) t.site.files
      packVersion := version
      digest := digest }

structure UpgradesInv (t : Upgrades) : Prop where
  fitting : Fitting t.site
  kept : ∀ packageId, KeptBefore t packageId

/-- The preserved directories of the other packages are left alone. -/
theorem generation_of_framed {s : Site} (hframe : Framed packageId pid s u) {other : String}
    (hne : other ≠ packageId) (version : String) :
    Dict.get? (.generation other version) u.files =
      Dict.get? (.generation other version) s.files := by
  apply hframe.others
  rintro (h | ⟨name, -, h⟩ | ⟨v, h⟩)
  · cases h
  · cases h
  · exact hne (Path.generation.inj h).1

/-- An operation keeps the invariant when it does so at its own package. -/
theorem UpgradesInv.of_framed {before : String → Option InPlace} {row : InstallRow}
    (h : UpgradesInv t) (hframe : Framed packageId pid t.site u)
    (hrows : u.rows = Dict.set packageId row t.site.rows)
    (hbefore : ∀ other, other ≠ packageId → before other = t.before other)
    (hkept : KeptBefore ⟨u, before⟩ packageId) : UpgradesInv ⟨u, before⟩ where
  fitting := hframe.fitting
  kept other := by
    by_cases hne : other = packageId
    · exact hne ▸ hkept
    · intro row' hinstalled version digest hversion hdigest
      have hsame := installedRow_of_stored hrows hne
      show before other = _
      rw [hbefore other hne, generation_of_framed hframe hne]
      exact h.kept other row' (hsame.symm.trans hinstalled) version digest hversion hdigest

/-- A package whose stored row names no previous version has nothing to keep. -/
theorem keptBefore_of_no_previous {before : String → Option InPlace} {row : InstallRow}
    {s : Site} (hrows : u.rows = Dict.set packageId row s.rows)
    (hnone : row.previousVersion = none) : KeptBefore ⟨u, before⟩ packageId := by
  intro row' hinstalled version digest hversion
  obtain ⟨hget, -⟩ := installedRow_eq_some.mp hinstalled
  have hget' : Dict.get? packageId u.rows = some row' := hget
  rw [hrows, Dict.get?_set, if_pos rfl] at hget'
  obtain rfl := Option.some.inj hget'
  rw [hnone] at hversion
  cases hversion

theorem UpgradesInv.install {archive : Archive} {tree : PackageTree} (h : UpgradesInv t)
    (hu : Installed host archive pid now t.site u tree) :
    UpgradesInv (t.record u (.install archive)) :=
  h.of_framed hu.toFramed hu.rows (fun _ _ => rfl) (keptBefore_of_no_previous hu.rows rfl)

theorem UpgradesInv.upgrade {id : String} {archive : Archive} {start : UpgradeStart}
    (h : UpgradesInv t) (hu : Upgraded host (strip id) archive pid now t.site u start) :
    UpgradesInv (t.record u (.upgrade id archive)) := by
  refine h.of_framed hu.toFramed hu.rows (fun other hne => Function.update_of_ne hne _ _) ?_
  intro row hinstalled version digest hversion hdigest
  have hrow := installedRow_stored hu.rows rfl
  obtain rfl := Option.some.inj (hrow.symm.trans hinstalled)
  obtain rfl := Option.some.inj hversion
  obtain rfl := Option.some.inj hdigest
  dsimp only [Upgrades.record]
  rw [Function.update_self, Site.inPlace, hu.checked.row, hu.kept, hu.checked.current]
  rfl

theorem UpgradesInv.rollback {id : String} {start : RollbackStart} (h : UpgradesInv t)
    (hu : RolledBack host (strip id) pid now t.site u start) :
    UpgradesInv (t.record u (.rollback id)) :=
  h.of_framed hu.toFramed hu.rows (fun _ _ => rfl) (keptBefore_of_no_previous hu.rows rfl)

theorem UpgradesInv.uninstall {id : String} {streams : List StreamRow} {start : UninstallStart}
    (h : UpgradesInv t) (hu : Uninstalled host (strip id) pid now t.site u start) :
    UpgradesInv (t.record u (.uninstall id streams)) :=
  h.of_framed hu.toFramed hu.rows (fun _ _ => rfl) (keptBefore_of_no_previous hu.rows rfl)

theorem upgradesStep_of_ok {call : Call} {row : InstallRow} (h : perform host call t.site = .ok row u) :
    upgradesStep host t call = t.record u call.operation := by
  unfold upgradesStep
  rw [h]

theorem inv_upgradesStep {call : Call} (h : UpgradesInv t)
    (hsucceeds : succeeds host t.site call = true) : UpgradesInv (upgradesStep host t call) := by
  obtain ⟨operation, pid, now, faults⟩ := call
  obtain ⟨row, u, hrun⟩ := perform_of_succeeds hsucceeds
  rw [upgradesStep_of_ok hrun]
  cases operation with
  | install archive =>
    obtain ⟨tree, hu⟩ := (ends_of_ok hrun).mp (install_ends archive pid now faults h.fitting)
    exact h.install hu
  | upgrade id archive =>
    obtain ⟨start, hu⟩ := (ends_of_ok hrun).mp (upgrade_ends id archive pid now faults h.fitting)
    exact h.upgrade hu
  | rollback id =>
    obtain ⟨start, hu⟩ := (ends_of_ok hrun).mp (rollback_ends id pid now faults h.fitting)
    exact h.rollback hu
  | uninstall id streams =>
    obtain ⟨start, hu⟩ := (ends_of_ok hrun).mp (uninstall_ends id streams pid now faults h.fitting)
    exact h.uninstall hu

theorem upgradesInv_initial (host : Host) : UpgradesInv (Upgrades.initial host) where
  fitting := by
    intro path dir hdir
    cases hdir
  kept := by
    intro packageId row hrow
    cases hrow

/-- What a rollback leaves in place is the previous version and digest, over the directory
that is restored. -/
theorem undone_iff_restored {id : String} {start : RollbackStart} (h : UpgradesInv t)
    (hu : RolledBack host (strip id) pid now t.site u start) :
    Undone (t.record u (.rollback id)) (strip id) ↔ restoredDir (strip id) start t.site =
      Dict.get? (.generation (strip id) (safeVersion start.previousVersion)) t.site.files := by
  have hbefore := h.kept (strip id) start.row hu.checked.row _ _ hu.checked.previousVersion
    hu.checked.previousDigest
  have hrow : installedRow (strip id) u.rows = some (rolledBackRow host (strip id) start now) :=
    installedRow_stored hu.rows (installedRow_eq_some.mp hu.checked.row).2
  have hplace : u.inPlace (strip id) = some {
      dir := restoredDir (strip id) start t.site
      packVersion := start.previousVersion
      digest := start.previousDigest } := by
    rw [Site.inPlace, hrow, hu.active]
    rfl
  show t.before (strip id) ≠ none ∧ u.inPlace (strip id) = t.before (strip id) ↔ _
  rw [hplace, hbefore]
  simp

theorem undone_iff {id : String} {start : RollbackStart} (h : UpgradesInv t)
    (hu : RolledBack host (strip id) pid now t.site u start) :
    Undone (t.record u (.rollback id)) (strip id) ↔
      DistinctGenerations (strip id) t.site ∨ SameFiles t (strip id) := by
  have hbefore := h.kept (strip id) start.row hu.checked.row _ _ hu.checked.previousVersion
    hu.checked.previousDigest
  have hdistinct : DistinctGenerations (strip id) t.site ↔
      safeVersion start.previousVersion ≠ safeVersion start.row.packVersion := by
    unfold DistinctGenerations
    rw [hu.checked.row]
    simp [hu.checked.previousVersion]
  rw [undone_iff_restored h hu, hdistinct, SameFiles, hbefore, hu.checked.current, restoredDir]
  by_cases hsafe : safeVersion start.previousVersion = safeVersion start.row.packVersion
  · simp only [hsafe, if_true, ne_eq, not_true_eq_false, false_or, Option.map_some,
      Option.some.injEq]
    exact eq_comm
  · simp [hsafe]

/-- After every run of requests that return, a rollback that returns puts the package back as it
was before its latest upgrade if and only if the two versions have directories of their own, or
the files were the same all along. -/
theorem rollback_undoes_upgrade (host : Host) (calls : List Call) (id : String) (pid : ℕ) (now : ℤ)
    (faults : Faults)
    (h : Steps.Along (upgradesStep host) (fun t call => succeeds host t.site call = true)
      (Upgrades.initial host) (calls ++ [⟨.rollback id, pid, now, faults⟩])) :
    Undone (Steps.run (upgradesStep host) (Upgrades.initial host)
        (calls ++ [⟨.rollback id, pid, now, faults⟩])) (strip id) ↔
      DistinctGenerations (strip id)
          (Steps.run (upgradesStep host) (Upgrades.initial host) calls).site ∨
        SameFiles (Steps.run (upgradesStep host) (Upgrades.initial host) calls) (strip id) := by
  have hinv := Steps.run_invariant (fun _ _ h hcall => inv_upgradesStep h hcall)
    (upgradesInv_initial host) h.init
  obtain ⟨row, u, hrun⟩ := perform_of_succeeds h.last
  obtain ⟨start, hu⟩ := (ends_of_ok hrun).mp (rollback_ends id pid now faults hinv.fitting)
  have hlast : Steps.run (upgradesStep host) (Upgrades.initial host)
      (calls ++ [⟨.rollback id, pid, now, faults⟩]) =
      (Steps.run (upgradesStep host) (Upgrades.initial host) calls).record u (.rollback id) := by
    rw [Steps.run_append, Steps.run_cons, Steps.run_nil, upgradesStep_of_ok hrun]
  rw [hlast]
  exact undone_iff hinv hu

/-- The upgrade is undone, and a second one of another package is left in place. -/
def undoneRun : List Call := [
  { operation := .install (plainArchive "acme" "1.0.0" "a") },
  { operation := .install (plainArchive "other" "1.0.0" "b") },
  { operation := .upgrade "acme" (plainArchive "acme" "1.1.0" "c") },
  { operation := .upgrade "other" (plainArchive "other" "2.0.0" "d") }]

theorem undoneRun_undone :
    Undone (Steps.run (upgradesStep plainHost) (Upgrades.initial plainHost)
      (undoneRun ++ [⟨.rollback "acme", 1, 0, {}⟩])) (strip "acme") :=
  (rollback_undoes_upgrade plainHost undoneRun "acme" 1 0 {} (by decide +kernel)).mpr
    (.inl (by decide +kernel))

/-- Every request returns, and the rollback leaves the files of the upgrade in place. -/
theorem sharedGenerationRun_not_undone :
    Steps.Along (upgradesStep plainHost) (fun t call => succeeds plainHost t.site call = true)
        (Upgrades.initial plainHost) sharedGenerationRun ∧
      ¬ Undone (Steps.run (upgradesStep plainHost) (Upgrades.initial plainHost)
        sharedGenerationRun) "acme" := by
  decide +kernel

end Connectors
