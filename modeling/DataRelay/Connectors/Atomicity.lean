import DataRelay.Connectors.Effects
import DataRelay.Lib.Steps

/-! The stored row of a package and its active directory agree after every operation, also one
that failed and was compensated. -/
namespace Connectors
open PyText Outcomes

/-- The stored row says that the package is installed with this version and digest. -/
def RowSays (s : Site) (packageId version digest : String) : Prop :=
  ∃ row, installedRow packageId s.rows = some row ∧ row.packVersion = version ∧ row.digest = digest

/-- The active directory holds exactly the package of this version and digest. -/
def Holds (s : Site) (packageId version digest : String) : Prop :=
  ∃ tree, Dict.get? (.active packageId) s.files = some (.whole tree) ∧
    tree.packageId = packageId ∧ tree.packVersion = version ∧ tree.digest = digest

def AtomicAt (s : Site) (packageId : String) : Prop :=
  ∀ version digest, RowSays s packageId version digest ↔ Holds s packageId version digest

def Atomic (s : Site) : Prop := ∀ packageId, AtomicAt s packageId

/-- The version a rollback goes back to is preserved, unless the versions share a directory. -/
def KeptAt (s : Site) (packageId : String) : Prop :=
  ∀ row, installedRow packageId s.rows = some row → ∀ version digest,
    row.previousVersion = some version → row.previousDigest = some digest →
    safeVersion version ≠ safeVersion row.packVersion →
    ∃ tree, Dict.get? (.generation packageId (safeVersion version)) s.files = some (.whole tree) ∧
      tree.packageId = packageId ∧ tree.packVersion = version ∧ tree.digest = digest

structure Inv (s : Site) : Prop where
  fitting : Fitting s
  atomic : Atomic s
  kept : ∀ packageId, KeptAt s packageId

/-- The version before the last upgrade does not share its directory with the installed one. -/
def DistinctGenerations (packageId : String) (s : Site) : Prop :=
  ∀ row ∈ installedRow packageId s.rows, ∀ version ∈ row.previousVersion,
    safeVersion version ≠ safeVersion row.packVersion

instance (packageId : String) (s : Site) : Decidable (DistinctGenerations packageId s) :=
  inferInstanceAs (Decidable (∀ row ∈ installedRow packageId s.rows, _))

/-- No installed package is named like a work directory of the operation. -/
def NoWorkClash (packageId : String) (pid : ℕ) (s : Site) : Prop :=
  ∀ row ∈ s.rows, row.2.status = .installed → ¬ IsWork packageId pid row.1

instance (packageId : String) (pid : ℕ) (s : Site) : Decidable (NoWorkClash packageId pid s) :=
  inferInstanceAs (Decidable (∀ row ∈ s.rows, _))

/-- What an operation needs besides: a rollback two generations apart, an uninstall a removal
that does not stop half way. -/
def Operation.Sound (faults : Faults) (s : Site) : Operation → Prop
  | .install _ => True
  | .upgrade _ _ => True
  | .rollback id => DistinctGenerations (strip id) s
  | .uninstall _ _ => faults.removeActive = none

instance (faults : Faults) (s : Site) (operation : Operation) :
    Decidable (operation.Sound faults s) :=
  match operation with
  | .install _ => inferInstanceAs (Decidable True)
  | .upgrade _ _ => inferInstanceAs (Decidable True)
  | .rollback id => inferInstanceAs (Decidable (DistinctGenerations (strip id) s))
  | .uninstall _ _ => inferInstanceAs (Decidable (faults.removeActive = none))

def Sound (s : Site) (call : Call) : Prop :=
  ¬ call.faults.LateRefresh ∧ NoWorkClash call.operation.subject call.pid s ∧
    call.operation.Sound call.faults s

instance (s : Site) (call : Call) : Decidable (Sound s call) := inferInstanceAs (Decidable (_ ∧ _))

variable {host : Host} {packageId : String} {pid : ℕ} {s t : Site}

/-- Another package's row and directory are not touched. -/
theorem atomicAt_of_framed (hframe : Framed packageId pid s t) (hatomic : Atomic s)
    (hclash : NoWorkClash packageId pid s) {other : String} (hne : other ≠ packageId)
    (hrow : installedRow other t.rows = installedRow other s.rows) : AtomicAt t other := by
  intro version digest
  by_cases hwork : IsWork packageId pid other
  · have hno : ∀ row, installedRow other s.rows ≠ some row := by
      intro row hrow'
      obtain ⟨hget, hstatus⟩ := installedRow_eq_some.mp hrow'
      exact hclash _ (Dict.mem_of_get? hget) hstatus hwork
    constructor
    · rintro ⟨row, hsays, -⟩
      exact absurd (hrow ▸ hsays) (hno row)
    · rintro ⟨tree, hdir, hid, hversion, hdigest⟩
      rcases hframe.work other hwork tree hdir with hsame | hlen
      · obtain ⟨row, hsays, -⟩ := (hatomic other version digest).mpr
          ⟨tree, hsame, hid, hversion, hdigest⟩
        exact absurd hsays (hno row)
      · have := hwork.length_lt
        rw [hid] at hlen
        omega
  · have hfiles : Dict.get? (.active other) t.files = Dict.get? (.active other) s.files :=
      hframe.others _ (not_touched_of_ne hne hwork)
    unfold RowSays Holds
    rw [hrow, hfiles]
    exact hatomic other version digest

theorem keptAt_of_framed (hframe : Framed packageId pid s t) {other : String}
    (hne : other ≠ packageId) (hrow : installedRow other t.rows = installedRow other s.rows)
    (hkept : KeptAt s other) : KeptAt t other := by
  intro row hinstalled version digest hversion hdigest hsafe
  obtain ⟨tree, htree, hrest⟩ := hkept row (hrow ▸ hinstalled) version digest hversion hdigest hsafe
  refine ⟨tree, ?_, hrest⟩
  rw [hframe.others]
  · exact htree
  · rintro (h | ⟨name, -, h⟩ | ⟨v, h⟩)
    · cases h
    · cases h
    · exact hne (Path.generation.inj h).1

/-- An operation keeps the invariant when it does so at its own package. -/
theorem Inv.of_framed (h : Inv s) (hframe : Framed packageId pid s t)
    (hclash : NoWorkClash packageId pid s)
    (hrows : ∀ other, other ≠ packageId → installedRow other t.rows = installedRow other s.rows)
    (hatomic : AtomicAt t packageId) (hkept : KeptAt t packageId) : Inv t where
  fitting := hframe.fitting
  atomic other := by
    by_cases hne : other = packageId
    · exact hne ▸ hatomic
    · exact atomicAt_of_framed hframe h.atomic hclash hne (hrows other hne)
  kept other := by
    by_cases hne : other = packageId
    · exact hne ▸ hkept
    · exact keptAt_of_framed hframe hne (hrows other hne) (h.kept other)

theorem Inv.of_unchanged (h : Inv s) (hclash : NoWorkClash packageId pid s)
    (ht : Unchanged packageId pid s t) : Inv t := by
  refine h.of_framed ht.toFramed hclash (fun _ _ => by rw [ht.rows]) ?_ ?_
  · intro version digest
    unfold RowSays Holds
    rw [ht.rows, ht.active]
    exact h.atomic packageId version digest
  · intro row hrow version digest hversion hdigest hsafe
    rw [ht.rows] at hrow
    rw [ht.generations row hrow _ hsafe]
    exact h.kept packageId row hrow version digest hversion hdigest hsafe

/-- A row that is stored leaves the other packages' rows alone. -/
theorem installedRow_of_stored {row : InstallRow} (hrows : t.rows = Dict.set packageId row s.rows)
    {other : String} (hne : other ≠ packageId) :
    installedRow other t.rows = installedRow other s.rows := by
  rw [hrows, installedRow_set, if_neg (Ne.symm hne)]

theorem installedRow_stored {row : InstallRow} (hrows : t.rows = Dict.set packageId row s.rows)
    (hstatus : row.status = .installed) : installedRow packageId t.rows = some row := by
  rw [hrows, installedRow_set, if_pos rfl, Option.filter_eq_some_iff]
  exact ⟨rfl, by simpa using hstatus⟩

/-- The row that was stored describes the tree that is in place. -/
theorem atomicAt_stored {row : InstallRow} {tree : PackageTree}
    (hrow : installedRow packageId t.rows = some row)
    (hactive : Dict.get? (.active packageId) t.files = some (.whole tree))
    (hid : tree.packageId = packageId) (hversion : tree.packVersion = row.packVersion)
    (hdigest : tree.digest = row.digest) : AtomicAt t packageId := by
  intro version digest
  constructor
  · rintro ⟨other, hother, rfl, rfl⟩
    rw [hrow] at hother
    obtain rfl := Option.some.inj hother
    exact ⟨tree, hactive, hid, hversion, hdigest⟩
  · rintro ⟨other, hother, -, rfl, rfl⟩
    rw [hactive] at hother
    obtain rfl := Dir.whole.inj (Option.some.inj hother)
    exact ⟨row, hrow, hversion.symm, hdigest.symm⟩

theorem Inv.of_installed {archive : Archive} {now : ℤ} {tree : PackageTree} (h : Inv s)
    (hclash : NoWorkClash tree.packageId pid s)
    (ht : Installed host archive pid now s t tree) : Inv t := by
  have hrow := installedRow_stored ht.rows rfl
  refine h.of_framed ht.toFramed hclash (fun _ hne => installedRow_of_stored ht.rows hne)
    (atomicAt_stored hrow ht.active rfl rfl rfl) ?_
  intro row hinstalled version digest hversion
  rw [hrow] at hinstalled
  obtain rfl := Option.some.inj hinstalled
  cases hversion

/-- The directory that was preserved held the version of the row. -/
theorem Inv.of_upgraded {archive : Archive} {now : ℤ} {start : UpgradeStart} (h : Inv s)
    (hclash : NoWorkClash packageId pid s)
    (ht : Upgraded host packageId archive pid now s t start) : Inv t := by
  have hrow := installedRow_stored ht.rows rfl
  refine h.of_framed ht.toFramed hclash (fun _ hne => installedRow_of_stored ht.rows hne)
    (atomicAt_stored hrow ht.active ht.checked.sameId rfl rfl) ?_
  intro row hinstalled version digest hversion hdigest _
  rw [hrow] at hinstalled
  obtain rfl := Option.some.inj hinstalled
  obtain rfl := Option.some.inj hversion
  obtain rfl := Option.some.inj hdigest
  obtain ⟨tree, htree, hrest⟩ := (h.atomic packageId _ _).mp ⟨start.row, ht.checked.row, rfl, rfl⟩
  refine ⟨tree, ?_, hrest⟩
  rw [ht.kept, ← htree, ht.checked.current]

theorem Inv.of_rolledBack {now : ℤ} {start : RollbackStart} (h : Inv s)
    (hclash : NoWorkClash packageId pid s) (hdistinct : DistinctGenerations packageId s)
    (ht : RolledBack host packageId pid now s t start) : Inv t := by
  have hrow : installedRow packageId t.rows = some (rolledBackRow host packageId start now) :=
    installedRow_stored ht.rows (installedRow_eq_some.mp ht.checked.row).2
  have hsafe : safeVersion start.previousVersion ≠ safeVersion start.row.packVersion :=
    hdistinct _ ht.checked.row _ ht.checked.previousVersion
  obtain ⟨tree, htree, hid, hversion, hdigest⟩ := h.kept packageId start.row ht.checked.row _ _
    ht.checked.previousVersion ht.checked.previousDigest hsafe
  have hactive : Dict.get? (.active packageId) t.files = some (.whole tree) := by
    rw [ht.active, restoredDir, if_neg hsafe, htree]
  refine h.of_framed ht.toFramed hclash (fun _ hne => installedRow_of_stored ht.rows hne)
    (atomicAt_stored hrow hactive hid hversion hdigest) ?_
  intro row hinstalled version digest hprevious
  rw [hrow] at hinstalled
  obtain rfl := Option.some.inj hinstalled
  cases hprevious

theorem Inv.of_uninstalled {now : ℤ} {start : UninstallStart} (h : Inv s)
    (hclash : NoWorkClash packageId pid s)
    (ht : Uninstalled host packageId pid now s t start) : Inv t := by
  have hrow : installedRow packageId t.rows = none := by
    rw [ht.rows, installedRow_set, if_pos rfl]
    rfl
  refine h.of_framed ht.toFramed hclash (fun _ hne => installedRow_of_stored ht.rows hne) ?_ ?_
  · intro version digest
    constructor
    · rintro ⟨row, hinstalled, -⟩
      rw [hrow] at hinstalled
      cases hinstalled
    · rintro ⟨tree, htree, -⟩
      rw [ht.active] at htree
      cases htree
  · intro row hinstalled
    rw [hrow] at hinstalled
    cases hinstalled

/-- What holds in both outcomes holds after the request. -/
theorem step_of_ends {call : Call} {P : Site → Prop}
    (h : Ends (perform host call) s (fun _ t => P t) fun _ t => P t) : P (step host s call) := by
  unfold step
  cases hrun : perform host call s with
  | ok row t => exact (ends_of_ok hrun).mp h
  | error e t => exact (ends_of_error hrun).mp h

theorem inv_step {call : Call} (h : Inv s) (hsound : Sound s call) : Inv (step host s call) := by
  obtain ⟨operation, pid, now, faults⟩ := call
  obtain ⟨hlate, hclash, hsound⟩ := hsound
  apply step_of_ends
  cases operation with
  | install archive =>
    have hdone : ∀ t, (∃ tree, Installed host archive pid now s t tree) → Inv t := by
      rintro t ⟨tree, ht⟩
      exact h.of_installed (subject_install ht.checked.staged ▸ hclash) ht
    refine (install_ends archive pid now faults h.fitting).mono (fun _ t ht => hdone t ht) ?_
    intro e t ht
    exact (ht hlate).elim (h.of_unchanged hclash) (hdone t)
  | upgrade id archive =>
    have hdone : ∀ t, (∃ start, Upgraded host (strip id) archive pid now s t start) → Inv t := by
      rintro t ⟨start, ht⟩
      exact h.of_upgraded hclash ht
    refine (upgrade_ends id archive pid now faults h.fitting).mono (fun _ t ht => hdone t ht) ?_
    intro e t ht
    exact (ht hlate).elim (h.of_unchanged hclash) (hdone t)
  | rollback id =>
    have hdone : ∀ t, (∃ start, RolledBack host (strip id) pid now s t start) → Inv t := by
      rintro t ⟨start, ht⟩
      exact h.of_rolledBack hclash hsound ht
    refine (rollback_ends id pid now faults h.fitting).mono (fun _ t ht => hdone t ht) ?_
    intro e t ht
    exact (ht hlate).elim (h.of_unchanged hclash) (hdone t)
  | uninstall id streams =>
    have hdone : ∀ t, (∃ start, Uninstalled host (strip id) pid now s t start) → Inv t := by
      rintro t ⟨start, ht⟩
      exact h.of_uninstalled hclash ht
    refine (uninstall_ends id streams pid now faults h.fitting).mono (fun _ t ht => hdone t ht) ?_
    intro e t ht
    exact (ht hlate hsound).elim (h.of_unchanged hclash) (hdone t)

theorem inv_initial (host : Host) : Inv (Site.initial host) where
  fitting := by
    intro path dir hdir
    cases hdir
  atomic := by
    intro packageId version digest
    constructor
    · rintro ⟨row, hrow, -⟩
      cases hrow
    · rintro ⟨tree, htree, -⟩
      cases htree
  kept := by
    intro packageId row hrow
    cases hrow

/-- After every run of sound requests, whatever failed in them, rows and directories agree. -/
theorem atomic_run (host : Host) (calls : List Call)
    (hsound : Steps.Along (step host) Sound (Site.initial host) calls) :
    Atomic (Steps.run (step host) (Site.initial host) calls) := by
  have hinv := Steps.run_invariant (fun _ _ h hcall => inv_step h hcall) (inv_initial host) hsound
  exact hinv.atomic

/-! ### Runs -/

def plainHost : Host where
  packaging := releasePackaging
  repr text := "'" ++ text ++ "'"
  str _ := ""
  installedRoot := "/plugins"
  builtin := []
  legacyCatalog := []

def plainArchive (id version digest : String) : Archive where
  digest := digest
  contents := .ok ({
    id := id, version := version, packageId := some id, packVersion := some version }, [])

/-- Every kind of request, three of them with a step that fails and is compensated. -/
def compensatedRun : List Call := [
  { operation := .install (plainArchive "acme" "1.0.0" "a"), faults := { commit := some "lost" } },
  { operation := .install (plainArchive "acme" "1.0.0" "a") },
  { operation := .upgrade "acme" (plainArchive "acme" "1.1.0" "b")
    faults := { publish := { renameIn := some "denied" } } },
  { operation := .upgrade "acme" (plainArchive "acme" "1.1.0" "b") },
  { operation := .rollback "acme", faults := { commit := some "lost", refresh := some "lost" } },
  { operation := .rollback "acme" }]

theorem compensatedRun_atomic :
    RowSays (Steps.run (step plainHost) (Site.initial plainHost) compensatedRun) "acme" "1.0.0" "a" ∧
      Atomic (Steps.run (step plainHost) (Site.initial plainHost) compensatedRun) := by
  refine ⟨?_, atomic_run plainHost compensatedRun (by decide +kernel)⟩
  refine ⟨{
    packageKind := .source, packVersion := "1.0.0", digest := "a"
    installedPath := "/plugins/acme", installedAt := 0, updatedAt := 0 }, ?_, rfl, rfl⟩
  decide +kernel

/-- The row is committed, its refresh fails, and the compensation removes the files. -/
def lateRefreshRun : List Call := [
  { operation := .install (plainArchive "acme" "1.0.0" "a"), faults := { refresh := some "lost" } }]

/-- Nothing fails, but both versions are preserved in one directory. -/
def sharedGenerationRun : List Call := [
  { operation := .install (plainArchive "acme" "1/0" "a") },
  { operation := .upgrade "acme" (plainArchive "acme" "1_0" "b") },
  { operation := .rollback "acme" }]

/-- The files are removed half way, and nothing puts them back. -/
def haltedRemovalRun : List Call := [
  { operation := .install (plainArchive "acme" "1.0.0" "a") },
  { operation := .uninstall "acme" [], faults := { removeActive := some ⟨.part none, "denied"⟩ } }]

/-- A directory without the package, under a row that says it is installed. -/
theorem not_atomic_of_row {s : Site} {row : InstallRow} {dir : Option Dir}
    (hrow : installedRow "acme" s.rows = some row)
    (hdir : Dict.get? (.active "acme") s.files = dir)
    (hother : ∀ tree, dir = some (.whole tree) → tree.digest ≠ row.digest) : ¬ Atomic s := by
  intro h
  obtain ⟨tree, htree, -, -, hdigest⟩ := (h "acme" _ _).mp ⟨row, hrow, rfl, rfl⟩
  exact hother tree (hdir ▸ htree) hdigest

theorem lateRefreshRun_fails :
    ¬ Atomic (Steps.run (step plainHost) (Site.initial plainHost) lateRefreshRun) := by
  have hrow : installedRow "acme"
      (Steps.run (step plainHost) (Site.initial plainHost) lateRefreshRun).rows = some {
        packageKind := .source, packVersion := "1.0.0", digest := "a"
        installedPath := "/plugins/acme", installedAt := 0, updatedAt := 0 } := by decide +kernel
  have hdir : Dict.get? (.active "acme")
      (Steps.run (step plainHost) (Site.initial plainHost) lateRefreshRun).files = none := by
    decide +kernel
  exact not_atomic_of_row hrow hdir (by simp)

theorem sharedGenerationRun_fails :
    ¬ Atomic (Steps.run (step plainHost) (Site.initial plainHost) sharedGenerationRun) := by
  have hrow : installedRow "acme"
      (Steps.run (step plainHost) (Site.initial plainHost) sharedGenerationRun).rows = some {
        packageKind := .source, packVersion := "1/0", digest := "a"
        installedPath := "/plugins/acme", installedAt := 0, updatedAt := 0 } := by decide +kernel
  have hdir : Dict.get? (.active "acme")
      (Steps.run (step plainHost) (Site.initial plainHost) sharedGenerationRun).files =
        some (.whole {
          manifest := {
            id := "acme", version := "1_0", packageId := some "acme", packVersion := some "1_0" }
          digest := "b" }) := by decide +kernel
  refine not_atomic_of_row hrow hdir ?_
  intro tree htree
  obtain rfl := Dir.whole.inj (Option.some.inj htree)
  decide

theorem haltedRemovalRun_fails :
    ¬ Atomic (Steps.run (step plainHost) (Site.initial plainHost) haltedRemovalRun) := by
  have hrow : installedRow "acme"
      (Steps.run (step plainHost) (Site.initial plainHost) haltedRemovalRun).rows = some {
        packageKind := .source, packVersion := "1.0.0", digest := "a"
        installedPath := "/plugins/acme", installedAt := 0, updatedAt := 0 } := by decide +kernel
  have hdir : Dict.get? (.active "acme")
      (Steps.run (step plainHost) (Site.initial plainHost) haltedRemovalRun).files =
        some (.part none) := by decide +kernel
  exact not_atomic_of_row hrow hdir (by simp)

theorem atomic_fails :
    ¬ Atomic (Steps.run (step plainHost) (Site.initial plainHost) lateRefreshRun) ∧
      ¬ Atomic (Steps.run (step plainHost) (Site.initial plainHost) sharedGenerationRun) ∧
      ¬ Atomic (Steps.run (step plainHost) (Site.initial plainHost) haltedRemovalRun) :=
  ⟨lateRefreshRun_fails, sharedGenerationRun_fails, haltedRemovalRun_fails⟩

end Connectors
