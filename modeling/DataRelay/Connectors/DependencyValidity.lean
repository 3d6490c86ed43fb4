import DataRelay.Connectors.Atomicity
import DataRelay.Lib.Steps

/-! Requirements that were met when a package version was installed stay met by the packages at
hand, as long as every change of a package is accepted by the packages that require it. -/
namespace Connectors
open PyText Outcomes

/-- The manifest of the package in its own directory. -/
def manifestIn (packageId : String) (dir : Option Dir) : Option ConnectorManifest :=
  match dir with
  | some (.whole tree) => if tree.packageId = packageId then some tree.manifest else none
  | _ => none

def Site.requirementsOf (s : Site) (packageId : String) : List PackageRequirement :=
  iterRequirements (manifestIn packageId (Dict.get? (.active packageId) s.files))

section definitions

variable (host : Host)

/-- The package's requirements are met by the packages at hand. -/
def RequirementsMet (s : Site) (packageId : String) : Prop :=
  ∀ requirement ∈ s.requirementsOf packageId,
    checkRequirement host.packaging host.repr (s.available host) requirement = .ok ()

instance (s : Site) (packageId : String) : Decidable (RequirementsMet host s packageId) :=
  inferInstanceAs (Decidable (∀ requirement ∈ s.requirementsOf packageId, _))

/-- The site, and for each package whether the requirements of its version, and of the version
before the last upgrade, were met right after that version was installed. -/
structure Tracked where
  site : Site
  met : String → Bool
  metBefore : String → Bool

def Tracked.initial : Tracked where
  site := Site.initial host
  met _ := false
  metBefore _ := false

/-- What is recorded of a request that returned. -/
def Tracked.record (t : Tracked) (packageId : String) (site : Site) : Operation → Tracked
  | .install _ => { t with
      site := site
      met := Function.update t.met packageId (RequirementsMet host site packageId) }
  | .upgrade _ _ => {
      site := site
      met := Function.update t.met packageId (RequirementsMet host site packageId)
      metBefore := Function.update t.metBefore packageId (t.met packageId) }
  | .rollback _ => { t with
      site := site
      met := Function.update t.met packageId (t.metBefore packageId) }
  | .uninstall _ _ => { t with site := site }

def trackedStep (t : Tracked) (call : Call) : Tracked :=
  match perform host call t.site with
  | .ok _ site => t.record host call.operation.subject site call.operation
  | .error _ site => { t with site := site }

/-- Every installed package whose requirements were met then has them met now. -/
def StillMet (t : Tracked) : Prop :=
  ∀ packageId row, installedRow packageId t.site.rows = some row → t.met packageId = true →
    RequirementsMet host t.site packageId

/-! ### When it holds -/

/-- A requirement that is resolved at all is resolved by a package id, not by the connector id
of a package with another id. -/
def ResolvedById (s : Site) : Prop :=
  ∀ row ∈ s.rows, row.2.status = .installed → ∀ requirement ∈ s.requirementsOf row.1,
    Dict.get? (strip requirement.packageId) (s.available host) ≠ none →
      Dict.get? (strip requirement.packageId) (packageVersions host s.rows) ≠ none

instance (s : Site) : Decidable (ResolvedById host s) :=
  inferInstanceAs (Decidable (∀ row ∈ s.rows, _))

/-- The other installed packages accept this version of the package. -/
def DependentsAccept (s : Site) (packageId version : String) : Prop :=
  ∀ row ∈ s.rows, row.2.status = .installed → row.1 ≠ packageId →
    ∀ requirement ∈ s.requirementsOf row.1, strip requirement.packageId = packageId →
      Accepts host.packaging host.repr version requirement

instance (s : Site) (packageId version : String) :
    Decidable (DependentsAccept host s packageId version) :=
  inferInstanceAs (Decidable (∀ row ∈ s.rows, _))

/-- The other installed packages that require this one are among the loaded modules the
operation looks at. -/
def DependentsLoaded (s : Site) (looked : Entry → Bool) (packageId : String) : Prop :=
  ∀ row ∈ s.rows, row.2.status = .installed → row.1 ≠ packageId →
    (∃ requirement ∈ s.requirementsOf row.1, strip requirement.packageId = packageId) →
      ∃ entry ∈ s.modules host, looked entry = true ∧
        iterRequirements entry.manifest = s.requirementsOf row.1

instance (s : Site) (looked : Entry → Bool) (packageId : String) :
    Decidable (DependentsLoaded host s looked packageId) :=
  inferInstanceAs (Decidable (∀ row ∈ s.rows, _))

/-- A version put back by a rollback is accepted by the packages that require it, and has its
own requirements met. -/
def RollbackAccepted (t : Tracked) (packageId : String) : Prop :=
  ∀ start ∈ (rollbackChecks host packageId t.site).toOption,
    DependentsAccept host t.site packageId start.previousVersion ∧
      (t.metBefore packageId = true →
        ∀ requirement ∈ iterRequirements
            (manifestIn packageId (restoredDir packageId start t.site)),
          checkRequirement host.packaging host.repr
            (Dict.set packageId start.previousVersion (packageVersions host t.site.rows))
            requirement = .ok ())

instance (t : Tracked) (packageId : String) : Decidable (RollbackAccepted host t packageId) :=
  inferInstanceAs (Decidable (∀ start ∈ (rollbackChecks host packageId t.site).toOption, _))

/-- A package that takes the id of a built-in one is accepted by those that require it. -/
def InstallAccepted (s : Site) (archive : Archive) : Prop :=
  ∀ tree ∈ (stageArchive archive).toOption,
    Dict.get? tree.packageId (packageVersions host s.rows) ≠ none →
      DependentsAccept host s tree.packageId tree.packVersion

instance (s : Site) (archive : Archive) : Decidable (InstallAccepted host s archive) :=
  inferInstanceAs (Decidable (∀ tree ∈ (stageArchive archive).toOption, _))

def Operation.Accepted (t : Tracked) : Operation → Prop
  | .install archive => InstallAccepted host t.site archive
  | .upgrade id _ => DependentsLoaded host t.site (fun _ => true) (strip id)
  | .rollback id => RollbackAccepted host t (strip id)
  | .uninstall id _ =>
    DependentsLoaded host t.site (fun entry => entry.connectorId ≠ strip id) (strip id)

instance (t : Tracked) (operation : Operation) : Decidable (operation.Accepted host t) :=
  match operation with
  | .install archive => inferInstanceAs (Decidable (InstallAccepted host t.site archive))
  | .upgrade id _ =>
    inferInstanceAs (Decidable (DependentsLoaded host t.site (fun _ => true) (strip id)))
  | .rollback id => inferInstanceAs (Decidable (RollbackAccepted host t (strip id)))
  | .uninstall id _ => inferInstanceAs (Decidable
      (DependentsLoaded host t.site (fun entry => entry.connectorId ≠ strip id) (strip id)))

def Guarded (t : Tracked) (call : Call) : Prop :=
  succeeds host t.site call = true ∧ ResolvedById host t.site ∧ call.operation.Accepted host t

instance (t : Tracked) (call : Call) : Decidable (Guarded host t call) :=
  inferInstanceAs (Decidable (_ ∧ _))

end definitions

/-! ### Steps -/

variable {host : Host} {packageId : String} {pid : ℕ} {s u : Site}

theorem mem_of_installedRow {rows : Rows} {row : InstallRow}
    (h : installedRow packageId rows = some row) :
    (packageId, row) ∈ rows ∧ row.status = .installed := by
  obtain ⟨hget, hstatus⟩ := installedRow_eq_some.mp h
  exact ⟨Dict.mem_of_get? hget, hstatus⟩

/-- Another package keeps its requirements, or its directory holds it no more. -/
theorem requirementsOf_framed (hframe : Framed packageId pid s u) {other : String}
    (hne : other ≠ packageId) {requirement : PackageRequirement}
    (h : requirement ∈ u.requirementsOf other) : requirement ∈ s.requirementsOf other := by
  by_cases hwork : IsWork packageId pid other
  · unfold Site.requirementsOf at h ⊢
    cases hdir : Dict.get? (.active other) u.files with
    | none => simp [hdir, manifestIn, iterRequirements] at h
    | some dir =>
      cases dir with
      | part entry => simp [hdir, manifestIn, iterRequirements] at h
      | whole tree =>
        rcases hframe.work other hwork tree hdir with hsame | hlen
        · rw [hsame, ← hdir]
          exact h
        · have hid : tree.packageId ≠ other := by
            rintro rfl
            exact absurd hwork.length_lt (not_lt.mpr hlen)
          simp [hdir, manifestIn, hid, iterRequirements] at h
  · have hfiles := hframe.others _ (not_touched_of_ne hne hwork)
    unfold Site.requirementsOf at h ⊢
    rw [← hfiles]
    exact h

/-- A requirement that was met stays met when every package it may name is still at hand, the
changed one at a version it accepts. -/
theorem met_of_met {requirement : PackageRequirement}
    (hmet : checkRequirement host.packaging host.repr (s.available host) requirement = .ok ())
    (hresolved : Dict.get? (strip requirement.packageId) (s.available host) ≠ none →
      Dict.get? (strip requirement.packageId) (packageVersions host s.rows) ≠ none)
    (hothers : ∀ name, name ≠ packageId → Dict.get? name (packageVersions host u.rows) =
      Dict.get? name (packageVersions host s.rows))
    (hchanged : strip requirement.packageId = packageId →
      Dict.get? packageId (packageVersions host s.rows) ≠ none →
      ∃ version, Dict.get? packageId (packageVersions host u.rows) = some version ∧
        Accepts host.packaging host.repr version requirement) :
    checkRequirement host.packaging host.repr (u.available host) requirement = .ok () := by
  rw [checkRequirement_eq_ok] at hmet ⊢
  obtain ⟨hid, version, hversion, haccepts⟩ := hmet
  refine ⟨hid, ?_⟩
  obtain ⟨known, hknown⟩ := Option.ne_none_iff_exists'.mp (hresolved (by simp [hversion]))
  by_cases hp : strip requirement.packageId = packageId
  · obtain ⟨new, hnew, hnewAccepts⟩ := hchanged hp (by rw [← hp, hknown]; simp)
    rw [hp]
    exact ⟨new, get?_availablePackageVersions hnew, hnewAccepts⟩
  · have hsame : version = known := by
      have hfound : Dict.get? (strip requirement.packageId) (s.available host) = some known :=
        get?_availablePackageVersions hknown
      exact Option.some.inj (hversion.symm.trans hfound)
    refine ⟨known, get?_availablePackageVersions ?_, hsame ▸ haccepts⟩
    rw [hothers _ hp, hknown]

/-- The versions by package id after a row was stored. -/
theorem get?_packageVersions_set {row : InstallRow} (hd : (s.rows.map Prod.fst).Nodup)
    (hrows : u.rows = Dict.set packageId row s.rows) {name : String} (hne : name ≠ packageId) :
    Dict.get? name (packageVersions host u.rows) =
      Dict.get? name (packageVersions host s.rows) := by
  rw [hrows, get?_packageVersions (Dict.nodup_set hd _ _), get?_packageVersions hd,
    installedRow_set, if_neg (Ne.symm hne)]

theorem get?_packageVersions_self {row : InstallRow} (hd : (s.rows.map Prod.fst).Nodup)
    (hrows : u.rows = Dict.set packageId row s.rows) (hstatus : row.status = .installed) :
    Dict.get? packageId (packageVersions host u.rows) = some row.packVersion := by
  rw [hrows, get?_packageVersions (Dict.nodup_set hd _ _), installedRow_set, if_pos rfl]
  simp [Option.filter, hstatus]

structure TrackedInv (host : Host) (t : Tracked) : Prop where
  fitting : Fitting t.site
  nodup : (t.site.rows.map Prod.fst).Nodup
  stillMet : StillMet host t

/-- The packages an operation is not about keep what they require. -/
theorem TrackedInv.others {t : Tracked} {row : InstallRow} (h : TrackedInv host t)
    (hresolved : ResolvedById host t.site) (hframe : Framed packageId pid t.site u)
    (hrows : u.rows = Dict.set packageId row t.site.rows)
    (hdependents : ∀ other otherRow, installedRow other t.site.rows = some otherRow →
      other ≠ packageId → ∀ requirement ∈ t.site.requirementsOf other,
      strip requirement.packageId = packageId →
      Dict.get? packageId (packageVersions host t.site.rows) ≠ none →
      ∃ version, Dict.get? packageId (packageVersions host u.rows) = some version ∧
        Accepts host.packaging host.repr version requirement)
    {other : String} (hne : other ≠ packageId) {otherRow : InstallRow}
    (hinstalled : installedRow other u.rows = some otherRow) (hmet : t.met other = true) :
    RequirementsMet host u other := by
  intro requirement hrequirement
  rw [hrows, installedRow_set, if_neg (Ne.symm hne)] at hinstalled
  have hbefore := requirementsOf_framed hframe hne hrequirement
  obtain ⟨hmem, hstatus⟩ := mem_of_installedRow hinstalled
  refine met_of_met (h.stillMet other otherRow hinstalled hmet requirement hbefore)
    (hresolved _ hmem hstatus requirement hbefore)
    (fun name hname => get?_packageVersions_set h.nodup hrows hname) ?_
  exact hdependents other otherRow hinstalled hne requirement hbefore

/-- A version that the dependents accept. -/
theorem DependentsAccept.version {t : Tracked} {row : InstallRow} (h : TrackedInv host t)
    (hrows : u.rows = Dict.set packageId row t.site.rows) (hstatus : row.status = .installed)
    (haccept : Dict.get? packageId (packageVersions host t.site.rows) ≠ none →
      DependentsAccept host t.site packageId row.packVersion)
    (other : String) (otherRow : InstallRow)
    (hinstalled : installedRow other t.site.rows = some otherRow) (hne : other ≠ packageId)
    (requirement : PackageRequirement) (hrequirement : requirement ∈ t.site.requirementsOf other)
    (hnames : strip requirement.packageId = packageId)
    (hknown : Dict.get? packageId (packageVersions host t.site.rows) ≠ none) :
    ∃ version, Dict.get? packageId (packageVersions host u.rows) = some version ∧
      Accepts host.packaging host.repr version requirement := by
  obtain ⟨hmem, hother⟩ := mem_of_installedRow hinstalled
  exact ⟨row.packVersion, get?_packageVersions_self h.nodup hrows hstatus,
    haccept hknown _ hmem hother hne requirement hrequirement hnames⟩

theorem TrackedInv.install {t : Tracked} {archive : Archive} {now : ℤ} {tree : PackageTree}
    (h : TrackedInv host t) (hresolved : ResolvedById host t.site)
    (haccepted : InstallAccepted host t.site archive)
    (hu : Installed host archive pid now t.site u tree) :
    TrackedInv host (t.record host tree.packageId u (.install archive)) where
  fitting := hu.fitting
  nodup := by
    show (u.rows.map Prod.fst).Nodup
    rw [hu.rows]
    exact Dict.nodup_set h.nodup _ _
  stillMet := by
    intro other otherRow hinstalled hmet
    show RequirementsMet host u other
    by_cases hne : other = tree.packageId
    · subst hne
      simpa [Tracked.record] using hmet
    · have hmet' : t.met other = true := by simpa [Tracked.record, hne] using hmet
      have haccept : Dict.get? tree.packageId (packageVersions host t.site.rows) ≠ none →
          DependentsAccept host t.site tree.packageId (installedRowOf host tree now).packVersion :=
        haccepted tree (by rw [hu.checked.staged]; rfl)
      exact h.others hresolved hu.toFramed hu.rows
        (DependentsAccept.version h hu.rows rfl haccept) hne hinstalled hmet'

/-- What the dependents check says of one loaded module. -/
theorem accepts_of_assertDependents {candidate : String} {modules : List Entry} {entry : Entry}
    {requirement : PackageRequirement}
    (h : assertDependentsAcceptCandidate host packageId candidate modules = .ok ())
    (hentry : entry ∈ modules) (hrequirement : requirement ∈ iterRequirements entry.manifest)
    (hnames : strip requirement.packageId = packageId) :
    Accepts host.packaging host.repr candidate requirement := by
  have heach := eachOk_eq_ok.mp (eachOk_eq_ok.mp h entry hentry) requirement hrequirement
  unfold acceptsCandidate at heach
  rw [if_neg (not_not.mpr hnames)] at heach
  intro spec hspec
  rw [hspec] at heach
  obtain ⟨accepted, haccepted, hreject⟩ := Raising.bind_eq_ok heach
  have htrue : accepted = true := by simpa using reject_eq_ok hreject
  rw [haccepted, htrue]

theorem TrackedInv.upgrade {t : Tracked} {id : String} {archive : Archive} {now : ℤ}
    {start : UpgradeStart} (h : TrackedInv host t) (hresolved : ResolvedById host t.site)
    (hloaded : DependentsLoaded host t.site (fun _ => true) (strip id))
    (hu : Upgraded host (strip id) archive pid now t.site u start) :
    TrackedInv host (t.record host (strip id) u (.upgrade id archive)) where
  fitting := hu.fitting
  nodup := by
    show (u.rows.map Prod.fst).Nodup
    rw [hu.rows]
    exact Dict.nodup_set h.nodup _ _
  stillMet := by
    intro other otherRow hinstalled hmet
    show RequirementsMet host u other
    by_cases hne : other = strip id
    · subst hne
      simpa [Tracked.record] using hmet
    · have hmet' : t.met other = true := by simpa [Tracked.record, hne] using hmet
      have haccept : DependentsAccept host t.site (strip id) start.tree.packVersion := by
        intro row hrow hstatus hrowne requirement hrequirement hnames
        obtain ⟨entry, hentry, -, hsame⟩ :=
          hloaded row hrow hstatus hrowne ⟨requirement, hrequirement, hnames⟩
        exact accepts_of_assertDependents hu.checked.dependents hentry (hsame ▸ hrequirement) hnames
      have hversion := DependentsAccept.version h hu.rows rfl fun _ => haccept
      exact h.others hresolved hu.toFramed hu.rows hversion hne hinstalled hmet'

theorem TrackedInv.rollback {t : Tracked} {id : String} {now : ℤ} {start : RollbackStart}
    (h : TrackedInv host t) (hresolved : ResolvedById host t.site)
    (haccepted : RollbackAccepted host t (strip id))
    (hu : RolledBack host (strip id) pid now t.site u start) :
    TrackedInv host (t.record host (strip id) u (.rollback id)) := by
  have hstatus : (rolledBackRow host (strip id) start now).status = .installed :=
    (installedRow_eq_some.mp hu.checked.row).2
  obtain ⟨haccept, hown⟩ := haccepted start (by rw [hu.starts]; rfl)
  refine ⟨hu.fitting, ?_, ?_⟩
  · show (u.rows.map Prod.fst).Nodup
    rw [hu.rows]
    exact Dict.nodup_set h.nodup _ _
  · intro other otherRow hinstalled hmet
    show RequirementsMet host u other
    by_cases hne : other = strip id
    · subst hne
      have hbefore : t.metBefore (strip id) = true := by simpa [Tracked.record] using hmet
      intro requirement hrequirement
      unfold Site.requirementsOf at hrequirement
      rw [hu.active] at hrequirement
      have hmet := hown hbefore requirement hrequirement
      rw [checkRequirement_eq_ok] at hmet ⊢
      obtain ⟨hid, version, hversion, haccepts⟩ := hmet
      refine ⟨hid, version, get?_availablePackageVersions ?_, haccepts⟩
      rw [Dict.get?_set] at hversion
      by_cases hself : strip id = strip requirement.packageId
      · rw [if_pos hself] at hversion
        rw [← hself, get?_packageVersions_self h.nodup hu.rows hstatus]
        exact hversion
      · rw [if_neg hself] at hversion
        rw [get?_packageVersions_set h.nodup hu.rows (Ne.symm hself)]
        exact hversion
    · have hmet' : t.met other = true := by simpa [Tracked.record, hne] using hmet
      exact h.others hresolved hu.toFramed hu.rows
        (DependentsAccept.version h hu.rows hstatus fun _ => haccept) hne hinstalled hmet'

/-- A package that another installed one requires is not removed. -/
theorem not_required_of_assertNoDependents {other : String} {otherRow : InstallRow} {entry : Entry}
    {requirement : PackageRequirement} (h : assertNoDependents host packageId s = .ok ())
    (hinstalled : installedRow other s.rows = some otherRow) (hne : other ≠ packageId)
    (hentry : entry ∈ s.modules host) (hlooked : entry.connectorId ≠ packageId)
    (hrequirement : requirement ∈ iterRequirements entry.manifest) :
    strip requirement.packageId ≠ packageId := by
  obtain ⟨hmem, hstatus⟩ := mem_of_installedRow hinstalled
  unfold assertNoDependents at h
  rw [if_neg] at h
  · have heach := eachOk_eq_ok.mp h entry hentry
    rw [if_neg hlooked] at heach
    exact reject_eq_ok (eachOk_eq_ok.mp heach requirement hrequirement)
  · intro hall
    have := List.all_eq_true.mp hall _ hmem
    simp [hne, hstatus] at this

theorem TrackedInv.uninstall {t : Tracked} {id : String} {streams : List StreamRow} {now : ℤ}
    {start : UninstallStart} (h : TrackedInv host t) (hresolved : ResolvedById host t.site)
    (hloaded : DependentsLoaded host t.site (fun entry => entry.connectorId ≠ strip id) (strip id))
    (hu : Uninstalled host (strip id) pid now t.site u start) :
    TrackedInv host (t.record host (strip id) u (.uninstall id streams)) where
  fitting := hu.fitting
  nodup := by
    show (u.rows.map Prod.fst).Nodup
    rw [hu.rows]
    exact Dict.nodup_set h.nodup _ _
  stillMet := by
    intro other otherRow hinstalled hmet
    show RequirementsMet host u other
    by_cases hne : other = strip id
    · subst hne
      have hremoved : installedRow (strip id) u.rows = none := by
        rw [hu.rows, installedRow_set, if_pos rfl]
        rfl
      have hcontra : installedRow (strip id) u.rows = some otherRow := hinstalled
      rw [hremoved] at hcontra
      cases hcontra
    · refine h.others hresolved hu.toFramed hu.rows ?_ hne hinstalled hmet
      intro dependent dependentRow hdependent hdependentne requirement hrequirement hnames _
      obtain ⟨hmem, hstatus⟩ := mem_of_installedRow hdependent
      obtain ⟨entry, hentry, hlooked, hsame⟩ :=
        hloaded _ hmem hstatus hdependentne ⟨requirement, hrequirement, hnames⟩
      exact absurd hnames (not_required_of_assertNoDependents hu.checked.dependents hdependent
        hdependentne hentry (by simpa using hlooked) (hsame ▸ hrequirement))

theorem inv_trackedStep {t : Tracked} {call : Call} (h : TrackedInv host t)
    (hguarded : Guarded host t call) : TrackedInv host (trackedStep host t call) := by
  obtain ⟨operation, pid, now, faults⟩ := call
  obtain ⟨hsucceeds, hresolved, haccepted⟩ := hguarded
  obtain ⟨row, u, hrun⟩ := perform_of_succeeds hsucceeds
  unfold trackedStep
  rw [hrun]
  cases operation with
  | install archive =>
    obtain ⟨tree, hu⟩ := (ends_of_ok hrun).mp (install_ends archive pid now faults h.fitting)
    simp only [subject_install hu.checked.staged]
    exact h.install hresolved haccepted hu
  | upgrade id archive =>
    obtain ⟨start, hu⟩ := (ends_of_ok hrun).mp (upgrade_ends id archive pid now faults h.fitting)
    exact h.upgrade hresolved haccepted hu
  | rollback id =>
    obtain ⟨start, hu⟩ := (ends_of_ok hrun).mp (rollback_ends id pid now faults h.fitting)
    exact h.rollback hresolved haccepted hu
  | uninstall id streams =>
    obtain ⟨start, hu⟩ := (ends_of_ok hrun).mp (uninstall_ends id streams pid now faults h.fitting)
    exact h.uninstall hresolved haccepted hu

theorem trackedInv_initial (host : Host) : TrackedInv host (Tracked.initial host) where
  fitting := by
    intro path dir hdir
    cases hdir
  nodup := List.nodup_nil
  stillMet := by
    intro packageId row hrow
    cases hrow

/-- In every run of requests that return, each accepted by the packages that require what it
changes, the requirements that were met at first stay met. -/
theorem stillMet_run (host : Host) (calls : List Call)
    (h : Steps.Along (trackedStep host) (Guarded host) (Tracked.initial host) calls) :
    StillMet host (Steps.run (trackedStep host) (Tracked.initial host) calls) := by
  have hinv := Steps.run_invariant (fun _ _ h hcall => inv_trackedStep h hcall)
    (trackedInv_initial host) h
  exact hinv.stillMet

/-! ### Runs -/

def requiringArchive (id version digest : String) (requirement : PackageRequirement) : Archive where
  digest := digest
  contents := .ok ({
    id := id, version := version, packageId := some id, packVersion := some version
    packageKind := some .streamExtension, requires := .one requirement }, [])

/-- The extension accepts every version its base has while it is installed. -/
def acceptedRun : List Call := [
  { operation := .install (plainArchive "base" "1.0.0" "a") },
  { operation := .install (requiringArchive "ext" "0.1.0" "b" ⟨"base", some ">=1.0.0 <2.0.0"⟩) },
  { operation := .upgrade "base" (plainArchive "base" "1.5.0" "c") },
  { operation := .rollback "base" }]

theorem acceptedRun_stillMet :
    (Steps.run (trackedStep plainHost) (Tracked.initial plainHost) acceptedRun).met "ext" = true ∧
      StillMet plainHost (Steps.run (trackedStep plainHost) (Tracked.initial plainHost)
        acceptedRun) :=
  ⟨by decide +kernel, stillMet_run plainHost acceptedRun (by decide +kernel)⟩

/-- The extension is installed after the upgrade it requires, which is then rolled back. -/
def strandedRun : List Call := [
  { operation := .install (plainArchive "base" "1.0.0" "a") },
  { operation := .upgrade "base" (plainArchive "base" "2.0.0" "b") },
  { operation := .install (requiringArchive "ext" "0.1.0" "c" ⟨"base", some ">=2.0.0"⟩) },
  { operation := .rollback "base" }]

/-- Every request returns, and the rollback leaves the extension without what it requires. -/
theorem strandedRun_not_met :
    Steps.Along (trackedStep plainHost) (fun t call => succeeds plainHost t.site call = true)
        (Tracked.initial plainHost) strandedRun ∧
      ¬ StillMet plainHost (Steps.run (trackedStep plainHost) (Tracked.initial plainHost)
        strandedRun) := by
  refine ⟨by decide +kernel, ?_⟩
  intro h
  have hrow : installedRow "ext"
      (Steps.run (trackedStep plainHost) (Tracked.initial plainHost) strandedRun).site.rows = some {
        packageKind := .streamExtension, packVersion := "0.1.0", digest := "c"
        installedPath := "/plugins/ext", installedAt := 0, updatedAt := 0 } := by rfl
  have hmet := h "ext" _ hrow (by rfl)
  revert hmet
  decide +kernel

end Connectors
