import DataRelay.Connectors.Lifecycle
import DataRelay.Connectors.PublishFrame

/-! What each lifecycle operation does to the stored row and the files of its package: all of it,
or nothing, unless a row that was committed cannot be refreshed or a removal stops half way. -/
namespace Connectors
open PyText Outcomes Runner

variable {host : Host}

/-- The package an operation is about. -/
def Operation.subject : Operation → String
  | .install archive =>
    match stageArchive archive with
    | .ok tree => tree.packageId
    | .error _ => ""
  | .upgrade id _ => strip id
  | .rollback id => strip id
  | .uninstall id _ => strip id

/-- The row and the active directory are as before; only the generation of the installed version
may have been written. -/
structure Unchanged (packageId : String) (pid : ℕ) (s t : Site) : Prop
    extends Framed packageId pid s t where
  rows : t.rows = s.rows
  active : Dict.get? (.active packageId) t.files = Dict.get? (.active packageId) s.files
  generations : ∀ row, installedRow packageId s.rows = some row →
    ∀ version, version ≠ safeVersion row.packVersion →
      Dict.get? (.generation packageId version) t.files =
        Dict.get? (.generation packageId version) s.files

theorem Unchanged.refl {packageId : String} {pid : ℕ} {s : Site} (hs : Fitting s) :
    Unchanged packageId pid s s where
  toFramed := Framed.refl hs
  rows := rfl
  active := rfl
  generations _ _ _ _ := rfl

/-- A publish that puts back the active directory changes nothing. -/
theorem Published.unchanged {packageId : String} {pid : ℕ} {s t : Site}
    (h : Published packageId pid s t)
    (hactive : Dict.get? (.active packageId) t.files = Dict.get? (.active packageId) s.files) :
    Unchanged packageId pid s t where
  toFramed := h.toFramed
  rows := h.rows
  active := hactive
  generations _ _ version _ := h.generations version

/-- The row is committed and cannot be refreshed. -/
def Faults.LateRefresh (faults : Faults) : Prop := faults.commit = none ∧ faults.refresh ≠ none

instance (faults : Faults) : Decidable faults.LateRefresh := inferInstanceAs (Decidable (_ ∧ _))

/-! ### Rules for the pieces of an operation -/

section rules

variable {α : Type} {s : Site} {Q : α → Site → Prop} {E : Site → Prop}

theorem asLifecycle_ends {code : ErrorCode} {what : String} {x : Op α}
    (h : Ends x s Q fun _ t => E t) : Ends (asLifecycle code what x) s Q fun _ t => E t := by
  refine Ends.tryCatch h ?_
  intro e t ht
  cases e with
  | lifecycle e => exact ends_throw.mpr ht
  | os text => exact ends_throw.mpr ht
  | other text => exact ends_throw.mpr ht

theorem failing_ends {text : Option String} {Q : PUnit → Site → Prop}
    (hok : text = none → Q ⟨⟩ s) (herror : text ≠ none → E s) :
    Ends (failing text) s Q fun _ t => E t := by
  unfold Ends
  cases text with
  | none => exact hok rfl
  | some text => exact herror (by simp)

theorem compensated_ends {x : Op α} {undo : Op PUnit} {P : Site → Prop}
    (h : Ends x s Q fun _ t => P t)
    (hundo : ∀ t, P t → Ends undo t (fun _ u => E u) fun _ u => E u) :
    Ends (compensated x undo) s Q fun _ t => E t := by
  refine Ends.tryCatch h ?_
  intro e t ht
  exact Ends.bind (hundo t ht) fun _ _ hu => ends_throw.mpr hu

theorem logged_ends {x : Op PUnit} {Q : PUnit → Site → Prop}
    (h : Ends x s Q fun _ t => Q ⟨⟩ t) : Ends (logged x) s Q fun _ t => E t :=
  Ends.tryCatch h fun _ _ ht => ends_pure.mpr ht

/-- The row is stored, or it is not; it is stored although an error is raised only when the
refresh fails. -/
theorem storeRow_ends (packageId : String) (row : InstallRow) (faults : Faults) (s : Site) :
    Ends (storeRow packageId row faults) s
      (fun _ t => t = { s with rows := Dict.set packageId row s.rows })
      (fun _ t => t = s ∨ faults.LateRefresh ∧
        t = { s with rows := Dict.set packageId row s.rows }) := by
  unfold storeRow commit
  rw [ends_bind, ends_bind]
  refine failing_ends ?_ fun _ => .inl rfl
  intro hcommit
  rw [ends_modify]
  exact failing_ends (fun _ => rfl) fun hrefresh => .inr ⟨⟨hcommit, hrefresh⟩, rfl⟩

/-- An operation ends with the reload of the registry, which sees rows and files only. -/
theorem reload_ends {fails : Option String} {a : α}
    (hok : Q a { s with registry := s.modules host }) (herror : E s) :
    Ends (reload host fails >>= fun _ => pure a) s Q fun _ t => E t := by
  unfold reload
  rw [ends_bind, ends_bind]
  refine failing_ends ?_ fun _ => herror
  intro _
  rw [ends_modify, ends_pure]
  exact hok

end rules

theorem Framed.of_files {packageId : String} {pid : ℕ} {s t u : Site}
    (h : Framed packageId pid s t) (hfiles : u.files = t.files) : Framed packageId pid s u where
  others q hq := by rw [hfiles]; exact h.others q hq
  work name hname tree htree := h.work name hname tree (hfiles ▸ htree)
  fitting path dir hdir := h.fitting path dir (hfiles ▸ hdir)

/-! ### What the checks establish -/

theorem subject_install {archive : Archive} {tree : PackageTree}
    (h : stageArchive archive = .ok tree) : (Operation.install archive).subject = tree.packageId := by
  simp only [Operation.subject, h]

theorem strip_packageId (tree : PackageTree) : strip tree.packageId = tree.packageId := by
  unfold PackageTree.packageId
  rw [strip_strip]

/-- An id whose directory was looked up is a directory's name. -/
theorem activeDir_eq_ok {packageId : String} {s : Site} {dir : Option Dir}
    (hstrip : strip packageId = packageId) (h : activeDir host packageId s = .ok dir) :
    activePackagePath host.repr packageId = .ok packageId ∧
      Dict.get? (.active packageId) s.files = dir := by
  obtain ⟨name, hname, hdir⟩ := Raising.map_eq_ok h
  have hsame : name = packageId := (activePackagePath_eq_ok hname).trans hstrip
  rw [hsame] at hname hdir
  exact ⟨hname, hdir⟩

structure InstallChecked (host : Host) (archive : Archive) (s : Site) (tree : PackageTree) : Prop where
  staged : stageArchive archive = .ok tree
  notInstalled : installedRow tree.packageId s.rows = none
  path : activePackagePath host.repr tree.packageId = .ok tree.packageId
  absent : Dict.get? (.active tree.packageId) s.files = none

theorem installChecks_eq_ok {archive : Archive} {s : Site} {tree : PackageTree}
    (h : installChecks host archive s = .ok tree) : InstallChecked host archive s tree := by
  unfold installChecks at h
  obtain ⟨staged, hstaged, h⟩ := Raising.bind_eq_ok h
  obtain ⟨u, hcollision, h⟩ := Raising.bind_eq_ok h
  obtain ⟨u, -, h⟩ := Raising.bind_eq_ok h
  obtain rfl := Except.ok.inj h
  unfold assertNoInstallCollision at hcollision
  obtain ⟨u, -, hcollision⟩ := Raising.bind_eq_ok hcollision
  obtain ⟨u, hrow, hcollision⟩ := Raising.bind_eq_ok hcollision
  obtain ⟨active, hactive, hcollision⟩ := Raising.bind_eq_ok hcollision
  obtain ⟨u, hpresent, -⟩ := Raising.bind_eq_ok hcollision
  obtain ⟨hpath, hdir⟩ := activeDir_eq_ok (strip_packageId staged) hactive
  have hnone : active = none := by
    by_contra hne
    exact reject_eq_ok hpresent (.inl hne)
  exact ⟨hstaged, by simpa using reject_eq_ok hrow, hpath, hdir.trans hnone⟩

theorem requireInstalled_eq_ok {packageId : String} {s : Site} {row : InstallRow}
    (h : requireInstalled packageId s = .ok row) : installedRow packageId s.rows = some row := by
  unfold requireInstalled at h
  cases hrow : installedRow packageId s.rows with
  | none =>
    rw [hrow] at h
    cases h
  | some other =>
    rw [hrow] at h
    rw [Except.ok.inj h]

theorem requireFiles_eq_ok {packageId : String} {s : Site} {dir : Dir}
    (hstrip : strip packageId = packageId) (h : requireFiles host packageId s = .ok dir) :
    activePackagePath host.repr packageId = .ok packageId ∧
      Dict.get? (.active packageId) s.files = some dir := by
  unfold requireFiles at h
  obtain ⟨active, hactive, h⟩ := Raising.bind_eq_ok h
  obtain ⟨hpath, hdir⟩ := activeDir_eq_ok hstrip hactive
  cases active with
  | none => cases h
  | some other =>
    obtain rfl := Except.ok.inj h
    exact ⟨hpath, hdir⟩

structure UpgradeChecked (host : Host) (packageId : String) (archive : Archive) (s : Site)
    (start : UpgradeStart) : Prop where
  row : installedRow packageId s.rows = some start.row
  staged : stageArchive archive = .ok start.tree
  sameId : start.tree.packageId = packageId
  dependents : assertDependentsAcceptCandidate host packageId start.tree.packVersion
    (s.modules host) = .ok ()
  path : activePackagePath host.repr packageId = .ok packageId
  current : Dict.get? (.active packageId) s.files = some start.current

theorem upgradeChecks_eq_ok {packageId : String} {archive : Archive} {s : Site}
    {start : UpgradeStart} (hstrip : strip packageId = packageId)
    (h : upgradeChecks host packageId archive s = .ok start) :
    UpgradeChecked host packageId archive s start := by
  unfold upgradeChecks at h
  obtain ⟨row, hrow, h⟩ := Raising.bind_eq_ok h
  obtain ⟨tree, htree, h⟩ := Raising.bind_eq_ok h
  obtain ⟨u, hid, h⟩ := Raising.bind_eq_ok h
  obtain ⟨u, -, h⟩ := Raising.bind_eq_ok h
  obtain ⟨u, -, h⟩ := Raising.bind_eq_ok h
  obtain ⟨u, hdependents, h⟩ := Raising.bind_eq_ok h
  obtain ⟨u, -, h⟩ := Raising.bind_eq_ok h
  obtain ⟨current, hcurrent, h⟩ := Raising.bind_eq_ok h
  obtain rfl := Except.ok.inj h
  obtain ⟨hpath, hdir⟩ := requireFiles_eq_ok hstrip hcurrent
  exact ⟨requireInstalled_eq_ok hrow, htree, by simpa using reject_eq_ok hid, hdependents, hpath,
    hdir⟩

theorem nonempty_eq_some {text : Option String} {value : String} (h : nonempty text = some value) :
    text = some value := by
  unfold nonempty at h
  exact (Option.filter_eq_some_iff.mp h).1

structure RollbackChecked (host : Host) (packageId : String) (s : Site) (start : RollbackStart) :
    Prop where
  row : installedRow packageId s.rows = some start.row
  previousVersion : start.row.previousVersion = some start.previousVersion
  previousDigest : start.row.previousDigest = some start.previousDigest
  path : activePackagePath host.repr packageId = .ok packageId
  current : Dict.get? (.active packageId) s.files = some start.current

theorem rollbackChecks_eq_ok {packageId : String} {s : Site} {start : RollbackStart}
    (hstrip : strip packageId = packageId) (h : rollbackChecks host packageId s = .ok start) :
    RollbackChecked host packageId s start := by
  unfold rollbackChecks at h
  obtain ⟨row, hrow, h⟩ := Raising.bind_eq_ok h
  obtain ⟨previous, hprevious, h⟩ := Raising.bind_eq_ok h
  obtain ⟨current, hcurrent, h⟩ := Raising.bind_eq_ok h
  obtain rfl := Except.ok.inj h
  obtain ⟨hpath, hdir⟩ := requireFiles_eq_ok hstrip hcurrent
  unfold previousGeneration at hprevious
  cases hversion : nonempty row.previousVersion with
  | none =>
    rw [hversion] at hprevious
    cases hprevious
  | some version =>
    cases hdigest : nonempty row.previousDigest with
    | none =>
      rw [hversion, hdigest] at hprevious
      cases hprevious
    | some digest =>
      rw [hversion, hdigest] at hprevious
      obtain rfl := Except.ok.inj hprevious
      exact ⟨requireInstalled_eq_ok hrow, nonempty_eq_some hversion, nonempty_eq_some hdigest,
        hpath, hdir⟩

structure UninstallChecked (host : Host) (packageId : String) (s : Site) (start : UninstallStart) :
    Prop where
  row : installedRow packageId s.rows = some start.row
  dependents : assertNoDependents host packageId s = .ok ()
  path : activePackagePath host.repr packageId = .ok packageId
  current : Dict.get? (.active packageId) s.files = start.current

theorem uninstallChecks_eq_ok {packageId : String} {streams : List StreamRow} {s : Site}
    {start : UninstallStart} (hstrip : strip packageId = packageId)
    (h : uninstallChecks host packageId streams s = .ok start) :
    UninstallChecked host packageId s start := by
  unfold uninstallChecks at h
  obtain ⟨u, -, h⟩ := Raising.bind_eq_ok h
  obtain ⟨row, hrow, h⟩ := Raising.bind_eq_ok h
  obtain ⟨u, -, h⟩ := Raising.bind_eq_ok h
  obtain ⟨u, hdependents, h⟩ := Raising.bind_eq_ok h
  obtain ⟨current, hcurrent, h⟩ := Raising.bind_eq_ok h
  obtain rfl := Except.ok.inj h
  obtain ⟨hpath, hdir⟩ := activeDir_eq_ok hstrip hcurrent
  exact ⟨requireInstalled_eq_ok hrow, hdependents, hpath, hdir⟩

/-! ### Install -/

structure Installed (host : Host) (archive : Archive) (pid : ℕ) (now : ℤ) (s t : Site)
    (tree : PackageTree) : Prop extends Framed tree.packageId pid s t where
  checked : InstallChecked host archive s tree
  rows : t.rows = Dict.set tree.packageId (installedRowOf host tree now) s.rows
  active : Dict.get? (.active tree.packageId) t.files = some (.whole tree)

theorem install_ends (archive : Archive) (pid : ℕ) (now : ℤ) (faults : Faults) {s : Site}
    (hs : Fitting s) :
    Ends (installPackage host archive pid now faults) s
      (fun _ t => ∃ tree, Installed host archive pid now s t tree)
      (fun _ t => ¬ faults.LateRefresh →
        Unchanged (Operation.install archive).subject pid s t ∨
          ∃ tree, Installed host archive pid now s t tree) := by
  unfold installPackage
  refine asLifecycle_ends ?_
  rw [ends_bind]
  refine failing_ends ?_ fun _ _ => .inl (Unchanged.refl hs)
  intro _
  rw [ends_bind]
  refine check_ends ?_ fun _ => .inl (Unchanged.refl hs)
  intro tree hcheck
  have hchecked := installChecks_eq_ok hcheck
  rw [subject_install hchecked.staged]
  have hfits : Fits tree.packageId (.whole tree) := by
    rintro other hother
    rw [Dir.whole.inj hother]
  rw [ends_bind]
  refine (atomicPublishPackage_ends hchecked.path hfits faults.publish hs).mono ?_ ?_
  rotate_left
  · rintro e t ⟨ht, hactive, -⟩ -
    exact .inl (ht.unchanged hactive)
  rintro _ t ⟨ht, hactive⟩
  have hdone : ∀ u : Site, u.rows = Dict.set tree.packageId (installedRowOf host tree now) t.rows →
      u.files = t.files → Installed host archive pid now s u tree := by
    intro u hrows hfiles
    rw [ht.rows] at hrows
    refine ⟨ht.toFramed.of_files hfiles, hchecked, hrows, ?_⟩
    rw [hfiles]
    exact hactive
  refine Ends.bind (P := fun _ u => u = { t with
    rows := Dict.set tree.packageId (installedRowOf host tree now) t.rows }) ?_ ?_
  · refine compensated_ends (P := fun u => u.files = t.files ∧
      (u.rows = t.rows ∨ faults.LateRefresh)) ?_ ?_
    · rw [ends_bind]
      refine failing_ends ?_ fun _ => ⟨rfl, .inl rfl⟩
      intro _
      refine (storeRow_ends _ _ faults t).mono (fun _ _ h => h) ?_
      rintro e u (rfl | ⟨hlate, rfl⟩)
      · exact ⟨rfl, .inl rfl⟩
      · exact ⟨rfl, .inr hlate⟩
    · rintro u ⟨hfiles, hu⟩
      have hfit : Fitting u := (ht.toFramed.of_files hfiles).fitting
      refine (removeActivePackage_ends pid hchecked.path none hfit).mono ?_ ?_
      · rintro _ w ⟨hw, hnone⟩ hlate
        have hsw := ht.trans (hw.of_same hfiles (hu.resolve_right hlate))
        exact .inl (hsw.unchanged (hnone.trans hchecked.absent.symm))
      · rintro e w ⟨-, hcut⟩
        exact absurd rfl hcut
  rintro _ u rfl
  exact reload_ends ⟨tree, hdone _ rfl rfl⟩ fun _ => .inr ⟨tree, hdone _ rfl rfl⟩

/-! ### Upgrade -/

/-- What preserving the installed version and then putting back the active directory leaves. -/
theorem Unchanged.of_preserved {packageId : String} {pid : ℕ} {s t u : Site} {row : InstallRow}
    (hframe : Framed packageId pid s t)
    (hOnly : Only (.generation packageId (safeVersion row.packVersion)) s t)
    (hrow : installedRow packageId s.rows = some row) (hu : Published packageId pid t u)
    (hactive : Dict.get? (.active packageId) u.files = Dict.get? (.active packageId) s.files) :
    Unchanged packageId pid s u where
  toFramed := hframe.trans hu.toFramed
  rows := hu.rows.trans hOnly.rows
  active := hactive
  generations other hother version hversion := by
    rw [hrow] at hother
    obtain rfl := Option.some.inj hother
    rw [hu.generations version]
    refine hOnly.files _ ?_
    simpa using hversion

/-- A compensation after a commit: where nothing was stored, the preserved directory is put back. -/
theorem restored_of_not_stored {packageId : String} {pid : ℕ} {s t u w : Site} {row : InstallRow}
    {path : Path} {dir : Dir} (faults : Faults) (hframe : Framed packageId pid s t)
    (hOnly : Only (.generation packageId (safeVersion row.packVersion)) s t)
    (hrow : installedRow packageId s.rows = some row)
    (hpath : activePackagePath host.repr packageId = .ok packageId)
    (hgeneration : generationPath host.repr packageId row.packVersion = .ok path)
    (hkept : Dict.get? (.generation packageId (safeVersion row.packVersion)) t.files = some dir)
    (hactive : Dict.get? (.active packageId) s.files = some dir) (hu : Published packageId pid t u)
    (hfiles : w.files = u.files) (hw : w.rows = u.rows ∨ faults.LateRefresh) {P : Site → Prop}
    (hP : ∀ v, (¬ faults.LateRefresh → Unchanged packageId pid s v) → P v) :
    Ends (restoreGeneration host.repr packageId row.packVersion pid {}) w
      (fun _ v => P v) fun _ v => P v := by
  have hfit : Fitting w := (hu.toFramed.of_files hfiles).fitting
  have hfound : Dict.get? (.generation packageId (safeVersion row.packVersion)) w.files =
      some dir := by
    rw [hfiles, hu.generations, hkept]
  refine (restore_compensates hpath hfit hgeneration hfound _).mono ?_ fun _ _ h => h
  rintro _ v ⟨hv, hput⟩
  refine hP v ?_
  intro hlate
  exact Unchanged.of_preserved hframe hOnly hrow
    (hu.trans (hv.of_same hfiles (hw.resolve_right hlate))) (hput.trans hactive.symm)

structure Upgraded (host : Host) (packageId : String) (archive : Archive) (pid : ℕ) (now : ℤ)
    (s t : Site) (start : UpgradeStart) : Prop extends Framed packageId pid s t where
  checked : UpgradeChecked host packageId archive s start
  rows : t.rows = Dict.set packageId (upgradedRow host packageId start.row start.tree now) s.rows
  active : Dict.get? (.active packageId) t.files = some (.whole start.tree)
  kept : Dict.get? (.generation packageId (safeVersion start.row.packVersion)) t.files =
    some start.current

theorem upgrade_ends (id : String) (archive : Archive) (pid : ℕ) (now : ℤ) (faults : Faults)
    {s : Site} (hs : Fitting s) :
    Ends (upgradePackage host id archive pid now faults) s
      (fun _ t => ∃ start, Upgraded host (strip id) archive pid now s t start)
      (fun _ t => ¬ faults.LateRefresh → Unchanged (strip id) pid s t ∨
        ∃ start, Upgraded host (strip id) archive pid now s t start) := by
  have hstrip : strip (strip id) = strip id := strip_strip id
  unfold upgradePackage
  refine asLifecycle_ends ?_
  generalize strip id = packageId at hstrip ⊢
  rw [ends_bind]
  refine failing_ends ?_ fun _ _ => .inl (Unchanged.refl hs)
  intro _
  rw [ends_bind]
  refine check_ends ?_ fun _ => .inl (Unchanged.refl hs)
  intro start hcheck
  have hchecked := upgradeChecks_eq_ok hstrip hcheck
  have hcurrent : Fits packageId start.current := hs _ _ hchecked.current
  refine Ends.bind ((preserveGeneration_ends pid hstrip hcurrent faults.preserve hs).mono
    (fun _ _ h => h) ?_) ?_
  · rintro e t ⟨hframe, hOnly⟩ -
    exact .inl (.of_preserved hframe hOnly hchecked.row (Published.refl hframe.fitting)
      (hOnly.files _ (by simp)))
  rintro _ t ⟨hframe, hOnly, hgeneration, hkept⟩
  have hactiveT : Dict.get? (.active packageId) t.files = Dict.get? (.active packageId) s.files :=
    hOnly.files _ (by simp)
  have hfits : Fits packageId (.whole start.tree) := by
    rintro tree htree
    rw [← Dir.whole.inj htree, hchecked.sameId]
  refine Ends.bind (P := fun _ u => Published packageId pid t u ∧
    Dict.get? (.active packageId) u.files = some (.whole start.tree)) ?_ ?_
  · refine compensated_ends ((atomicPublishPackage_ends hchecked.path hfits faults.publish
      hframe.fitting).mono (fun _ _ h => h) fun _ _ h => h) ?_
    rintro u ⟨hu, hactive, -⟩
    exact restored_of_not_stored faults hframe hOnly hchecked.row hchecked.path hgeneration hkept
      hchecked.current hu rfl (.inl rfl) fun v hv hlate => .inl (hv hlate)
  rintro _ u ⟨hu, hactive⟩
  have hdone : ∀ v : Site, v.rows =
      Dict.set packageId (upgradedRow host packageId start.row start.tree now) u.rows →
      v.files = u.files → Upgraded host packageId archive pid now s v start := by
    intro v hrows hfiles
    rw [hu.rows, hOnly.rows] at hrows
    refine ⟨(hframe.trans hu.toFramed).of_files hfiles, hchecked, hrows, ?_, ?_⟩
    · rw [hfiles, hactive]
    · rw [hfiles, hu.generations, hkept]
  refine Ends.bind (P := fun _ v => v = { u with
    rows := Dict.set packageId (upgradedRow host packageId start.row start.tree now) u.rows }) ?_ ?_
  · refine compensated_ends (P := fun w => w.files = u.files ∧
      (w.rows = u.rows ∨ faults.LateRefresh)) ?_ ?_
    · refine (storeRow_ends _ _ faults u).mono (fun _ _ h => h) ?_
      rintro e w (rfl | ⟨hlate, rfl⟩)
      · exact ⟨rfl, .inl rfl⟩
      · exact ⟨rfl, .inr hlate⟩
    · rintro w ⟨hfiles, hw⟩
      exact logged_ends (restored_of_not_stored faults hframe hOnly hchecked.row hchecked.path
        hgeneration hkept hchecked.current hu hfiles hw fun v hv hlate => .inl (hv hlate))
  rintro _ v rfl
  exact reload_ends ⟨start, hdone _ rfl rfl⟩ fun _ => .inr ⟨start, hdone _ rfl rfl⟩

/-! ### Rollback -/

/-- The directory a rollback restores: the previous generation, unless preserving the current
version has just overwritten it. -/
def restoredDir (packageId : String) (start : RollbackStart) (s : Site) : Option Dir :=
  if safeVersion start.previousVersion = safeVersion start.row.packVersion then some start.current
  else Dict.get? (.generation packageId (safeVersion start.previousVersion)) s.files

structure RolledBack (host : Host) (packageId : String) (pid : ℕ) (now : ℤ) (s t : Site)
    (start : RollbackStart) : Prop extends Framed packageId pid s t where
  starts : rollbackChecks host packageId s = .ok start
  checked : RollbackChecked host packageId s start
  rows : t.rows = Dict.set packageId (rolledBackRow host packageId start now) s.rows
  active : Dict.get? (.active packageId) t.files = restoredDir packageId start s
  found : restoredDir packageId start s ≠ none

theorem rollback_ends (id : String) (pid : ℕ) (now : ℤ) (faults : Faults) {s : Site}
    (hs : Fitting s) :
    Ends (rollbackPackage host id pid now faults) s
      (fun _ t => ∃ start, RolledBack host (strip id) pid now s t start)
      (fun _ t => ¬ faults.LateRefresh → Unchanged (strip id) pid s t ∨
        ∃ start, RolledBack host (strip id) pid now s t start) := by
  have hstrip : strip (strip id) = strip id := strip_strip id
  unfold rollbackPackage
  refine asLifecycle_ends ?_
  generalize strip id = packageId at hstrip ⊢
  rw [ends_bind]
  refine failing_ends ?_ fun _ _ => .inl (Unchanged.refl hs)
  intro _
  rw [ends_bind]
  refine check_ends ?_ fun _ => .inl (Unchanged.refl hs)
  intro start hcheck
  have hchecked := rollbackChecks_eq_ok hstrip hcheck
  have hcurrent : Fits packageId start.current := hs _ _ hchecked.current
  refine Ends.bind ((preserveGeneration_ends pid hstrip hcurrent faults.preserve hs).mono
    (fun _ _ h => h) ?_) ?_
  · rintro e t ⟨hframe, hOnly⟩ -
    exact .inl (.of_preserved hframe hOnly hchecked.row (Published.refl hframe.fitting)
      (hOnly.files _ (by simp)))
  rintro _ t ⟨hframe, hOnly, hgeneration, hkept⟩
  have hactiveT : Dict.get? (.active packageId) t.files = Dict.get? (.active packageId) s.files :=
    hOnly.files _ (by simp)
  have hprevious : Dict.get? (.generation packageId (safeVersion start.previousVersion)) t.files =
      restoredDir packageId start s := by
    unfold restoredDir
    split_ifs with hsame
    · rw [hsame, hkept]
    · exact hOnly.files _ (by simpa using hsame)
  refine Ends.bind ((restoreGeneration_ends hchecked.path faults.publish hframe.fitting).mono
    (fun _ _ h => h) ?_) ?_
  · rintro e u ⟨hu, hactive, -⟩ -
    exact .inl (.of_preserved hframe hOnly hchecked.row hu (hactive.trans hactiveT))
  rintro _ u ⟨hu, dir, hdir, hactive⟩
  rw [hprevious] at hdir
  have hdone : ∀ v : Site, v.rows =
      Dict.set packageId (rolledBackRow host packageId start now) u.rows →
      Framed packageId pid u v →
      Dict.get? (.active packageId) v.files = Dict.get? (.active packageId) u.files →
      RolledBack host packageId pid now s v start := by
    intro v hrows hv hsame
    rw [hu.rows, hOnly.rows] at hrows
    refine ⟨(hframe.trans hu.toFramed).trans hv, hcheck, hchecked, hrows, ?_, ?_⟩
    · rw [hsame, hactive, hdir]
    · simp [hdir]
  refine Ends.bind (P := fun _ v => v = { u with
    rows := Dict.set packageId (rolledBackRow host packageId start now) u.rows }) ?_ ?_
  · refine compensated_ends (P := fun w => w.files = u.files ∧
      (w.rows = u.rows ∨ faults.LateRefresh)) ?_ ?_
    · refine (storeRow_ends _ _ faults u).mono (fun _ _ h => h) ?_
      rintro e w (rfl | ⟨hlate, rfl⟩)
      · exact ⟨rfl, .inl rfl⟩
      · exact ⟨rfl, .inr hlate⟩
    · rintro w ⟨hfiles, hw⟩
      exact logged_ends (restored_of_not_stored faults hframe hOnly hchecked.row hchecked.path
        hgeneration hkept hchecked.current hu hfiles hw fun v hv hlate => .inl (hv hlate))
  rintro _ v rfl
  have hstored : Framed packageId pid u { u with
      rows := Dict.set packageId (rolledBackRow host packageId start now) u.rows } :=
    (Framed.refl hu.fitting).of_files rfl
  rw [ends_bind, hgeneration]
  refine (ends_of_ok rfl).mpr ?_
  refine Ends.bind (dropTree_ends _ faults.dropAbandoned _ _) ?_
  rintro _ w ⟨hOnlyW, htree⟩
  have hw : Framed packageId pid u w :=
    hstored.trans (Framed.of_only hstored.fitting hOnlyW (touched_generation _ _ _)
      fun tree h => .inl (htree tree h))
  have hsame : Dict.get? (.active packageId) w.files = Dict.get? (.active packageId) u.files :=
    hOnlyW.files _ (by simp)
  exact reload_ends ⟨start, hdone _ hOnlyW.rows (hw.of_files rfl) hsame⟩
    fun _ => .inr ⟨start, hdone _ hOnlyW.rows hw hsame⟩

/-! ### Uninstall -/

structure Uninstalled (host : Host) (packageId : String) (pid : ℕ) (now : ℤ) (s t : Site)
    (start : UninstallStart) : Prop extends Framed packageId pid s t where
  checked : UninstallChecked host packageId s start
  rows : t.rows = Dict.set packageId (removedRow start.row now) s.rows
  active : Dict.get? (.active packageId) t.files = none

/-- The active directory is preserved when it is there; once the row is committed, what follows
only removes generations and reloads. -/
theorem uninstall_ends (id : String) (streams : List StreamRow) (pid : ℕ) (now : ℤ)
    (faults : Faults) {s : Site} (hs : Fitting s) :
    Ends (uninstallPackage host id streams pid now faults) s
      (fun _ t => ∃ start, Uninstalled host (strip id) pid now s t start)
      (fun _ t => ¬ faults.LateRefresh → faults.removeActive = none →
        Unchanged (strip id) pid s t ∨
          ∃ start, Uninstalled host (strip id) pid now s t start) := by
  have hstrip : strip (strip id) = strip id := strip_strip id
  unfold uninstallPackage
  refine asLifecycle_ends ?_
  generalize strip id = packageId at hstrip ⊢
  rw [ends_bind]
  refine failing_ends ?_ fun _ _ _ => .inl (Unchanged.refl hs)
  intro _
  rw [ends_bind]
  refine check_ends ?_ fun _ _ => .inl (Unchanged.refl hs)
  intro start hcheck
  have hchecked := uninstallChecks_eq_ok hstrip hcheck
  refine Ends.bind (P := fun _ t => Framed packageId pid s t ∧
    Only (.generation packageId (safeVersion start.row.packVersion)) s t ∧
    ∀ dir, start.current = some dir →
      generationPath host.repr packageId start.row.packVersion =
        .ok (.generation packageId (safeVersion start.row.packVersion)) ∧
      Dict.get? (.generation packageId (safeVersion start.row.packVersion)) t.files = some dir) ?_ ?_
  · unfold preserveIfPresent
    cases hcurrent : start.current with
    | none => exact ends_pure.mpr ⟨Framed.refl hs, ⟨rfl, fun _ _ => rfl⟩, by simp⟩
    | some dir =>
      have hfits : Fits packageId dir := hs _ _ (hchecked.current.trans hcurrent)
      refine (preserveGeneration_ends pid hstrip hfits faults.preserve hs).mono ?_ ?_
      · rintro _ t ⟨hframe, hOnly, hgeneration, hkept⟩
        refine ⟨hframe, hOnly, ?_⟩
        intro other hother
        rw [← Option.some.inj hother]
        exact ⟨hgeneration, hkept⟩
      · rintro e t ⟨hframe, hOnly⟩ - -
        exact .inl (.of_preserved hframe hOnly hchecked.row (Published.refl hframe.fitting)
          (hOnly.files _ (by simp)))
  rintro _ t ⟨hframe, hOnly, hkept⟩
  refine Ends.bind ((removeActivePackage_ends pid hchecked.path faults.removeActive
    hframe.fitting).mono (fun _ _ h => h) ?_) ?_
  · rintro e u ⟨-, hcut⟩ - hnone
    exact absurd hnone hcut
  rintro _ u ⟨hu, hgone⟩
  have hdone : ∀ v : Site, v.rows = Dict.set packageId (removedRow start.row now) u.rows →
      Framed packageId pid u v →
      Dict.get? (.active packageId) v.files = Dict.get? (.active packageId) u.files →
      Uninstalled host packageId pid now s v start := by
    intro v hrows hv hsame
    rw [hu.rows, hOnly.rows] at hrows
    exact ⟨(hframe.trans hu.toFramed).trans hv, hchecked, hrows, hsame.trans hgone⟩
  refine Ends.bind (P := fun _ v => v = { u with
    rows := Dict.set packageId (removedRow start.row now) u.rows }) ?_ ?_
  · refine compensated_ends (P := fun w => w.files = u.files ∧
      (w.rows = u.rows ∨ faults.LateRefresh)) ?_ ?_
    · refine (storeRow_ends _ _ faults u).mono (fun _ _ h => h) ?_
      rintro e w (rfl | ⟨hlate, rfl⟩)
      · exact ⟨rfl, .inl rfl⟩
      · exact ⟨rfl, .inr hlate⟩
    · rintro w ⟨hfiles, hw⟩
      unfold restoreIfPresent
      cases hcurrent : start.current with
      | none =>
        refine ends_pure.mpr fun hlate _ => .inl ?_
        have hsame : Published packageId pid u w := by
          have hrefl : Published packageId pid w w :=
            Published.refl (hu.toFramed.of_files hfiles).fitting
          exact hrefl.of_same hfiles (hw.resolve_right hlate)
        refine .of_preserved hframe hOnly hchecked.row (hu.trans hsame) ?_
        rw [hfiles, hgone, hchecked.current, hcurrent]
      | some dir =>
        obtain ⟨hgeneration, hpreserved⟩ := hkept dir hcurrent
        exact logged_ends (restored_of_not_stored faults hframe hOnly hchecked.row hchecked.path
          hgeneration hpreserved (hchecked.current.trans hcurrent) hu hfiles hw
          fun v hv hlate _ => .inl (hv hlate))
  rintro _ v rfl
  have hstored : Framed packageId pid u { u with
      rows := Dict.set packageId (removedRow start.row now) u.rows } :=
    (Framed.refl hu.fitting).of_files rfl
  refine Ends.bind (P := fun _ w => w.rows = Dict.set packageId (removedRow start.row now) u.rows ∧
    Framed packageId pid u w ∧
    Dict.get? (.active packageId) w.files = Dict.get? (.active packageId) u.files) ?_ ?_
  · refine (removeGenerations_ends pid hstrip faults.removeGenerations hstored.fitting
      (P := fun w => w.rows = Dict.set packageId (removedRow start.row now) u.rows ∧
        Framed packageId pid u w ∧
        Dict.get? (.active packageId) w.files = Dict.get? (.active packageId) u.files) ?_).mono ?_ ?_
    · intro w hw hrows hactive
      exact ⟨hrows, hstored.trans hw, hactive⟩
    · exact fun _ w hw => hw
    · rintro e w ⟨hrows, hw, hactive⟩ - -
      exact .inr ⟨start, hdone w hrows hw hactive⟩
  rintro _ w ⟨hrows, hw, hactive⟩
  exact reload_ends ⟨start, hdone _ hrows (hw.of_files rfl) hactive⟩
    fun _ _ => .inr ⟨start, hdone _ hrows hw hactive⟩

/-- A request that returned did what its operation does. -/
theorem perform_of_succeeds {s : Site} {call : Call} (h : succeeds host s call = true) :
    ∃ row u, perform host call s = .ok row u := by
  unfold succeeds at h
  cases hrun : perform host call s with
  | ok row u => exact ⟨row, u, rfl⟩
  | error e u =>
    rw [hrun] at h
    cases h

end Connectors
