import DataRelay.Connectors.Publish

/-! What the filesystem helpers change and what they leave alone. A publish that raises leaves
the active directory as it was; outside the package's own paths only its two work directories
are touched, and what they hold is never the package they are named after. -/
namespace Connectors
open PyText Outcomes

/-! ### Names of work directories -/

theorem length_publishTmp (name : String) (pid : ℕ) : name.length < (publishTmp name pid).length := by
  unfold publishTmp
  simp only [String.length_append]
  have : ".publish_tmp_".length = 13 := rfl
  omega

theorem length_publishBak (name : String) (pid : ℕ) : name.length < (publishBak name pid).length := by
  unfold publishBak
  simp only [String.length_append]
  have : ".publish_bak_".length = 13 := rfl
  omega

theorem publishTmp_ne (name : String) (pid : ℕ) : publishTmp name pid ≠ name := by
  intro h
  have := length_publishTmp name pid
  rw [h] at this
  omega

theorem publishBak_ne (name : String) (pid : ℕ) : publishBak name pid ≠ name := by
  intro h
  have := length_publishBak name pid
  rw [h] at this
  omega

theorem publishTmp_ne_publishBak (name : String) (pid : ℕ) :
    publishTmp name pid ≠ publishBak name pid := by
  intro h
  delta publishTmp publishBak at h
  have hlist := congrArg String.toList h
  simp at hlist

/-- `name` is one of the work directories of a publish of `packageId`. -/
def IsWork (packageId : String) (pid : ℕ) (name : String) : Prop :=
  name = publishTmp packageId pid ∨ name = publishBak packageId pid

instance (packageId : String) (pid : ℕ) (name : String) : Decidable (IsWork packageId pid name) :=
  inferInstanceAs (Decidable (_ ∨ _))

theorem IsWork.length_lt {packageId name : String} {pid : ℕ} (h : IsWork packageId pid name) :
    packageId.length < name.length := by
  rcases h with rfl | rfl
  · exact length_publishTmp packageId pid
  · exact length_publishBak packageId pid

theorem IsWork.ne {packageId name : String} {pid : ℕ} (h : IsWork packageId pid name) :
    name ≠ packageId := by
  rintro rfl
  exact absurd h.length_lt (lt_irrefl _)

/-! ### Frames -/

/-- A directory of this name may hold the package: its id is not longer. -/
def Fits (name : String) (dir : Dir) : Prop :=
  ∀ tree, dir = .whole tree → tree.packageId.length ≤ name.length

def Path.owner : Path → String
  | .active name => name
  | .generation packageId _ => packageId

def Fitting (s : Site) : Prop := ∀ path dir, Dict.get? path s.files = some dir → Fits path.owner dir

theorem Fits.mono {name other : String} {dir : Dir} (h : Fits name dir)
    (hle : name.length ≤ other.length) : Fits other dir :=
  fun tree htree => (h tree htree).trans hle

/-- At most the directory at `path` is changed. -/
structure Only (path : Path) (s t : Site) : Prop where
  rows : t.rows = s.rows
  files : ∀ q, q ≠ path → Dict.get? q t.files = Dict.get? q s.files

theorem Only.trans {path : Path} {s t u : Site} (h : Only path s t) (h' : Only path t u) :
    Only path s u where
  rows := h'.rows.trans h.rows
  files q hq := (h'.files q hq).trans (h.files q hq)

theorem Only.fitting {path : Path} {s t : Site} (h : Only path s t) (hs : Fitting s)
    (hpath : ∀ dir, Dict.get? path t.files = some dir → Fits path.owner dir) : Fitting t := by
  intro q dir hq
  by_cases hne : q = path
  · subst hne
    exact hpath dir hq
  · rw [h.files q hne] at hq
    exact hs q dir hq

/-- The paths an operation on the package may change. -/
def Path.Touched (packageId : String) (pid : ℕ) (path : Path) : Prop :=
  path = .active packageId ∨ (∃ name, IsWork packageId pid name ∧ path = .active name) ∨
    ∃ version, path = .generation packageId version

/-- Other packages keep their files, and a work directory gets no package of its own name. -/
structure Framed (packageId : String) (pid : ℕ) (s t : Site) : Prop where
  others : ∀ q : Path, ¬ q.Touched packageId pid → Dict.get? q t.files = Dict.get? q s.files
  work : ∀ name, IsWork packageId pid name → ∀ tree,
    Dict.get? (.active name) t.files = some (.whole tree) →
      Dict.get? (.active name) s.files = some (.whole tree) ∨
        tree.packageId.length ≤ packageId.length
  fitting : Fitting t

theorem Framed.refl {packageId : String} {pid : ℕ} {s : Site} (hs : Fitting s) :
    Framed packageId pid s s where
  others _ _ := rfl
  work _ _ _ htree := .inl htree
  fitting := hs

theorem Framed.trans {packageId : String} {pid : ℕ} {s t u : Site} (h : Framed packageId pid s t)
    (h' : Framed packageId pid t u) : Framed packageId pid s u where
  others q hq := (h'.others q hq).trans (h.others q hq)
  work name hname tree htree := by
    rcases h'.work name hname tree htree with hsame | hlen
    · exact h.work name hname tree hsame
    · exact .inr hlen
  fitting := h'.fitting

theorem not_touched_of_ne {packageId name : String} {pid : ℕ} (hne : name ≠ packageId)
    (hwork : ¬ IsWork packageId pid name) : ¬ (Path.active name).Touched packageId pid := by
  rintro (h | ⟨other, hother, h⟩ | ⟨version, h⟩)
  · exact hne (Path.active.inj h)
  · exact hwork (Path.active.inj h ▸ hother)
  · cases h

/-- A change at one of the package's paths, to something the package may hold. -/
theorem Framed.of_only {packageId : String} {pid : ℕ} {path : Path} {s t : Site} (hs : Fitting s)
    (h : Only path s t) (hpath : path.Touched packageId pid)
    (hdir : ∀ tree, Dict.get? path t.files = some (.whole tree) →
      Dict.get? path s.files = some (.whole tree) ∨ tree.packageId.length ≤ packageId.length) :
    Framed packageId pid s t where
  others q hq := h.files q fun hqp => hq (hqp ▸ hpath)
  work name _ tree htree := by
    by_cases hne : Path.active name = path
    · rw [hne] at htree ⊢
      exact hdir tree htree
    · rw [h.files _ hne] at htree
      exact .inl htree
  fitting := by
    apply h.fitting hs
    rintro dir hdir' tree rfl
    rcases hdir tree hdir' with hsame | hlen
    · exact hs path _ hsame tree rfl
    · have howner : packageId.length ≤ path.owner.length := by
        rcases hpath with rfl | ⟨name, hname, rfl⟩ | ⟨version, rfl⟩
        · exact le_refl _
        · exact hname.length_lt.le
        · exact le_refl _
      exact hlen.trans howner

theorem touched_active (packageId : String) (pid : ℕ) :
    (Path.active packageId).Touched packageId pid := .inl rfl

theorem touched_generation (packageId version : String) (pid : ℕ) :
    (Path.generation packageId version).Touched packageId pid := .inr (.inr ⟨version, rfl⟩)

theorem touched_work {packageId name : String} {pid : ℕ} (h : IsWork packageId pid name) :
    (Path.active name).Touched packageId pid := .inr (.inl ⟨name, h, rfl⟩)

/-! ### Single steps -/

theorem Left.get?_apply_ne (left : Left) {path q : Path} (h : q ≠ path) (dir : Dir) (files : Files) :
    Dict.get? q (left.apply path dir files) = Dict.get? q files := by
  cases left <;> simp [Left.apply, h, Ne.symm h]

theorem Left.whole_of_get?_apply {left : Left} {path : Path} {dir : Dir} {files : Files}
    {tree : PackageTree} (h : Dict.get? path (left.apply path dir files) = some (.whole tree)) :
    dir = .whole tree := by
  cases left with
  | nothing => simp [Left.apply] at h
  | whole => simpa [Left.apply] using h
  | part entry => simp [Left.apply] at h

theorem copyTree_ends (src : Dir) (path : Path) (cut : Option Cut) (s : Site) :
    Ends (copyTree src path cut) s
      (fun _ t => Only path s t ∧ Dict.get? path t.files = some src)
      (fun _ t => Only path s t ∧ cut ≠ none ∧
        ∀ tree, Dict.get? path t.files = some (.whole tree) → src = .whole tree) := by
  unfold Ends
  cases cut with
  | none => exact ⟨⟨rfl, fun q hq => by simp [Ne.symm hq]⟩, by simp⟩
  | some cut =>
    exact ⟨⟨rfl, fun q hq => cut.left.get?_apply_ne hq src s.files⟩, by simp,
      fun tree htree => Left.whole_of_get?_apply htree⟩

theorem removeTree_ends (path : Path) (cut : Option Cut) (s : Site) :
    Ends (removeTree path cut) s
      (fun _ t => Only path s t ∧ Dict.get? path t.files = none)
      (fun _ t => Only path s t ∧ cut ≠ none ∧ Dict.get? path s.files ≠ none ∧
        ∀ tree, Dict.get? path t.files = some (.whole tree) →
          Dict.get? path s.files = some (.whole tree)) := by
  unfold Ends removeTree
  cases hget : Dict.get? path s.files with
  | none => exact ⟨⟨rfl, fun _ _ => rfl⟩, hget⟩
  | some dir =>
    cases cut with
    | none => exact ⟨⟨rfl, fun q hq => by simp [hq]⟩, by simp⟩
    | some cut =>
      refine ⟨⟨rfl, fun q hq => cut.left.get?_apply_ne hq dir s.files⟩, by simp, by simp, ?_⟩
      intro tree htree
      rw [Left.whole_of_get?_apply htree]

/-- A removal that ignores its errors always returns. -/
theorem dropTree_ends (path : Path) (cut : Option Cut) (s : Site) (E : Raised → Site → Prop) :
    Ends (dropTree path cut) s
      (fun _ t => Only path s t ∧ ∀ tree, Dict.get? path t.files = some (.whole tree) →
        Dict.get? path s.files = some (.whole tree)) E := by
  refine Ends.tryCatch ((removeTree_ends path cut s).mono ?_ fun _ _ h => h) ?_
  · rintro _ t ⟨hOnly, hnone⟩
    refine ⟨hOnly, ?_⟩
    intro tree htree
    rw [hnone] at htree
    cases htree
  · rintro _ t ⟨hOnly, -, -, htree⟩
    exact ends_pure.mpr ⟨hOnly, htree⟩

/-- A rename empties its source and fills its destination, or does nothing. -/
theorem moveTree_ends {src dest : Path} (hne : src ≠ dest) (fails : Option String) (s : Site) :
    Ends (moveTree src dest fails) s
      (fun _ t => t.rows = s.rows ∧ Dict.get? src t.files = none ∧
        Dict.get? src s.files ≠ none ∧ Dict.get? dest t.files = Dict.get? src s.files ∧
        ∀ q, q ≠ src → q ≠ dest → Dict.get? q t.files = Dict.get? q s.files)
      (fun _ t => t = s ∧ (fails ≠ none ∨ Dict.get? src s.files = none)) := by
  unfold Ends moveTree
  cases hget : Dict.get? src s.files with
  | none =>
    cases fails with
    | none => exact ⟨rfl, .inr rfl⟩
    | some text => exact ⟨rfl, .inl (by simp)⟩
  | some dir =>
    cases fails with
    | none =>
      refine ⟨rfl, by simp [Ne.symm hne], by simp, by simp, ?_⟩
      intro q hsrc hdest
      simp [hsrc, Ne.symm hdest]
    | some text => exact ⟨rfl, .inl (by simp)⟩

theorem raiseLifecycle_ends {α : Type} {x : Except LifecycleError α} {s : Site}
    {Q : α → Site → Prop} {E : Site → Prop} (hok : ∀ a, x = .ok a → Q a s) (herror : E s) :
    Ends (raiseLifecycle x) s Q fun _ t => E t := by
  unfold Ends raiseLifecycle
  cases x with
  | ok a => exact hok a rfl
  | error e => exact herror

theorem check_ends {α : Type} {x : Site → Except LifecycleError α} {s : Site}
    {Q : α → Site → Prop} {E : Site → Prop} (hok : ∀ a, x s = .ok a → Q a s) (herror : E s) :
    Ends (check x) s Q fun _ t => E t := by
  have h := raiseLifecycle_ends hok herror
  unfold Ends at h ⊢
  exact h

/-! ### Publishing -/

/-- A frame that leaves the rows and the package's generations alone. -/
structure Published (packageId : String) (pid : ℕ) (s t : Site) : Prop
    extends Framed packageId pid s t where
  rows : t.rows = s.rows
  generations : ∀ version, Dict.get? (.generation packageId version) t.files =
    Dict.get? (.generation packageId version) s.files

theorem Published.refl {packageId : String} {pid : ℕ} {s : Site} (hs : Fitting s) :
    Published packageId pid s s where
  toFramed := Framed.refl hs
  rows := rfl
  generations _ := rfl

theorem Published.trans {packageId : String} {pid : ℕ} {s t u : Site}
    (h : Published packageId pid s t) (h' : Published packageId pid t u) :
    Published packageId pid s u where
  toFramed := h.toFramed.trans h'.toFramed
  rows := h'.rows.trans h.rows
  generations version := (h'.generations version).trans (h.generations version)

/-- A publish sees the files and the rows only. -/
theorem Published.of_same {packageId : String} {pid : ℕ} {s t u : Site}
    (h : Published packageId pid t u) (hfiles : t.files = s.files) (hrows : t.rows = s.rows) :
    Published packageId pid s u where
  others q hq := by rw [← hfiles]; exact h.others q hq
  work name hname tree htree := hfiles ▸ h.work name hname tree htree
  fitting := h.fitting
  rows := h.rows.trans hrows
  generations version := by rw [← hfiles]; exact h.generations version

/-- The directories a publish works on: the package's own and its two work directories. -/
def IsPlace (packageId : String) (pid : ℕ) (name : String) : Prop :=
  name = packageId ∨ IsWork packageId pid name

theorem IsPlace.touched {packageId name : String} {pid : ℕ} (h : IsPlace packageId pid name) :
    (Path.active name).Touched packageId pid := by
  rcases h with rfl | h
  · exact touched_active name pid
  · exact touched_work h

theorem Published.of_only {packageId name : String} {pid : ℕ} {s t : Site} (hs : Fitting s)
    (h : Only (.active name) s t) (hplace : IsPlace packageId pid name)
    (hdir : ∀ tree, Dict.get? (.active name) t.files = some (.whole tree) →
      Dict.get? (.active name) s.files = some (.whole tree) ∨
        tree.packageId.length ≤ packageId.length) : Published packageId pid s t where
  toFramed := Framed.of_only hs h hplace.touched hdir
  rows := h.rows
  generations _ := h.files _ (by simp)

/-- A move is a removal of the source after a change of the destination. -/
theorem Published.of_move {packageId src dest : String} {pid : ℕ} {s t : Site} (hs : Fitting s)
    (hsrc : IsPlace packageId pid src) (hdest : IsPlace packageId pid dest)
    (hrows : t.rows = s.rows) (hgone : Dict.get? (.active src) t.files = none)
    (hput : Dict.get? (.active dest) t.files = Dict.get? (.active src) s.files)
    (hfiles : ∀ q, q ≠ Path.active src → q ≠ Path.active dest →
      Dict.get? q t.files = Dict.get? q s.files)
    (hdir : ∀ tree, Dict.get? (.active src) s.files = some (.whole tree) →
      tree.packageId.length ≤ packageId.length) : Published packageId pid s t := by
  let mid : Site := { s with
    files := Dict.restrict (· ≠ Path.active src) s.files }
  have hmid : Only (.active src) s mid := ⟨rfl, fun q hq => by simp [mid, hq]⟩
  have hmidFit : Published packageId pid s mid := by
    refine Published.of_only hs hmid hsrc ?_
    intro tree htree
    simp [mid] at htree
  have hrest : Only (.active dest) mid t := by
    refine ⟨hrows, ?_⟩
    intro q hq
    by_cases hqs : q = Path.active src
    · rw [hqs, hgone]
      simp [mid]
    · rw [hfiles q hqs hq]
      simp [mid, hqs]
  refine hmidFit.trans (Published.of_only hmidFit.fitting hrest hdest ?_)
  intro tree htree
  rw [hput] at htree
  exact .inr (hdir tree htree)

/-- No fault of the steps that can raise. -/
def ReplaceFaults.Clear (faults : ReplaceFaults) : Prop :=
  faults.clearTmp = none ∧ faults.copy = none ∧ faults.clearBackup = none ∧
    faults.renameAway = none ∧ faults.renameIn = none

variable {packageId : String} {pid : ℕ} {s : Site}

theorem fitting_active (hs : Fitting s) (name : String) (tree : PackageTree)
    (h : Dict.get? (.active name) s.files = some (.whole tree)) :
    tree.packageId.length ≤ name.length := hs _ _ h tree rfl

/-- The active directory becomes the backup, or stays. -/
theorem setAside_ends (faults : ReplaceFaults) (hs : Fitting s) :
    Ends (setAside (.active packageId) (.active (publishBak packageId pid)) faults) s
      (fun aside t => Published packageId pid s t ∧ Dict.get? (.active packageId) t.files = none ∧
        Dict.get? (.active (publishTmp packageId pid)) t.files =
          Dict.get? (.active (publishTmp packageId pid)) s.files ∧
        (aside = true → Dict.get? (.active (publishBak packageId pid)) t.files =
          Dict.get? (.active packageId) s.files) ∧
        (aside = false → Dict.get? (.active packageId) s.files = none))
      (fun _ t => Published packageId pid s t ∧
        Dict.get? (.active packageId) t.files = Dict.get? (.active packageId) s.files ∧
        ¬ faults.Clear) := by
  have hbak := publishBak_ne packageId pid
  have htmp := publishTmp_ne packageId pid
  have htmpbak := publishTmp_ne_publishBak packageId pid
  have hplace : IsPlace packageId pid (publishBak packageId pid) := .inr (.inr rfl)
  refine Ends.branch ?_ ?_
  · intro hhas
    refine Ends.bind ((removeTree_ends _ faults.clearBackup s).mono (fun _ _ h => h) ?_) ?_
    · rintro e t ⟨hOnly, hcut, -, htree⟩
      refine ⟨Published.of_only hs hOnly hplace fun tree h => .inl (htree tree h),
        hOnly.files _ (by simpa using hbak.symm), ?_⟩
      rintro ⟨-, -, hclear, -⟩
      exact hcut hclear
    · rintro _ t ⟨hOnly, hnone⟩
      have hcleared : Published packageId pid s t := by
        refine Published.of_only hs hOnly hplace ?_
        intro tree htree
        rw [hnone] at htree
        cases htree
      have hactive : Dict.get? (.active packageId) t.files =
          Dict.get? (.active packageId) s.files := hOnly.files _ (by simpa using hbak.symm)
      refine Ends.bind ((moveTree_ends (by simpa using hbak.symm) faults.renameAway t).mono
        (fun _ _ h => h) ?_) ?_
      · rintro e u ⟨rfl, hfails⟩
        refine ⟨hcleared, hactive, ?_⟩
        rintro ⟨-, -, -, haway, -⟩
        rcases hfails with hfails | hfails
        · exact hfails haway
        · rw [hactive] at hfails
          simp [Dict.has, hfails] at hhas
      · rintro _ u ⟨hrows, hgone, -, hput, hfiles⟩
        rw [ends_pure]
        refine ⟨hcleared.trans ?_, hgone, ?_, ?_, by simp⟩
        · refine Published.of_move hcleared.fitting (.inl rfl) hplace hrows hgone hput hfiles ?_
          intro tree htree
          exact fitting_active hcleared.fitting _ tree htree
        · rw [hfiles _ (by simpa using htmp) (by simpa using htmpbak)]
          exact hOnly.files _ (by simpa using htmpbak)
        · intro _
          rw [hput, hactive]
  · intro hhas
    have hnone : Dict.get? (.active packageId) s.files = none := by
      simpa [Dict.has] using hhas
    exact ends_pure.mpr ⟨Published.refl hs, hnone, rfl, by simp, fun _ => hnone⟩

/-- The compensation of a rename that failed: the active directory is what it was. -/
theorem putBack_ends {t : Site} {aside : Bool} {before : Option Dir} (ht : Fitting t)
    (hnone : Dict.get? (.active packageId) t.files = none)
    (hbefore : ∀ tree, before = some (.whole tree) → tree.packageId.length ≤ packageId.length)
    (haside : aside = true → Dict.get? (.active (publishBak packageId pid)) t.files = before)
    (hfresh : aside = false → before = none) (E : Raised → Site → Prop) :
    Ends (putBack aside (.active packageId) (.active (publishBak packageId pid))) t
      (fun _ u => Published packageId pid t u ∧ Dict.get? (.active packageId) u.files = before) E := by
  refine Ends.branch ?_ ?_
  · intro htest
    have htest : aside = true ∧ Dict.has (.active (publishBak packageId pid)) t.files = true := by
      simp only [Bool.and_eq_true] at htest
      exact htest.1
    have hbak := haside htest.1
    refine (moveTree_ends (by simpa using publishBak_ne packageId pid) none t).mono ?_ ?_
    · rintro _ u ⟨hrows, hgone, -, hput, hfiles⟩
      refine ⟨Published.of_move ht (.inr (.inr rfl)) (.inl rfl) hrows hgone hput hfiles ?_, ?_⟩
      · intro tree htree
        exact hbefore tree (hbak ▸ htree)
      · rw [hput, hbak]
    · rintro e u ⟨-, hfails | hmissing⟩
      · exact absurd rfl hfails
      · simp [Dict.has, hmissing] at htest
  · intro htest
    refine ends_pure.mpr ⟨Published.refl ht, ?_⟩
    rw [hnone]
    cases aside with
    | false => exact (hfresh rfl).symm
    | true =>
      have hmissing : Dict.get? (.active (publishBak packageId pid)) t.files = none := by
        simpa [Dict.has, hnone] using htest
      rw [← haside rfl, hmissing]

/-- `_replace_tree` swaps the active directory for the source, or leaves it as it was. -/
theorem replaceTree_ends {src : Dir} (hsrc : Fits packageId src) (faults : ReplaceFaults)
    (hs : Fitting s) :
    Ends (replaceTree src packageId pid faults) s
      (fun _ t => Published packageId pid s t ∧ Dict.get? (.active packageId) t.files = some src)
      (fun _ t => Published packageId pid s t ∧
        Dict.get? (.active packageId) t.files = Dict.get? (.active packageId) s.files ∧
        ¬ faults.Clear) := by
  have htmp := publishTmp_ne packageId pid
  have hplaceTmp : IsPlace packageId pid (publishTmp packageId pid) := .inr (.inl rfl)
  have hplaceBak : IsPlace packageId pid (publishBak packageId pid) := .inr (.inr rfl)
  unfold replaceTree
  refine Ends.bind ((removeTree_ends _ faults.clearTmp s).mono (fun _ _ h => h) ?_) ?_
  · rintro e t ⟨hOnly, hcut, -, htree⟩
    refine ⟨Published.of_only hs hOnly hplaceTmp fun tree h => .inl (htree tree h),
      hOnly.files _ (by simpa using htmp.symm), ?_⟩
    rintro ⟨hclear, -⟩
    exact hcut hclear
  rintro _ t ⟨hOnlyT, hnoneT⟩
  have hT : Published packageId pid s t := by
    refine Published.of_only hs hOnlyT hplaceTmp ?_
    intro tree htree
    rw [hnoneT] at htree
    cases htree
  have hactiveT : Dict.get? (.active packageId) t.files = Dict.get? (.active packageId) s.files :=
    hOnlyT.files _ (by simpa using htmp.symm)
  refine Ends.bind ((copyTree_ends src _ faults.copy t).mono (fun _ _ h => h) ?_) ?_
  · rintro e u ⟨hOnly, hcut, htree⟩
    refine ⟨hT.trans (Published.of_only hT.fitting hOnly hplaceTmp ?_),
      (hOnly.files _ (by simpa using htmp.symm)).trans hactiveT, ?_⟩
    · intro tree h
      exact .inr (hsrc tree (htree tree h))
    · rintro ⟨-, hclear, -⟩
      exact hcut hclear
  rintro _ u ⟨hOnlyU, hcopied⟩
  have hU : Published packageId pid s u := by
    refine hT.trans (Published.of_only hT.fitting hOnlyU hplaceTmp ?_)
    intro tree htree
    rw [hcopied] at htree
    exact .inr (hsrc tree (Option.some.inj htree))
  have hactiveU : Dict.get? (.active packageId) u.files = Dict.get? (.active packageId) s.files :=
    (hOnlyU.files _ (by simpa using htmp.symm)).trans hactiveT
  refine Ends.bind ((setAside_ends faults hU.fitting).mono (fun _ _ h => h) ?_) ?_
  · rintro e w ⟨hW, hactive, hclear⟩
    exact ⟨hU.trans hW, hactive.trans hactiveU, hclear⟩
  rintro aside w ⟨hUW, hnoneW, htmpW, hasideW, hfreshW⟩
  have hW := hU.trans hUW
  rw [hcopied] at htmpW
  rw [hactiveU] at hasideW hfreshW
  refine Ends.bind (P := fun _ v => Published packageId pid s v ∧
    Dict.get? (.active packageId) v.files = some src) ?_ ?_
  · refine Ends.tryCatch ((moveTree_ends (by simpa using htmp) faults.renameIn w).mono ?_
      fun _ _ h => h) ?_
    · rintro _ v ⟨hrows, hgone, -, hput, hfiles⟩
      refine ⟨hW.trans (Published.of_move hW.fitting hplaceTmp (.inl rfl) hrows hgone hput hfiles ?_),
        hput.trans htmpW⟩
      intro tree htree
      rw [htmpW] at htree
      exact hsrc tree (Option.some.inj htree)
    · rintro e v ⟨rfl, hfails⟩
      have hclear : ¬ faults.Clear := by
        rintro ⟨-, -, -, -, hin⟩
        rcases hfails with hfails | hfails
        · exact hfails hin
        · rw [htmpW] at hfails
          cases hfails
      refine Ends.bind (putBack_ends hW.fitting hnoneW ?_ hasideW hfreshW _) ?_
      · intro tree htree
        exact fitting_active hs _ tree htree
      rintro _ x ⟨hX, hactiveX⟩
      refine Ends.bind (dropTree_ends _ none x _) ?_
      rintro _ y ⟨hOnly, htree⟩
      rw [ends_throw]
      refine ⟨(hW.trans hX).trans
        (Published.of_only hX.fitting hOnly hplaceTmp fun tree h => .inl (htree tree h)), ?_, hclear⟩
      rw [hOnly.files _ (by simpa using htmp.symm), hactiveX]
  rintro _ v ⟨hV, hactiveV⟩
  cases aside with
  | false => exact ends_pure.mpr ⟨hV, hactiveV⟩
  | true =>
    refine (dropTree_ends _ faults.dropBackup v _).mono ?_ fun _ _ h => h
    rintro _ x ⟨hOnly, htree⟩
    refine ⟨hV.trans (Published.of_only hV.fitting hOnly hplaceBak fun tree h =>
      .inl (htree tree h)), ?_⟩
    rw [hOnly.files _ (by simpa using (publishBak_ne packageId pid).symm), hactiveV]

theorem activePackagePath_eq_ok {repr : String → String} {name : String}
    (h : activePackagePath repr packageId = .ok name) : name = strip packageId := by
  simp only [activePackagePath] at h
  split_ifs at h
  exact (Except.ok.inj h).symm

theorem generationPath_eq_ok {repr : String → String} {packVersion : String} {path : Path}
    (h : generationPath repr packageId packVersion = .ok path) :
    path = .generation (strip packageId) (safeVersion packVersion) := by
  unfold generationPath at h
  split_ifs at h
  exact (Except.ok.inj h).symm

theorem atomicPublishPackage_ends {repr : String → String} {src : Dir}
    (hp : activePackagePath repr packageId = .ok packageId) (hsrc : Fits packageId src)
    (faults : ReplaceFaults) (hs : Fitting s) :
    Ends (atomicPublishPackage repr src packageId pid faults) s
      (fun _ t => Published packageId pid s t ∧ Dict.get? (.active packageId) t.files = some src)
      (fun _ t => Published packageId pid s t ∧
        Dict.get? (.active packageId) t.files = Dict.get? (.active packageId) s.files ∧
        ¬ faults.Clear) := by
  unfold atomicPublishPackage
  rw [hp]
  refine Ends.tryCatch (replaceTree_ends hsrc faults hs) ?_
  rintro e t h
  cases e with
  | lifecycle e => exact ends_throw.mpr h
  | os text => exact ends_throw.mpr h
  | other text => exact ends_throw.mpr h

theorem generationDir_eq_ok {repr : String → String} {packVersion : String} {dir : Dir} :
    generationDir repr packageId packVersion s = .ok dir ↔
      (∃ path, generationPath repr packageId packVersion = .ok path) ∧
        Dict.get? (.generation (strip packageId) (safeVersion packVersion)) s.files = some dir := by
  unfold generationDir
  cases hpath : generationPath repr packageId packVersion with
  | error e =>
    constructor
    · intro h
      cases h
    · rintro ⟨⟨path, h⟩, -⟩
      cases h
  | ok path =>
    rw [← generationPath_eq_ok hpath]
    cases hfile : Dict.get? path s.files with
    | none => simp [Except.bind, bind, hfile]
    | some other => simp [Except.bind, bind, hfile]

/-- A generation that is there is restored, or the active directory stays. -/
theorem restoreGeneration_ends {repr : String → String} {packVersion : String}
    (hp : activePackagePath repr packageId = .ok packageId) (faults : ReplaceFaults)
    (hs : Fitting s) :
    Ends (restoreGeneration repr packageId packVersion pid faults) s
      (fun _ t => Published packageId pid s t ∧ ∃ dir,
        Dict.get? (.generation packageId (safeVersion packVersion)) s.files = some dir ∧
        Dict.get? (.active packageId) t.files = some dir)
      (fun _ t => Published packageId pid s t ∧
        Dict.get? (.active packageId) t.files = Dict.get? (.active packageId) s.files ∧
        (faults.Clear → ∀ dir, generationDir repr packageId packVersion s ≠ .ok dir)) := by
  have hstrip := activePackagePath_eq_ok hp
  unfold restoreGeneration
  cases hdir : generationDir repr packageId packVersion s with
  | error e =>
    have hraise : check (generationDir repr packageId packVersion) s = .error (.lifecycle e) s := by
      unfold check
      rw [hdir]
      rfl
    rw [ends_bind, ends_of_error hraise]
    exact ⟨Published.refl hs, rfl, fun _ dir h => by cases h⟩
  | ok dir =>
    have hfound := (generationDir_eq_ok.mp hdir).2
    rw [← hstrip] at hfound
    have hok : check (generationDir repr packageId packVersion) s = .ok dir s := by
      unfold check
      rw [hdir]
      rfl
    have hfits : Fits packageId dir := hs _ _ hfound
    rw [ends_bind, ends_of_ok hok]
    refine (atomicPublishPackage_ends hp hfits faults hs).mono ?_ ?_
    · rintro _ t ⟨ht, hactive⟩
      exact ⟨ht, dir, hfound, hactive⟩
    · rintro e t ⟨ht, hactive, hclear⟩
      exact ⟨ht, hactive, fun h => absurd h hclear⟩

/-- A compensating restore returns, with the generation that was preserved. -/
theorem restore_compensates {repr : String → String} {packVersion : String} {path : Path} {dir : Dir}
    (hp : activePackagePath repr packageId = .ok packageId) (hs : Fitting s)
    (hpath : generationPath repr packageId packVersion = .ok path)
    (hdir : Dict.get? (.generation packageId (safeVersion packVersion)) s.files = some dir)
    (E : Raised → Site → Prop) :
    Ends (restoreGeneration repr packageId packVersion pid {}) s
      (fun _ t => Published packageId pid s t ∧ Dict.get? (.active packageId) t.files = some dir) E := by
  refine (restoreGeneration_ends hp {} hs).mono ?_ ?_
  · rintro _ t ⟨ht, other, hother, hactive⟩
    rw [hdir] at hother
    obtain rfl := Option.some.inj hother
    exact ⟨ht, hactive⟩
  · rintro e t ⟨-, -, hnever⟩
    have hfound : generationDir repr packageId packVersion s = .ok dir := by
      rw [generationDir_eq_ok, ← activePackagePath_eq_ok hp]
      exact ⟨⟨path, hpath⟩, hdir⟩
    exact absurd hfound (hnever ⟨rfl, rfl, rfl, rfl, rfl⟩ dir)

/-- A generation is preserved whole, or only its own directory is touched. -/
theorem preserveGeneration_ends {repr : String → String} {packVersion : String} {source : Dir}
    (pid : ℕ) (hstrip : strip packageId = packageId) (hfits : Fits packageId source) (faults : PreserveFaults)
    (hs : Fitting s) :
    Ends (preserveGeneration repr packageId packVersion source faults) s
      (fun _ t => Framed packageId pid s t ∧
        Only (.generation packageId (safeVersion packVersion)) s t ∧
        generationPath repr packageId packVersion =
          .ok (.generation packageId (safeVersion packVersion)) ∧
        Dict.get? (.generation packageId (safeVersion packVersion)) t.files = some source)
      (fun _ t => Framed packageId pid s t ∧
        Only (.generation packageId (safeVersion packVersion)) s t) := by
  have htouched := touched_generation packageId (safeVersion packVersion) pid
  unfold preserveGeneration
  refine Ends.bind (P := fun path t => t = s ∧
    path = .generation packageId (safeVersion packVersion) ∧
    generationPath repr packageId packVersion = .ok path) ?_ ?_
  · refine raiseLifecycle_ends ?_ ⟨Framed.refl hs, rfl, fun _ _ => rfl⟩
    intro path hpath
    exact ⟨rfl, hstrip ▸ generationPath_eq_ok hpath, hpath⟩
  rintro path r ⟨hr, rfl, hpath⟩
  rw [hr]
  refine Ends.bind ((removeTree_ends _ faults.clear s).mono (fun _ _ h => h) ?_) ?_
  · rintro e t ⟨hOnly, -, -, htree⟩
    exact ⟨Framed.of_only hs hOnly htouched fun tree h => .inl (htree tree h), hOnly⟩
  rintro _ t ⟨hOnly, hnone⟩
  have hcleared : Framed packageId pid s t := by
    refine Framed.of_only hs hOnly htouched ?_
    intro tree htree
    rw [hnone] at htree
    cases htree
  refine Ends.tryCatch ((copyTree_ends source _ faults.copy t).mono ?_ fun _ _ h => h) ?_
  · rintro _ u ⟨hOnlyU, hcopied⟩
    refine ⟨hcleared.trans (Framed.of_only hcleared.fitting hOnlyU htouched ?_), hOnly.trans hOnlyU,
      hpath, hcopied⟩
    intro tree htree
    rw [hcopied] at htree
    exact .inr (hfits tree (Option.some.inj htree))
  · rintro e u ⟨hOnlyU, -, htree⟩
    have hE : Framed packageId pid s u ∧
        Only (.generation packageId (safeVersion packVersion)) s u := by
      refine ⟨hcleared.trans (Framed.of_only hcleared.fitting hOnlyU htouched ?_),
        hOnly.trans hOnlyU⟩
      intro tree h
      exact .inr (hfits tree (htree tree h))
    cases e with
    | lifecycle e => exact ends_throw.mpr hE
    | os text => exact ends_throw.mpr hE
    | other text => exact ends_throw.mpr hE

theorem removeActivePackage_ends {repr : String → String} (pid : ℕ)
    (hp : activePackagePath repr packageId = .ok packageId) (cut : Option Cut) (hs : Fitting s) :
    Ends (removeActivePackage repr packageId cut) s
      (fun _ t => Published packageId pid s t ∧ Dict.get? (.active packageId) t.files = none)
      (fun _ t => Published packageId pid s t ∧ cut ≠ none) := by
  unfold removeActivePackage
  rw [hp]
  refine (removeTree_ends (.active packageId) cut s).mono ?_ ?_
  · rintro _ t ⟨hOnly, hnone⟩
    refine ⟨Published.of_only hs hOnly (.inl rfl) ?_, hnone⟩
    intro tree htree
    rw [hnone] at htree
    cases htree
  · rintro e t ⟨hOnly, hcut, -, htree⟩
    exact ⟨Published.of_only hs hOnly (.inl rfl) fun tree h => .inl (htree tree h), hcut⟩

/-- Only generations of the package go. -/
theorem removeGenerations_ends (pid : ℕ) (hstrip : strip packageId = packageId) (cut : Option GenerationsCut)
    (hs : Fitting s) {P : Site → Prop}
    (hP : ∀ t, Framed packageId pid s t → t.rows = s.rows →
      Dict.get? (.active packageId) t.files = Dict.get? (.active packageId) s.files → P t) :
    Ends (removeGenerations packageId cut) s (fun _ t => P t) (fun _ t => P t) := by
  have hframe : ∀ t : Site, t.rows = s.rows →
      (∀ q : Path, q.notOf packageId = true → Dict.get? q t.files = Dict.get? q s.files) →
      (∀ version tree, Dict.get? (.generation packageId version) t.files = some (.whole tree) →
        Dict.get? (.generation packageId version) s.files = some (.whole tree)) → P t := by
    intro t hrows hothers hleft
    refine hP t ⟨?_, ?_, ?_⟩ hrows (hothers _ rfl)
    · intro q hq
      apply hothers
      cases q with
      | active name => rfl
      | generation id version =>
        simp only [Path.notOf, decide_eq_true_eq]
        rintro rfl
        exact hq (touched_generation id version pid)
    · intro name _ tree htree
      rw [hothers _ rfl] at htree
      exact .inl htree
    · intro q dir hq
      by_cases hof : q.notOf packageId = true
      · rw [hothers q hof] at hq
        exact hs q dir hq
      · cases q with
        | active name => simp [Path.notOf] at hof
        | generation id version =>
          obtain rfl : id = packageId := by simpa [Path.notOf] using hof
          rintro tree rfl
          exact hs _ _ (hleft version tree hq) tree rfl
  unfold Ends removeGenerations
  rw [hstrip]
  by_cases hall : (s.files.all fun file => file.1.notOf packageId) = true
  · rw [if_pos hall]
    exact hframe s rfl (fun _ _ => rfl) fun _ _ h => h
  · rw [if_neg hall]
    cases cut with
    | none =>
      refine hframe _ rfl (fun q hq => by simp [hq]) ?_
      intro version tree h
      simp [Path.notOf] at h
    | some cut =>
      refine hframe _ rfl ?_ ?_
      · intro q hq
        cases q with
        | active name =>
          simp [GenerationsCut.apply, GenerationsCut.leaves]
        | generation id version =>
          have hid : id ≠ packageId := by simpa [Path.notOf] using hq
          simp [GenerationsCut.apply, GenerationsCut.leaves, hid]
      · intro version tree h
        cases hleft : cut.left version <;>
          simp_all [GenerationsCut.apply, GenerationsCut.leaves]

end Connectors
