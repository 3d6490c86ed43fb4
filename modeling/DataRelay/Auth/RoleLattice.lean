import DataRelay.Auth.RouteAccess

/-! How the roles compare over all methods and paths. Each stage of the cascade is compared for
itself; a request passes where every stage lets it. -/
namespace RouteAccess
open PyText

variable {base role m path : String}

/-! ### Roles -/

theorem roles_ne :
    operator ≠ administrator ∧ connectorOperator ≠ administrator ∧ viewer ≠ administrator ∧
      operator ≠ viewer ∧ connectorOperator ≠ viewer ∧ connectorOperator ≠ operator := by
  decide

/-- The roles that are not of the governance plane only. -/
def generalRoles : List String := [administrator, operator, connectorOperator, viewer]

/-- What the tables say of each role: the legacy operator has the rights of the connector operator,
the read-only role takes no action of the governance plane and sees its dashboard only. -/
theorem rights :
    ((canGovernanceDashboardRead operator = canGovernanceDashboardRead connectorOperator ∧
      canGovernanceOperationsAccess operator = canGovernanceOperationsAccess connectorOperator ∧
      canGovernanceRead operator = canGovernanceRead connectorOperator ∧
      canPolicyActivate operator = canPolicyActivate connectorOperator ∧
      canPolicyApprove operator = canPolicyApprove connectorOperator ∧
      canQuarantineAction operator = canQuarantineAction connectorOperator ∧
      canReplayAction operator = canReplayAction connectorOperator ∧
      canGovernanceWrite operator = canGovernanceWrite connectorOperator) ∧
    (canConnectorOperate operator = canConnectorOperate connectorOperator ∧
      canAiPolicyRead operator = canAiPolicyRead connectorOperator ∧
      canAiPolicyOperate operator = canAiPolicyOperate connectorOperator ∧
      canAiAuditRead operator = canAiAuditRead connectorOperator ∧
      canAiGovernanceRead operator = canAiGovernanceRead connectorOperator ∧
      canAiGovernanceOperate operator = canAiGovernanceOperate connectorOperator) ∧
    canGovernanceDashboardRead operator = true) ∧
    ((canPolicyActivate viewer = false ∧ canPolicyApprove viewer = false ∧
      canQuarantineAction viewer = false ∧ canReplayAction viewer = false ∧
      canGovernanceWrite viewer = false) ∧
    canGovernanceOperationsAccess viewer = false ∧ canGovernanceRead viewer = false) ∧
    isAdministrator administrator = true ∧
    generalRoles.all (fun role => decide
      (normalizePlatformRole role ∈ [administrator, connectorOperator, operator, viewer])) = true ∧
    [administrator, operator].all (fun role =>
      canConnectorOperate role && canAiPolicyRead role) = true ∧
    normalizePlatformRole governanceAuditor ∉ [administrator, connectorOperator, operator, viewer] := by
  decide +kernel

theorem normalize_generalRoles {role : String} (h : role ∈ generalRoles) :
    normalizePlatformRole role ∈ [administrator, connectorOperator, operator, viewer] :=
  of_decide_eq_true (List.all_eq_true.mp rights.2.2.2.1 role h)

theorem operates {role : String} (h : role ∈ [administrator, operator]) :
    canConnectorOperate role = true ∧ canAiPolicyRead role = true :=
  (Bool.and_eq_true _ _).mp (List.all_eq_true.mp rights.2.2.2.2.1 role h)

/-! ### Paths -/

theorem append_inj (base : String) {front path : String} :
    base ++ path = base ++ front ↔ path = front := by
  rw [← String.toList_inj, String.toList_append, String.toList_append, List.append_right_inj,
    String.toList_inj]

theorem startsWith_append (base front path : String) :
    startsWith (base ++ front) (base ++ path) = startsWith front path := by
  unfold startsWith
  refine decide_eq_decide.mpr ?_
  rw [String.toList_append, String.toList_append]
  exact List.prefix_append_right_inj _

theorem under_append (base front path : String) :
    under (base ++ front) (base ++ path) = under front path := by
  unfold under
  rw [String.append_assoc, startsWith_append]
  congr 1
  exact decide_eq_decide.mpr (append_inj base)

/-- A suffix no longer than the end of a path is looked for in that end only. -/
theorem endsWith_append (base : String) {back path : String}
    (hlength : back.toList.length ≤ path.toList.length) :
    endsWith back (base ++ path) = endsWith back path := by
  unfold endsWith
  refine decide_eq_decide.mpr ?_
  rw [String.toList_append]
  constructor
  · intro h
    exact List.suffix_of_suffix_length_le h (List.suffix_append _ _) hlength
  · exact fun h => h.trans (List.suffix_append _ _)

/-- The enrolment paths are no administrator's. -/
theorem not_under_of_isMfaEnrolment (h : isMfaEnrolment base path = true) :
    (adminExclusive base).any (under · path) = false ∧
      under (base ++ "/admin/password") path = false ∧
      (policyPrefixes base).any (under · path) = false := by
  simp only [isMfaEnrolment, List.mem_cons, List.not_mem_nil, or_false, decide_eq_true_eq] at h
  simp only [adminExclusive, policyPrefixes, List.any_cons, List.any_nil]
  rcases h with rfl | rfl <;> simp only [under_append] <;> decide +kernel

/-! ### Stages -/

theorem evaluateHttpAccess_eq_none_iff {method : String} :
    evaluateHttpAccess base role method path = none ↔
      (upper method = "POST" ∧ isMfaEnrolment base path = true) ∨
        administratorChecks base role (upper method) path = none ∧
        governanceChecks base role (upper method) path = none ∧
        governanceOnlyCheck base role (upper method) path = none ∧
        aiChecks base role (upper method) path = none ∧
        lastChecks base role (upper method) path = none := by
  unfold evaluateHttpAccess
  by_cases hmfa : upper method = "POST" ∧ isMfaEnrolment base path = true
  · simp [hmfa]
  · simp only [hmfa, if_false, Option.or_eq_none_iff, false_or]

theorem deny_ne_none (errorCode message : String) : deny errorCode message ≠ none := by simp [deny]

/-- The checks for administrators treat all other roles alike. -/
theorem administratorChecks_congr {other : String} (hrole : role ≠ administrator)
    (hother : other ≠ administrator) :
    administratorChecks base role m path = administratorChecks base other m path := by
  unfold administratorChecks
  simp only [ne_eq, hrole, hother, not_false_eq_true]

theorem administratorChecks_administrator :
    administratorChecks base administrator m path = none := by
  simp [administratorChecks]

theorem not_under_of_administratorChecks (hrole : role ≠ administrator)
    (h : administratorChecks base role m path = none) :
    (adminExclusive base).any (under · path) = false ∧
      under (base ++ "/admin/password") path = false ∧
      (isSafe m = false → (policyPrefixes base).any (under · path) = false) := by
  unfold administratorChecks at h
  split_ifs at h with hexclusive hpassword hpolicy hbackup hsnapshot
  all_goals try exact absurd h (deny_ne_none _ _)
  refine ⟨?_, ?_, ?_⟩
  · exact Bool.eq_false_iff.mpr fun hany => hexclusive ⟨hany, hrole⟩
  · exact Bool.eq_false_iff.mpr fun hunder => hpassword ⟨hunder, hrole⟩
  · intro hsafe
    exact Bool.eq_false_iff.mpr fun hany => hpolicy ⟨hany, by simp [hsafe], hrole⟩

/-- Where those checks pass, nothing is left for the operator's list. -/
theorem operatorMutationDeny_of_administratorChecks (hrole : role ≠ administrator)
    (h : administratorChecks base role m path = none) (hsafe : isSafe m = false) :
    (operatorMutationDeny base).any (under · path) = false := by
  obtain ⟨hexclusive, hpassword, hpolicy⟩ := not_under_of_administratorChecks hrole h
  have hpolicy := hpolicy hsafe
  simp only [adminExclusive, policyPrefixes, List.any_cons, List.any_nil, Bool.or_eq_false_iff,
    Bool.or_false] at hexclusive hpolicy
  simp [operatorMutationDeny, hexclusive, hpassword, hpolicy]

theorem governanceChecks_operator :
    governanceChecks base operator m path = governanceChecks base connectorOperator m path := by
  simp only [governanceChecks, governanceReadCheck, governanceActionCheck, rights.1.1]

theorem governanceChecks_administrator :
    governanceChecks base administrator m path = none := by
  simp [governanceChecks, governanceReadCheck, governanceActionCheck,
    canGovernanceDashboardRead, canGovernanceOperationsAccess, canGovernanceRead, canPolicyActivate,
    canPolicyApprove, canPolicyReview, canQuarantineAction, canReplayAction, canGovernanceWrite,
    rights.2.2.1]

/-- No action of the governance plane is open to the read-only role. -/
theorem governanceActionCheck_viewer : governanceActionCheck viewer path ≠ none := by
  have hrights := rights.2.1.1
  unfold governanceActionCheck
  split_ifs <;> simp_all [deny]

/-- What the read-only role may see there, the operator may. -/
theorem governanceChecks_of_viewer (h : governanceChecks base viewer m path = none) :
    governanceChecks base operator m path = none := by
  have hviewer := rights.2.1.2
  have hoperator := rights.1.2.2
  unfold governanceChecks at h ⊢
  by_cases hgovernance : under (base ++ "/governance") path = true
  · rw [if_pos hgovernance] at h ⊢
    obtain ⟨hread, haction⟩ := Option.or_eq_none_iff.mp h
    refine Option.or_eq_none_iff.mpr ⟨?_, ?_⟩
    · unfold governanceReadCheck at hread ⊢
      by_cases hdashboard : startsWith (base ++ "/governance" ++ "/dashboard") path = true
      · simp [hdashboard, hoperator]
      · rw [if_neg hdashboard, if_pos hviewer.1, if_pos hviewer.2] at hread
        split_ifs at hread <;> exact absurd hread (deny_ne_none _ _)
    · split_ifs at haction ⊢ with hmutates
      · exact absurd haction governanceActionCheck_viewer
      · rfl
  · rw [if_neg hgovernance]

theorem aiChecks_eq_none_of_operates (hoperate : canConnectorOperate role = true)
    (hread : canAiPolicyRead role = true) :
    aiChecks base role m path = none ↔
      ¬ (under (base ++ "/ai-audit-events") path = true ∧ isSafe m = false) := by
  simp [aiChecks, canAiPolicyOperate, canAiGovernanceRead, canAiGovernanceOperate, canAiAuditRead,
    hoperate, hread, deny]

/-- The audit events of the AI gateway have no mutation, whatever the role. -/
theorem audit_of_aiChecks (h : aiChecks base role m path = none) :
    ¬ (under (base ++ "/ai-audit-events") path = true ∧ isSafe m = false) := by
  rintro ⟨haudit, hsafe⟩
  unfold aiChecks at h
  split_ifs at h <;> simp_all [deny]

theorem governanceOnlyCheck_of_mem (h : role ∈ generalRoles) :
    governanceOnlyCheck base role m path = none := by
  unfold governanceOnlyCheck
  rw [if_neg]
  exact fun hdenied => hdenied.2.1 (normalize_generalRoles h)

theorem lastChecks_operator (h : administratorChecks base operator m path = none) :
    lastChecks base operator m path = none := by
  have hviewer : operator ≠ viewer := roles_ne.2.2.2.1
  unfold lastChecks
  simp only [hviewer, false_and, if_false, true_and, ite_eq_left_iff]
  intro _
  rw [if_neg]
  rintro ⟨hsafe, hdenied⟩
  rw [operatorMutationDeny_of_administratorChecks roles_ne.1 h (by simpa using hsafe)]
    at hdenied
  cases hdenied

theorem lastChecks_other (hviewer : role ≠ viewer) (hoperator : role ≠ operator) :
    lastChecks base role m path = none := by
  simp [lastChecks, hviewer, hoperator]

/-! ### The lattice -/

theorem evaluate_operator (base method path : String) :
    evaluateHttpAccess base operator method path =
      evaluateHttpAccess base connectorOperator method path := by
  have hadmin : ∀ m, administratorChecks base operator m path =
      administratorChecks base connectorOperator m path :=
    fun m => administratorChecks_congr roles_ne.1 roles_ne.2.1
  have honly : ∀ m, governanceOnlyCheck base operator m path = none ∧
      governanceOnlyCheck base connectorOperator m path = none :=
    fun m => ⟨governanceOnlyCheck_of_mem (by simp [generalRoles]),
      governanceOnlyCheck_of_mem (by simp [generalRoles])⟩
  have hai : ∀ m, aiChecks base operator m path = aiChecks base connectorOperator m path := by
    intro m
    simp only [aiChecks, rights.1.2.1]
  unfold evaluateHttpAccess
  simp only [hadmin, governanceChecks_operator, honly, hai]
  split_ifs
  · rfl
  · cases hchecks : administratorChecks base connectorOperator (upper method) path with
    | some denied => rfl
    | none =>
      rw [lastChecks_operator ((hadmin _).trans hchecks),
        lastChecks_other roles_ne.2.2.2.2.1 roles_ne.2.2.2.2.2]

theorem evaluate_of_viewer {method : String}
    (h : evaluateHttpAccess base viewer method path = none) :
    evaluateHttpAccess base operator method path = none := by
  rw [evaluateHttpAccess_eq_none_iff] at h ⊢
  refine h.imp_right fun ⟨hadmin, hgovernance, _, hai, _⟩ => ?_
  have hadmin' : administratorChecks base operator (upper method) path = none :=
    (administratorChecks_congr roles_ne.1 roles_ne.2.2.1).trans hadmin
  refine ⟨hadmin', governanceChecks_of_viewer hgovernance,
    governanceOnlyCheck_of_mem (by simp [generalRoles]), ?_, lastChecks_operator hadmin'⟩
  obtain ⟨hoperate, hread⟩ := operates (List.mem_cons_of_mem administrator (List.mem_singleton_self operator))
  rw [aiChecks_eq_none_of_operates hoperate hread]
  exact audit_of_aiChecks hai

theorem evaluate_administrator {method : String}
    (h : evaluateHttpAccess base role method path = none) :
    evaluateHttpAccess base administrator method path = none := by
  rw [evaluateHttpAccess_eq_none_iff] at h ⊢
  refine h.imp_right fun ⟨_, _, _, hai, _⟩ => ?_
  refine ⟨administratorChecks_administrator, governanceChecks_administrator,
    governanceOnlyCheck_of_mem (by simp [generalRoles]), ?_,
    lastChecks_other (by decide) (by decide)⟩
  obtain ⟨hoperate, hread⟩ := operates (List.mem_cons_self)
  rw [aiChecks_eq_none_of_operates hoperate hread]
  exact audit_of_aiChecks hai

theorem mutation_of_viewer {method : String} (hsafe : isSafe (upper method) = false)
    (h : evaluateHttpAccess base viewer method path = none) :
    isViewerAllowedPost base path = true ∨ isMfaEnrolment base path = true ∨
      path = base ++ "/auth/change-password" := by
  rcases evaluateHttpAccess_eq_none_iff.mp h with ⟨-, hmfa⟩ | ⟨-, -, -, -, hlast⟩
  · exact .inr (.inl hmfa)
  · unfold lastChecks at hlast
    split_ifs at hlast with hchange hviewer hallowed
    · exact .inr (.inr hchange.2)
    · exact .inl hallowed
    · exact absurd hlast (deny_ne_none _ _)
    · exact absurd ⟨rfl, by simp [hsafe]⟩ hviewer
    · exact absurd ⟨rfl, by simp [hsafe]⟩ hviewer

theorem not_under_of_evaluate {method : String} (hrole : role ≠ administrator)
    (h : evaluateHttpAccess base role method path = none) :
    (adminExclusive base).any (under · path) = false ∧
      under (base ++ "/admin/password") path = false ∧
      (isSafe (upper method) = false → (policyPrefixes base).any (under · path) = false) := by
  rcases evaluateHttpAccess_eq_none_iff.mp h with ⟨-, hmfa⟩ | ⟨hadmin, -⟩
  · obtain ⟨hexclusive, hpassword, hpolicy⟩ := not_under_of_isMfaEnrolment hmfa
    exact ⟨hexclusive, hpassword, fun _ => hpolicy⟩
  · exact not_under_of_administratorChecks hrole hadmin

/-- The order of the roles, for every method and every path. -/
theorem role_lattice (base method path : String) :
    evaluateHttpAccess base operator method path =
        evaluateHttpAccess base connectorOperator method path ∧
      (evaluateHttpAccess base viewer method path = none →
        evaluateHttpAccess base operator method path = none) ∧
      (∀ role ∈ allPlatformRoles, evaluateHttpAccess base role method path = none →
        evaluateHttpAccess base administrator method path = none) ∧
      (isSafe (upper method) = false → evaluateHttpAccess base viewer method path = none →
        isViewerAllowedPost base path = true ∨ isMfaEnrolment base path = true ∨
          path = base ++ "/auth/change-password") ∧
      ∀ role ∈ allPlatformRoles, role ≠ administrator →
        evaluateHttpAccess base role method path = none →
        (adminExclusive base).any (under · path) = false ∧
          under (base ++ "/admin/password") path = false ∧
          (isSafe (upper method) = false → (policyPrefixes base).any (under · path) = false) := by
  refine ⟨evaluate_operator base method path, evaluate_of_viewer, ?_, mutation_of_viewer, ?_⟩
  · exact fun role _ h => evaluate_administrator h
  · exact fun role _ hrole h => not_under_of_evaluate hrole h

/-! ### Self-service -/

def aiPrefixes (base : String) : List String :=
  [base ++ "/ai-providers", base ++ "/ai-streams", base ++ "/ai-policy-rules",
    base ++ "/ai-audit-events", base ++ "/ai-governance"]

theorem under_of_under_append {front rest path : String}
    (h : under (front ++ "/" ++ rest) path = true) : under front path = true := by
  have hpre : (front ++ "/").toList <+: path.toList := by
    have happend : (front ++ "/" ++ rest).toList = (front ++ "/").toList ++ rest.toList :=
      String.toList_append
    unfold under startsWith at h
    rw [Bool.or_eq_true, decide_eq_true_eq, decide_eq_true_eq] at h
    rcases h with rfl | h
    · rw [happend]
      exact List.prefix_append _ _
    · rw [String.toList_append, happend, List.append_assoc] at h
      exact (List.prefix_append _ _).trans h
  unfold under startsWith
  rw [Bool.or_eq_true, decide_eq_true_eq]
  exact .inr (decide_eq_true hpre)

theorem aiChecks_outside (h : (aiPrefixes base).any (under · path) = false) :
    aiChecks base role m path = none := by
  simp only [aiPrefixes, List.any_cons, List.any_nil, Bool.or_eq_false_iff] at h
  obtain ⟨hproviders, hstreams, hrules, haudit, hgovernance, -⟩ := h
  have htraffic : under (base ++ "/ai-providers/traffic") path = false := by
    refine Bool.eq_false_iff.mpr fun hunder => ?_
    have happend : base ++ "/ai-providers/traffic" = base ++ "/ai-providers" ++ "/" ++ "traffic" := by
      rw [String.append_assoc, String.append_assoc]
      rfl
    rw [happend] at hunder
    rw [under_of_under_append hunder] at hproviders
    cases hproviders
  simp [aiChecks, hproviders, hstreams, hrules, haudit, hgovernance, htraffic]

theorem governanceChecks_outside (h : under (base ++ "/governance") path = false) :
    governanceChecks base role m path = none := by
  simp [governanceChecks, h]

/-- A preview open to the read-only role is open to every role. -/
theorem evaluate_preview {method : String}
    (hgovernance : under (base ++ "/governance") path = false)
    (hai : (aiPrefixes base).any (under · path) = false)
    (hpreview : isViewerAllowedPost base path = true)
    (hadmin : administratorChecks base viewer (upper method) path = none) :
    evaluateHttpAccess base role method path = none := by
  have hadmin' : ∀ {other : String}, other ≠ administrator →
      administratorChecks base other (upper method) path = none := fun hother =>
    (administratorChecks_congr hother roles_ne.2.2.1).trans hadmin
  have honly : governanceOnlyCheck base role (upper method) path = none := by
    simp [governanceOnlyCheck, hpreview]
  refine evaluateHttpAccess_eq_none_iff.mpr (.inr ⟨?_, governanceChecks_outside hgovernance, honly,
    aiChecks_outside hai, ?_⟩)
  · by_cases hadministrator : role = administrator
    · rw [hadministrator]
      exact administratorChecks_administrator
    · exact hadmin' hadministrator
  · by_cases hviewer : role = viewer
    · simp only [lastChecks, hviewer, hpreview, if_true]
      split_ifs with _ _ hdenied
      · rfl
      · rfl
      · exact absurd hdenied.1.symm roles_ne.2.2.2.1
      · rfl
    · by_cases hoperator : role = operator
      · rw [hoperator]
        exact lastChecks_operator (hadmin' roles_ne.1)
      · exact lastChecks_other hviewer hoperator

/-- What the cascade asks of the path for changing one's password, past the base of the paths. -/
theorem changePassword_path :
    "/auth/change-password" ∉ ["/auth/mfa/enroll/start", "/auth/mfa/enroll/confirm"] ∧
      startsWith "/runtime/preview/" "/auth/change-password" = false ∧
      "/auth/change-password" ≠ "/runtime/format-preview" ∧
      "/pipeline-debug".toList.length ≤ "/auth/change-password".toList.length ∧
      endsWith "/pipeline-debug" "/auth/change-password" = false ∧
      under "/governance" "/auth/change-password" = false ∧ isSafe "POST" = false := by
  decide +kernel

/-- Changing one's password is closed to the roles of the governance plane: they are turned away
before the exception for it is reached. -/
theorem evaluate_changePassword (base : String) {method : String} (hpost : upper method = "POST") :
    evaluateHttpAccess base governanceAuditor method (base ++ "/auth/change-password") ≠ none := by
  obtain ⟨hmember, hstarts, hformat, hlength, hends, hunder, hsafe⟩ := changePassword_path
  have hmfa : isMfaEnrolment base (base ++ "/auth/change-password") = false := by
    simp only [isMfaEnrolment, List.mem_cons, List.not_mem_nil, append_inj] at hmember ⊢
    exact decide_eq_false hmember
  have hpreview : isViewerAllowedPost base (base ++ "/auth/change-password") = false := by
    simp only [isViewerAllowedPost, startsWith_append, append_inj, endsWith_append base hlength,
      hstarts, hformat, hends, Bool.and_false, decide_false, Bool.or_self]
  have hgovernance : under (base ++ "/governance") (base ++ "/auth/change-password") = false := by
    rw [under_append, hunder]
  have honly : governanceOnlyCheck base governanceAuditor "POST"
      (base ++ "/auth/change-password") ≠ none := by
    unfold governanceOnlyCheck
    rw [if_pos ⟨by simp [hpreview, hsafe], rights.2.2.2.2.2, by simp [hgovernance]⟩]
    exact deny_ne_none _ _
  intro h
  rcases evaluateHttpAccess_eq_none_iff.mp h with ⟨-, henrolment⟩ | ⟨-, -, hnone, -, -⟩
  · rw [hmfa] at henrolment
    cases henrolment
  · rw [hpost] at hnone
    exact honly hnone

/-- Outside the governance and AI prefixes, what the read-only role may send every role may send,
but for the change of the own password. -/
theorem self_service_open {base method path : String} (hsafe : isSafe (upper method) = false)
    (hgovernance : under (base ++ "/governance") path = false)
    (hai : (aiPrefixes base).any (under · path) = false)
    (hviewer : evaluateHttpAccess base viewer method path = none) :
    (∀ role ∈ allPlatformRoles, evaluateHttpAccess base role method path = none) ↔
      ¬ (upper method = "POST" ∧ path = base ++ "/auth/change-password") := by
  constructor
  · rintro hall ⟨hpost, rfl⟩
    exact evaluate_changePassword base hpost (hall governanceAuditor (by simp [allPlatformRoles]))
  · intro hchange role _
    rcases evaluateHttpAccess_eq_none_iff.mp hviewer with hmfa | ⟨hadmin, -, -, -, hlast⟩
    · exact evaluateHttpAccess_eq_none_iff.mpr (.inl hmfa)
    · refine evaluate_preview hgovernance hai ?_ hadmin
      unfold lastChecks at hlast
      rw [if_neg hchange, if_pos ⟨rfl, by simp [hsafe]⟩] at hlast
      split_ifs at hlast with hpreview
      · exact hpreview
      · exact absurd hlast (deny_ne_none _ _)

theorem preview_open :
    (isSafe (upper "post") = false ∧
      under ("/api/v1" ++ "/governance") "/api/v1/runtime/preview/mapping" = false ∧
      (aiPrefixes "/api/v1").any (under · "/api/v1/runtime/preview/mapping") = false ∧
      evaluateHttpAccess "/api/v1" viewer "post" "/api/v1/runtime/preview/mapping" = none) ∧
      ((∀ role ∈ allPlatformRoles,
          evaluateHttpAccess "/api/v1" role "post" "/api/v1/runtime/preview/mapping" = none) ↔
        ¬ (upper "post" = "POST" ∧
          "/api/v1/runtime/preview/mapping" = "/api/v1" ++ "/auth/change-password")) := by
  have hmet : isSafe (upper "post") = false ∧
      under ("/api/v1" ++ "/governance") "/api/v1/runtime/preview/mapping" = false ∧
      (aiPrefixes "/api/v1").any (under · "/api/v1/runtime/preview/mapping") = false ∧
      evaluateHttpAccess "/api/v1" viewer "post" "/api/v1/runtime/preview/mapping" = none := by
    decide +kernel
  exact ⟨hmet, self_service_open hmet.1 hmet.2.1 hmet.2.2.1 hmet.2.2.2⟩

/-- An auditor cannot change the own password. -/
theorem changePassword_closed :
    isSafe (upper "POST") = false ∧
      under ("/api/v1" ++ "/governance") "/api/v1/auth/change-password" = false ∧
      (aiPrefixes "/api/v1").any (under · "/api/v1/auth/change-password") = false ∧
      evaluateHttpAccess "/api/v1" viewer "POST" "/api/v1/auth/change-password" = none ∧
      governanceAuditor ∈ allPlatformRoles ∧
      evaluateHttpAccess "/api/v1" governanceAuditor "POST" "/api/v1/auth/change-password" =
        some ⟨"ROLE_FORBIDDEN", "This role may only access Governance resources."⟩ := by
  decide +kernel

end RouteAccess
