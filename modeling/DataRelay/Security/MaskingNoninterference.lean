import DataRelay.Security.Secrets

/-! The masked form of a configuration tells nothing of its secrets: two configurations that
differ in secrets only are masked alike. -/
namespace Secrets
open PyText (CaseTable)

variable (T : CaseTable) (printable : Char → Bool) (maskAll : Bool)

/-- The header value has more than white space in it. -/
def NonBlank (v : Json) : Prop := PyText.strip (headerText printable v) ≠ ""

instance (v : Json) : Decidable (NonBlank printable v) := inferInstanceAs (Decidable (_ ≠ _))

mutual
/-- The two configurations differ in secrets only: in values under sensitive names, in PEM texts
and, when all header values are masked, in header values. -/
inductive Alike : Json → Json → Prop
  | same (v : Json) : Alike v v
  | pem {s t : String} : hasPem s = true → hasPem t = true → Alike (.str s) (.str t)
  | arr {xs ys : List Json} : AlikeItems xs ys → Alike (.arr xs) (.arr ys)
  | obj {ms ns : Json.Members} : AlikeMembers false ms ns → Alike (.obj ms) (.obj ns)

inductive AlikeItems : List Json → List Json → Prop
  | nil : AlikeItems [] []
  | cons {x y : Json} {xs ys : List Json} :
      Alike x y → AlikeItems xs ys → AlikeItems (x :: xs) (y :: ys)

/-- The members of two objects, or of two header maps. -/
inductive AlikeMembers : Bool → Json.Members → Json.Members → Prop
  | nil {inHeaders : Bool} : AlikeMembers inHeaders [] []
  | cons {inHeaders : Bool} {k : String} {v w : Json} {ms ns : Json.Members} :
      Alike v w → AlikeMembers inHeaders ms ns →
      AlikeMembers inHeaders ((k, v) :: ms) ((k, w) :: ns)
  | secret {inHeaders : Bool} {k : String} {v w : Json} {ms ns : Json.Members} :
      isSensitiveFieldName T k = true → isUnset v = false → isUnset w = false →
      AlikeMembers inHeaders ms ns → AlikeMembers inHeaders ((k, v) :: ms) ((k, w) :: ns)
  | headers {inHeaders : Bool} {k : String} {hs js ms ns : Json.Members} :
      isHeadersKey T k = true → AlikeMembers true hs js → AlikeMembers inHeaders ms ns →
      AlikeMembers inHeaders ((k, .obj hs) :: ms) ((k, .obj js) :: ns)
  | headerValue {k : String} {v w : Json} {ms ns : Json.Members} :
      maskAll = true → NonBlank printable v → NonBlank printable w →
      AlikeMembers true ms ns → AlikeMembers true ((k, v) :: ms) ((k, w) :: ns)
end

/-! ### The three passes at one member -/

/-- What the first pass makes of a member. -/
def secretMember (k : String) (v : Json) : Json :=
  if isSensitiveFieldName T k then if isUnset v then v else .str maskText else maskSecrets T v

/-- What the second pass makes of a member. -/
def nestedMember (k : String) (v : Json) : Json :=
  if isHeadersKey T k then
    (maskHeaders T printable maskAll v).getD (maskNestedHeaders T printable maskAll v)
  else maskNestedHeaders T printable maskAll v

/-- What the three passes make of a member. -/
def maskMember (k : String) (v : Json) : Json :=
  redactPemLiterals (nestedMember T printable maskAll k (secretMember T k v))

/-- What the three passes make of a header. -/
def maskHeaderMember (k : String) (v : Json) : Json :=
  .str (redactText (maskHeader T maskAll k (headerText printable (secretMember T k v))))

theorem maskSecretItems_eq (items : List Json) :
    maskSecretItems T items = items.map (maskSecrets T) := by
  induction items with
  | nil => rfl
  | cons v vs ih => rw [maskSecretItems, ih, List.map_cons]

theorem maskSecretMembers_eq (ms : Json.Members) :
    maskSecretMembers T ms = ms.map fun m => (m.1, secretMember T m.1 m.2) := by
  induction ms with
  | nil => rfl
  | cons m ms ih =>
    obtain ⟨k, v⟩ := m
    rw [maskSecretMembers, ih]
    rfl

theorem redactItems_eq (items : List Json) : redactItems items = items.map redactPemLiterals := by
  induction items with
  | nil => rfl
  | cons v vs ih => rw [redactItems, ih, List.map_cons]

theorem redactMembers_eq (ms : Json.Members) :
    redactMembers ms = ms.map fun m => (m.1, redactPemLiterals m.2) := by
  induction ms with
  | nil => rfl
  | cons m ms ih =>
    obtain ⟨k, v⟩ := m
    rw [redactMembers, ih]
    rfl

theorem maskNestedItems_eq (items : List Json) :
    maskNestedItems T printable maskAll items =
      items.map (maskNestedHeaders T printable maskAll) := by
  induction items with
  | nil => rfl
  | cons v vs ih => rw [maskNestedItems, ih, List.map_cons]

theorem maskNestedMembers_eq (ms : Json.Members) :
    maskNestedMembers T printable maskAll ms =
      ms.map fun m => (m.1, nestedMember T printable maskAll m.1 m.2) := by
  induction ms with
  | nil => rfl
  | cons m ms ih =>
    obtain ⟨k, v⟩ := m
    rw [maskNestedMembers, ih]
    rfl

/-- The three passes go through a list together. -/
theorem maskConfigPayload_arr (items : List Json) :
    maskConfigPayload T printable maskAll (.arr items) =
      .arr (items.map (maskConfigPayload T printable maskAll)) := by
  rw [maskConfigPayload, maskSecrets, maskNestedHeaders, redactPemLiterals, maskSecretItems_eq,
    maskNestedItems_eq, redactItems_eq, List.map_map, List.map_map]
  rfl

/-- The three passes go through an object together. -/
theorem maskConfigPayload_obj (ms : Json.Members) :
    maskConfigPayload T printable maskAll (.obj ms) =
      .obj (ms.map fun m => (m.1, maskMember T printable maskAll m.1 m.2)) := by
  rw [maskConfigPayload, maskSecrets, maskNestedHeaders, redactPemLiterals, maskSecretMembers_eq,
    maskNestedMembers_eq, redactMembers_eq, List.map_map, List.map_map]
  simp only [Function.comp_def, maskMember]

variable {T printable maskAll}

theorem redactText_maskText : redactText maskText = maskText := by decide

theorem nestedMember_of_not_obj {k : String} {v : Json} (h : ∀ hs, v ≠ .obj hs) :
    nestedMember T printable maskAll k v = maskNestedHeaders T printable maskAll v := by
  have hnone : maskHeaders T printable maskAll v = none := by
    cases v with
    | obj hs => exact absurd rfl (h hs)
    | _ => rfl
  rw [nestedMember, hnone, Option.getD_none, ite_self]

theorem isUnset_iff {v : Json} : isUnset v = true ↔ v = .null ∨ v = .str "" := by
  simp [isUnset]

theorem maskMember_sensitive {k : String} (hk : isSensitiveFieldName T k = true) (v : Json) :
    maskMember T printable maskAll k v = if isUnset v then v else .str maskText := by
  rw [maskMember, secretMember, if_pos hk]
  by_cases hv : isUnset v = true
  · rw [if_pos hv]
    rcases isUnset_iff.mp hv with rfl | rfl
    · rw [nestedMember_of_not_obj (by simp)]
      rfl
    · rw [nestedMember_of_not_obj (by simp)]
      rfl
  · rw [if_neg hv, nestedMember_of_not_obj (by simp)]
    simp only [maskNestedHeaders, redactPemLiterals, redactText_maskText]

theorem maskMember_headers {k : String} (hk : isSensitiveFieldName T k = false)
    (hheaders : isHeadersKey T k = true) (hs : Json.Members) :
    maskMember T printable maskAll k (.obj hs) =
      .obj (hs.map fun m => (m.1, maskHeaderMember T printable maskAll m.1 m.2)) := by
  rw [maskMember, secretMember, if_neg (by simp [hk]), maskSecrets, nestedMember, if_pos hheaders,
    maskHeaders, Option.getD_some, redactPemLiterals, redactMembers_eq, maskHeadersMap,
    maskSecretMembers_eq, List.map_map, List.map_map]
  simp only [Function.comp_def, maskHeaderMember, redactPemLiterals]

theorem maskSecrets_not_obj {v : Json} (h : ∀ hs, v ≠ .obj hs) (hs : Json.Members) :
    maskSecrets T v ≠ .obj hs := by
  cases v with
  | obj ms => exact absurd rfl (h ms)
  | _ => simp [maskSecrets]

theorem maskConfigPayload_not_obj {v : Json} (h : ∀ hs, v ≠ .obj hs) (hs : Json.Members) :
    maskConfigPayload T printable maskAll v ≠ .obj hs := by
  cases v with
  | obj ms => exact absurd rfl (h ms)
  | arr items => simp [maskConfigPayload_arr]
  | _ => simp [maskConfigPayload, maskSecrets, maskNestedHeaders, redactPemLiterals]

theorem maskMember_other {k : String} (hk : isSensitiveFieldName T k = false) {v : Json}
    (h : isHeadersKey T k = true → ∀ hs, v ≠ .obj hs) :
    maskMember T printable maskAll k v = maskConfigPayload T printable maskAll v := by
  rw [maskMember, secretMember, if_neg (by simp [hk]), maskConfigPayload]
  by_cases hheaders : isHeadersKey T k = true
  · rw [nestedMember_of_not_obj (maskSecrets_not_obj (h hheaders))]
  · rw [nestedMember, if_neg hheaders]

/-! ### Header values -/

theorem mem_of_hasPem {s : String} (h : hasPem s = true) : '-' ∈ s.toList := by
  have hin : "-----BEGIN".toList <:+: s.toList := by
    simp only [hasPem, PyText.contains, Bool.and_eq_true, decide_eq_true_eq] at h
    exact h.1
  exact hin.subset (by decide)

theorem strip_ne_of_hasPem {s : String} (h : hasPem s = true) : PyText.strip s ≠ "" :=
  PyText.strip_ne_of_mem (mem_of_hasPem h) (by decide)

theorem redactText_of_blank {s : String} (h : PyText.strip s = "") : redactText s = s := by
  rw [redactText, if_neg]
  intro hpem
  exact strip_ne_of_hasPem hpem h

theorem redactText_idem (s : String) : redactText (redactText s) = redactText s := by
  by_cases h : hasPem s = true
  · rw [show redactText s = maskText from if_pos h, redactText_maskText]
  · rw [show redactText s = s from if_neg h, show redactText s = s from if_neg h]

/-- A list or an object prints as more than white space. -/
theorem nonBlank_arr (items : List Json) : NonBlank printable (.arr items) := by
  apply PyText.strip_ne_of_mem (c := '[') _ (by decide)
  simp [headerText, PyRepr.text, PyRepr.reprText]

theorem nonBlank_obj (ms : Json.Members) : NonBlank printable (.obj ms) := by
  apply PyText.strip_ne_of_mem (c := '\x7b') _ (by decide)
  simp [headerText, PyRepr.text, PyRepr.reprText]

theorem nonBlank_maskText : NonBlank printable (.str maskText) := by
  show PyText.strip maskText ≠ ""
  decide

theorem nonBlank_maskSecrets {v : Json} (h : NonBlank printable v) :
    NonBlank printable (maskSecrets T v) := by
  cases v with
  | arr items => exact nonBlank_arr _
  | obj ms => exact nonBlank_obj _
  | _ => exact h

theorem nonBlank_secretMember {v : Json} (h : NonBlank printable v) (k : String) :
    NonBlank printable (secretMember T k v) := by
  unfold secretMember
  split_ifs with hk hv
  · exact h
  · exact nonBlank_maskText
  · exact nonBlank_maskSecrets h

/-- All header values masked, every value with more than white space in it is masked alike. -/
theorem maskHeaderMember_nonBlank {v : Json} (h : NonBlank printable v) (k : String) :
    maskHeaderMember T printable true k v = .str maskText := by
  rw [maskHeaderMember, maskHeader, if_pos rfl, if_neg (nonBlank_secretMember h k),
    redactText_maskText]

theorem maskHeader_maskText (k : String) : maskHeader T maskAll k maskText = maskText := by
  unfold maskHeader maskHttpHeader
  split_ifs <;> rfl

theorem maskHeader_empty (k : String) : maskHeader T maskAll k "" = "" := by
  unfold maskHeader maskHttpHeader
  split_ifs with hall hblank hname
  · rfl
  · exact absurd (by decide) hblank
  · simp at hname
  · rfl

/-- A header under a name that is sensitive as a field's too. -/
theorem maskHeaderMember_sensitive {k : String} (hk : isSensitiveFieldName T k = true) (v : Json) :
    maskHeaderMember T printable maskAll k v =
      .str (if isUnset v then "" else maskText) := by
  rw [maskHeaderMember, secretMember, if_pos hk]
  by_cases hv : isUnset v = true
  · have hempty : headerText printable v = "" := by
      rcases isUnset_iff.mp hv with rfl | rfl
      · rfl
      · rfl
    rw [if_pos hv, if_pos hv, hempty, maskHeader_empty]
    rfl
  · rw [if_neg hv, if_neg hv, show headerText printable (.str maskText) = maskText from rfl,
      maskHeader_maskText, redactText_maskText]

theorem maskHeaderMember_other {k : String} (hk : isSensitiveFieldName T k = false) (v : Json) :
    maskHeaderMember T printable maskAll k v =
      .str (redactText (maskHeader T maskAll k (headerText printable (maskSecrets T v)))) := by
  rw [maskHeaderMember, secretMember, if_neg (by simp [hk])]

/-- Masking a header a second time finds nothing left to mask. -/
theorem redactText_maskHeader_idem (k s : String) :
    redactText (maskHeader T maskAll k (redactText (maskHeader T maskAll k s))) =
      redactText (maskHeader T maskAll k s) := by
  have hmask : redactText (maskHeader T maskAll k (redactText maskText)) = redactText maskText := by
    rw [redactText_maskText, maskHeader_maskText, redactText_maskText]
  cases maskAll with
  | true =>
    by_cases hs : PyText.strip s = ""
    · have hself : maskHeader T true k s = s := by rw [maskHeader, if_pos rfl, if_pos hs]
      rw [hself, redactText_of_blank hs, hself, redactText_of_blank hs]
    · rw [show maskHeader T true k s = maskText by rw [maskHeader, if_pos rfl, if_neg hs], hmask]
  | false =>
    by_cases hname : isSensitiveHeader T k = true
    · by_cases hs : s = ""
      · rw [hs, maskHeader_empty]
        show redactText (maskHeader T false k "") = ""
        rw [maskHeader_empty]
        rfl
      · have hmasked : maskHeader T false k s = maskText := by
          simp [maskHeader, maskHttpHeader, hname, hs]
        rw [hmasked, hmask]
    · have hself : ∀ t, maskHeader T false k t = t := by
        intro t
        simp [maskHeader, maskHttpHeader, hname]
      rw [hself, hself, redactText_idem]

theorem maskHeaderMember_idem (k : String) (v : Json) :
    maskHeaderMember T printable maskAll k (maskHeaderMember T printable maskAll k v) =
      maskHeaderMember T printable maskAll k v := by
  cases hk : isSensitiveFieldName T k with
  | true =>
    rw [maskHeaderMember_sensitive hk, maskHeaderMember_sensitive hk]
    by_cases hv : isUnset v = true
    · rw [if_pos hv]
      rfl
    · rw [if_neg hv]
      rfl
  | false =>
    have hstr : ∀ s, headerText printable (maskSecrets T (.str s)) = s := fun s => rfl
    rw [maskHeaderMember_other hk v, maskHeaderMember_other hk, hstr, redactText_maskHeader_idem]

/-! ### Idempotence -/

mutual
theorem maskConfigPayload_idem : ∀ v : Json,
    maskConfigPayload T printable maskAll (maskConfigPayload T printable maskAll v) =
      maskConfigPayload T printable maskAll v
  | .null => rfl
  | .bool _ => rfl
  | .int _ => rfl
  | .float _ => rfl
  | .str s => by
    show Json.str (redactText (redactText s)) = .str (redactText s)
    rw [redactText_idem]
  | .arr items => by
    rw [maskConfigPayload_arr, maskConfigPayload_arr, maskItems_idem items]
  | .obj ms => by
    rw [maskConfigPayload_obj, maskConfigPayload_obj, maskMembers_idem ms]

theorem maskItems_idem : ∀ items : List Json,
    (items.map (maskConfigPayload T printable maskAll)).map
        (maskConfigPayload T printable maskAll) =
      items.map (maskConfigPayload T printable maskAll)
  | [] => rfl
  | v :: vs => by
    rw [List.map_cons, List.map_cons, maskConfigPayload_idem v, maskItems_idem vs]

theorem maskMembers_idem : ∀ ms : Json.Members,
    (ms.map fun m => (m.1, maskMember T printable maskAll m.1 m.2)).map
        (fun m => (m.1, maskMember T printable maskAll m.1 m.2)) =
      ms.map fun m => (m.1, maskMember T printable maskAll m.1 m.2)
  | [] => rfl
  | (k, v) :: ms => by
    have hv : maskMember T printable maskAll k (maskMember T printable maskAll k v) =
        maskMember T printable maskAll k v := by
      cases hk : isSensitiveFieldName T k with
      | true =>
        rw [maskMember_sensitive hk v]
        by_cases hset : isUnset v = true
        · rw [if_pos hset, maskMember_sensitive hk, if_pos hset]
        · rw [if_neg hset, maskMember_sensitive hk]
          rfl
      | false =>
        by_cases hobj : isHeadersKey T k = true ∧ ∃ hs, v = .obj hs
        · obtain ⟨hheaders, hs, rfl⟩ := hobj
          rw [maskMember_headers hk hheaders, maskMember_headers hk hheaders, List.map_map]
          simp only [Function.comp_def, maskHeaderMember_idem]
        · have hplain : isHeadersKey T k = true → ∀ hs, v ≠ .obj hs :=
            fun hheaders hs heq => hobj ⟨hheaders, hs, heq⟩
          rw [maskMember_other hk hplain,
            maskMember_other hk fun hheaders => maskConfigPayload_not_obj (hplain hheaders),
            maskConfigPayload_idem v]
    rw [List.map_cons, List.map_cons, maskMembers_idem ms, hv]
end

/-! ### Secrets that only show in a printed value -/

def pemBegin : List Char := "-----BEGIN".toList
def pemEnd : List Char := "-----END".toList

theorem legible_pemBegin : PyRepr.Legible pemBegin := by
  decide +kernel

theorem legible_pemEnd : PyRepr.Legible pemEnd := by
  decide +kernel

theorem hasPem_iff {s : String} :
    hasPem s = true ↔ pemBegin <:+: s.toList ∧ pemEnd <:+: s.toList := by
  rw [hasPem, Bool.and_eq_true, PyText.contains, PyText.contains, decide_eq_true_eq,
    decide_eq_true_eq]
  rfl

theorem hasPem_reprText_str {s : String} (h : hasPem s = true) :
    hasPem (PyRepr.reprText printable (.str s)) = true := by
  obtain ⟨hbegin, hend⟩ := hasPem_iff.mp h
  rw [PyRepr.reprText]
  exact hasPem_iff.mpr ⟨PyRepr.infix_reprStr legible_pemBegin hbegin,
    PyRepr.infix_reprStr legible_pemEnd hend⟩

theorem hasPem_reprText_arr {items : List Json} {v : Json} (hv : v ∈ items)
    (h : hasPem (PyRepr.reprText printable v) = true) :
    hasPem (PyRepr.reprText printable (.arr items)) = true := by
  obtain ⟨hbegin, hend⟩ := hasPem_iff.mp h
  exact hasPem_iff.mpr ⟨PyRepr.infix_reprText_item hv hbegin, PyRepr.infix_reprText_item hv hend⟩

theorem hasPem_reprText_obj {ms : Json.Members} {k : String} {v : Json} (hv : (k, v) ∈ ms)
    (h : hasPem (PyRepr.reprText printable v) = true) :
    hasPem (PyRepr.reprText printable (.obj ms)) = true := by
  obtain ⟨hbegin, hend⟩ := hasPem_iff.mp h
  exact hasPem_iff.mpr
    ⟨PyRepr.infix_reprText_member hv hbegin, PyRepr.infix_reprText_member hv hend⟩

/-- Two values are one after the first pass, or both print with a PEM block. -/
def AlikeShown (printable : Char → Bool) (v w : Json) : Prop :=
  v = w ∨ (hasPem (PyRepr.reprText printable v) = true ∧
    hasPem (PyRepr.reprText printable w) = true)

/-- One more member in front of two lists of members. -/
theorem shown_cons {k : String} {v w : Json} {ms ns : Json.Members}
    (hhead : AlikeShown printable v w)
    (htail : ms = ns ∨ (∃ m ∈ ms, hasPem (PyRepr.reprText printable m.2) = true) ∧
      ∃ n ∈ ns, hasPem (PyRepr.reprText printable n.2) = true) :
    (k, v) :: ms = (k, w) :: ns ∨
      (∃ m ∈ (k, v) :: ms, hasPem (PyRepr.reprText printable m.2) = true) ∧
        ∃ n ∈ (k, w) :: ns, hasPem (PyRepr.reprText printable n.2) = true := by
  rcases hhead with rfl | ⟨hv, hw⟩
  · rcases htail with rfl | ⟨⟨m, hm, hms⟩, n, hn, hns⟩
    · exact .inl rfl
    · exact .inr ⟨⟨m, List.mem_cons_of_mem _ hm, hms⟩, n, List.mem_cons_of_mem _ hn, hns⟩
  · exact .inr ⟨⟨_, List.mem_cons_self, hv⟩, _, List.mem_cons_self, hw⟩

/-- A list of members with a PEM block in the print of one of them. -/
theorem shown_obj {ms ns : Json.Members}
    (h : ms = ns ∨ (∃ m ∈ ms, hasPem (PyRepr.reprText printable m.2) = true) ∧
      ∃ n ∈ ns, hasPem (PyRepr.reprText printable n.2) = true) :
    AlikeShown printable (.obj ms) (.obj ns) := by
  rcases h with rfl | ⟨⟨⟨k, x⟩, hx, hxs⟩, ⟨l, y⟩, hy, hys⟩
  · exact .inl rfl
  · exact .inr ⟨hasPem_reprText_obj hx hxs, hasPem_reprText_obj hy hys⟩

theorem secretMember_set {k : String} (hk : isSensitiveFieldName T k = true) {v : Json}
    (hv : isUnset v = false) : secretMember T k v = .str maskText := by
  rw [secretMember, if_pos hk, if_neg (by simp [hv])]

/-- Where one of two such values is unset, they are the same. -/
theorem Alike.eq_of_isUnset {v w : Json} (h : Alike T printable maskAll v w)
    (hunset : isUnset v = true ∨ isUnset w = true) : v = w := by
  cases h with
  | same => rfl
  | pem hs ht =>
    rcases hunset with hv | hw
    · rcases isUnset_iff.mp hv with hv | hv
      · cases hv
      · cases hv
        exact absurd hs (by decide)
    · rcases isUnset_iff.mp hw with hw | hw
      · cases hw
      · cases hw
        exact absurd ht (by decide)
  | arr => simp [isUnset] at hunset
  | obj => simp [isUnset] at hunset

theorem Alike.secretMember_eq {k : String} (hk : isSensitiveFieldName T k = true) {v w : Json}
    (h : Alike T printable maskAll v w) : secretMember T k v = secretMember T k w := by
  by_cases hunset : isUnset v = true ∨ isUnset w = true
  · rw [h.eq_of_isUnset hunset]
  · rw [not_or, Bool.not_eq_true, Bool.not_eq_true] at hunset
    rw [secretMember_set hk hunset.1, secretMember_set hk hunset.2]

mutual
/-- Where header values are not all masked, what the first pass leaves of a secret is a PEM block,
and it shows in the print of the value around it. -/
theorem Alike.shown {v w : Json} : Alike T printable false v w →
    AlikeShown printable (maskSecrets T v) (maskSecrets T w)
  | .same _ => .inl rfl
  | .pem hs ht => .inr ⟨hasPem_reprText_str hs, hasPem_reprText_str ht⟩
  | .arr hitems => by
    rw [maskSecrets, maskSecrets]
    rcases AlikeItems.shown hitems with heq | ⟨⟨x, hx, hxs⟩, y, hy, hys⟩
    · exact .inl (congrArg Json.arr heq)
    · exact .inr ⟨hasPem_reprText_arr hx hxs, hasPem_reprText_arr hy hys⟩
  | .obj hmembers => by
    rw [maskSecrets, maskSecrets, maskSecretMembers_eq, maskSecretMembers_eq]
    exact shown_obj (AlikeMembers.shown hmembers)

theorem AlikeItems.shown {xs ys : List Json} : AlikeItems T printable false xs ys →
    maskSecretItems T xs = maskSecretItems T ys ∨
      (∃ x ∈ maskSecretItems T xs, hasPem (PyRepr.reprText printable x) = true) ∧
        ∃ y ∈ maskSecretItems T ys, hasPem (PyRepr.reprText printable y) = true
  | .nil => .inl rfl
  | .cons hhead htail => by
    rw [maskSecretItems, maskSecretItems]
    rcases Alike.shown hhead with heq | ⟨hx, hy⟩
    · rcases AlikeItems.shown htail with hrest | ⟨⟨x, hx, hxs⟩, y, hy, hys⟩
      · exact .inl (by rw [heq, hrest])
      · exact .inr ⟨⟨x, List.mem_cons_of_mem _ hx, hxs⟩, y, List.mem_cons_of_mem _ hy, hys⟩
    · exact .inr ⟨⟨_, List.mem_cons_self, hx⟩, _, List.mem_cons_self, hy⟩

theorem AlikeMembers.shown {inHeaders : Bool} {ms ns : Json.Members} :
    AlikeMembers T printable false inHeaders ms ns →
    (ms.map fun m => (m.1, secretMember T m.1 m.2)) =
        (ns.map fun m => (m.1, secretMember T m.1 m.2)) ∨
      (∃ m ∈ ms.map fun m => (m.1, secretMember T m.1 m.2),
        hasPem (PyRepr.reprText printable m.2) = true) ∧
      ∃ n ∈ ns.map fun m => (m.1, secretMember T m.1 m.2),
        hasPem (PyRepr.reprText printable n.2) = true
  | .nil => .inl rfl
  | .cons (k := k) hhead htail => by
    rw [List.map_cons, List.map_cons]
    refine shown_cons ?_ (AlikeMembers.shown htail)
    cases hk : isSensitiveFieldName T k with
    | true => exact .inl (hhead.secretMember_eq hk)
    | false =>
      rw [secretMember, if_neg (by simp [hk]), secretMember, if_neg (by simp [hk])]
      exact Alike.shown hhead
  | .secret hk hv hw htail => by
    rw [List.map_cons, List.map_cons, secretMember_set hk hv, secretMember_set hk hw]
    exact shown_cons (.inl rfl) (AlikeMembers.shown htail)
  | .headers (k := k) _ hmaps htail => by
    rw [List.map_cons, List.map_cons]
    refine shown_cons ?_ (AlikeMembers.shown htail)
    cases hk : isSensitiveFieldName T k with
    | true => exact .inl (by rw [secretMember_set hk rfl, secretMember_set hk rfl])
    | false =>
      rw [secretMember, if_neg (by simp [hk]), secretMember, if_neg (by simp [hk]), maskSecrets,
        maskSecrets, maskSecretMembers_eq, maskSecretMembers_eq]
      exact shown_obj (AlikeMembers.shown hmaps)
  | .headerValue hall _ _ _ => absurd hall (by decide)
end

/-! ### Noninterference -/

theorem redactText_maskHeader_pem (k : String) {s : String} (h : hasPem s = true) :
    redactText (maskHeader T false k s) = maskText := by
  have hmasked : maskHeader T false k s = maskText ∨ maskHeader T false k s = s := by
    unfold maskHeader maskHttpHeader
    rw [if_neg (by simp)]
    split_ifs
    · exact .inl rfl
    · exact .inr rfl
  rcases hmasked with hmask | hself
  · rw [hmask, redactText_maskText]
  · rw [hself, redactText, if_pos h]

/-- Two header texts that are one, or have a PEM block each, are masked alike. -/
theorem maskHeaderMember_eq_of_text {k : String} (hk : isSensitiveFieldName T k = false)
    {v w : Json}
    (h : headerText printable (maskSecrets T v) = headerText printable (maskSecrets T w) ∨
      hasPem (headerText printable (maskSecrets T v)) = true ∧
        hasPem (headerText printable (maskSecrets T w)) = true) :
    maskHeaderMember T printable false k v = maskHeaderMember T printable false k w := by
  rw [maskHeaderMember_other hk, maskHeaderMember_other hk]
  rcases h with heq | ⟨hv, hw⟩
  · rw [heq]
  · rw [redactText_maskHeader_pem k hv, redactText_maskHeader_pem k hw]

/-- Header values that are objects. -/
theorem AlikeMembers.maskHeaderMember_eq {inHeaders : Bool} {ms ns : Json.Members}
    (h : AlikeMembers T printable maskAll inHeaders ms ns) (k : String) :
    maskHeaderMember T printable maskAll k (.obj ms) =
      maskHeaderMember T printable maskAll k (.obj ns) := by
  cases hk : isSensitiveFieldName T k with
  | true => rw [maskHeaderMember_sensitive hk, maskHeaderMember_sensitive hk]; rfl
  | false =>
    cases maskAll with
    | true =>
      rw [maskHeaderMember_nonBlank (nonBlank_obj ms), maskHeaderMember_nonBlank (nonBlank_obj ns)]
    | false =>
      apply maskHeaderMember_eq_of_text hk
      rw [maskSecrets, maskSecrets, maskSecretMembers_eq, maskSecretMembers_eq]
      rcases shown_obj h.shown with heq | hshown
      · exact .inl (congrArg _ heq)
      · exact .inr hshown

/-- Two header values are masked alike whatever the header. -/
theorem Alike.maskHeaderMember_eq {v w : Json} (h : Alike T printable maskAll v w) (k : String) :
    maskHeaderMember T printable maskAll k v = maskHeaderMember T printable maskAll k w := by
  cases hk : isSensitiveFieldName T k with
  | true => rw [maskHeaderMember, maskHeaderMember, h.secretMember_eq hk]
  | false =>
    cases h with
    | same => rfl
    | obj hmembers => exact hmembers.maskHeaderMember_eq k
    | pem hs ht =>
      cases maskAll with
      | true =>
        rw [maskHeaderMember_nonBlank (v := .str _) (strip_ne_of_hasPem hs),
          maskHeaderMember_nonBlank (v := .str _) (strip_ne_of_hasPem ht)]
      | false => exact maskHeaderMember_eq_of_text hk (.inr ⟨hs, ht⟩)
    | arr hitems =>
      cases maskAll with
      | true =>
        rw [maskHeaderMember_nonBlank (nonBlank_arr _), maskHeaderMember_nonBlank (nonBlank_arr _)]
      | false =>
        apply maskHeaderMember_eq_of_text hk
        rcases (Alike.arr hitems).shown with heq | hshown
        · exact .inl (congrArg _ heq)
        · exact .inr hshown

/-- Two header maps are masked alike. -/
theorem AlikeMembers.maskHeaders_eq {inHeaders : Bool} {hs js : Json.Members}
    (h : AlikeMembers T printable maskAll inHeaders hs js) :
    (hs.map fun m => (m.1, maskHeaderMember T printable maskAll m.1 m.2)) =
      js.map fun m => (m.1, maskHeaderMember T printable maskAll m.1 m.2) := by
  induction hs generalizing js with
  | nil =>
    cases h
    rfl
  | cons m ms ih =>
    cases h with
    | cons hhead htail =>
      rw [List.map_cons, List.map_cons, ih htail, hhead.maskHeaderMember_eq]
    | secret hk hv hw htail =>
      rw [List.map_cons, List.map_cons, ih htail, maskHeaderMember, maskHeaderMember,
        secretMember_set hk hv, secretMember_set hk hw]
    | headers _ hmaps htail =>
      rw [List.map_cons, List.map_cons, ih htail, hmaps.maskHeaderMember_eq]
    | headerValue hall hv hw htail =>
      subst hall
      rw [List.map_cons, List.map_cons, ih htail, maskHeaderMember_nonBlank hv,
        maskHeaderMember_nonBlank hw]

mutual
/-- Two configurations that differ in secrets only are masked alike. -/
theorem Alike.mask_eq {v w : Json} : Alike T printable maskAll v w →
    maskConfigPayload T printable maskAll v = maskConfigPayload T printable maskAll w
  | .same _ => rfl
  | .pem (s := s) (t := t) hs ht => by
    show Json.str (redactText s) = .str (redactText t)
    rw [redactText, if_pos hs, redactText, if_pos ht]
  | .arr hitems => by rw [maskConfigPayload_arr, maskConfigPayload_arr, AlikeItems.mask_eq hitems]
  | .obj hmembers => by
    rw [maskConfigPayload_obj, maskConfigPayload_obj, AlikeMembers.mask_eq hmembers rfl]

theorem AlikeItems.mask_eq {xs ys : List Json} : AlikeItems T printable maskAll xs ys →
    xs.map (maskConfigPayload T printable maskAll) = ys.map (maskConfigPayload T printable maskAll)
  | .nil => rfl
  | .cons hhead htail => by
    rw [List.map_cons, List.map_cons, Alike.mask_eq hhead, AlikeItems.mask_eq htail]

theorem AlikeMembers.mask_eq {inHeaders : Bool} {ms ns : Json.Members} :
    AlikeMembers T printable maskAll inHeaders ms ns → inHeaders = false →
    (ms.map fun m => (m.1, maskMember T printable maskAll m.1 m.2)) =
      ns.map fun m => (m.1, maskMember T printable maskAll m.1 m.2)
  | .nil, _ => rfl
  | .cons (k := k) (v := v) (w := w) hhead htail, hin => by
    have hmember : maskMember T printable maskAll k v = maskMember T printable maskAll k w := by
      cases hk : isSensitiveFieldName T k with
      | true => rw [maskMember, maskMember, hhead.secretMember_eq hk]
      | false =>
        have hmask := Alike.mask_eq hhead
        by_cases hobj : isHeadersKey T k = true ∧ ∃ hs, v = .obj hs
        · obtain ⟨hheaders, hs, rfl⟩ := hobj
          cases hhead with
          | same => rfl
          | obj hmembers =>
            rw [maskMember_headers hk hheaders, maskMember_headers hk hheaders,
              hmembers.maskHeaders_eq]
        · have hv : isHeadersKey T k = true → ∀ hs, v ≠ .obj hs :=
            fun hheaders hs heq => hobj ⟨hheaders, hs, heq⟩
          have hw : isHeadersKey T k = true → ∀ hs, w ≠ .obj hs := by
            rintro hheaders hs rfl
            cases hhead with
            | same => exact hv hheaders hs rfl
            | obj hmembers => exact hv hheaders _ rfl
          rw [maskMember_other hk hv, maskMember_other hk hw, hmask]
    rw [List.map_cons, List.map_cons, hmember, AlikeMembers.mask_eq htail hin]
  | .secret hk hv hw htail, hin => by
    rw [List.map_cons, List.map_cons, maskMember, maskMember, secretMember_set hk hv,
      secretMember_set hk hw, AlikeMembers.mask_eq htail hin]
  | .headers (k := k) hheaders hmaps htail, hin => by
    rw [List.map_cons, List.map_cons, AlikeMembers.mask_eq htail hin]
    cases hk : isSensitiveFieldName T k with
    | true => rw [maskMember_sensitive hk, maskMember_sensitive hk]; rfl
    | false =>
      rw [maskMember_headers hk hheaders, maskMember_headers hk hheaders, hmaps.maskHeaders_eq]
  | .headerValue _ _ _ _, hin => absurd hin (by decide)
end

/-- Masking tells nothing of the secrets of a configuration, and masks it once and for all. -/
theorem maskConfigPayload_noninterference (T : CaseTable) (printable : Char → Bool)
    (maskAllHeaderValues : Bool) {v w : Json} (h : Alike T printable maskAllHeaderValues v w) :
    maskConfigPayload T printable maskAllHeaderValues v =
        maskConfigPayload T printable maskAllHeaderValues w ∧
      maskConfigPayload T printable maskAllHeaderValues
          (maskConfigPayload T printable maskAllHeaderValues v) =
        maskConfigPayload T printable maskAllHeaderValues v :=
  ⟨h.mask_eq, maskConfigPayload_idem v⟩

/-- A webhook destination, with the header value, the password and the key it may hold. -/
def webhookConfig (team password key : String) : Json :=
  .obj [("url", .str "https://siem.example"), ("headers", .obj [("X-Team", .str team)]),
    ("auth", .obj [("Password", .str password)]), ("trust", .arr [.str key])]

example : maskConfigPayload PyText.asciiCase (fun _ => false) true
    (webhookConfig "red" "alpha" "-----BEGIN KEY-----A-----END KEY-----") =
      .obj [("url", .str "https://siem.example"), ("headers", .obj [("X-Team", .str "********")]),
        ("auth", .obj [("Password", .str "********")]), ("trust", .arr [.str "********"])] := by
  decide +kernel

theorem webhookConfig_noninterference :
    let red := webhookConfig "red" "alpha" "-----BEGIN KEY-----A-----END KEY-----"
    let blue := webhookConfig "blue" "beta" "-----BEGIN KEY-----B-----END KEY-----"
    red ≠ blue ∧
    maskConfigPayload PyText.asciiCase (fun _ => false) true red =
        maskConfigPayload PyText.asciiCase (fun _ => false) true blue ∧
      maskConfigPayload PyText.asciiCase (fun _ => false) true
          (maskConfigPayload PyText.asciiCase (fun _ => false) true red) =
        maskConfigPayload PyText.asciiCase (fun _ => false) true red := by
  intro red blue
  refine ⟨by decide +kernel, ?_⟩
  apply maskConfigPayload_noninterference
  apply Alike.obj
  apply AlikeMembers.cons (.same _)
  apply AlikeMembers.headers (by decide +kernel)
  · exact .headerValue rfl (by decide +kernel) (by decide +kernel) .nil
  apply AlikeMembers.cons
  · exact .obj (.secret (by decide +kernel) rfl rfl .nil)
  apply AlikeMembers.cons
  · exact .arr (.cons (.pem (by decide +kernel) (by decide +kernel)) .nil)
  exact .nil

end Secrets
