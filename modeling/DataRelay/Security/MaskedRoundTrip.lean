import DataRelay.Lib.JsonPath
import DataRelay.Security.MaskingNoninterference

/-! A configuration is read masked and written back as it is. Masks under a name find the stored
value again; masks in a list, and header values that masking turned into text, do not. -/
namespace Secrets
open PyText (CaseTable)
open JsonPath

variable (T : CaseTable) (printable : Char → Bool) (maskAll : Bool)

/-! ### What comes back -/

/-- A header value that is stored again as it was. -/
def HeaderRestorable (h : String × Json) : Prop :=
  (∃ s, h.2 = .str s) ∨ (isSensitiveFieldName T h.1 = true ∧ h.2 ≠ .null)

mutual
/-- The configuration comes back from its masked form: no PEM text stands in a list or alone, and
header values are texts, unless the header's name is that of a sensitive field. -/
def Restorable : Json → Prop
  | .str s => hasPem s = false
  | .arr items => RestorableItems items
  | .obj members => RestorableMembers members
  | _ => True

def RestorableItems : List Json → Prop
  | [] => True
  | v :: vs => Restorable v ∧ RestorableItems vs

def RestorableMembers : Json.Members → Prop
  | [] => True
  | (k, v) :: ms =>
    (isSensitiveFieldName T k = true ∨ (∃ s, v = .str s) ∨
      if isHeadersKey T k = true ∧ isObject v = true then
        ∀ h ∈ membersOf v, HeaderRestorable T h
      else Restorable v) ∧ RestorableMembers ms
end

/-! ### What is stored under one name -/

/-- What is stored for a submitted member. -/
def preserveMember (k : String) (v prior : Json) : Json :=
  if isSensitiveFieldName T k ∧ v = .str maskText ∧ ¬ isUnset prior then prior
  else if v = .str maskText ∧ isText prior then prior
  else preserveMaskedSecrets T v prior

/-- A stored value that takes the place of a mask under this name. -/
def Taken (k : String) (prior : Json) : Prop :=
  isSensitiveFieldName T k = true ∧ isUnset prior = false ∨ isText prior = true

theorem preserveMembers_eq (ms es : Json.Members) :
    preserveMembers T ms es =
      ms.map fun m => (m.1, preserveMember T m.1 m.2 ((Dict.get? m.1 es).getD .null)) := by
  induction ms with
  | nil => rfl
  | cons m ms ih =>
    obtain ⟨k, v⟩ := m
    rw [preserveMembers, ih]
    rfl

theorem preserveItems_eq (xs ys : List Json) :
    preserveItems T xs ys =
      xs.mapIdx fun i v => preserveMaskedSecrets T v (ys[i]?.getD .null) := by
  induction xs generalizing ys with
  | nil => rfl
  | cons v vs ih =>
    rw [preserveItems, ih, List.mapIdx_cons]
    cases ys with
    | nil => simp
    | cons y ys => simp

variable {T printable maskAll}

theorem preserveMember_mask {k : String} {prior : Json} (h : Taken T k prior) :
    preserveMember T k (.str maskText) prior = prior := by
  unfold preserveMember
  split_ifs with hfield htext
  · rfl
  · rfl
  · rcases h with ⟨hk, hset⟩ | htaken
    · exact absurd ⟨hk, rfl, by simp [hset]⟩ hfield
    · exact absurd ⟨rfl, htaken⟩ htext

theorem preserveMember_mask_of_not_taken {k : String} {prior : Json} (h : ¬ Taken T k prior) :
    preserveMember T k (.str maskText) prior = .str maskText := by
  unfold preserveMember
  split_ifs with hfield htext
  · exact absurd (.inl ⟨hfield.1, by simpa using hfield.2.2⟩) h
  · exact absurd (.inr htext.2) h
  · rfl

theorem preserveMember_other {k : String} {v : Json} (h : v ≠ .str maskText) (prior : Json) :
    preserveMember T k v prior = preserveMaskedSecrets T v prior := by
  unfold preserveMember
  rw [if_neg (by simp [h]), if_neg (by simp [h])]

theorem isText_eq_true {prior : Json} : isText prior = true ↔ ∃ s, prior = .str s ∧ s ≠ "" := by
  cases prior with
  | str s => simp [isText]
  | _ => simp [isText]

theorem preserveMaskedSecrets_str (s : String) (prior : Json) :
    preserveMaskedSecrets T (.str s) prior = .str s := rfl

/-- The masked form of a value that is no text is not a text. -/
theorem maskConfigPayload_ne_str {v : Json} (h : ∀ s, v ≠ .str s) (s : String) :
    maskConfigPayload T printable maskAll v ≠ .str s := by
  cases v with
  | str t => exact absurd rfl (h t)
  | arr items => simp [maskConfigPayload_arr]
  | obj ms => simp [maskConfigPayload_obj]
  | _ => simp [maskConfigPayload, maskSecrets, maskNestedHeaders, redactPemLiterals]

theorem maskConfigPayload_str (s : String) :
    maskConfigPayload T printable maskAll (.str s) = .str (redactText s) := rfl

theorem redactText_eq_maskText {s : String} (h : redactText s = maskText) :
    s ≠ "" := by
  rintro rfl
  exact absurd h (by decide)

theorem redactText_of_ne {s : String} (h : redactText s ≠ maskText) : redactText s = s := by
  unfold redactText at h ⊢
  split_ifs at h ⊢ with hpem
  · exact absurd rfl h
  · rfl

/-- A text under a name is stored again as it was. -/
theorem preserveMember_redactText (k s : String) :
    preserveMember T k (.str (redactText s)) (.str s) = .str s := by
  by_cases hmask : redactText s = maskText
  · rw [hmask]
    exact preserveMember_mask (.inr (isText_eq_true.mpr ⟨s, rfl, redactText_eq_maskText hmask⟩))
  · rw [preserveMember_other (by simpa using hmask), redactText_of_ne hmask]
    rfl

/-- One header: its text as it is, or the mask in the place of a text. -/
theorem maskHeader_cases (k s : String) :
    maskHeader T maskAll k s = s ∨ (maskHeader T maskAll k s = maskText ∧ s ≠ "") := by
  by_cases hs : s = ""
  · rw [hs]
    exact .inl (maskHeader_empty k)
  · unfold maskHeader maskHttpHeader
    split_ifs
    · exact .inl rfl
    · exact .inr ⟨rfl, hs⟩
    · exact .inr ⟨rfl, hs⟩
    · exact .inl rfl

/-- What is stored for the masked form of a header. -/
theorem preserveMember_header_iff (m : String × Json) :
    preserveMember T m.1 (maskHeaderMember T printable maskAll m.1 m.2) m.2 = m.2 ↔
      HeaderRestorable T m := by
  obtain ⟨k, u⟩ := m
  cases hk : isSensitiveFieldName T k with
  | true =>
    rw [maskHeaderMember_sensitive hk]
    by_cases hset : isUnset u = true
    · rw [if_pos hset, preserveMember_other (by decide), preserveMaskedSecrets_str]
      rcases isUnset_iff.mp hset with rfl | rfl
      · simp [HeaderRestorable]
      · simp [HeaderRestorable]
    · rw [if_neg hset, preserveMember_mask (.inl ⟨hk, by simpa using hset⟩)]
      have hne : u ≠ .null := by
        rintro rfl
        exact hset rfl
      simp [HeaderRestorable, hk, hne]
  | false =>
    rw [maskHeaderMember_other hk]
    by_cases htext : ∃ s, u = .str s
    · obtain ⟨s, rfl⟩ := htext
      have hrestored : preserveMember T k
          (.str (redactText (maskHeader T maskAll k s))) (.str s) = .str s := by
        rcases maskHeader_cases k s with hself | ⟨hmask, hs⟩
        · rw [hself]
          exact preserveMember_redactText k s
        · rw [hmask, redactText_maskText]
          exact preserveMember_mask (.inr (isText_eq_true.mpr ⟨s, rfl, hs⟩))
      exact iff_of_true hrestored (.inl ⟨s, rfl⟩)
    · have hstr : ∀ t, preserveMember T k (.str t) u = .str t := by
        intro t
        by_cases ht : t = maskText
        · rw [ht]
          apply preserveMember_mask_of_not_taken
          rintro (⟨hsens, -⟩ | htaken)
          · rw [hk] at hsens
            cases hsens
          · obtain ⟨s, rfl, -⟩ := isText_eq_true.mp htaken
            exact htext ⟨s, rfl⟩
        · exact preserveMember_other (by simpa using ht) u
      apply iff_of_false
      · rw [hstr]
        rintro heq
        exact htext ⟨_, heq.symm⟩
      · rintro (hs | ⟨hsens, -⟩)
        · exact htext hs
        · simp only at hsens
          rw [hk] at hsens
          cases hsens

theorem map_eq_self_iff {α : Type*} {f : α → α} {l : List α} : l.map f = l ↔ ∀ x ∈ l, f x = x := by
  conv_lhs => rw [← List.map_id l, List.map_map]
  exact List.map_inj_left

/-- The stored members are the ones of before exactly where each of them is. -/
theorem preserveMembers_map_eq_iff {ms : Json.Members} (hkeys : (ms.map Prod.fst).Nodup)
    (f : String → Json → Json) :
    preserveMembers T (ms.map fun m => (m.1, f m.1 m.2)) ms = ms ↔
      ∀ m ∈ ms, preserveMember T m.1 (f m.1 m.2) m.2 = m.2 := by
  rw [preserveMembers_eq, List.map_map, map_eq_self_iff]
  apply forall₂_congr
  rintro ⟨k, v⟩ hm
  have hprior : Dict.get? k ms = some v := Dict.get?_of_mem hkeys hm
  simp [hprior]

theorem preserveItems_map_eq_iff (xs : List Json) (f : Json → Json) :
    preserveItems T (xs.map f) xs = xs ↔ ∀ v ∈ xs, preserveMaskedSecrets T (f v) v = v := by
  rw [preserveItems_eq]
  constructor
  · intro h v hv
    obtain ⟨i, hi, rfl⟩ := List.mem_iff_getElem.mp hv
    have hat := congrArg (fun l => l[i]?) h
    simpa [hi] using hat
  · intro h
    refine List.ext_getElem ?_ ?_
    · simp
    · intro i hi hi'
      simpa [hi'] using h xs[i] (List.getElem_mem hi')

theorem restorableItems_iff (xs : List Json) :
    RestorableItems T xs ↔ ∀ v ∈ xs, Restorable T v := by
  induction xs with
  | nil => simp [RestorableItems]
  | cons v vs ih => simp [RestorableItems, ih]

/-- A member that comes back. -/
def RestorableMember (T : CaseTable) (m : String × Json) : Prop :=
  isSensitiveFieldName T m.1 = true ∨ (∃ s, m.2 = .str s) ∨
    if isHeadersKey T m.1 = true ∧ isObject m.2 = true then
      ∀ h ∈ membersOf m.2, HeaderRestorable T h
    else Restorable T m.2

theorem restorableMembers_iff (ms : Json.Members) :
    RestorableMembers T ms ↔ ∀ m ∈ ms, RestorableMember T m := by
  induction ms with
  | nil => simp [RestorableMembers]
  | cons m ms ih =>
    obtain ⟨k, v⟩ := m
    simp only [RestorableMembers, ih, List.forall_mem_cons, RestorableMember]

theorem preserveMember_mask_iff {k : String} {v : Json} (hwf : v.WellFormed)
    (ih : preserveMaskedSecrets T (maskConfigPayload T printable maskAll v) v = v ↔
      Restorable T v) :
    preserveMember T k (maskMember T printable maskAll k v) v = v ↔ RestorableMember T (k, v) := by
  cases hk : isSensitiveFieldName T k with
  | true =>
    refine iff_of_true ?_ (.inl hk)
    rw [maskMember_sensitive hk]
    by_cases hset : isUnset v = true
    · rw [if_pos hset]
      rcases isUnset_iff.mp hset with rfl | rfl
      · exact preserveMember_other (by simp) _
      · exact preserveMember_other (by decide) _
    · rw [if_neg hset, preserveMember_mask (.inl ⟨hk, by simpa using hset⟩)]
  | false =>
    simp only [RestorableMember, hk, Bool.false_eq_true, false_or]
    by_cases htext : ∃ s, v = .str s
    · refine iff_of_true ?_ (.inl htext)
      obtain ⟨s, rfl⟩ := htext
      rw [maskMember_other hk fun _ hs => by simp, maskConfigPayload_str]
      exact preserveMember_redactText k s
    · rw [or_iff_right htext]
      by_cases hheaders : isHeadersKey T k = true ∧ isObject v = true
      · rw [if_pos hheaders]
        obtain ⟨hkey, hobj⟩ := hheaders
        cases v with
        | obj hs =>
          rw [maskMember_headers hk hkey, preserveMember_other (by simp), preserveMaskedSecrets,
            membersOf, Json.obj.injEq, preserveMembers_map_eq_iff hwf.keys]
          exact forall₂_congr fun m _ => preserveMember_header_iff m
        | _ => simp [isObject] at hobj
      · rw [if_neg hheaders, ← ih, maskMember_other hk, preserveMember_other]
        · exact maskConfigPayload_ne_str (fun s hs => htext ⟨s, hs⟩) maskText
        · rintro hkey hs rfl
          exact hheaders ⟨hkey, rfl⟩

mutual
/-- Written back from its masked form, a configuration is as it was exactly where it is
restorable. -/
theorem preserve_mask_iff : ∀ v : Json, v.WellFormed →
    (preserveMaskedSecrets T (maskConfigPayload T printable maskAll v) v = v ↔ Restorable T v)
  | .null, _ => iff_of_true rfl trivial
  | .bool _, _ => iff_of_true rfl trivial
  | .int _, _ => iff_of_true rfl trivial
  | .float _, _ => iff_of_true rfl trivial
  | .str s, _ => by
    rw [maskConfigPayload_str, preserveMaskedSecrets_str, Json.str.injEq, Restorable, redactText]
    cases hpem : hasPem s with
    | true =>
      refine iff_of_false (fun heq => ?_) (by simp)
      rw [if_pos rfl] at heq
      rw [← heq] at hpem
      exact absurd hpem (by decide)
    | false => simp
  | .arr items, hwf => by
    rw [maskConfigPayload_arr, preserveMaskedSecrets, listOf, Json.arr.injEq,
      preserveItems_map_eq_iff, Restorable, restorableItems_iff]
    exact forall₂_congr fun v hv => preserve_maskItems_iff items v hv (hwf.item hv)
  | .obj ms, hwf => by
    rw [maskConfigPayload_obj, preserveMaskedSecrets, membersOf, Json.obj.injEq,
      preserveMembers_map_eq_iff hwf.keys, Restorable, restorableMembers_iff]
    refine forall₂_congr fun m hm => ?_
    exact preserveMember_mask_iff (hwf.member hm) (preserve_maskMembers_iff ms m hm (hwf.member hm))

theorem preserve_maskItems_iff : ∀ items : List Json, ∀ v ∈ items, v.WellFormed →
    (preserveMaskedSecrets T (maskConfigPayload T printable maskAll v) v = v ↔ Restorable T v)
  | [], _, hv, _ => absurd hv List.not_mem_nil
  | w :: ws, v, hv, hwf => by
    rcases List.mem_cons.mp hv with heq | hv
    · rw [heq] at hwf ⊢
      exact preserve_mask_iff w hwf
    · exact preserve_maskItems_iff ws v hv hwf

theorem preserve_maskMembers_iff : ∀ ms : Json.Members, ∀ m ∈ ms, m.2.WellFormed →
    (preserveMaskedSecrets T (maskConfigPayload T printable maskAll m.2) m.2 = m.2 ↔
      Restorable T m.2)
  | [], _, hm, _ => absurd hm List.not_mem_nil
  | (k, w) :: ms, m, hm, hwf => by
    rcases List.mem_cons.mp hm with heq | hm
    · rw [heq] at hwf ⊢
      exact preserve_mask_iff w hwf
    · exact preserve_maskMembers_iff ms m hm hwf
end

end Secrets
