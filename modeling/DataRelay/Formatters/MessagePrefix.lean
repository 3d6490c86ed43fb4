import DataRelay.Webhook.Sender

/-! The line a destination gets for an event: its compact JSON, after a prefix filled from the
event and the context. What a source can put into the prefix is escaped for syslog. -/
namespace MessagePrefix
open Delivery Webhook

/-- The characters a syslog prefix must not hold: the C0 controls, DEL, and what else ends a
line in Unicode. -/
def isSyslogControl (c : Char) : Bool :=
  decide (c.toNat < 32) || decide (c.toNat ∈ [127, 0x85, 0x2028, 0x2029])

/-- `_escape_syslog_prefix_controls`. -/
def escapeSyslogPrefixControls (pre : List Char) : List Char :=
  pre.flatMap fun c => if isSyslogControl c then Json.escapeUnit c.toNat else [c]

/-- `destination_type.upper().startswith("SYSLOG")`. -/
def isSyslogType (destinationType : String) : Bool :=
  decide ("SYSLOG".toList <+: (PyText.upper destinationType).toList)

def effectiveMessagePrefixEnabled (routeFormatter : Json.Members) (destinationType : String) :
    Bool :=
  match Dict.get? "message_prefix_enabled" routeFormatter with
  | some v => Runner.truthy v
  | none => isSyslogType (PyText.strip destinationType)

def effectiveMessagePrefixTemplate (routeFormatter : Json.Members) : String :=
  match Dict.get? "message_prefix_template" routeFormatter with
  | some (.str raw) =>
    if PyText.strip raw = "" then defaultMessagePrefixTemplate else PyText.strip raw
  | _ => defaultMessagePrefixTemplate

-- The text of a nested value, and the clock when the event is formatted.
variable (reprText : Json → String) (now : String)

def resolveMessagePrefixTemplate (template : String) (event : Event)
    (context : MessagePrefixResolveContext) : List Char :=
  (pieces template).flatMap (context.fill reprText now event)

def compactEventJson (event : Event) : String := Json.compactText (.obj event)

def formatSingleDeliveryLine (event : Event) (routeFormatter : Json.Members)
    (destinationType : String) (prefixContext : MessagePrefixResolveContext) : String :=
  let payload := compactEventJson event
  if !effectiveMessagePrefixEnabled routeFormatter destinationType then payload
  else
    let template := effectiveMessagePrefixTemplate routeFormatter
    let resolved := resolveMessagePrefixTemplate reprText now template event prefixContext
    let resolved :=
      if isSyslogType destinationType then escapeSyslogPrefixControls resolved else resolved
    String.ofList (resolved.rdropWhile PyText.isSpace) ++ " " ++ payload

/-- `clock j` is the time when the `j`-th event is formatted. -/
def formatDeliveryLinesSyslog (clock : ℕ → String) (events : List Event)
    (routeFormatter : Json.Members) (destinationType : String)
    (prefixContext : MessagePrefixResolveContext) : List String :=
  events.mapIdx fun j event =>
    formatSingleDeliveryLine reprText (clock j) event routeFormatter destinationType prefixContext

/-! ### Lines without controls -/

/-- No control character stands in the text. -/
def Clean (cs : List Char) : Prop := ∀ c ∈ cs, 32 ≤ c.toNat

instance (cs : List Char) : Decidable (Clean cs) := List.decidableBAll (32 ≤ Char.toNat ·) cs

theorem Clean.append {a b : List Char} (ha : Clean a) (hb : Clean b) : Clean (a ++ b) := by
  intro c hc
  rcases List.mem_append.mp hc with hc | hc
  · exact ha c hc
  · exact hb c hc

theorem Clean.lineFeed {cs : List Char} (h : Clean cs) : '\n' ∉ cs := by
  intro hmem
  exact absurd (h '\n' hmem) (by decide)

theorem clean_hexDigit {n : ℕ} (hn : n < 16) : 32 ≤ (Json.hexDigit n).toNat := by
  interval_cases n <;> decide

theorem clean_escapeUnit (n : ℕ) : Clean (Json.escapeUnit n) := by
  intro c hc
  simp only [Json.escapeUnit, List.mem_cons, List.not_mem_nil, or_false] at hc
  rcases hc with rfl | rfl | rfl | rfl | rfl | rfl
  · decide
  · decide
  all_goals exact clean_hexDigit (Nat.mod_lt _ (by omega))

theorem clean_escapeChar (c : Char) : Clean (Json.escapeChar c) := by
  unfold Json.escapeChar
  split_ifs with hquote hback hbs htab hlf hff hcr hplain hbmp
  · decide
  · decide
  · decide
  · decide
  · decide
  · decide
  · decide
  · intro d hd
    rw [List.mem_singleton.mp hd]
    exact hplain.1
  · exact clean_escapeUnit _
  · exact (clean_escapeUnit _).append (clean_escapeUnit _)

theorem clean_quoted (s : String) : Clean (Json.quoted s).toList := by
  have hchars : Clean (s.toList.flatMap Json.escapeChar) := by
    intro c hc
    obtain ⟨d, -, hc⟩ := List.mem_flatMap.mp hc
    exact clean_escapeChar d c hc
  simp only [Json.quoted, String.toList_append, String.toList_ofList]
  exact Clean.append (Clean.append (by decide) hchars) (by decide)

theorem clean_toString_nat (n : ℕ) : Clean (toString n).toList := by
  intro c hc
  have hdigits : c ∈ Nat.toDigits 10 n := by simpa [toString] using hc
  have hdigit : c.isDigit = true := Nat.isDigit_of_mem_toDigits (by decide) (by decide) hdigits
  simp only [Char.isDigit, Bool.and_eq_true, decide_eq_true_eq] at hdigit
  have hlow : (48 : UInt32).toNat ≤ c.val.toNat := UInt32.le_iff_toNat_le.mp hdigit.1
  exact le_trans (by decide) hlow

theorem clean_toString_int (i : ℤ) : Clean (toString i).toList := by
  cases i with
  | ofNat n => exact clean_toString_nat n
  | negSucc n =>
    show Clean ("-" ++ toString (n + 1)).toList
    rw [String.toList_append]
    exact Clean.append (by decide) (clean_toString_nat (n + 1))

theorem clean_intercalate {parts : List String} (h : ∀ part ∈ parts, Clean part.toList) :
    Clean (",".intercalate parts).toList := by
  induction parts with
  | nil => decide
  | cons part parts ih =>
    obtain ⟨hpart, hparts⟩ := List.forall_mem_cons.mp h
    cases parts with
    | nil => simpa using hpart
    | cons next parts =>
      rw [String.intercalate_cons_cons, String.toList_append, String.toList_append]
      exact Clean.append (Clean.append hpart (by decide)) (ih hparts)

mutual
/-- How the floats of a value are printed. -/
def floatTexts : Json → List String
  | .float repr => [repr]
  | .arr items => floatTextsItems items
  | .obj members => floatTextsMembers members
  | _ => []

def floatTextsItems : List Json → List String
  | [] => []
  | v :: vs => floatTexts v ++ floatTextsItems vs

def floatTextsMembers : Json.Members → List String
  | [] => []
  | (_, v) :: ms => floatTexts v ++ floatTextsMembers ms
end

mutual
/-- The compact text of a value has no control character but in the texts of its floats. -/
theorem clean_compactText (v : Json) (h : ∀ text ∈ floatTexts v, Clean text.toList) :
    Clean (Json.compactText v).toList := by
  cases v with
  | null => decide
  | bool b => cases b <;> decide
  | int i => exact clean_toString_int i
  | float repr => exact h repr (List.mem_singleton.mpr rfl)
  | str s => exact clean_quoted s
  | arr items =>
    simp only [Json.compactText, String.toList_append]
    exact Clean.append (Clean.append (by decide)
      (clean_intercalate (clean_compactItems items h))) (by decide)
  | obj members =>
    simp only [Json.compactText, String.toList_append]
    exact Clean.append (Clean.append (by decide)
      (clean_intercalate (clean_compactMembers members h))) (by decide)

theorem clean_compactItems (items : List Json)
    (h : ∀ text ∈ floatTextsItems items, Clean text.toList) :
    ∀ part ∈ Json.compactItems items, Clean part.toList := by
  cases items with
  | nil => simp [Json.compactItems]
  | cons v vs =>
    simp only [floatTextsItems, List.mem_append] at h
    simp only [Json.compactItems, List.forall_mem_cons]
    exact ⟨clean_compactText v fun text ht => h text (.inl ht),
      clean_compactItems vs fun text ht => h text (.inr ht)⟩

theorem clean_compactMembers (members : Json.Members)
    (h : ∀ text ∈ floatTextsMembers members, Clean text.toList) :
    ∀ part ∈ Json.compactMembers members, Clean part.toList := by
  cases members with
  | nil => simp [Json.compactMembers]
  | cons m ms =>
    obtain ⟨key, v⟩ := m
    simp only [floatTextsMembers, List.mem_append] at h
    simp only [Json.compactMembers, List.forall_mem_cons, String.toList_append]
    exact ⟨Clean.append (Clean.append (clean_quoted key) (by decide))
        (clean_compactText v fun text ht => h text (.inl ht)),
      clean_compactMembers ms fun text ht => h text (.inr ht)⟩
end

/-- The floats of an event are printed without control characters. -/
def CleanFloats (event : Event) : Prop := ∀ text ∈ floatTexts (.obj event), Clean text.toList

instance (event : Event) : Decidable (CleanFloats event) :=
  inferInstanceAs (Decidable (∀ text ∈ floatTexts (.obj event), Clean text.toList))

theorem CleanFloats.clean {event : Event} (h : CleanFloats event) :
    Clean (compactEventJson event).toList :=
  clean_compactText (.obj event) h

/-- Whatever the template and its values, the escaped prefix has no control left. -/
theorem clean_escapeSyslogPrefixControls (pre : List Char) :
    Clean (escapeSyslogPrefixControls pre) := by
  intro c hc
  obtain ⟨d, -, hc⟩ := List.mem_flatMap.mp hc
  split_ifs at hc with hd
  · exact clean_escapeUnit d.toNat c hc
  · rw [List.mem_singleton.mp hc]
    simp only [isSyslogControl, Bool.or_eq_true, decide_eq_true_eq, not_or] at hd
    omega

variable {reprText now}

/-- The line ends with the JSON of its event. -/
theorem suffix_formatSingleDeliveryLine (event : Event) (routeFormatter : Json.Members)
    (destinationType : String) (prefixContext : MessagePrefixResolveContext) :
    ∃ front, formatSingleDeliveryLine reprText now event routeFormatter destinationType
      prefixContext = front ++ compactEventJson event := by
  unfold formatSingleDeliveryLine
  split_ifs
  · exact ⟨"", by simp⟩
  · exact ⟨_, rfl⟩
  · exact ⟨_, rfl⟩

/-- A line for syslog has no control in it. -/
theorem clean_formatSingleDeliveryLine {event : Event} {destinationType : String}
    (hsyslog : isSyslogType destinationType = true)
    (hjson : Clean (compactEventJson event).toList) (routeFormatter : Json.Members)
    (prefixContext : MessagePrefixResolveContext) :
    Clean (formatSingleDeliveryLine reprText now event routeFormatter destinationType
      prefixContext).toList := by
  unfold formatSingleDeliveryLine
  split_ifs
  · exact hjson
  · simp only [String.toList_append, String.toList_ofList]
    refine Clean.append (Clean.append ?_ (by decide)) hjson
    intro c hc
    exact clean_escapeSyslogPrefixControls _ c ((List.rdropWhile_prefix PyText.isSpace _).subset hc)

end MessagePrefix
