import Drac.Licence.CommercialPolicy

/-
  Whether a stricter licence allows less, and whether the two services agree.

  `statusCaps` answers with the whole map of a strict status, the keys it permits included, and
  the policy spreads it last: what the Central forbade by name is allowed again. `isAllowed_eq`
  says so of one feature.

  A restriction that is no boolean is a second difference: the policy drops it.
-/

namespace Drac.Licence.CommercialPolicy

open JsonLayout JsObject

variable {ν : Type}

/-! ## What is stored is what is read -/

theorem get?_object_plain (restrictions : Obj Text (JsValue ν)) (key : Text) :
    (object (plainMembers restrictions.entries)).get? key =
      (restrictions.get? key).map plain := by
  unfold object
  rw [plainMembers_eq_map, Obj.putAll_map]
  exact Obj.get?_copy (fun _ v => plain v) restrictions key

theorem boolean?_plain (v : JsValue ν) : boolean? (plain v) = boolean? v := by
  cases v <;> rfl

variable (T : NumberText ν)

theorem parseRestrictions_some (text : Text) :
    parseRestrictions T (some text) = ((parse T text).map known).getD (fun _ => none) := by
  cases text with
  | nil => rfl
  | cons c rest =>
    simp only [parseRestrictions]
    cases parse T (c :: rest) <;> rfl

/-- **The two services meet here**: the policy reads the booleans that the connector wrote. -/
theorem parseRestrictions_stringify (restrictions : Obj Text (JsValue ν))
    (key : Restriction) :
    parseRestrictions T (some (restrictionsText T restrictions)) key =
      (restrictions.get? key.name).bind boolean? := by
  rw [parseRestrictions_some, restrictionsText, parse_stringify]
  show ((object (plainMembers restrictions.entries)).get? key.name).bind boolean? = _
  rw [get?_object_plain, Option.bind_map]
  cases restrictions.get? key.name with
  | none => rfl
  | some v => exact boolean?_plain v

/-! ## One feature -/

/-- The policy of one feature: the status has the last word where it has one. -/
theorem isAllowed_eq (table : Settings) (status : CommercialLicenseStatus)
    (text : Text) (f : CommercialFeature) :
    isAllowed T (writeLicence table status text) f =
      (statusCaps status (.feature f)).getD
        ((parseRestrictions T (some text) (.feature f)).getD true) := by
  have hstatus : ((writeLicence table status text).retain (fun key => key ∈ policyKeys)).get?
      licenseStatusKey = some status.text := by
    rw [Obj.get?_retain, if_pos (by decide), writeLicence, Obj.get?_put, if_neg (by decide),
      Obj.get?_put, if_pos rfl]
  have htext : ((writeLicence table status text).retain (fun key => key ∈ policyKeys)).get?
      restrictionsKey = some text := by
    rw [Obj.get?_retain, if_pos (by decide), writeLicence, Obj.get?_put, if_pos rfl]
  unfold isAllowed getPolicy
  simp only [hstatus, htext, normalizeStatus_text, spread, defaultRestrictions]
  simp

def CommercialLicenseStatus.isStrict (status : CommercialLicenseStatus) : Bool :=
  status = .restricted || status = .suspended

variable {status : CommercialLicenseStatus}

theorem isAllowed_strict (table : Settings)
    (hstrict : status.isStrict = true) (text : Text) (f : CommercialFeature) :
    isAllowed T (writeLicence table status text) f = decide (f.name ∉ cappedKeys status) := by
  rw [isAllowed_eq]
  cases status with
  | unknown => cases hstrict
  | active => cases hstrict
  | grace => cases hstrict
  | restricted => cases f <;> rfl
  | suspended => cases f <;> rfl

theorem isAllowed_lenient (table : Settings)
    (hstrict : status.isStrict = false) (text : Text) (f : CommercialFeature) :
    isAllowed T (writeLicence table status text) f =
      (parseRestrictions T (some text) (.feature f)).getD true := by
  rw [isAllowed_eq]
  cases status with
  | unknown => rfl
  | active => rfl
  | grace => rfl
  | restricted => cases hstrict
  | suspended => cases hstrict

/-! ## What the connector leaves -/

theorem get?_putFalse (keys : List Text) (restrictions : Obj Text (JsValue ν)) (key : Text) :
    (putFalse keys restrictions).get? key =
      if key ∈ keys then some (.bool false) else restrictions.get? key := by
  rw [putFalse, Obj.get?_putAll]
  split
  · next hkey =>
    cases hput : (Obj.putAll some (fun _ : Text => (.bool false : JsValue ν)) keys Obj.empty).get?
        key with
    | none => exact absurd rfl (Obj.putAll_eq_none.mp hput key hkey)
    | some v =>
      obtain ⟨a, -, -, rfl⟩ := Obj.putAll_some hput
      rfl
  · next hkey =>
    have hnone : (Obj.putAll some (fun _ : Text => (.bool false : JsValue ν)) keys
        Obj.empty).get? key = none := by
      apply Obj.putAll_eq_none.mpr
      intro a ha heq
      exact hkey (Option.some.inj heq ▸ ha)
    rw [hnone, Option.none_or]

theorem get?_applyStatusCaps (status : CommercialLicenseStatus)
    (restrictions : Obj Text (JsValue ν)) (key : Text) :
    (applyStatusCaps status restrictions).get? key =
      if key ∈ cappedKeys status then some (.bool false) else restrictions.get? key := by
  cases status with
  | restricted => exact get?_putFalse (cappedKeys .restricted) restrictions key
  | suspended => exact get?_putFalse (cappedKeys .suspended) restrictions key
  | unknown => rfl
  | active => rfl
  | grace => rfl

/-- The value is `true`, or there is none. -/
def leftTrue : Option (JsValue ν) → Bool
  | none => true
  | some (.bool b) => b
  | some _ => false

/-- The value says nothing that a strict status lifts, and is a boolean. -/
def kept (status : CommercialLicenseStatus) : Option (JsValue ν) → Bool
  | none => true
  | some (.bool b) => b || !status.isStrict
  | some _ => false

theorem leftTrue_strict (hstrict : status.isStrict = true)
    (v : Option (JsValue ν)) : leftTrue v = kept status v := by
  cases v with
  | none => rfl
  | some v => cases v <;> simp [leftTrue, kept, hstrict]

theorem leftTrue_lenient (hstrict : status.isStrict = false)
    (v : Option (JsValue ν)) :
    (v.bind boolean?).getD true = leftTrue v ↔ kept status v = true := by
  cases v with
  | none => simp [leftTrue, kept]
  | some v => cases v <;> simp [leftTrue, kept, boolean?, hstrict]

theorem cappedKeys_lenient (hstrict : status.isStrict = false) :
    cappedKeys status = [] := by
  cases status with
  | restricted => cases hstrict
  | suspended => cases hstrict
  | unknown => rfl
  | active => rfl
  | grace => rfl

theorem agree_iff (table : Settings) (status : CommercialLicenseStatus)
    (restrictions : Obj Text (JsValue ν)) (f : CommercialFeature) {text : Text}
    (htext : status.isStrict = false → text = restrictionsText T restrictions) :
    isAllowed T (writeLicence table status text) f =
        leftTrue ((applyStatusCaps status restrictions).get? f.name) ↔
      (f.name ∉ cappedKeys status → kept status (restrictions.get? f.name) = true) := by
  rw [get?_applyStatusCaps]
  cases hstrict : status.isStrict with
  | true =>
    rw [isAllowed_strict T table hstrict]
    by_cases hcapped : f.name ∈ cappedKeys status
    · simp only [hcapped, not_true_eq_false, decide_false, if_true, leftTrue, false_imp_iff]
    · rw [if_neg hcapped, leftTrue_strict hstrict]
      simp only [hcapped, not_false_eq_true, decide_true, true_imp_iff]
      exact eq_comm
  | false =>
    rw [isAllowed_lenient T table hstrict, htext hstrict, parseRestrictions_stringify,
      cappedKeys_lenient hstrict, if_neg List.not_mem_nil]
    exact (leftTrue_lenient hstrict (restrictions.get? f.name)).trans
      ⟨fun h _ => h, fun h => h List.not_mem_nil⟩

/-! ## The licence -/

/-- The stored text forbids the feature by name. -/
def Forbids (T : NumberText ν) (text : Text) (f : CommercialFeature) : Prop :=
  ∃ members, parse T text = some (.obj members) ∧
    (object members).get? f.name = some (.bool false)

theorem forbids_iff (text : Text) (f : CommercialFeature) :
    Forbids T text f ↔ (parseRestrictions T (some text) (.feature f)).getD true = false := by
  rw [parseRestrictions_some]
  unfold Forbids
  cases parse T text with
  | none => simp
  | some parsed =>
    cases parsed with
    | obj members =>
      show _ ↔ (((object members).get? f.name).bind boolean?).getD true = false
      simp only [Option.some.injEq, JsValue.obj.injEq, exists_eq_left']
      cases (object members).get? f.name with
      | none => simp
      | some v => cases v <;> simp [boolean?]
    | null => simp [known]
    | bool b => simp [known]
    | num n => simp [known]
    | str s => simp [known]
    | date iso => simp [known]
    | arr items => simp [known]

/-- **The licence.** A strict status allows nothing beyond the active one exactly when the
stored text forbids no feature that the status permits. And the policy allows what the
connector left true exactly when each feature the status permits is missing or a boolean, and
not `false` where the status is strict; it is the same for the object as the Central sent it
and as the connector stores it. -/
theorem licence_enforced (T : NumberText ν) (table : Settings) (status : CommercialLicenseStatus) :
    (∀ text, status = .restricted ∨ status = .suspended →
      ((∀ f, isAllowed T (writeLicence table status text) f = true →
          isAllowed T (writeLicence table .active text) f = true) ↔
        ∀ f : CommercialFeature, f.name ∉ cappedKeys status → ¬ Forbids T text f)) ∧
    (∀ restrictions : Obj Text (JsValue ν),
      ((∀ f, isAllowed T (writeLicence table status (restrictionsText T restrictions)) f =
          leftTrue ((applyStatusCaps status restrictions).get? f.name)) ↔
        ∀ f : CommercialFeature, f.name ∉ cappedKeys status →
          kept status (restrictions.get? f.name) = true) ∧
      ((∀ f, isAllowed T (writeLicence table status
            (restrictionsText T (applyStatusCaps status restrictions))) f =
          leftTrue ((applyStatusCaps status restrictions).get? f.name)) ↔
        ∀ f : CommercialFeature, f.name ∉ cappedKeys status →
          kept status (restrictions.get? f.name) = true)) := by
  refine ⟨?_, ?_⟩
  · intro text hstatus
    have hstrict : status.isStrict = true := by
      obtain rfl | rfl := hstatus <;> rfl
    apply forall_congr'
    intro f
    rw [isAllowed_strict T table hstrict, isAllowed_lenient T table rfl, forbids_iff]
    simp
  · intro restrictions
    refine ⟨?_, ?_⟩
    · exact forall_congr' fun f => agree_iff T table status restrictions f (fun _ => rfl)
    · apply forall_congr'
      intro f
      apply agree_iff T table status restrictions f
      intro hstrict
      cases status with
      | restricted => cases hstrict
      | suspended => cases hstrict
      | unknown => rfl
      | active => rfl
      | grace => rfl

def exportsForbidden : Text := "\x7b\"exports\":false\x7d".toList

/-- A suspended installation that was forbidden to export. -/
theorem licence_enforced_exports :
    ¬ (∀ f, isAllowed wholeNumbers (writeLicence Obj.empty .suspended exportsForbidden) f = true →
      isAllowed wholeNumbers (writeLicence Obj.empty .active exportsForbidden) f = true) := by
  intro hmonotone
  have hkept := ((licence_enforced wholeNumbers Obj.empty .suspended).1 exportsForbidden
    (.inr rfl)).mp hmonotone .exports (by decide)
  exact hkept ((forbids_iff wholeNumbers exportsForbidden .exports).mpr (by decide +kernel))

/-- Exports are forbidden by name; the suspended licence allows them, the active one does not,
and the connector leaves them `false`. -/
theorem exports_lifted :
    isAllowed wholeNumbers (writeLicence Obj.empty .suspended exportsForbidden) .exports = true ∧
    isAllowed wholeNumbers (writeLicence Obj.empty .active exportsForbidden) .exports = false ∧
    leftTrue ((applyStatusCaps .suspended (Obj.empty.put "exports".toList
      (.bool false : JsValue Int))).get? "exports".toList) = false := by
  decide +kernel

end Drac.Licence.CommercialPolicy
