import Mathlib.Data.List.Sort
import Drac.Lib.JsonLayout

/-
  The seal of an evidence package.

  Correspondence (`evidence.service.ts` ↔ Lean):
    signPackage, verifyPackage, omitInternalFields, assertSecretConfigured,
    safeCompareHex, stableStringify, normalizeForStableJson, extractObject   ↔ the same names

  The digests, the collation of `localeCompare` and the text of a number belong to the
  runtime (`Runtime`).
-/

namespace Drac.Evidence

open JsonLayout

abbrev Text := List Char

abbrev Members (ν : Type) := List (Text × JsValue ν)

variable {ν : Type}

def isHexDigit (c : Char) : Bool := (Json.hexValue c).isSome

/-- A text the digests write: `digest('hex')`. -/
def HexText (t : Text) : Prop := t ≠ [] ∧ t.all isHexDigit = true

/-- What the language does with numbers, texts and dates. -/
structure Runtime (ν : Type) where
  numbers : NumberText ν
  number : Nat → ν
  localeCompare : Text → Text → Ordering
  /-- `toISOString` of a time in milliseconds. -/
  iso : Int → Text
  sha256Hex : Text → Text
  /-- The secret first. -/
  hmacSha256Hex : Text → Text → Text
  sha256_hex : ∀ t, HexText (sha256Hex t)
  hmac_hex : ∀ secret t, HexText (hmacSha256Hex secret t)

structure EvidenceService where
  hmacSecret : Text
  hmacKeyId : Text

variable (rt : Runtime ν)

/-! ## The canonical text -/

/-- A key that counts as an array index: these come first in an object, in their order. -/
def arrayIndex (key : Text) : Option Nat :=
  if key ≠ [] ∧ key.all Char.isDigit ∧ (key.head? ≠ some '0' ∨ key = ['0']) ∧
      Nat.ofDigitChars 10 key 0 < 4294967295 then
    some (Nat.ofDigitChars 10 key 0)
  else none

/-- `Object.fromEntries(entries)`, of distinct keys: the object's own order. -/
def fromEntries (entries : Members ν) : Members ν :=
  (entries.filter (fun e => (arrayIndex e.1).isSome)).insertionSort
      (fun a b => (arrayIndex a.1).getD 0 ≤ (arrayIndex b.1).getD 0) ++
    entries.filter (fun e => (arrayIndex e.1).isNone)

/-- `entries.sort(([a], [b]) => a.localeCompare(b))`. -/
def sortEntries (entries : Members ν) : Members ν :=
  entries.insertionSort (fun a b => (rt.localeCompare a.1 b.1).isLE)

mutual

/-- The values are normalized before the sort here: it looks at the keys only. -/
def normalizeForStableJson : JsValue ν → JsValue ν
  | .arr items => .arr (normalizeItems items)
  | .obj members => .obj (fromEntries (sortEntries rt (normalizeMembers members)))
  -- an object with no entries of its own
  | .date _ => .obj []
  | .null => .null
  | .bool b => .bool b
  | .num n => .num n
  | .str s => .str s

def normalizeItems : List (JsValue ν) → List (JsValue ν)
  | [] => []
  | v :: vs => normalizeForStableJson v :: normalizeItems vs

def normalizeMembers : Members ν → Members ν
  | [] => []
  | (k, v) :: ms => (k, normalizeForStableJson v) :: normalizeMembers ms

end

/-- The text that is hashed and signed. -/
def stableStringify (v : JsValue ν) : Text :=
  stringify rt.numbers 0 0 (normalizeForStableJson rt v)

/-! ## Signing -/

def secretMissing : Text := "EVIDENCE_HMAC_SECRET não configurado ou inválido.".toList

def payloadTooLong : Text :=
  "Payload de evidência excede o tamanho permitido para assinatura.".toList

def assertSecretConfigured (service : EvidenceService) : Except Text Unit :=
  if JsText.length service.hmacSecret < 16 then .error secretMissing else .ok ()

def maxPayloadLength : Nat := 10000000

def text (s : String) : JsValue ν := .str s.toList

/-- What `signPackage` returns for a canonical text. -/
def sealOf (service : EvidenceService) (canonical now : Text) : Members ν :=
  [("packageHash".toList,
      .obj [("algorithm".toList, text "SHA-256"), ("value".toList, .str (rt.sha256Hex canonical))]),
    ("signature".toList,
      .obj [("algorithm".toList, text "HMAC-SHA-256"),
        ("value".toList, .str (rt.hmacSha256Hex service.hmacSecret (rt.sha256Hex canonical))),
        ("keyId".toList, .str service.hmacKeyId)]),
    ("signedAt".toList, .str now)]

def signPackage (service : EvidenceService) (now : Text) (payload : JsValue ν) :
    Except Text (Members ν) := do
  assertSecretConfigured service
  let payloadCanonical := stableStringify rt payload
  if JsText.length payloadCanonical > maxPayloadLength then .error payloadTooLong
  else .ok (sealOf rt service payloadCanonical now)

/-! ## Verifying -/

/-- `Buffer.from(text, 'hex')`: pairs of digits, an odd one at the end left out. -/
def hexBytes : Text → List Nat
  | a :: b :: rest =>
    (16 * (Json.hexValue a).getD 0 + (Json.hexValue b).getD 0) :: hexBytes rest
  | _ => []

/-- The same bytes, where both are texts of hexadecimal digits. -/
def safeCompareHex (provided : Option Text) (computed : Text) : Bool :=
  match provided with
  | none => false
  | some p =>
    !p.isEmpty && p.all isHexDigit && !computed.isEmpty && computed.all isHexDigit &&
      hexBytes p == hexBytes computed

def extractObject : Option (JsValue ν) → Option (Members ν)
  | some (.obj members) => some members
  | some (.date _) => some []
  | _ => none

/-- The members of a package that are not signed. -/
def internalFields : List Text := ["packageHash".toList, "signature".toList, "signedAt".toList]

def omitInternalFields (value : Members ν) : Members ν :=
  value.filter (fun m => m.1 ∉ internalFields)

/-- What a verification answers. -/
structure Verdict where
  hashValid : Bool
  signatureValid : Bool
  details : List String
  expectedKeyId : Text
  providedHash : Option Text
  providedSignature : Option Text

def Verdict.ok (verdict : Verdict) : Bool := verdict.hashValid && verdict.signatureValid

/-- `typeof entry?.value === 'string' ? entry.value : null`. -/
def providedValue (entry : Option (Members ν)) : Option Text :=
  match entry.bind (field · "value".toList) with
  | some (.str s) => some s
  | _ => none

def verifyPackage (service : EvidenceService) (evidencePackage : Members ν) :
    Except Text Verdict := do
  assertSecretConfigured service
  let packageHashEntry := extractObject (field evidencePackage "packageHash".toList)
  let signatureEntry := extractObject (field evidencePackage "signature".toList)
  let canonical := stableStringify rt (.obj (omitInternalFields evidencePackage))
  let computedHash := rt.sha256Hex canonical
  let computedSignature := rt.hmacSha256Hex service.hmacSecret computedHash
  let providedHash := providedValue packageHashEntry
  let providedSignature := providedValue signatureEntry
  let hashValid := safeCompareHex providedHash computedHash
  let signatureValid := safeCompareHex providedSignature computedSignature
  .ok {
    hashValid, signatureValid,
    details :=
      [if hashValid then "Hash SHA-256 válido." else "Hash SHA-256 inválido.",
        if signatureValid then "Assinatura HMAC válida."
        else "Assinatura HMAC inválida ou ausente."],
    expectedKeyId := service.hmacKeyId,
    providedHash, providedSignature }

/-- The verdict on an uploaded package is `ok`. -/
def accepts (service : EvidenceService) (evidencePackage : Members ν) : Bool :=
  match verifyPackage rt service evidencePackage with
  | .ok verdict => verdict.ok
  | .error _ => false

/-! ## What signing and verifying agree on -/

variable {rt} {service : EvidenceService} {payload : Members ν} {now : Text}

theorem safeCompareHex_self {t : Text} (h : HexText t) : safeCompareHex (some t) t = true := by
  simp [safeCompareHex, h.1, h.2]

theorem safeCompareHex_none (computed : Text) : safeCompareHex none computed = false := rfl

theorem accepts_false (h : providedValue (extractObject (field payload "packageHash".toList)) = none) :
    accepts rt service payload = false := by
  unfold accepts verifyPackage
  cases hsecret : assertSecretConfigured service with
  | error => rfl
  | ok =>
    have hhash : safeCompareHex
        (providedValue (extractObject (field payload "packageHash".toList)))
        (rt.sha256Hex (stableStringify rt (.obj (omitInternalFields payload)))) = false := by
      rw [h, safeCompareHex_none]
    exact Bool.and_eq_false_imp.mpr (fun htrue => absurd (hhash.symm.trans htrue) (by decide))

theorem field_append_left {name : Text} {ms ns : Members ν} (h : ∀ m ∈ ms, m.1 ≠ name) :
    field (ms ++ ns) name = field ns name := by
  unfold field
  rw [List.find?_append, List.find?_eq_none.mpr (by simpa using h), Option.none_or]

theorem omit_seal (h : ∀ m ∈ payload, m.1 ∉ internalFields) (canonical : Text) :
    omitInternalFields (payload ++ sealOf rt service canonical now) = payload := by
  unfold omitInternalFields
  rw [List.filter_append, List.filter_eq_self.mpr (by simpa using h)]
  exact List.append_nil payload

theorem signPackage_ok {v : JsValue ν} {s : Members ν}
    (h : signPackage rt service now v = .ok s) :
    assertSecretConfigured service = .ok () ∧ s = sealOf rt service (stableStringify rt v) now := by
  unfold signPackage at h
  cases hsecret : assertSecretConfigured service with
  | error e =>
    rw [hsecret] at h
    cases h
  | ok u =>
    rw [hsecret] at h
    dsimp only [bind, Except.bind] at h
    split at h
    · cases h
    · cases h
      exact ⟨rfl, rfl⟩

end Drac.Evidence
