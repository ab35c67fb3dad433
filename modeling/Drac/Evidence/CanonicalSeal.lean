import Drac.Evidence.CanonicalForm
import Drac.Evidence.EvidenceExportRuns

/-
  The seal of a package whose members come in any order.

  The digests are free of collisions on a corpus of texts: that is what is asked of them, and of
  the collation that it orders the keys.
-/

namespace Drac.Evidence

open JsonLayout

variable {ν : Type} {rt : Runtime ν}

/-! ## What a package gives -/

variable {service : EvidenceService} {payload package : Members ν} {now canonical : Text}

/-- What was read of a package, put in any order, is accepted. -/
def AcceptedInAnyOrder (rt : Runtime ν) (service : EvidenceService) (package : Members ν) : Prop :=
  ∀ gap, ∃ read, parse rt.numbers (stringify rt.numbers gap 0 (.obj package)) = some read ∧
    ∀ ordered, Reordered read (.obj ordered) → accepts rt service ordered = true

section

variable (rt service canonical now)

theorem seal_json : MembersJson (sealOf rt service canonical now) := by
  simp only [sealOf, text, MembersJson, IsJson, List.map_cons, List.map_nil, and_true]
  exact ⟨by decide, by decide⟩

theorem sealed_json (hjson : IsJson (.obj payload)) (hkeys : ∀ m ∈ payload, m.1 ∉ internalFields) :
    IsJson (.obj (payload ++ sealOf rt service canonical now)) := by
  rw [IsJson] at hjson ⊢
  refine ⟨?_, ?_⟩
  · have hseal : (sealOf rt service canonical now).map Prod.fst = internalFields := rfl
    rw [List.map_append, List.nodup_append, hseal]
    refine ⟨hjson.1, by decide, ?_⟩
    intro a ha b hb heq
    obtain ⟨m, hm, rfl⟩ := List.mem_map.mp ha
    exact hkeys m hm (heq ▸ hb)
  · have hpayload := membersJson_iff.mp hjson.2
    have hseal := membersJson_iff.mp (seal_json rt service now canonical)
    rw [membersJson_iff]
    intro m hm
    exact (List.mem_append.mp hm).elim (hpayload m) (hseal m)

theorem field_seal (hkeys : ∀ m ∈ payload, m.1 ∉ internalFields) {name : Text}
    (hname : name ∈ internalFields) :
    field (payload ++ sealOf rt service canonical now) name =
      field (sealOf rt service canonical now) name :=
  field_append_left (fun _ hm heq => hkeys _ hm (heq ▸ hname))

end

/-- A text an entry of the seal gives is found in it in any order. -/
theorem providedValue_reordered {ms ns entry : Members ν} {name value : Text}
    (hjson : IsJson (.obj ms)) (h : Reordered (.obj ms) (.obj ns))
    (hentry : field ms name = some (.obj entry))
    (hvalue : field entry "value".toList = some (.str value)) :
    providedValue (extractObject (field ns name)) = some value := by
  obtain ⟨w, hw, hreordered⟩ := field_reordered hjson h hentry
  have hentryJson : IsJson (.obj entry) := by
    rw [IsJson] at hjson
    exact membersJson_iff.mp hjson.2 _ (mem_of_field hentry)
  obtain ⟨entry', rfl⟩ := reordered_obj hreordered
  obtain ⟨u, hu, huvalue⟩ := field_reordered hentryJson hreordered hvalue
  rw [Reordered] at huvalue
  rw [hw, extractObject, providedValue, Option.bind_some, hu, huvalue]

theorem provided_of_reordered (hjson : IsJson (.obj payload))
    (hkeys : ∀ m ∈ payload, m.1 ∉ internalFields)
    (h : Reordered (.obj (payload ++ sealOf rt service canonical now)) (.obj package)) :
    providedValue (extractObject (field package "packageHash".toList)) =
        some (rt.sha256Hex canonical) ∧
      providedValue (extractObject (field package "signature".toList)) =
        some (rt.hmacSha256Hex service.hmacSecret (rt.sha256Hex canonical)) := by
  have hsealed := sealed_json rt service now canonical hjson hkeys
  have hhash : field (payload ++ sealOf rt service canonical now) "packageHash".toList = _ :=
    field_seal rt service now canonical hkeys (by decide)
  have hsign : field (payload ++ sealOf rt service canonical now) "signature".toList = _ :=
    field_seal rt service now canonical hkeys (by decide)
  exact ⟨providedValue_reordered hsealed h hhash rfl, providedValue_reordered hsealed h hsign rfl⟩

theorem accepts_eq (hsecret : assertSecretConfigured service = .ok ()) :
    accepts rt service package =
      (safeCompareHex (providedValue (extractObject (field package "packageHash".toList)))
          (rt.sha256Hex (stableStringify rt (.obj (omitInternalFields package)))) &&
        safeCompareHex (providedValue (extractObject (field package "signature".toList)))
          (rt.hmacSha256Hex service.hmacSecret
            (rt.sha256Hex (stableStringify rt (.obj (omitInternalFields package)))))) := by
  unfold accepts verifyPackage
  rw [hsecret]
  rfl

theorem omit_reordered (hkeys : ∀ m ∈ payload, m.1 ∉ internalFields)
    (h : Reordered (.obj (payload ++ sealOf rt service canonical now)) (.obj package)) :
    Reordered (.obj payload) (.obj (omitInternalFields package)) := by
  have hleft := filter_reordered (fun k => k ∉ internalFields) h
  rwa [← omitInternalFields, omit_seal hkeys] at hleft

/-- **Whatever the seal is accepted for has its digest.** -/
theorem digest_of_accepts (hjson : IsJson (.obj payload))
    (hkeys : ∀ m ∈ payload, m.1 ∉ internalFields)
    (hsecret : assertSecretConfigured service = .ok ())
    (h : accepts rt service (payload ++ sealOf rt service canonical now) = true) :
    hexBytes (rt.sha256Hex canonical) =
      hexBytes (rt.sha256Hex (stableStringify rt (.obj payload))) := by
  obtain ⟨hprovided, -⟩ := provided_of_reordered hjson hkeys (reordered_refl _)
  rw [accepts_eq hsecret, omit_seal hkeys, hprovided] at h
  have hhash := (Bool.and_eq_true_iff.mp h).1
  simp only [safeCompareHex, Bool.and_eq_true, beq_iff_eq] at hhash
  exact hhash.2

/-- **A package is accepted in any order** just where the keys of its payload are apart. -/
theorem accepted_iff [Std.TransCmp rt.localeCompare] (hjson : IsJson (.obj payload))
    (hkeys : ∀ m ∈ payload, m.1 ∉ internalFields)
    (hsecret : assertSecretConfigured service = .ok ()) {corpus : Set Text}
    (hdigest : Set.InjOn (fun t => hexBytes (rt.sha256Hex t)) corpus)
    (hcorpus : ∀ w, Reordered (.obj payload) w → stableStringify rt w ∈ corpus) :
    AcceptedInAnyOrder rt service
        (payload ++ sealOf rt service (stableStringify rt (.obj payload)) now) ↔
      Separated rt (.obj payload) := by
  have hsealed := sealed_json rt service now (stableStringify rt (.obj payload)) hjson hkeys
  rw [← oneText_iff hjson]
  refine ⟨fun h w hw => ?_, fun h gap => ?_⟩
  · obtain ⟨read, hread, hall⟩ := h 0
    rw [parse_stringify, plain_of_isJson hsealed, Option.some.injEq] at hread
    subst hread
    obtain ⟨other, rfl⟩ := reordered_obj hw
    have haccepted := hall _ (append_reordered hw _)
    have hother : ∀ m ∈ other, m.1 ∉ internalFields := by
      intro m hm
      have hmem := (reordered_keys hw).mem_iff.mp (List.mem_map_of_mem hm)
      obtain ⟨m', hm', heq⟩ := List.mem_map.mp hmem
      exact heq ▸ hkeys m' hm'
    have hbytes := digest_of_accepts (hw.isJson hjson) hother hsecret haccepted
    exact (hdigest (hcorpus _ (reordered_refl _)) (hcorpus _ hw) hbytes).symm
  · refine ⟨_, parse_stringify _ _ _, fun ordered hordered => ?_⟩
    rw [plain_of_isJson hsealed] at hordered
    obtain ⟨hhash, hsign⟩ := provided_of_reordered hjson hkeys hordered
    rw [accepts_eq hsecret, hhash, hsign, h _ (omit_reordered hkeys hordered)]
    exact Bool.and_eq_true_iff.mpr ⟨safeCompareHex_self (rt.sha256_hex _),
      safeCompareHex_self (rt.hmac_hex _ _)⟩

/-- Other members the seal is accepted for are those that were signed, in some order. -/
theorem reordered_of_accepts {other : Members ν} (hjson : IsJson (.obj payload))
    (hother : IsJson (.obj other)) (hkeys : ∀ m ∈ other, m.1 ∉ internalFields)
    (hsecret : assertSecretConfigured service = .ok ()) {corpus : Set Text}
    (hdigest : Set.InjOn (fun t => hexBytes (rt.sha256Hex t)) corpus)
    (hpayload : stableStringify rt (.obj payload) ∈ corpus)
    (hcorpus : stableStringify rt (.obj other) ∈ corpus)
    (h : accepts rt service
      (other ++ sealOf rt service (stableStringify rt (.obj payload)) now) = true) :
    Reordered (.obj payload) (.obj other) := by
  have hbytes := digest_of_accepts hother hkeys hsecret h
  have htext := hdigest hpayload hcorpus hbytes
  exact reordered_of_normalize hjson hother ((sameText_iff hjson hother).mp htext)

/-! ## The canonical form -/

/-- **The canonical text is one for all orders of the keys just where they are apart**, and never
one for values that differ in more. Of a package sealed over it the same holds: it is accepted in
any order just where the keys of its payload are apart, and with other members not at all. -/
theorem canonical_form (rt : Runtime ν) [Std.TransCmp rt.localeCompare] :
    (∀ v : JsValue ν, IsJson v →
      ((∀ w, Reordered v w → stableStringify rt w = stableStringify rt v) ↔ Separated rt v) ∧
      ∀ w, IsJson w → stableStringify rt w = stableStringify rt v → Reordered v w) ∧
    ∀ (service : EvidenceService) (now : Text) (payload s : Members ν) (corpus : Set Text),
      IsJson (.obj payload) → (∀ m ∈ payload, m.1 ∉ internalFields) →
      signPackage rt service now (.obj payload) = .ok s →
      Set.InjOn (fun t => hexBytes (rt.sha256Hex t)) corpus →
      (∀ w, Reordered (.obj payload) w → stableStringify rt w ∈ corpus) →
      (AcceptedInAnyOrder rt service (payload ++ s) ↔ Separated rt (.obj payload)) ∧
      ∀ other : Members ν, IsJson (.obj other) → (∀ m ∈ other, m.1 ∉ internalFields) →
        stableStringify rt (.obj other) ∈ corpus → accepts rt service (other ++ s) = true →
          Reordered (.obj payload) (.obj other) := by
  refine ⟨fun v hv => ⟨oneText_iff hv, fun w hw h => ?_⟩, ?_⟩
  · exact reordered_of_normalize hv hw ((sameText_iff hw hv).mp h).symm
  · intro service now payload s corpus hjson hkeys hsign hdigest hcorpus
    obtain ⟨hsecret, rfl⟩ := signPackage_ok hsign
    refine ⟨accepted_iff hjson hkeys hsecret hdigest hcorpus, ?_⟩
    intro other hother hotherKeys hotherText haccepts
    exact reordered_of_accepts hjson hother hotherKeys hsecret hdigest
      (hcorpus _ (reordered_refl _)) hotherText haccepts

/-! ## One package, and one with an accent written in two ways -/

/-- `é` in one character is `e` and the accent over it. -/
def decompose (c : Char) : Text := if c = 'é' then ['e', '\u0301'] else [c]

def collate : Text → Text → Ordering := compareOn (fun t : Text => t.flatMap decompose)

def sealRuntime : Runtime Int where
  numbers := wholeNumbers
  number n := n
  localeCompare := collate
  iso _ := "2026-03-04T12:00:00.000Z".toList
  sha256Hex := sha256Text
  hmacSha256Hex := hmacText
  sha256_hex := sha256Text_hex
  hmac_hex := hmacText_hex

instance : Std.TransCmp sealRuntime.localeCompare :=
  inferInstanceAs (Std.TransCmp (compareOn (fun t : Text => t.flatMap decompose)))

def yardPayload : Members Int :=
  [("events".toList, .arr [.num 1, .num 2]), ("camera".toList, .str "Portão".toList)]

theorem yardPayload_json : IsJson (.obj yardPayload) := by
  simp only [yardPayload, IsJson, MembersJson, ItemsJson, List.map_cons, List.map_nil, and_true]
  decide

theorem yardPayload_separated : Separated sealRuntime (.obj yardPayload) := by
  simp only [yardPayload, Separated, MembersSeparated, ItemsSeparated, List.map_cons,
    List.map_nil, and_true]
  unfold KeysApart
  decide +kernel

theorem canonical_form_yard : ∃ s,
    signPackage sealRuntime exampleService "2026-03-04T12:00:00.000Z".toList (.obj yardPayload) =
        .ok s ∧
      AcceptedInAnyOrder sealRuntime exampleService (yardPayload ++ s) := by
  have hsign : (signPackage sealRuntime exampleService "2026-03-04T12:00:00.000Z".toList
      (.obj yardPayload)).toOption.isSome = true := by decide +kernel
  cases hs : signPackage sealRuntime exampleService "2026-03-04T12:00:00.000Z".toList
      (.obj yardPayload) with
  | error e =>
    rw [hs] at hsign
    cases hsign
  | ok s =>
    refine ⟨s, rfl, ?_⟩
    have hone := (oneText_iff yardPayload_json).mpr yardPayload_separated
    have hseal := (canonical_form sealRuntime).2 exampleService _ yardPayload s
      {stableStringify sealRuntime (.obj yardPayload)} yardPayload_json (by decide +kernel) hs
      (Set.injOn_singleton _ _) hone
    exact hseal.1.mpr yardPayload_separated

def accentPayload : Members Int := [(['e', '\u0301'], .num 1), (['é'], .num 2)]

/-- A key written with `é` and one with `e` and the accent compare as equal: the two orders of the
object have two texts, and the package is refused with its keys the other way round. -/
theorem accents_two_texts :
    IsJson (.obj accentPayload) ∧ (∀ m ∈ accentPayload, m.1 ∉ internalFields) ∧
      Reordered (.obj accentPayload) (.obj accentPayload.reverse) ∧
      stableStringify sealRuntime (.obj accentPayload) ≠
        stableStringify sealRuntime (.obj accentPayload.reverse) ∧
      ∃ s, signPackage sealRuntime exampleService "2026-03-04T12:00:00.000Z".toList
          (.obj accentPayload) = .ok s ∧
        Reordered (.obj (accentPayload ++ s)) (.obj (accentPayload.reverse ++ s)) ∧
        accepts sealRuntime exampleService (accentPayload.reverse ++ s) = false := by
  have hperm : Reordered (.obj accentPayload) (.obj accentPayload.reverse) :=
    reordered_of_perm (List.reverse_perm accentPayload)
  have hrefused : (signPackage sealRuntime exampleService "2026-03-04T12:00:00.000Z".toList
      (.obj accentPayload)).toOption.map
        (fun s => accepts sealRuntime exampleService (accentPayload.reverse ++ s)) =
      some false := by decide +kernel
  refine ⟨?_, by decide +kernel, hperm, by decide +kernel, ?_⟩
  · simp only [accentPayload, IsJson, MembersJson, List.map_cons, List.map_nil, and_true]
    decide
  · cases hs : signPackage sealRuntime exampleService "2026-03-04T12:00:00.000Z".toList
        (.obj accentPayload) with
    | error e =>
      rw [hs] at hrefused
      cases hrefused
    | ok s =>
      rw [hs] at hrefused
      exact ⟨s, rfl, append_reordered hperm s, Option.some.inj hrefused⟩

end Drac.Evidence
