import Drac.Network.AddressSpelling

/-
  The network policy of the cameras, by the address.

  What a text should be answered depends on the address it denotes: private or not (`Reserved`),
  and connected to if the address is in an allowed network and in no denied one (`Policy`).

  It depends on more: a mapped address in hexadecimal is not classified and not accepted, and
  `10.0.0.0/` allows every IPv4 address (`spelling_decides`). Two spellings of an address are
  treated alike, and as the policy says, exactly where neither or both are misread, none that
  the policy accepts is cut, and every prefix is in decimal digits (`policy_by_address`).
-/

namespace Drac.Network.SafeUrl

open IpText CommaList

/-! ## What is configured -/

/-- No slash, or decimal digits after the last. -/
def isPlain (raw : Text) : Bool := (prefixPart raw).all isDecimal

/-- The bits that an entry counts. -/
def writtenLength (bits : Nat) : Option Text → Option Nat
  | none => some bits
  | some digits =>
    if isDecimal digits ∧ decimalNumber digits ≤ bits then some (decimalNumber digits) else none

/-- The network an entry writes. -/
def entryNetwork (raw : Text) : Option Cidr :=
  (read (addressPart raw)).bind (fun a =>
    (writtenLength a.family.bits (prefixPart raw)).map (fun n => ⟨a, n⟩))

def networks (value : Text) : List Cidr := (items value).filterMap entryNetwork

/-- An address, and what `Number` reads as a length. -/
def isReadable (raw : Text) : Bool :=
  (read (addressPart raw)).any (fun a => (prefixNumber a.family.bits (prefixPart raw)).isSome)

/-- The connection is allowed: every entry writes a network, and the address is in an allowed one
and in no denied one. -/
structure Policy (source : Source) (port : Option ℚ) (a : Address) : Prop where
  port_allowed : portAllowed port = true
  denied_written : ∀ raw ∈ items source.deniedText, (entryNetwork raw).isSome
  not_denied : ∀ c ∈ networks source.deniedText, c.holds a = false
  configured : ¬ (source.configuredAllowed = [] ∧ source.production = true)
  allowed_written : ∀ raw ∈ items source.allowedText, (entryNetwork raw).isSome
  allowed : ∃ c ∈ networks source.allowedText, c.holds a = true

/-- The check lets the address through. -/
def Accepts (source : Source) (port : Option ℚ) (text : Text) : Prop :=
  ∃ ip, assertCameraTargetAllowed text port source = .ok ip

/-- A list with a prefix that is not decimal is refused. -/
def RefusesSlips (value : Text) : Prop :=
  (∃ raw ∈ items value, isPlain raw = false) → ∀ label, ∃ e, parseCidrList value label = .error e

/-- What two spellings of one address are promised. -/
structure ByAddress (source : Source) (port : Option ℚ) (a : Address) (t₁ t₂ : Text) : Prop where
  same_class : isPrivateOrReservedIp t₁ = isPrivateOrReservedIp t₂
  both_or_neither : Accepts source port t₁ ↔ Accepts source port t₂
  policy : Accepts source port t₁ ↔ Policy source port a
  denied_refused : RefusesSlips source.deniedText
  allowed_refused : RefusesSlips source.allowedText

/-! ## Lists -/

variable {t : Text} {a : Address}

theorem isIP_of_read (h : read t = some a) :
    isIP t = if a.family = .v4 then 4 else 6 := by
  rw [isIP_of_no_zone (no_zone_of_read h)]
  cases h4 : parseV4 t with
  | some n =>
    rw [IpText.read, h4] at h
    cases h
    rfl
  | none =>
    rw [IpText.read, h4] at h
    obtain ⟨gs, h6, rfl⟩ := Option.map_eq_some_iff.mp h
    rw [h6]
    rfl

variable {raw : Text}

theorem readEntry_eq (label : String) {c : Cidr} :
    readEntry label raw = .ok c ↔ ∃ a n, read (addressPart raw) = some a ∧
      prefixNumber a.family.bits (prefixPart raw) = some n ∧ c = ⟨a, n⟩ := by
  simp only [readEntry]
  cases hread : read (addressPart raw) with
  | none =>
    constructor
    · intro h
      split at h
      · cases h
      · split at h <;> cases h
    · rintro ⟨a, n, ha, -⟩
      cases ha
  | some a =>
    have hisIP := isIP_of_read hread
    have hmax : (if isIP (addressPart raw) = 4 then 32 else 128) = a.family.bits := by
      rw [hisIP]
      cases a.family <;> rfl
    have hzero : isIP (addressPart raw) ≠ 0 := by
      rw [hisIP]
      split <;> decide
    simp only [if_neg hzero, hmax, Option.some.injEq]
    cases hlength : prefixNumber a.family.bits (prefixPart raw) with
    | none =>
      constructor
      · nofun
      · rintro ⟨a', n, rfl, hn, -⟩
        rw [hlength] at hn
        cases hn
    | some n =>
      constructor
      · intro h
        cases h
        exact ⟨a, n, rfl, hlength, rfl⟩
      · rintro ⟨a', n', rfl, hn, rfl⟩
        rw [hlength] at hn
        cases hn
        rfl

theorem readEntry_isOk (label : String) (raw : Text) :
    (∃ c, readEntry label raw = .ok c) ↔ isReadable raw = true := by
  rw [isReadable]
  constructor
  · rintro ⟨c, hc⟩
    obtain ⟨a, n, ha, hn, -⟩ := (readEntry_eq label).mp hc
    rw [ha, Option.any_some, hn]
    rfl
  · intro h
    obtain ⟨a, ha, hsome⟩ := (Option.any_eq_true _ _).mp h
    obtain ⟨n, hn⟩ := Option.isSome_iff_exists.mp hsome
    exact ⟨⟨a, n⟩, (readEntry_eq label).mpr ⟨a, n, ha, hn, rfl⟩⟩

theorem prefixNumber_plain (h : isPlain raw = true) :
    prefixNumber a.family.bits (prefixPart raw) = writtenLength a.family.bits (prefixPart raw) := by
  rw [isPlain] at h
  cases hpart : prefixPart raw with
  | none => rfl
  | some digits =>
    rw [hpart, Option.all_some] at h
    obtain ⟨hne, hdigits⟩ := isDecimal_iff.mp h
    have hbits : a.family.bits < 2 ^ 52 := by
      cases a.family <;> decide
    rw [prefixNumber, JsNumber.intWithin_digits hbits hne hdigits, writtenLength, h]
    simp only [true_and]

theorem readEntry_plain (label : String) (h : isPlain raw = true) (c : Cidr) :
    readEntry label raw = .ok c ↔ entryNetwork raw = some c := by
  rw [readEntry_eq, entryNetwork, Option.bind_eq_some_iff]
  refine exists_congr (fun a => ?_)
  rw [prefixNumber_plain h, Option.map_eq_some_iff]
  constructor
  · rintro ⟨n, ha, hn, rfl⟩
    exact ⟨ha, n, hn, rfl⟩
  · rintro ⟨ha, n, hn, rfl⟩
    exact ⟨n, ha, hn, rfl⟩

theorem parseCidrList_plain {value : Text} (h : ∀ raw ∈ items value, isPlain raw = true)
    (label : String) (list : List Cidr) : parseCidrList value label = .ok list ↔
      (∀ raw ∈ items value, (entryNetwork raw).isSome) ∧ list = networks value :=
  mapM_ok_iff (fun raw hraw c => readEntry_plain label (h raw hraw) c) list

/-- A list refuses what is not decimal if there is nothing of the kind, or it is refused anyway. -/
theorem refusesSlips_iff (value : Text) : RefusesSlips value ↔
    (∀ raw ∈ items value, isPlain raw = true) ∨ ∃ raw ∈ items value, isReadable raw = false := by
  have hread : ∀ label, (∃ list, parseCidrList value label = .ok list) ↔
      ∀ raw ∈ items value, isReadable raw = true := fun label => by
    rw [parseCidrList, mapM_isOk_iff]
    exact forall₂_congr (fun raw _ => readEntry_isOk label raw)
  constructor
  · intro h
    by_contra hneither
    rw [not_or] at hneither
    obtain ⟨hplain, hall⟩ := hneither
    push Not at hplain hall
    obtain ⟨raw, hraw, hslip⟩ := hplain
    obtain ⟨e, he⟩ := h ⟨raw, hraw, Bool.eq_false_iff.mpr hslip⟩ ""
    obtain ⟨list, hlist⟩ := (hread "").mpr (fun raw hraw => Bool.ne_false_iff.mp (hall raw hraw))
    rw [he] at hlist
    cases hlist
  · rintro (hplain | ⟨raw, hraw, hunread⟩) ⟨slip, hslip, hno⟩ label
    · rw [hplain slip hslip] at hno
      cases hno
    · cases hlist : parseCidrList value label with
      | error e => exact ⟨e, rfl⟩
      | ok list =>
        have hall := (hread label).mp ⟨list, hlist⟩ raw hraw
        rw [hunread] at hall
        cases hall

theorem isPlain_of_written (h : (entryNetwork raw).isSome) : isPlain raw = true := by
  obtain ⟨c, hc⟩ := Option.isSome_iff_exists.mp h
  obtain ⟨a, -, hc⟩ := Option.bind_eq_some_iff.mp hc
  obtain ⟨n, hn, -⟩ := Option.map_eq_some_iff.mp hc
  rw [isPlain]
  cases hpart : prefixPart raw with
  | none => rfl
  | some digits =>
    rw [hpart, writtenLength] at hn
    exact (Option.ite_none_right_eq_some.mp hn).1.1

/-- A list that refuses what is not decimal is read exactly if it is written. -/
theorem parseCidrList_iff {value : Text} (h : RefusesSlips value) (label : String)
    (list : List Cidr) : parseCidrList value label = .ok list ↔
      (∀ raw ∈ items value, (entryNetwork raw).isSome) ∧ list = networks value := by
  by_cases hplain : ∀ raw ∈ items value, isPlain raw = true
  · exact parseCidrList_plain hplain label list
  · push Not at hplain
    obtain ⟨raw, hraw, hslip⟩ := hplain
    obtain ⟨e, he⟩ := h ⟨raw, hraw, Bool.eq_false_iff.mpr hslip⟩ label
    rw [he]
    constructor
    · nofun
    · rintro ⟨hwritten, -⟩
      exact absurd (isPlain_of_written (hwritten raw hraw)) hslip

/-! ## What is accepted -/

theorem blockListHas_eq {ip : Text} (h : read ip = some a) (list : List Cidr) :
    blockListHas list ip = list.any (fun c => c.holds a) := by
  rw [blockListHas, h]

theorem accepts_iff {text ip : Text} (hip : normalizeIp (trim text) = ip)
    (hread : read ip = some a) (source : Source) (port : Option ℚ) :
    Accepts source port text ↔ portAllowed port = true ∧
      (∃ denied, parseCidrList source.deniedText "CAMERA_DENIED_CIDRS" = .ok denied ∧
        denied.any (fun c => c.holds a) = false) ∧
      ¬ (source.configuredAllowed = [] ∧ source.production = true) ∧
      ∃ allowed, parseCidrList source.allowedText "CAMERA_ALLOWED_CIDRS" = .ok allowed ∧
        allowed.any (fun c => c.holds a) = true := by
  have hvalid : ¬ (ip = [] ∨ isIP ip = 0) := by
    rw [isIP_of_read hread]
    rintro (rfl | hzero)
    · cases hread
    · split at hzero <;> cases hzero
  rw [Accepts]
  simp only [assertCameraTargetAllowed, hip, if_neg hvalid, blockListHas_eq hread]
  cases hport : portAllowed port with
  | false =>
    rw [if_pos rfl]
    exact ⟨nofun, nofun⟩
  | true =>
    rw [if_neg Bool.true_eq_false.mp, and_iff_right rfl]
    cases hdenied : parseCidrList source.deniedText "CAMERA_DENIED_CIDRS" with
    | error e =>
      constructor
      · rintro ⟨out, h⟩
        cases h
      · rintro ⟨⟨denied, h, -⟩, -⟩
        cases h
    | ok denied =>
      simp only [Except.ok.injEq, exists_eq_left']
      change (∃ out, (if denied.any (fun c => c.holds a) = true then _ else _) = Except.ok out) ↔ _
      cases hblocked : denied.any (fun c => c.holds a) with
      | true =>
        rw [if_pos rfl]
        exact ⟨nofun, nofun⟩
      | false =>
        rw [if_neg Bool.false_ne_true, and_iff_right rfl]
        by_cases hconfigured : source.configuredAllowed = [] ∧ source.production = true
        · rw [if_pos hconfigured]
          exact ⟨nofun, fun h => absurd hconfigured h.1⟩
        · rw [if_neg hconfigured, and_iff_right hconfigured]
          cases hallowed : parseCidrList source.allowedText "CAMERA_ALLOWED_CIDRS" with
          | error e =>
            constructor
            · rintro ⟨out, h⟩
              cases h
            · rintro ⟨allowed, h, -⟩
              cases h
          | ok allowed =>
            simp only [Except.ok.injEq, exists_eq_left']
            change (∃ out, (if allowed.any (fun c => c.holds a) = false then _ else _) =
              Except.ok out) ↔ _
            cases hin : allowed.any (fun c => c.holds a) with
            | false =>
              rw [if_pos rfl]
              exact ⟨nofun, nofun⟩
            | true =>
              rw [if_neg Bool.true_eq_false.mp]
              exact ⟨fun _ => rfl, fun _ => ⟨ip, rfl⟩⟩

/-! ## Texts that are cut -/

variable {b : Address}

theorem read_normalizeIp (h : read t = some b) (hcut : isCut t = false) :
    ∃ b', read (normalizeIp t) = some b' ∧ b'.wide = b.wide := by
  by_cases hstart : mappedStart <+: t
  · obtain ⟨r, rfl⟩ := hstart
    have hdrop : (mappedStart ++ r).drop 7 = r := rfl
    rw [isCut, decide_eq_true (List.prefix_append _ _), Bool.true_and, hdrop] at hcut
    obtain ⟨n, hn⟩ := Option.isSome_iff_exists.mp (Option.isNone_eq_false_iff.mp hcut)
    have hno4 : parseV4 (mappedStart ++ r) = none := by
      cases h4 : parseV4 (mappedStart ++ r) with
      | none => rfl
      | some m => exact absurd (List.mem_append_left r (by decide)) (parseV4_no_colon h4).2
    rw [IpText.read, hno4, parseV6_mapped (parseV4_no_colon hn).2 (parseV4_dot hn), hn] at h
    cases h
    refine ⟨⟨.v4, n⟩, ?_, ?_⟩
    · rw [normalizeIp, if_pos (List.prefix_append _ _), hdrop, IpText.read, hn]
    · exact (groupsValue_mapped n).symm
  · rw [normalizeIp, if_neg hstart]
    exact ⟨b, h, rfl⟩

theorem isIP_of_cut (h : read t = some b) (hcut : isCut t = true) :
    isIP (normalizeIp t) = 0 := by
  rw [isCut, Bool.and_eq_true, decide_eq_true_eq, Option.isNone_iff_eq_none] at hcut
  obtain ⟨⟨r, rfl⟩, h4⟩ := hcut
  have hdrop : (mappedStart ++ r).drop 7 = r := rfl
  rw [hdrop] at h4
  have hzone : '%' ∉ r := fun hc => no_zone_of_read h (List.mem_append_right mappedStart hc)
  rw [normalizeIp, if_pos (List.prefix_append _ _), hdrop, isIP_of_no_zone hzone, h4]
  unfold IpText.read at h
  split at h
  · next n hn => exact absurd (List.mem_append_left r (by decide)) (parseV4_no_colon hn).2
  · obtain ⟨gs, h6, -⟩ := Option.map_eq_some_iff.mp h
    rw [(parseV6_after_mapped h6).1]
    rfl

theorem not_accepts_of_cut (h : read t = some b) (hcut : isCut t = true)
    (source : Source) (port : Option ℚ) : ¬ Accepts source port t := by
  rintro ⟨ip, hip⟩
  simp only [assertCameraTargetAllowed, trim_of_read h] at hip
  rw [if_pos (.inr (isIP_of_cut h hcut))] at hip
  cases hip

variable {source : Source} {port : Option ℚ}

/-- Any other text is treated as the policy says, where the lists are plain or refused. -/
theorem accepts_iff_policy
    (h : denotes t = some a) (hcut : isCut t = false) (hdenied : RefusesSlips source.deniedText)
    (hallowed : RefusesSlips source.allowedText) :
    Accepts source port t ↔ Policy source port a := by
  obtain ⟨b, hb, rfl⟩ := Option.map_eq_some_iff.mp h
  obtain ⟨b', hb', hwide⟩ := read_normalizeIp hb hcut
  have hholds : ∀ c : Cidr, c.holds b' = c.holds b.unmap := fun c =>
    holds_congr c (hwide.trans (wide_unmap b).symm)
  have hip : normalizeIp (trim t) = normalizeIp t := by rw [trim_of_read hb]
  rw [accepts_iff hip hb']
  simp only [hholds, parseCidrList_iff hdenied, parseCidrList_iff hallowed]
  constructor
  · rintro ⟨hport, ⟨denied, ⟨hwritten, rfl⟩, hout⟩, hconfigured, allowed, ⟨hwritten', rfl⟩, hin⟩
    exact ⟨hport, hwritten, fun c hc => List.any_eq_false.mp hout c hc |> Bool.eq_false_iff.mpr,
      hconfigured, hwritten', List.any_eq_true.mp hin⟩
  · intro hpolicy
    refine ⟨hpolicy.port_allowed, ⟨_, ⟨hpolicy.denied_written, rfl⟩, ?_⟩, hpolicy.configured, _,
      ⟨hpolicy.allowed_written, rfl⟩, List.any_eq_true.mpr hpolicy.allowed⟩
    exact List.any_eq_false.mpr (fun c hc => Bool.eq_false_iff.mp (hpolicy.not_denied c hc))

theorem accepts_iff_of_uncut
    (h : denotes t = some a) (huncut : Policy source port a → isCut t = false)
    (hdenied : RefusesSlips source.deniedText) (hallowed : RefusesSlips source.allowedText) :
    Accepts source port t ↔ Policy source port a := by
  cases hcut : isCut t with
  | false => exact accepts_iff_policy h hcut hdenied hallowed
  | true =>
    obtain ⟨b, hb, -⟩ := Option.map_eq_some_iff.mp h
    constructor
    · intro haccepts
      exact absurd haccepts (not_accepts_of_cut hb hcut source port)
    · intro hpolicy
      rw [huncut hpolicy] at hcut
      cases hcut

theorem uncut_of_accepts
    (h : denotes t = some a) (haccepts : Accepts source port t) : isCut t = false := by
  obtain ⟨b, hb, -⟩ := Option.map_eq_some_iff.mp h
  exact Bool.eq_false_iff.mpr (fun hcut => not_accepts_of_cut hb hcut source port haccepts)

/-! ## The address decides -/

/-- Two spellings of an address are treated alike, and as the policy says, if and only if neither
or both are misread, none that the policy accepts is cut, and a prefix that is not in decimal
digits is in a list that is refused anyway. -/
theorem policy_by_address (source : Source) (port : Option ℚ) {a : Address} {t₁ t₂ : Text}
    (h₁ : denotes t₁ = some a) (h₂ : denotes t₂ = some a) :
    ByAddress source port a t₁ t₂ ↔
      isMisread t₁ = isMisread t₂ ∧
      (Policy source port a → isCut t₁ = false ∧ isCut t₂ = false) ∧
      ∀ value ∈ [source.deniedText, source.allowedText],
        (∀ raw ∈ items value, isPlain raw = true) ∨ ∃ raw ∈ items value, isReadable raw = false := by
  have hclass : isPrivateOrReservedIp t₁ = isPrivateOrReservedIp t₂ ↔
      isMisread t₁ = isMisread t₂ := by
    rw [private_eq h₁, private_eq h₂]
    exact Bool.xor_right_inj
  simp only [List.forall_mem_cons, List.not_mem_nil, false_imp_iff, implies_true, and_true,
    ← refusesSlips_iff, ← hclass]
  constructor
  · intro h
    refine ⟨h.same_class, fun hpolicy => ?_, h.denied_refused, h.allowed_refused⟩
    have haccepts : Accepts source port t₁ := h.policy.mpr hpolicy
    exact ⟨uncut_of_accepts h₁ haccepts, uncut_of_accepts h₂ (h.both_or_neither.mp haccepts)⟩
  · rintro ⟨hsame, huncut, hdenied, hallowed⟩
    have hfirst := accepts_iff_of_uncut h₁ (fun hp => (huncut hp).1) hdenied hallowed
    have hsecond := accepts_iff_of_uncut h₂ (fun hp => (huncut hp).2) hdenied hallowed
    exact ⟨hsame, hfirst.trans hsecond.symm, hfirst, hdenied, hallowed⟩

def cameraVlan : Source where
  cameraDeniedCidrs := none
  cameraAllowedCidrs := some "10.20.0.0/16, fd12:3456:789a::/48".toList
  nodeEnv := some "production".toList

theorem policy_by_address_vlan :
    ByAddress cameraVlan (some 554) ⟨.v6, 0xfd123456789a00000000000000000001⟩
      "fd12:3456:789a::1".toList "FD12:3456:789A:0:0:0:0:1".toList :=
  (policy_by_address cameraVlan (some 554) (by decide +kernel) (by decide +kernel)).mpr
    ⟨by decide +kernel, fun _ => ⟨by decide +kernel, by decide +kernel⟩, by decide +kernel⟩

/-- A mapped address in hexadecimal is not known to be private, and no camera may have it; and a
prefix left out is read as zero. -/
theorem spelling_decides :
    denotes "::ffff:10.20.0.1".toList = some ⟨.v4, 169082881⟩ ∧
      denotes "::ffff:a14:1".toList = some ⟨.v4, 169082881⟩ ∧
      isPrivateOrReservedIp "::ffff:10.20.0.1".toList = true ∧
      isPrivateOrReservedIp "::ffff:a14:1".toList = false ∧
      assertCameraTargetAllowed "::ffff:10.20.0.1".toList (some 554) cameraVlan =
        .ok "10.20.0.1".toList ∧
      parseCidrList "10.0.0.0/".toList "CAMERA_ALLOWED_CIDRS" = .ok [⟨⟨.v4, 167772160⟩, 0⟩] ∧
      ¬ ByAddress cameraVlan (some 554) ⟨.v4, 169082881⟩
        "::ffff:10.20.0.1".toList "::ffff:a14:1".toList := by
  refine ⟨by decide +kernel, by decide +kernel, by decide +kernel, by decide +kernel,
    by decide +kernel, by decide +kernel, fun h => ?_⟩
  have hsame := h.same_class
  exact absurd hsame (by decide +kernel)

end Drac.Network.SafeUrl
