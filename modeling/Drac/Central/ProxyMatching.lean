import Drac.Central.ProxyTrust

/-
  What the list of trusted proxies trusts.

  A list writes networks (`networks`), one an entry: an address alone, or an address, a slash
  and decimal digits. A peer is trusted if the address its text stands for is in one of them
  (`Trusted`), an IPv6 text of a mapped address standing for the IPv4 address, on either side.

  `Number` reads more than decimal digits, and reads no digits as zero: `10.0.0.0/` is compiled
  to every IPv4 address there is (`prefix_left_out`). What follows a second slash is dropped. And
  a mapped address in hexadecimal is compared as IPv6.

  Where neither happens the list is exact, and only there (`matching_exact`).
-/

namespace Drac.Central.ProxyTrust

open IpText CommaList

/-! ## What a list writes -/

/-- No slash, or one and decimal digits after it. -/
def isPlain (raw : Text) : Bool :=
  match raw.splitOn '/' with
  | [_] => true
  | [_, digits] => isDecimal digits
  | _ => false

/-- The network an entry writes. -/
def entryNetwork (raw : Text) : Option Cidr :=
  match raw.splitOn '/' with
  | [address] => (addressOf (bare address)).map (fun a => ⟨a, a.family.bits⟩)
  | [address, digits] =>
    (addressOf (bare address)).bind (fun a =>
      if isDecimal digits ∧ decimalNumber digits ≤ a.family.bits then
        some ⟨a, decimalNumber digits⟩
      else none)
  | _ => none

def networks (value : Text) : List Cidr := (items value).filterMap entryNetwork

/-- The text stands for an address of one of the networks. -/
def Trusted (nets : List Cidr) (ip : Text) : Prop :=
  ∃ a, denotes (bare ip) = some a ∧ ∃ c ∈ nets, c.unmap.contains a

/-- What is promised of a list that is compiled, and of a peer. -/
structure Exact (value ip : Text) (ranges : List Range) : Prop where
  entries_written : ∀ raw ∈ items value, (entryNetwork raw).isSome
  trusts : isTrustedProxy ip ranges = true ↔ Trusted (networks value) ip
  /-- The header has a say only if the peer is trusted. -/
  header : ∀ realIp realIp', clientIpFromRequest (some ip) realIp ranges ≠
    clientIpFromRequest (some ip) realIp' ranges → Trusted (networks value) ip

/-! ## When the spelling of a mapped address does not matter -/

/-- An IPv4 address that a mapped entry holds is in an IPv4 entry too, and a mapped address is in
an IPv6 entry exactly if it is in an IPv4 one. -/
structure SpellingsAgree (nets : List Cidr) (a : Address) : Prop where
  entry : a.family = .v4 → ∀ c ∈ nets, c.isMapped → c.unmap.contains a →
    ∃ c' ∈ nets, c'.contains a
  text : a.isMapped → ((∃ c ∈ nets, c.contains a) ↔ ∃ c ∈ nets, c.unmap.contains a.unmap)

variable {a : Address}

theorem SpellingsAgree.of_plain {nets : List Cidr} (ha : a.isMapped = false)
    (hnets : ∀ c ∈ nets, c.isMapped = false) : SpellingsAgree nets a where
  entry := fun _ c hc hmapped => by
    rw [hnets c hc] at hmapped
    cases hmapped
  text := fun hmapped => by
    rw [ha] at hmapped
    cases hmapped

theorem contains_iff_spellingsAgree (nets : List Cidr) (a : Address) :
    ((∃ c ∈ nets, c.contains a) ↔ ∃ c ∈ nets, c.unmap.contains a.unmap) ↔
      SpellingsAgree nets a := by
  constructor
  · intro h
    refine ⟨fun hv4 c hc _ hcontains => ?_, fun _ => h⟩
    have hunmap : a.unmap = a := by
      cases a
      cases hv4
      rfl
    exact h.mpr ⟨c, hc, by rwa [hunmap]⟩
  · intro h
    cases ha : a.isMapped with
    | true => exact h.text ha
    | false =>
      rw [unmap_of_not_mapped ha]
      constructor
      · rintro ⟨c, hc, hcontains⟩
        have hc' : c.isMapped = false := by
          cases hm : c.isMapped with
          | false => rfl
          | true =>
            rw [Cidr.isMapped_of_contains hm hcontains] at ha
            cases ha
        exact ⟨c, hc, by rwa [Cidr.unmap_of_not_mapped hc']⟩
      · rintro ⟨c, hc, hcontains⟩
        cases hm : c.isMapped with
        | false =>
          rw [Cidr.unmap_of_not_mapped hm] at hcontains
          exact ⟨c, hc, hcontains⟩
        | true =>
          have hv4 : a.family = .v4 :=
            (contains_iff.mp hcontains).1.symm.trans (Cidr.family_of_mapped hm).2
          exact h.entry hv4 c hc hm hcontains

/-! ## What is compiled -/

def rangeOf (c : Cidr) : Range :=
  ⟨c.address.family, c.address.family.bits, c.length,
    maskValue c.address.value (c.address.family.bits - c.length)⟩

theorem maskValue_eq (v s : Nat) : maskValue v s = v / 2 ^ s * 2 ^ s := by
  unfold maskValue
  split
  · next h =>
    rw [h, Nat.pow_zero, Nat.div_one, Nat.mul_one]
  · rw [Nat.shiftRight_eq_div_pow, Nat.shiftLeft_eq]

theorem holds_rangeOf (c : Cidr) (a : Address) :
    (rangeOf c).holds (parsedOf a) = c.contains a := by
  rw [Bool.eq_iff_iff, contains_iff, Range.holds, Bool.and_eq_true, decide_eq_true_eq,
    decide_eq_true_eq]
  refine and_congr_right (fun hfamily => ?_)
  have hfamily' : c.address.family = a.family := hfamily
  show maskValue a.value (c.address.family.bits - c.length) =
    maskValue c.address.value (c.address.family.bits - c.length) ↔ _
  rw [hfamily', maskValue_eq, maskValue_eq, Nat.mul_left_inj (Nat.two_pow_pos _).ne']
  exact eq_comm

theorem isPlain_cases {raw : Text} (h : isPlain raw = true) :
    (∃ address, raw.splitOn '/' = [address]) ∨
      ∃ address digits, raw.splitOn '/' = [address, digits] ∧ isDecimal digits = true := by
  unfold isPlain at h
  split at h
  · next address heq => exact .inl ⟨address, heq⟩
  · next address digits heq => exact .inr ⟨address, digits, heq, h⟩
  · cases h

theorem isPlain_of_written {raw : Text} (h : (entryNetwork raw).isSome) : isPlain raw = true := by
  unfold entryNetwork at h
  unfold isPlain
  split at h
  · rfl
  · next address digits _ =>
    obtain ⟨c, hc⟩ := Option.isSome_iff_exists.mp h
    obtain ⟨a, -, hc⟩ := Option.bind_eq_some_iff.mp hc
    exact (Option.ite_none_right_eq_some.mp hc).1.1
  · cases h

theorem parse_plain {entry : Text} {range : Range} (hplain : isPlain (trim entry) = true) :
    parseTrustedProxyEntry entry = .ok (some range) ↔
      trim entry ≠ [] ∧ ∃ c, entryNetwork (trim entry) = some c ∧ rangeOf c = range := by
  rw [parseTrustedProxyEntry]
  by_cases hnil : trim entry = []
  · rw [if_pos hnil]
    exact ⟨nofun, fun h => absurd hnil h.1⟩
  rw [if_neg hnil, and_iff_right hnil]
  rcases isPlain_cases hplain with ⟨address, hsplit⟩ | ⟨address, digits, hsplit, hdecimal⟩
  · simp only [hsplit, entryNetwork, List.headD_cons, List.tail_cons, List.head?_nil, prefixOf]
    cases haddress : addressOf (bare address) with
    | none =>
      rw [ipValue_of_none haddress]
      exact ⟨nofun, nofun⟩
    | some a =>
      rw [ipValue_of_address haddress]
      show Except.ok (some (rangeOf ⟨a, a.family.bits⟩)) = Except.ok (some range) ↔ _
      rw [Except.ok.injEq, Option.some.injEq, Option.map_some]
      exact ⟨fun h => ⟨_, rfl, h⟩, fun ⟨c, hc, h⟩ => by cases hc; exact h⟩
  · have hne := isDecimal_iff.mp hdecimal
    simp only [hsplit, entryNetwork, List.headD_cons, List.tail_cons, List.head?_cons, prefixOf]
    cases haddress : addressOf (bare address) with
    | none =>
      rw [ipValue_of_none haddress]
      exact ⟨nofun, nofun⟩
    | some a =>
      have hbits : a.family.bits < 2 ^ 52 := by
        cases a.family <;> decide
      rw [ipValue_of_address haddress]
      show rangeWith (trim entry) (parsedOf a)
        (JsNumber.intWithin a.family.bits (JsNumber.number digits)) = Except.ok (some range) ↔ _
      rw [JsNumber.intWithin_digits hbits hne.1 hne.2, Option.bind_some, hdecimal]
      by_cases hle : decimalNumber digits ≤ a.family.bits
      · rw [if_pos hle, if_pos ⟨rfl, hle⟩]
        show Except.ok (some (rangeOf ⟨a, decimalNumber digits⟩)) = Except.ok (some range) ↔ _
        rw [Except.ok.injEq, Option.some.injEq]
        exact ⟨fun h => ⟨_, rfl, h⟩, fun ⟨c, hc, h⟩ => by cases hc; exact h⟩
      · rw [if_neg hle, if_neg (fun h => hle h.2)]
        exact ⟨nofun, nofun⟩

theorem parse_isSome {entry : Text} {range : Option Range} (hne : trim entry ≠ [])
    (h : parseTrustedProxyEntry entry = .ok range) : ∃ r, range = some r := by
  rw [parseTrustedProxyEntry, if_neg hne] at h
  cases hvalue : ipValue (((trim entry).splitOn '/').headD []) with
  | error e =>
    simp only [hvalue] at h
    cases h
  | ok parsed =>
    simp only [hvalue] at h
    change rangeWith _ _ _ = _ at h
    cases hlength : prefixOf parsed.bits ((trim entry).splitOn '/').tail.head? with
    | none =>
      rw [hlength] at h
      cases h
    | some n =>
      rw [hlength] at h
      cases h
      exact ⟨_, rfl⟩

theorem mapM_parse : ∀ {items : List Text} {ranges : List (Option Range)},
    (∀ raw ∈ written items, isPlain raw = true) → items.mapM parseTrustedProxyEntry = .ok ranges →
    (∀ raw ∈ written items, (entryNetwork raw).isSome) ∧
      ranges.filterMap id = ((written items).filterMap entryNetwork).map rangeOf
  | [], ranges, _, h => by
    cases h
    exact ⟨nofun, rfl⟩
  | item :: items, ranges, hplain, h => by
    obtain ⟨range, rest, hitem, hrest, rfl⟩ := mapM_cons_ok.mp h
    by_cases hnil : trim item = []
    · rw [written_blank hnil] at hplain ⊢
      rw [parseTrustedProxyEntry, if_pos hnil] at hitem
      cases hitem
      obtain ⟨hwritten, hranges⟩ := mapM_parse hplain hrest
      refine ⟨hwritten, ?_⟩
      rw [← hranges]
      rfl
    · rw [written_cons hnil] at hplain ⊢
      obtain ⟨hwritten, hranges⟩ := mapM_parse
        (fun raw hraw => hplain raw (List.mem_cons_of_mem _ hraw)) hrest
      obtain ⟨r, rfl⟩ := parse_isSome hnil hitem
      obtain ⟨-, c, hc, rfl⟩ := (parse_plain (hplain _ List.mem_cons_self)).mp hitem
      refine ⟨fun raw hraw => ?_, ?_⟩
      · rcases List.mem_cons.mp hraw with rfl | hraw
        · rw [hc]
          rfl
        · exact hwritten raw hraw
      · rw [List.filterMap_cons_some hc, List.map_cons, ← hranges]
        rfl

theorem compile_plain {value : Text} {ranges : List Range}
    (hplain : ∀ raw ∈ items value, isPlain raw = true)
    (h : compileTrustedProxies value = .ok ranges) :
    (∀ raw ∈ items value, (entryNetwork raw).isSome) ∧
      ranges = (networks value).map rangeOf := by
  rw [compileTrustedProxies] at h
  cases hmap : (value.splitOn ',').mapM parseTrustedProxyEntry with
  | error e =>
    rw [hmap] at h
    cases h
  | ok items =>
    rw [hmap] at h
    cases h
    exact mapM_parse hplain hmap

/-! ## What is matched -/

variable {ip : Text}

theorem isTrustedProxy_of_none (h : addressOf (bare ip) = none) (ranges : List Range) :
    isTrustedProxy ip ranges = false := by
  unfold isTrustedProxy
  split
  · rfl
  · next parsed hparsed =>
    rw [ipValue_of_none h] at hparsed
    cases hparsed

theorem isTrustedProxy_of_address (h : addressOf (bare ip) = some a)
    (ranges : List Range) :
    isTrustedProxy ip ranges = ranges.any (fun range => range.holds (parsedOf a)) := by
  unfold isTrustedProxy
  split
  · next e herror =>
    rw [ipValue_of_address h] at herror
    cases herror
  · next parsed hparsed =>
    rw [ipValue_of_address h] at hparsed
    cases hparsed
    rfl

theorem isTrustedProxy_map (nets : List Cidr)
    (h : addressOf (bare ip) = some a) :
    isTrustedProxy ip (nets.map rangeOf) = true ↔ ∃ c ∈ nets, c.contains a := by
  have hcomp : (fun range : Range => range.holds (parsedOf a)) ∘ rangeOf =
      fun c => c.contains a := funext (fun c => holds_rangeOf c a)
  rw [isTrustedProxy_of_address h, List.any_map, hcomp, List.any_eq_true]

theorem trusted_iff (nets : List Cidr)
    (h : addressOf (bare ip) = some a) :
    Trusted nets ip ↔ ∃ c ∈ nets, c.unmap.contains a.unmap := by
  rw [Trusted, denotes_eq, h, Option.map_some]
  constructor
  · rintro ⟨b, hb, hc⟩
    cases hb
    exact hc
  · intro hc
    exact ⟨a.unmap, rfl, hc⟩

theorem not_trusted (nets : List Cidr) (h : addressOf (bare ip) = none) :
    ¬ Trusted nets ip := by
  rintro ⟨b, hb, -⟩
  rw [denotes_eq, h] at hb
  cases hb

/-! ## The normal form of a peer -/

theorem isDotted_map (s : Text) : isDotted (s.map Char.toLower) = isDotted s := by
  have hdigit : isDigit ∘ Char.toLower = isDigit := funext isDigit_toLower
  rw [isDotted, isDotted, splitOn_map (fun c => toLower_eq_iff (by decide) (by decide)),
    List.length_map, List.all_map]
  congr 2
  funext part
  rw [Function.comp_apply, List.all_map, hdigit]
  cases part <;> rfl

theorem isMappedDotted_map (ip : Text) :
    isMappedDotted (ip.map Char.toLower) = isMappedDotted ip := by
  have htwice : Char.toLower ∘ Char.toLower = Char.toLower := funext AsciiCase.toLower_toLower
  rw [isMappedDotted, isMappedDotted, ← List.map_take, ← List.map_drop, List.map_map, htwice,
    isDotted_map]

theorem isMappedDotted_unmapDotted (ip : Text) : isMappedDotted (unmapDotted ip) = false := by
  unfold unmapDotted
  cases h : isMappedDotted ip with
  | false => rw [if_neg Bool.false_ne_true, h]
  | true =>
    rw [if_pos rfl, Bool.eq_false_iff]
    intro hagain
    rw [isMappedDotted, Bool.and_eq_true, decide_eq_true_eq] at h hagain
    have hcolon : ':' ∈ ((ip.drop 7).take 7).map Char.toLower := by
      rw [hagain.1]
      decide
    obtain ⟨c, hc, hlower⟩ := List.mem_map.mp hcolon
    rw [toLower_eq_iff (by decide) (by decide)] at hlower
    have hmem : ':' ∈ ip.drop 7 := List.mem_of_mem_take (hlower ▸ hc)
    rw [not_isDotted hmem] at h
    exact absurd h.2 Bool.false_ne_true

theorem bare_of_read (h : read ip = some a) : bare ip = ip := by
  have hchars : ∀ c ∈ ip, isAddressChar c = true := fun c hc => read_chars h hc
  have htrim : trim ip = ip := trim_of_read h
  have hopen : ip.head? ≠ some '[' := fun hhead =>
    absurd (hchars '[' (List.mem_of_head? hhead)) (by decide)
  have hclose : ip.getLast? ≠ some ']' := fun hlast =>
    absurd (hchars ']' (List.mem_of_getLast? hlast)) (by decide)
  have hkeep : ∀ c ∈ ip, decide (c ≠ '%') = true := fun c hc =>
    decide_eq_true (fun hpercent => absurd (hchars '%' (hpercent ▸ hc)) (by decide))
  rw [bare, htrim, stripBrackets]
  simp only [if_neg hopen, if_neg hclose]
  exact List.takeWhile_eq_self_iff.mpr hkeep

theorem addressOf_normalizeIp (value : Text) :
    addressOf (bare (normalizeIp value)) = addressOf (bare value) := by
  have hpercent := percent_unmapDotted (percent_bare value)
  cases h : addressOf (bare value) with
  | none =>
    have hfamily : isIP (unmapDotted (bare value)) = 0 := (read_eq_none hpercent).mp h
    have hnormal : normalizeIp value = [] := by
      simp only [normalizeIp, hfamily, ne_eq, not_true_eq_false, if_false]
    rw [hnormal]
    decide
  | some a =>
    have hfamily : isIP (unmapDotted (bare value)) ≠ 0 := by
      rw [Ne, ← read_eq_none hpercent]
      exact fun hnone => by rw [addressOf, hnone] at h; cases h
    have hnormal : normalizeIp value = (unmapDotted (bare value)).map Char.toLower := by
      simp only [normalizeIp, if_pos hfamily]
    have hread : read (normalizeIp value) = some a := by
      rw [hnormal, read_map]
      exact h
    have hsame : unmapDotted (normalizeIp value) = normalizeIp value := by
      rw [unmapDotted, hnormal, isMappedDotted_map, isMappedDotted_unmapDotted,
        if_neg Bool.false_ne_true]
    rw [bare_of_read hread, addressOf, hsame, hread]

/-- The header has a say only behind a trusted peer. -/
theorem clientIp_of_untrusted {ranges : List Range}
    (h : isTrustedProxy (normalizeIp ip) ranges = false) (realIp : Option Text) :
    clientIpFromRequest (some ip) realIp ranges = normalizeIp ip := by
  rw [clientIpFromRequest, Option.getD_some]
  by_cases hnil : normalizeIp ip = []
  · rw [if_pos hnil, hnil]
  · rw [if_neg hnil, h]
    rfl

theorem isTrustedProxy_normalizeIp (ip : Text) (ranges : List Range) :
    isTrustedProxy (normalizeIp ip) ranges = isTrustedProxy ip ranges := by
  cases h : addressOf (bare ip) with
  | none =>
    rw [isTrustedProxy_of_none h, isTrustedProxy_of_none ((addressOf_normalizeIp ip).trans h)]
  | some a =>
    rw [isTrustedProxy_of_address h,
      isTrustedProxy_of_address ((addressOf_normalizeIp ip).trans h)]

/-! ## Exactness -/

/-- A list is exact for a peer if and only if every prefix in it is written in decimal digits,
and no mapped address in hexadecimal makes a difference. -/
theorem matching_exact {value : Text} {ranges : List Range} (ip : Text)
    (h : compileTrustedProxies value = .ok ranges) :
    Exact value ip ranges ↔
      (∀ raw ∈ items value, isPlain raw = true) ∧
        ∀ a, addressOf (bare ip) = some a → SpellingsAgree (networks value) a := by
  constructor
  · intro hexact
    have hplain : ∀ raw ∈ items value, isPlain raw = true := fun raw hraw =>
      isPlain_of_written (hexact.entries_written raw hraw)
    obtain ⟨-, rfl⟩ := compile_plain hplain h
    refine ⟨hplain, fun a ha => ?_⟩
    rw [← contains_iff_spellingsAgree, ← isTrustedProxy_map _ ha, ← trusted_iff _ ha]
    exact hexact.trusts
  · rintro ⟨hplain, hspelling⟩
    obtain ⟨hwritten, rfl⟩ := compile_plain hplain h
    have htrusts : isTrustedProxy ip ((networks value).map rangeOf) = true ↔
        Trusted (networks value) ip := by
      cases haddress : addressOf (bare ip) with
      | none =>
        rw [isTrustedProxy_of_none haddress]
        exact ⟨fun hfalse => absurd hfalse Bool.false_ne_true,
          fun htrusted => absurd htrusted (not_trusted _ haddress)⟩
      | some a =>
        rw [isTrustedProxy_map _ haddress, trusted_iff _ haddress, contains_iff_spellingsAgree]
        exact hspelling a haddress
    refine ⟨hwritten, htrusts, fun realIp realIp' hne => ?_⟩
    rw [← htrusts]
    by_contra huntrusted
    rw [Bool.not_eq_true, ← isTrustedProxy_normalizeIp] at huntrusted
    rw [clientIp_of_untrusted huntrusted, clientIp_of_untrusted huntrusted] at hne
    exact hne rfl

def office : Text := "10.0.0.0/8, ::1".toList

def officeRanges : List Range := [⟨.v4, 32, 8, 10 * 2 ^ 24⟩, ⟨.v6, 128, 128, 1⟩]

/-- A peer in the dotted form of a mapped address. -/
theorem matching_exact_office :
    compileTrustedProxies office = .ok officeRanges ∧
      Exact office "[::FFFF:10.2.3.4]".toList officeRanges := by
  have hcompile : compileTrustedProxies office = .ok officeRanges := by decide +kernel
  refine ⟨hcompile, (matching_exact _ hcompile).mpr ⟨by decide, fun a ha => ?_⟩⟩
  have haddress : addressOf (bare "[::FFFF:10.2.3.4]".toList) = some ⟨.v4, 167904004⟩ := by
    decide +kernel
  cases haddress.symm.trans ha
  exact SpellingsAgree.of_plain rfl (by decide +kernel)

/-! ## A prefix left out -/

def slipped : Text := "10.0.0.0/".toList

def everyone : List Range := [⟨.v4, 32, 0, 0⟩]

/-- No digits are read as zero, and every IPv4 address is trusted. -/
theorem prefix_left_out :
    compileTrustedProxies slipped = .ok everyone ∧
      isTrustedProxy "203.0.113.9".toList everyone = true ∧
      ¬ Exact slipped "203.0.113.9".toList everyone := by
  refine ⟨by decide +kernel, by decide +kernel, fun hexact => ?_⟩
  have hwritten := hexact.entries_written slipped (by decide)
  exact absurd hwritten (by decide +kernel)

end Drac.Central.ProxyTrust
