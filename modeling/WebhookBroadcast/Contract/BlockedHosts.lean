import WebhookBroadcast.Contract.EndpointUrl
import WebhookBroadcast.Net.Spelling

/-!
# Which addresses are blocked

`isBlockedHost` looks at the text of an address.  For IPv4 its answer is that of
the address; for IPv6 it depends on the spelling.
-/

namespace WebhookBroadcast

open Js Net

/-! ## The addresses to block -/

/-- Private, loopback, link-local and shared IPv4 addresses. -/
def blockedIpv4 : List (Block 32) :=
  [⟨ofGroups 256 [10, 0, 0, 0], 8⟩, ⟨ofGroups 256 [172, 16, 0, 0], 12⟩,
    ⟨ofGroups 256 [192, 168, 0, 0], 16⟩, ⟨ofGroups 256 [127, 0, 0, 0], 8⟩,
    ⟨ofGroups 256 [169, 254, 0, 0], 16⟩, ⟨ofGroups 256 [0, 0, 0, 0], 8⟩,
    ⟨ofGroups 256 [100, 64, 0, 0], 10⟩]

/-- `::1`, `::`, `fe80::/10` and `fc00::/7`. -/
def blockedIpv6 : List (Block 128) :=
  [⟨ofGroups 65536 [0, 0, 0, 0, 0, 0, 0, 1], 128⟩,
    ⟨ofGroups 65536 [0, 0, 0, 0, 0, 0, 0, 0], 128⟩,
    ⟨ofGroups 65536 [0xfe80, 0, 0, 0, 0, 0, 0, 0], 10⟩,
    ⟨ofGroups 65536 [0xfc00, 0, 0, 0, 0, 0, 0, 0], 7⟩]

/-- `::ffff:0:0/96`. -/
def mappedIpv4 : Block 128 :=
  ⟨ofGroups 65536 [0, 0, 0, 0, 0, 0xffff, 0, 0], 96⟩

def BlockedIpv4 (value : ℕ) : Prop := ∃ block ∈ blockedIpv4, block.Contains value

/-- In one of the blocks, or an IPv4-mapped address of a blocked one. -/
def BlockedAddress : Address → Prop
  | .v4 value => BlockedIpv4 value
  | .v6 value => (∃ block ∈ blockedIpv6, block.Contains value) ∨
      (mappedIpv4.Contains value ∧ BlockedIpv4 (value % 2 ^ 32))

instance (value : ℕ) : Decidable (BlockedIpv4 value) :=
  inferInstanceAs (Decidable (∃ block ∈ blockedIpv4, block.Contains value))

instance : (address : Address) → Decidable (BlockedAddress address)
  | .v4 value => inferInstanceAs (Decidable (BlockedIpv4 value))
  | .v6 value => inferInstanceAs (Decidable
      ((∃ block ∈ blockedIpv6, block.Contains value) ∨ _ ∧ _))

theorem blockedIpv4_iff {a b c d : ℕ} (hb : b < 256) (hc : c < 256)
    (hd : d < 256) :
    BlockedIpv4 (ofGroups 256 [a, b, c, d]) ↔
      a = 10 ∨ (a = 172 ∧ 16 ≤ b ∧ b ≤ 31) ∨ (a = 192 ∧ b = 168) ∨ a = 127 ∨
        (a = 169 ∧ b = 254) ∨ a = 0 ∨ (a = 100 ∧ 64 ≤ b ∧ b ≤ 127) := by
  have hvalue : ofGroups 256 [a, b, c, d] =
      a * 2 ^ 24 + b * 2 ^ 16 + c * 2 ^ 8 + d := by
    simp only [ofGroups, List.foldl_cons, List.foldl_nil]
    ring
  have h24 : ofGroups 256 [a, b, c, d] / 2 ^ 24 = a := by omega
  have h22 : ofGroups 256 [a, b, c, d] / 2 ^ 22 = 4 * a + b / 64 := by omega
  have h20 : ofGroups 256 [a, b, c, d] / 2 ^ 20 = 16 * a + b / 16 := by omega
  have h16 : ofGroups 256 [a, b, c, d] / 2 ^ 16 = 256 * a + b := by omega
  have hprivate : 16 * a + b / 16 = 2753 ↔ a = 172 ∧ 16 ≤ b ∧ b ≤ 31 := by
    omega
  have hlocal : 256 * a + b = 49320 ↔ a = 192 ∧ b = 168 := by omega
  have hlink : 256 * a + b = 43518 ↔ a = 169 ∧ b = 254 := by omega
  have hshared : 4 * a + b / 64 = 401 ↔ a = 100 ∧ 64 ≤ b ∧ b ≤ 127 := by
    omega
  simp only [BlockedIpv4, blockedIpv4, List.exists_mem_cons_iff,
    List.not_mem_nil, false_and, exists_false, or_false, Block.Contains,
    Nat.reduceSub, h24, h22, h20, h16]
  norm_num [ofGroups, hprivate, hlocal, hlink, hshared]

theorem blockedIpv6_iff {value : ℕ} :
    BlockedAddress (.v6 value) ↔
      value = 1 ∨ value = 0 ∨ value / 2 ^ 118 = 0x3fa ∨
        value / 2 ^ 121 = 0x7e ∨
        (value / 2 ^ 32 = 0xffff ∧ BlockedIpv4 (value % 2 ^ 32)) := by
  simp only [BlockedAddress, blockedIpv6, List.exists_mem_cons_iff,
    List.not_mem_nil, false_and, exists_false, or_false, Block.Contains,
    mappedIpv4, Nat.reduceSub]
  norm_num [ofGroups]
  tauto

/-! ## Texts in lower case -/

def LowerCase (text : String) : Prop :=
  text.toList.map Char.toLower = text.toList

theorem lowerCase_toLowerCase (text : String) :
    LowerCase (toLowerCase text) := by
  rw [LowerCase, toList_toLowerCase, List.map_map]
  exact List.map_congr_left fun c _ => toLower_toLower c

theorem LowerCase.withoutFinalDot {text : String} (h : LowerCase text) :
    LowerCase (withoutFinalDot text) := by
  unfold WebhookBroadcast.withoutFinalDot
  split
  next =>
    rw [LowerCase, String.toList_ofList, List.map_dropLast, h]
  next => exact h

theorem LowerCase.toLowerCase_eq {text : String} (h : LowerCase text) :
    toLowerCase text = text := by
  rw [← String.toList_inj, toList_toLowerCase, h]

theorem LowerCase.address?_eq {text : String} (h : LowerCase text) :
    address? text = addressOf? text.toList := by
  rw [address?, h]

theorem isIP_eq_four {text : String} :
    isIP text = 4 ↔ ∃ value, address? text = some (.v4 value) := by
  unfold isIP
  split <;> simp_all

theorem isIP_eq_six {text : String} :
    isIP text = 6 ↔ ∃ value, address? text = some (.v6 value) := by
  unfold isIP
  split <;> simp_all

/-! ## IPv4 -/

theorem integerOctet?_of_octet? {field : List Char} {n : ℕ}
    (h : octet? field = some n) :
    integerOctet? (Number.ofString (String.ofList field)) = some n := by
  obtain ⟨hne, hdigits, -, hbound, rfl⟩ := octet?_eq_some.mp h
  rw [ofString_of_digits hne hdigits, ofRat_natCast (by omega)]
  have hle : (digitsValue 10 field : ℚ) ≤ 255 := by exact_mod_cast hbound
  simp [integerOctet?, Rat.isInt, hle]

theorem mapM_integerOctet? {fields : List (List Char)} {octets : List ℕ}
    (h : fields.mapM octet? = some octets) :
    ((fields.map String.ofList).map Number.ofString).mapM integerOctet? =
      some octets := by
  have hoctets := forall₂_of_mapM h
  clear h
  induction hoctets with
  | nil => rfl
  | cons hfield _ ih =>
      rw [List.map_cons, List.map_cons, List.mapM_cons,
        integerOctet?_of_octet? hfield, ih]
      rfl

theorem parseIpv4Octets_of_quad? {host : String} {octets : List ℕ}
    (h : quad? host.toList = some octets) :
    parseIpv4Octets host = some octets := by
  obtain ⟨hoctets, hlength⟩ := mapM_of_quad? h
  have hfields := (forall₂_of_mapM hoctets).length_eq
  rw [parseIpv4Octets, split, if_neg (by simp [hfields, hlength])]
  exact mapM_integerOctet? hoctets

/-- The octets decide as the address does. -/
theorem isBlockedIpv4_iff {host : String} {octets : List ℕ}
    (h : quad? host.toList = some octets) :
    isBlockedIpv4 host = true ↔ BlockedIpv4 (ofGroups 256 octets) := by
  have hlt := octet_le_of_quad? h
  have hlength := (mapM_of_quad? h).2
  obtain ⟨a, b, c, d, rfl⟩ := List.length_eq_four.mp hlength
  simp only [List.forall_mem_cons] at hlt
  rw [blockedIpv4_iff hlt.2.1 hlt.2.2.1 hlt.2.2.2.1, isBlockedIpv4,
    parseIpv4Octets_of_quad? h]
  simp

/-- The text that `isBlockedHost` looks at. -/
def hostName (text : String) : String :=
  withoutFinalDot (toLowerCase text)

theorem lowerCase_hostName (text : String) : LowerCase (hostName text) :=
  (lowerCase_toLowerCase text).withoutFinalDot

theorem toList_hostName (text : String) :
    (hostName text).toList =
      if (text.toList.map Char.toLower).getLast? = some '.' then
        (text.toList.map Char.toLower).dropLast
      else text.toList.map Char.toLower := by
  rw [hostName, withoutFinalDot, toList_toLowerCase]
  split
  next => rw [String.toList_ofList]
  next => rw [toList_toLowerCase]

/-- The names that are blocked for what they end in. -/
def LocalName (name : String) : Prop :=
  endsWith name ".localhost" = true ∨ endsWith name ".local" = true

theorem not_localName {name : String} (h : AddressChars name.toList) :
    ¬ LocalName name := by
  have hl : 'l' ∉ name.toList := h.not_mem (by decide) (by decide) (by decide)
  rintro (hends | hends)
  · exact hl ((endsWith_iff.mp hends).subset (by decide))
  · exact hl ((endsWith_iff.mp hends).subset (by decide))

theorem isBlockedHost_eq {text : String}
    (hname : hostName text ∉ blockedHostnames) :
    isBlockedHost text = true ↔ LocalName (hostName text) ∨
      (isIP (hostName text) = 4 ∧ isBlockedIpv4 (hostName text) = true) ∨
      (isIP (hostName text) = 6 ∧ isBlockedIpv6 (hostName text) = true) := by
  have hunfold : isBlockedHost text =
      if endsWith (hostName text) ".localhost" ||
          endsWith (hostName text) ".local" then true
      else if isIP (hostName text) = 4 then isBlockedIpv4 (hostName text)
      else if isIP (hostName text) = 6 then isBlockedIpv6 (hostName text)
      else false := if_neg hname
  rw [hunfold]
  split
  next hlocal => simpa [LocalName] using .inl (by simpa using hlocal)
  next hlocal =>
    have hnot : ¬ LocalName (hostName text) := by
      simpa [LocalName] using hlocal
    split
    next h4 => simp [hnot, h4]
    next h4 =>
      split
      next h6 => simp [hnot, h6]
      next h6 => simp [hnot, h4, h6]

/-- Every IPv4 address is judged by its value. -/
theorem isBlockedHost_v4 {text : String} {value : ℕ}
    (h : address? text = some (.v4 value)) :
    isBlockedHost text = true ↔ BlockedAddress (.v4 value) := by
  obtain ⟨octets, hquad, rfl⟩ := addressOf?_eq_v4.mp h
  have hchars := addressChars_of_quad? hquad
  have hname : (hostName text).toList = text.toList.map Char.toLower := by
    rw [toList_hostName, if_neg hchars.last]
  rw [← hname] at hquad hchars
  have haddress : address? (hostName text) =
      some (.v4 (ofGroups 256 octets)) := by
    rw [(lowerCase_hostName text).address?_eq]
    exact addressOf?_eq_v4.mpr ⟨octets, hquad, rfl⟩
  have hfree : hostName text ∉ blockedHostnames := by
    intro hmem
    have hnone : ∀ name ∈ blockedHostnames, quad? name.toList = none := by
      decide +kernel
    rw [hnone _ hmem] at hquad
    cases hquad
  have h4 : isIP (hostName text) = 4 := isIP_eq_four.mpr ⟨_, haddress⟩
  rw [isBlockedHost_eq hfree, h4]
  simpa [not_localName hchars, BlockedAddress] using isBlockedIpv4_iff hquad

/-! ## IPv6: the first group -/

section FirstGroup

variable {address : List Char} {g : ℕ} {rest : List ℕ}

/-- An address text is its first field, a colon and more. -/
theorem exists_first (h : eightGroups? address = some (g :: rest)) :
    ∃ field tail, address = field ++ ':' :: tail ∧
      (group? field = some g ∨ (field = [] ∧ g = 0)) := by
  obtain ⟨hcolon, g', rest', hgs, hfirst⟩ := eightGroups?_first h
  obtain ⟨rfl, -⟩ := List.cons.inj hgs
  cases hdrop : address.dropWhile (· ≠ ':') with
  | nil =>
      have hall := List.dropWhile_eq_nil_iff.mp hdrop ':' hcolon
      simp at hall
  | cons c tail =>
      have hc : c = ':' := by
        have hhead := List.head?_dropWhile_not (· ≠ ':') address
        rw [hdrop] at hhead
        simpa using hhead
      refine ⟨address.takeWhile (· ≠ ':'), tail, ?_, hfirst⟩
      conv_lhs => rw [← List.takeWhile_append_dropWhile (p := (· ≠ ':'))
        (l := address), hdrop, hc]

/-- What a text begins with, up to a colon, its first field begins with. -/
theorem prefix_first {start field tail : List Char} (hcolon : ':' ∉ start)
    (h : start <+: field ++ ':' :: tail) : start <+: field := by
  rcases List.prefix_or_prefix_of_prefix h
    (List.prefix_append field (':' :: tail)) with hstart | hfield
  · exact hstart
  · obtain ⟨more, rfl⟩ := hfield
    have hmore := (List.prefix_append_right_inj field).mp h
    cases more with
    | nil => simp
    | cons c more =>
        obtain ⟨rfl, -⟩ := List.cons_prefix_cons.mp hmore
        simp at hcolon

/-- The value of a first group of four digits. -/
theorem length_of_group? {field : List Char} (hfield : group? field = some g)
    (hg : 0x1000 ≤ g) : field.length = 4 := by
  have hlt := group?_lt hfield
  have hle := (group?_eq_some.mp hfield).2.1
  by_contra hne
  have hpow : 16 ^ field.length ≤ 16 ^ 3 :=
    Nat.pow_le_pow_right (by decide) (by omega)
  omega

/-- Only a text that begins with `fe80:` has the first group `fe80`. -/
theorem startsWith_fe80_iff (h : eightGroups? address = some (g :: rest))
    (zone : List Char) :
    "fe80:".toList <+: address ++ zone ↔ g = 0xfe80 := by
  obtain ⟨field, tail, rfl, hfirst⟩ := exists_first h
  have hfe80 : group? "fe80".toList = some 0xfe80 := by decide
  rw [List.append_assoc, List.cons_append]
  constructor
  · intro hprefix
    have hstart : "fe80".toList <+: field :=
      prefix_first (by decide) ((show "fe80".toList <+: "fe80:".toList by
        decide).trans hprefix)
    rcases hfirst with hgroup | ⟨rfl, -⟩
    · have hfield : "fe80".toList = field :=
        hstart.eq_of_length_le (group?_eq_some.mp hgroup).2.1
      rw [← hfield, hfe80] at hgroup
      exact (Option.some.inj hgroup).symm
    · simp at hstart
  · rintro rfl
    rcases hfirst with hgroup | ⟨-, hzero⟩
    · have hfield : field = "fe80".toList :=
        eq_of_group? hgroup hfe80 (length_of_group? hgroup (by decide))
      rw [hfield]
      exact ⟨tail ++ zone, by simp⟩
    · cases hzero

/-- The first two digits of a group. -/
theorem group?_cons_cons {p q : Char} {more : List Char}
    (hgroup : group? (p :: q :: more) = some g) :
    ∃ low < 16 ^ more.length, g = 16 ^ (more.length + 1) * digitValue p +
      (16 ^ more.length * digitValue q + low) := by
  obtain ⟨-, -, hdigits, rfl⟩ := group?_eq_some.mp hgroup
  refine ⟨ofGroups 16 (more.map digitValue), ?_, ?_⟩
  · rw [← List.length_map digitValue]
    apply ofGroups_lt
    intro d hd
    obtain ⟨c, hc, rfl⟩ := List.mem_map.mp hd
    exact digitValue_lt (hdigits c (by simp [hc]))
  · rw [digitsValue_eq_ofGroups, List.map_cons, List.map_cons, ofGroups_cons,
      ofGroups_cons, List.length_cons, List.length_map]

/-- The texts that begin with `fc` or `fd` are those of `fc00::/7` and those of
a first group with fewer digits. -/
theorem startsWith_fc_iff (h : eightGroups? address = some (g :: rest))
    (zone : List Char) :
    (("fc".toList <+: address ++ zone ∨ "fd".toList <+: address ++ zone) →
        g / 512 = 0x7e ∨ (0 < g ∧ g < 0x1000)) ∧
      (g / 512 = 0x7e →
        "fc".toList <+: address ++ zone ∨ "fd".toList <+: address ++ zone) := by
  obtain ⟨field, tail, rfl, hfirst⟩ := exists_first h
  rw [List.append_assoc, List.cons_append]
  constructor
  · intro hprefix
    have hstart : ∃ x more, (x = 'c' ∨ x = 'd') ∧ field = 'f' :: x :: more := by
      rcases hprefix with hprefix | hprefix
      · obtain ⟨more, rfl⟩ := prefix_first (by decide) hprefix
        exact ⟨'c', more, .inl rfl, rfl⟩
      · obtain ⟨more, rfl⟩ := prefix_first (by decide) hprefix
        exact ⟨'d', more, .inr rfl, rfl⟩
    obtain ⟨x, more, hx, rfl⟩ := hstart
    rcases hfirst with hgroup | ⟨hnil, -⟩
    · have hlength : more.length ≤ 2 := by
        have hfour := (group?_eq_some.mp hgroup).2.1
        simp only [List.length_cons] at hfour
        omega
      obtain ⟨low, hlow, rfl⟩ := group?_cons_cons hgroup
      have hf : digitValue 'f' = 15 := by decide
      have hvalue : digitValue x = 12 ∨ digitValue x = 13 := by
        rcases hx with rfl | rfl
        · exact .inl (by decide)
        · exact .inr (by decide)
      rw [hf]
      generalize more.length = n at hlength hlow
      obtain rfl | rfl | rfl : n = 0 ∨ n = 1 ∨ n = 2 := by omega
      · omega
      · omega
      · omega
    · cases hnil
  · intro hg
    rcases hfirst with hgroup | ⟨-, rfl⟩
    · obtain ⟨p, q, r, s, rfl⟩ := List.length_eq_four.mp
        (length_of_group? hgroup (by omega))
      have hdigits := (group?_eq_some.mp hgroup).2.2.1
      simp only [List.forall_mem_cons] at hdigits
      have hp := digitValue_lt hdigits.1
      have hq := digitValue_lt hdigits.2.1
      obtain ⟨low, hlow, rfl⟩ := group?_cons_cons hgroup
      simp only [List.length_cons, List.length_nil] at hlow hg
      obtain rfl : p = 'f' := digitValue_injective hdigits.1 (by decide)
        (show digitValue p = 15 by omega)
      obtain hc | hd : digitValue q = 12 ∨ digitValue q = 13 := by omega
      · obtain rfl : q = 'c' := digitValue_injective hdigits.2.1 (by decide) hc
        exact .inl ⟨r :: s :: ':' :: (tail ++ zone), by simp⟩
      · obtain rfl : q = 'd' := digitValue_injective hdigits.2.1 (by decide) hd
        exact .inr ⟨r :: s :: ':' :: (tail ++ zone), by simp⟩
    · cases hg

end FirstGroup

/-! ## IPv6: the rest of the address -/

/-- The text is `::ffff:` and an IPv4 address. -/
def SpelledMapped (name quad : String) : Prop :=
  name = "::ffff:" ++ quad ∧ isIP quad = 4

theorem ofGroups_eight {g : ℕ} {rest : List ℕ}
    (hlength : (g :: rest).length = 8) (hlt : ∀ n ∈ g :: rest, n < 65536) :
    ∃ low < 2 ^ 112, ofGroups 65536 (g :: rest) = 2 ^ 112 * g + low := by
  rw [List.forall_mem_cons] at hlt
  have hrest : rest.length = 7 := by simpa using hlength
  have hpow : 65536 ^ rest.length = 2 ^ 112 := by
    rw [hrest]
    norm_num
  refine ⟨ofGroups 65536 rest, hpow ▸ ofGroups_lt hlt.2, ?_⟩
  rw [ofGroups_cons, hpow]

section Name

variable {name : String} {address zone : List Char} {gs : List ℕ}

/-- A text without `%` has no zone. -/
theorem eq_address (hname : name.toList = address ++ zone)
    (hzone : ZonePart zone) (hpercent : '%' ∉ name.toList) :
    address = name.toList := by
  rcases hzone with rfl | ⟨z, rfl, -, -⟩
  · rw [hname, List.append_nil]
  · exact absurd (by simp [hname]) hpercent

theorem quad?_of_isIP {quad : String} (hlower : LowerCase quad)
    (h : isIP quad = 4) :
    ∃ a b c d, quad? quad.toList = some [a, b, c, d] := by
  obtain ⟨value, hvalue⟩ := isIP_eq_four.mp h
  rw [hlower.address?_eq] at hvalue
  obtain ⟨octets, hquad, -⟩ := addressOf?_eq_v4.mp hvalue
  obtain ⟨a, b, c, d, rfl⟩ := List.length_eq_four.mp (mapM_of_quad? hquad).2
  exact ⟨a, b, c, d, hquad⟩

/-- What is spelled as a mapped address is one, of the address spelled. -/
theorem value_of_spelledMapped (hlower : LowerCase name)
    (hname : name.toList = address ++ zone) (hzone : ZonePart zone)
    (hgs : eightGroups? address = some gs) {quad : String}
    (h : SpelledMapped name quad) :
    ofGroups 65536 gs / 2 ^ 32 = 0xffff ∧
      (isBlockedIpv4 quad = true ↔
        BlockedIpv4 (ofGroups 65536 gs % 2 ^ 32)) := by
  obtain ⟨rfl, hquad⟩ := h
  have hlowerQuad : LowerCase quad := by
    rw [LowerCase, String.toList_append, List.map_append] at hlower
    exact List.append_inj_right hlower (by simp)
  obtain ⟨a, b, c, d, hoctets⟩ := quad?_of_isIP hlowerQuad hquad
  have hpercent : '%' ∉ ("::ffff:" ++ quad).toList := by
    have hnot := (addressChars_of_quad? hoctets).not_mem (c := '%') (by decide)
      (by decide) (by decide)
    simpa using hnot
  have haddress := eq_address hname hzone hpercent
  rw [haddress, String.toList_append, eightGroups?_mapped hoctets] at hgs
  obtain rfl := Option.some.inj hgs
  have hlt := octet_le_of_quad? hoctets
  simp only [List.forall_mem_cons] at hlt
  have hlow : ofGroups 256 [a, b, c, d] < 256 ^ (3 + 1) :=
    ofGroups_lt (octet_le_of_quad? hoctets)
  rw [show 256 ^ (3 + 1) = 2 ^ 32 by norm_num] at hlow
  have hvalue : ofGroups 65536
      [0, 0, 0, 0, 0, 0xffff, 256 * a + b, 256 * c + d] =
        0xffff * 2 ^ 32 + ofGroups 256 [a, b, c, d] := by
    simp only [ofGroups, List.foldl_cons, List.foldl_nil]
    ring
  rw [isBlockedIpv4_iff hoctets, hvalue]
  constructor
  · omega
  · rw [Nat.mul_add_mod_self_right, Nat.mod_eq_of_lt hlow]

theorem isBlockedIpv6_eq (hlower : LowerCase name) :
    isBlockedIpv6 name = true ↔
      (name = "::1" ∨ name = "0:0:0:0:0:0:0:1") ∨
        startsWith name "fe80:" = true ∨
        (startsWith name "fc" = true ∨ startsWith name "fd" = true) ∨
        ∃ quad, SpelledMapped name quad ∧ isBlockedIpv4 quad = true := by
  have hmapped : (∃ quad, SpelledMapped name quad ∧
      isBlockedIpv4 quad = true) ↔
        startsWith name "::ffff:" = true ∧ isIP (slice name 7) = 4 ∧
          isBlockedIpv4 (slice name 7) = true := by
    constructor
    · rintro ⟨quad, ⟨rfl, hquad⟩, hblocked⟩
      have hslice : slice ("::ffff:" ++ quad) 7 = quad := by
        rw [slice, String.toList_append, List.drop_left' (by decide),
          String.ofList_toList]
      rw [hslice]
      exact ⟨startsWith_iff.mpr (by simp), hquad, hblocked⟩
    · rintro ⟨hstart, hquad, hblocked⟩
      refine ⟨slice name 7, ⟨?_, hquad⟩, hblocked⟩
      obtain ⟨tail, htail⟩ := startsWith_iff.mp hstart
      have hslice : slice name 7 = String.ofList tail := by
        rw [slice, ← htail, List.drop_left' (by decide)]
      rw [hslice, ← String.toList_inj]
      simpa using htail.symm
  rw [isBlockedIpv6, hlower.toLowerCase_eq, hmapped,
    show "::ffff:".length = 7 from rfl]
  dsimp only
  split
  next h => simp [h]
  next h =>
    rw [or_iff_right h]
    split
    next h => simp [h]
    next h =>
      rw [or_iff_right h]
      split
      next h => simpa using .inl (by simpa using h)
      next h =>
        rw [or_iff_right (by simpa using h)]
        split
        next hstart =>
          rw [and_iff_right hstart]
          split
          next hip => simp [hip]
          next hip => simp [hip]
        next hstart => simp [hstart]

/-- The two spellings of `::1` that the code knows. -/
theorem value_of_loopback (hname : name.toList = address ++ zone)
    (hzone : ZonePart zone) (hgs : eightGroups? address = some gs)
    (h : name = "::1" ∨ name = "0:0:0:0:0:0:0:1") :
    ofGroups 65536 gs = 1 := by
  have hpercent : '%' ∉ name.toList := by
    rcases h with rfl | rfl <;> decide
  rw [eq_address hname hzone hpercent] at hgs
  rcases h with rfl | rfl
  · have hone : eightGroups? "::1".toList = some [0, 0, 0, 0, 0, 0, 0, 1] := by
      decide +kernel
    rw [hone] at hgs
    obtain rfl := Option.some.inj hgs
    decide
  · have hone : eightGroups? "0:0:0:0:0:0:0:1".toList =
        some [0, 0, 0, 0, 0, 0, 0, 1] := by
      decide +kernel
    rw [hone] at hgs
    obtain rfl := Option.some.inj hgs
    decide

end Name

/-! ## Where spelling and address part -/

/-- An IPv6 address in a spelling that the prefixes of `isBlockedIpv6` get
wrong: `::`; `::1` written otherwise; a link-local address beyond `fe80`; a first
group with the letters of `fc00::/7` but fewer digits; a mapped address that is
not written with an IPv4 address behind `::ffff:`. -/
def PrefixMisses (name : String) (value : ℕ) : Prop :=
  value = 0 ∨
  (value = 1 ∧ ¬(name = "::1" ∨ name = "0:0:0:0:0:0:0:1")) ∨
  (0xfe80 < value / 2 ^ 112 ∧ value / 2 ^ 112 ≤ 0xfebf) ∨
  ((startsWith name "fc" = true ∨ startsWith name "fd" = true) ∧
    value / 2 ^ 112 < 0x1000) ∨
  (value / 2 ^ 32 = 0xffff ∧ BlockedIpv4 (value % 2 ^ 32) ∧
    ¬ ∃ quad, SpelledMapped name quad)

theorem isBlockedIpv6_iff {name : String} {address zone : List Char}
    {gs : List ℕ} (hlower : LowerCase name)
    (hname : name.toList = address ++ zone) (hzone : ZonePart zone)
    (hgs : eightGroups? address = some gs) :
    (isBlockedIpv6 name = true ↔ BlockedAddress (.v6 (ofGroups 65536 gs))) ↔
      ¬ PrefixMisses name (ofGroups 65536 gs) := by
  obtain ⟨-, hlength, hlt⟩ := eightGroups?_spec hgs
  have hloopback := value_of_loopback hname hzone hgs
  have hmapped := fun quad (h : SpelledMapped name quad) =>
    value_of_spelledMapped hlower hname hzone hgs h
  have hspelled : (∃ quad, SpelledMapped name quad ∧
      isBlockedIpv4 quad = true) ↔ (∃ quad, SpelledMapped name quad) ∧
        BlockedIpv4 (ofGroups 65536 gs % 2 ^ 32) := by
    constructor
    · rintro ⟨quad, hquad, hblocked⟩
      exact ⟨⟨quad, hquad⟩, (hmapped quad hquad).2.mp hblocked⟩
    · rintro ⟨⟨quad, hquad⟩, hblocked⟩
      exact ⟨quad, hquad, (hmapped quad hquad).2.mpr hblocked⟩
  have hffff : (∃ quad, SpelledMapped name quad) →
      ofGroups 65536 gs / 2 ^ 32 = 0xffff := by
    rintro ⟨quad, hquad⟩
    exact (hmapped quad hquad).1
  cases gs with
  | nil => cases hlength
  | cons g rest =>
      obtain ⟨low, hlow, hvalue⟩ := ofGroups_eight hlength hlt
      have hfirst : ofGroups 65536 (g :: rest) / 2 ^ 112 = g := by
        rw [hvalue]
        omega
      have hlocal := startsWith_fe80_iff hgs zone
      have hunique := startsWith_fc_iff hgs zone
      rw [← hname, ← startsWith_iff] at hlocal
      rw [← hname, ← startsWith_iff, ← startsWith_iff] at hunique
      have h118 : ofGroups 65536 (g :: rest) / 2 ^ 118 = g / 64 := by
        rw [hvalue]
        omega
      have h121 : ofGroups 65536 (g :: rest) / 2 ^ 121 = g / 512 := by
        rw [hvalue]
        omega
      rw [isBlockedIpv6_eq hlower, blockedIpv6_iff, hspelled, hlocal,
        PrefixMisses, hfirst, h118, h121]
      have hzero : ofGroups 65536 (g :: rest) = 0 → g = 0 := by omega
      have hone : ofGroups 65536 (g :: rest) = 1 → g = 0 := by omega
      have hmap : ofGroups 65536 (g :: rest) / 2 ^ 32 = 0xffff → g = 0 ∧
          ofGroups 65536 (g :: rest) ≠ 0 ∧
            ofGroups 65536 (g :: rest) ≠ 1 := by omega
      have hrange : g / 64 = 0x3fa ↔
          g = 0xfe80 ∨ (0xfe80 < g ∧ g ≤ 0xfebf) := by omega
      have hlow : g / 512 = 0x7e → ¬ g < 0x1000 ∧ ¬ 0xfe80 ≤ g := by omega
      rw [hrange]
      generalize ofGroups 65536 (g :: rest) = value at *
      generalize (name = "::1" ∨ name = "0:0:0:0:0:0:0:1") = loopback at *
      generalize (startsWith name "fc" = true ∨
        startsWith name "fd" = true) = unique at *
      generalize (∃ quad, SpelledMapped name quad) = spelled at *
      generalize BlockedIpv4 (value % 2 ^ 32) = blocked at *
      clear hmapped hspelled hvalue hfirst h118 h121 hlocal hgs hlt hlength
      grind

/-! ## Zones -/

theorem getLast?_of_endsWith {text ending : String} {c : Char}
    (h : endsWith text ending = true) (hc : ending.toList.getLast? = some c) :
    text.toList.getLast? = some c := by
  obtain ⟨front, hfront⟩ := endsWith_iff.mp h
  rw [← hfront, List.getLast?_append, hc]
  rfl

theorem localName_last {name : String} (h : LocalName name) :
    name.toList.getLast? ≠ some '%' := by
  rcases h with h | h
  · rw [getLast?_of_endsWith (c := 't') h (by decide)]
    decide
  · rw [getLast?_of_endsWith (c := 'l') h (by decide)]
    decide

/-- An address does not end in `%`. -/
theorem getLast?_ne_percent {address zone : List Char} {gs : List ℕ}
    (hgs : eightGroups? address = some gs) (hzone : ZonePart zone) :
    (address ++ zone).getLast? ≠ some '%' := by
  intro hlast
  rcases hzone with rfl | ⟨z, rfl, hne, hchars⟩
  · rw [List.append_nil] at hlast
    exact percent_not_mem hgs (List.mem_of_getLast? hlast)
  · obtain ⟨c, z, rfl⟩ := List.exists_cons_of_ne_nil hne
    rw [List.getLast?_append, List.getLast?_cons_cons] at hlast
    have hmem : '%' ∈ c :: z := by
      cases hz : (c :: z).getLast? with
      | none => simp at hz
      | some x =>
          rw [hz, Option.some_or] at hlast
          obtain rfl := Option.some.inj hlast
          exact List.mem_of_getLast? hz
    have hpercent := hchars '%' hmem
    revert hpercent
    decide

/-- What is left of a text that denotes an IPv6 address: the address, and its
zone unless that was a dot. -/
theorem hostName_v6 {text : String} {value : ℕ}
    (h : address? text = some (.v6 value)) :
    ∃ address zone gs, (hostName text).toList = address ++ zone ∧
      (zone = ['%'] ∨ ZonePart zone) ∧ eightGroups? address = some gs ∧
        value = ofGroups 65536 gs := by
  obtain ⟨address, zone, gs, hcs, hzone, hgs, hvalue⟩ := addressOf?_eq_v6.mp h
  rw [toList_hostName, hcs]
  split
  next hdot =>
    rcases hzone with rfl | ⟨z, rfl, hne, hchars⟩
    · rw [List.append_nil] at hdot
      exact absurd hdot (eightGroups?_spec hgs).1.last
    · refine ⟨address, '%' :: z.dropLast, gs, ?_, ?_, hgs, hvalue⟩
      · rw [List.dropLast_append_of_ne_nil (by simp),
          List.dropLast_cons_of_ne_nil hne]
      · by_cases hempty : z.dropLast = []
        · exact .inl (by rw [hempty])
        · exact .inr (.inr ⟨z.dropLast, rfl, hempty, fun c hc =>
            hchars c (List.dropLast_subset z hc)⟩)
  next => exact ⟨address, zone, gs, rfl, .inr hzone, hgs, hvalue⟩

/-- A text with an IPv6 address that `isBlockedHost` judges by something else:
by a zone that looks like a local name, not at all because the zone is a dot, or
by the spelling. -/
def Misjudged (text : String) (value : ℕ) : Prop :=
  (LocalName (hostName text) ∧ ¬ BlockedAddress (.v6 value)) ∨
  (endsWith (hostName text) "%" = true ∧ BlockedAddress (.v6 value)) ∨
  (¬ LocalName (hostName text) ∧ endsWith (hostName text) "%" = false ∧
    PrefixMisses (hostName text) value)

theorem isBlockedHost_v6 {text : String} {value : ℕ}
    (h : address? text = some (.v6 value)) :
    (isBlockedHost text = true ↔ BlockedAddress (.v6 value)) ↔
      ¬ Misjudged text value := by
  obtain ⟨address, zone, gs, hname, hzone, hgs, rfl⟩ := hostName_v6 h
  have hfree : hostName text ∉ blockedHostnames := by
    intro hmem
    have hnone : ∀ name ∈ blockedHostnames, ':' ∉ name.toList := by decide
    refine hnone _ hmem ?_
    rw [hname]
    exact List.mem_append_left _ (eightGroups?_first hgs).1
  have hlower := lowerCase_hostName text
  have haddress := hlower.address?_eq
  rw [isBlockedHost_eq hfree, isIP_eq_four, isIP_eq_six, haddress, hname]
  have h4 : ∀ value', addressOf? (address ++ zone) ≠ some (.v4 value') := by
    intro value' hv4
    obtain ⟨octets, hquad, -⟩ := addressOf?_eq_v4.mp hv4
    rw [quad?_of_colon (List.mem_append_left _ (eightGroups?_first hgs).1)]
      at hquad
    cases hquad
  rcases hzone with rfl | hzone
  · -- without a zone name nothing is an address
    have h6 : ∀ value', addressOf? (address ++ ['%']) ≠
        some (.v6 value') := by
      intro value' hv6
      obtain ⟨address', zone', gs', hcs, hzone', hgs', -⟩ :=
        addressOf?_eq_v6.mp hv6
      refine getLast?_ne_percent hgs' hzone' ?_
      rw [← hcs]
      simp
    have hpercent : endsWith (hostName text) "%" = true :=
      endsWith_iff.mpr ⟨address, hname.symm⟩
    have hlocal : ¬ LocalName (hostName text) := fun hlocal =>
      localName_last hlocal (by rw [hname]; simp)
    simp [Misjudged, hpercent, hlocal, h4, h6]
  · have hpercent : endsWith (hostName text) "%" = false := by
      rw [← Bool.not_eq_true]
      intro hends
      refine getLast?_ne_percent hgs hzone ?_
      rw [← hname]
      exact getLast?_of_endsWith hends (by decide)
    have h6 : ∃ value', addressOf? (address ++ zone) = some (.v6 value') :=
      ⟨_, addressOf?_eq_v6.mpr ⟨address, zone, gs, rfl, hzone, hgs, rfl⟩⟩
    have hiff := isBlockedIpv6_iff hlower hname hzone hgs
    have hnone : ¬ ∃ value', addressOf? (address ++ zone) =
        some (.v4 value') := fun ⟨value', hv4⟩ => h4 value' hv4
    rw [Misjudged, hpercent]
    simp only [hnone, h6, false_and, false_or, true_and, Bool.false_eq_true]
    by_cases hlocal : LocalName (hostName text)
    · simp [hlocal]
    · simpa [hlocal] using hiff

/-! ## Which spellings are judged by their address -/

/-- The answer for a text that denotes an address is that of the address. -/
def BlockedByAddress (text : String) : Prop :=
  ∀ address ∈ address? text,
    (isBlockedHost text = true ↔ BlockedAddress address)

instance (text : String) : Decidable (BlockedByAddress text) :=
  inferInstanceAs (Decidable (∀ address ∈ address? text, _))

def WellSpelled (text : String) : Prop :=
  ∀ value, address? text = some (.v6 value) → ¬ Misjudged text value

theorem blockedByAddress_iff (text : String) :
    BlockedByAddress text ↔ WellSpelled text := by
  unfold BlockedByAddress WellSpelled
  cases haddress : address? text with
  | none => simp
  | some address =>
      cases address with
      | v4 value => simpa using isBlockedHost_v4 haddress
      | v6 value => simpa using isBlockedHost_v6 haddress

/-- A text is judged by its address exactly if it is well spelled, and two well
spelled texts of one address get the same answer. -/
theorem blockedHosts (text : String) :
    (BlockedByAddress text ↔ WellSpelled text) ∧
      ∀ text', isIP text ≠ 0 → address? text' = address? text →
        WellSpelled text → WellSpelled text' →
          isBlockedHost text' = isBlockedHost text := by
  refine ⟨blockedByAddress_iff text, ?_⟩
  intro text' hip hsame hspelled hspelled'
  have hblocked := (blockedByAddress_iff text).mpr hspelled
  have hblocked' := (blockedByAddress_iff text').mpr hspelled'
  obtain ⟨address, haddress⟩ : ∃ address, address? text = some address := by
    unfold isIP at hip
    split at hip
    next => exact absurd rfl hip
    next value h => exact ⟨_, h⟩
    next value h => exact ⟨_, h⟩
  rw [Bool.eq_iff_iff, hblocked' address (hsame.trans haddress),
    hblocked address haddress]

theorem blockedHosts_uniqueLocal :
    isBlockedHost "FD12:0:0::1" = isBlockedHost "fd12::1" := by
  have hspelled : WellSpelled "fd12::1" :=
    (blockedByAddress_iff _).mp (by decide +kernel)
  have hspelled' : WellSpelled "FD12:0:0::1" :=
    (blockedByAddress_iff _).mp (by decide +kernel)
  exact (blockedHosts "fd12::1").2 "FD12:0:0::1" (by decide +kernel)
    (by decide +kernel) hspelled hspelled'

/-- `::`, `::1`, a link-local address and `127.0.0.1` as a mapped address are
let through, and an address of none of the blocks is blocked. -/
theorem not_blockedByAddress_spellings :
    (["::", "::0:1", "::1%lo", "fe90::1", "::ffff:7f00:1", "fc::1"].all
      fun text => isIP text = 6 ∧ ¬ BlockedByAddress text) = true := by
  decide +kernel

end WebhookBroadcast
