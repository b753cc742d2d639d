import Mathlib.Data.List.Nodup
import WebhookBroadcast.Net.Ip

/-!
# What a spelling says about its address

The fields of a text that denotes an address, above all the first: it is the
first group, or empty where the text begins with `::`.
-/

namespace Net

open Js

/-! ## Digits -/

theorem digitsValue_eq_ofGroups (base : ℕ) (ds : List Char) :
    digitsValue base ds = ofGroups base (ds.map digitValue) := by
  rw [digitsValue, ofGroups, List.foldl_map]

theorem ofGroups_injective {base : ℕ} {xs ys : List ℕ}
    (hlength : xs.length = ys.length) (hxs : ∀ x ∈ xs, x < base)
    (hys : ∀ y ∈ ys, y < base) (h : ofGroups base xs = ofGroups base ys) :
    xs = ys := by
  induction xs generalizing ys with
  | nil => exact (List.length_eq_zero_iff.mp hlength.symm).symm
  | cons x xs ih =>
      cases ys with
      | nil => cases hlength
      | cons y ys =>
          rw [List.length_cons, List.length_cons, Nat.succ_inj] at hlength
          rw [List.forall_mem_cons] at hxs hys
          rw [ofGroups_cons, ofGroups_cons, hlength] at h
          have hlow : ofGroups base xs < base ^ ys.length :=
            hlength ▸ ofGroups_lt hxs.2
          have hlow' := ofGroups_lt hys.2
          have hpos : 0 < base ^ ys.length := by omega
          have hhead : x = y := by
            have hdiv := congrArg (· / base ^ ys.length) h
            simpa [Nat.mul_add_div hpos, Nat.div_eq_of_lt hlow,
              Nat.div_eq_of_lt hlow'] using hdiv
          subst hhead
          rw [ih hlength hxs.2 hys.2 (Nat.add_left_cancel h)]

/-- The hexadecimal digits in lower case. -/
def hexDigits : List Char :=
  ['0', '1', '2', '3', '4', '5', '6', '7', '8', '9', 'a', 'b', 'c', 'd', 'e',
    'f']

theorem mem_hexDigits {c : Char} (h : isHexDigit c = true) : c ∈ hexDigits := by
  rw [isHexDigit, Bool.or_eq_true, decide_eq_true_eq] at h
  rcases h with h | h
  · have hrange : 48 ≤ c.toNat ∧ c.toNat ≤ 57 := by
      simpa [Char.isDigit, UInt32.le_iff_toNat_le] using h
    have hall : ∀ n < 10, Char.ofNat (48 + n) ∈ hexDigits := by decide
    have hc := hall (c.toNat - 48) (by omega)
    rwa [Nat.add_sub_cancel' hrange.1, Char.ofNat_toNat] at hc
  · exact List.mem_append_right
      ['0', '1', '2', '3', '4', '5', '6', '7', '8', '9'] h

theorem digitValue_lt {c : Char} (h : isHexDigit c = true) :
    digitValue c < 16 := by
  have hall : hexDigits.all (digitValue · < 16) = true := by decide
  exact of_decide_eq_true (List.all_eq_true.mp hall c (mem_hexDigits h))

theorem digitValue_injective {c c' : Char} (h : isHexDigit c = true)
    (h' : isHexDigit c' = true) (hvalue : digitValue c = digitValue c') :
    c = c' := by
  have hnodup : (hexDigits.map digitValue).Nodup := by decide
  exact List.inj_on_of_nodup_map hnodup (mem_hexDigits h) (mem_hexDigits h')
    hvalue

/-! ## Fields -/

variable {cs field : List Char}

theorem octet?_eq_some {n : ℕ} : octet? field = some n ↔
    field ≠ [] ∧ (∀ c ∈ field, c.isDigit = true) ∧
      (field.length = 1 ∨ field.head? ≠ some '0') ∧ n ≤ 255 ∧
        n = digitsValue 10 field := by
  unfold octet?
  rw [Option.ite_none_right_eq_some, List.all_eq_true, Option.some.injEq]
  constructor
  · rintro ⟨⟨hne, hdigits, hzero, hbound⟩, rfl⟩
    exact ⟨hne, hdigits, hzero, hbound, rfl⟩
  · rintro ⟨hne, hdigits, hzero, hbound, rfl⟩
    exact ⟨⟨hne, hdigits, hzero, hbound⟩, rfl⟩

theorem group?_eq_some {g : ℕ} : group? field = some g ↔
    field ≠ [] ∧ field.length ≤ 4 ∧ (∀ c ∈ field, isHexDigit c = true) ∧
      g = digitsValue 16 field := by
  unfold group?
  rw [Option.ite_none_right_eq_some, List.all_eq_true, Option.some.injEq]
  constructor
  · rintro ⟨⟨hne, hlength, hdigits⟩, rfl⟩
    exact ⟨hne, hlength, hdigits, rfl⟩
  · rintro ⟨hne, hlength, hdigits, rfl⟩
    exact ⟨⟨hne, hlength, hdigits⟩, rfl⟩

theorem group?_lt {g : ℕ} (h : group? field = some g) :
    g < 16 ^ field.length := by
  obtain ⟨-, -, hdigits, rfl⟩ := group?_eq_some.mp h
  rw [digitsValue_eq_ofGroups, ← List.length_map digitValue]
  apply ofGroups_lt
  intro d hd
  obtain ⟨c, hc, rfl⟩ := List.mem_map.mp hd
  exact digitValue_lt (hdigits c hc)

/-- A group of four digits is written in one way. -/
theorem eq_of_group? {field' : List Char} {g : ℕ} (h : group? field = some g)
    (h' : group? field' = some g) (hlength : field.length = field'.length) :
    field = field' := by
  obtain ⟨-, -, hdigits, rfl⟩ := group?_eq_some.mp h
  obtain ⟨-, -, hdigits', hvalue⟩ := group?_eq_some.mp h'
  rw [digitsValue_eq_ofGroups, digitsValue_eq_ofGroups] at hvalue
  have hmap : field.map digitValue = field'.map digitValue := by
    refine ofGroups_injective (by simpa using hlength) ?_ ?_ hvalue
    · intro d hd
      obtain ⟨c, hc, rfl⟩ := List.mem_map.mp hd
      exact digitValue_lt (hdigits c hc)
    · intro d hd
      obtain ⟨c, hc, rfl⟩ := List.mem_map.mp hd
      exact digitValue_lt (hdigits' c hc)
  refine List.ext_getElem hlength fun i hi hi' => ?_
  refine digitValue_injective (hdigits _ (List.getElem_mem hi))
    (hdigits' _ (List.getElem_mem hi')) ?_
  have hget := congrArg (·[i]?) hmap
  simpa [List.getElem?_eq_getElem hi, List.getElem?_eq_getElem hi'] using hget

/-! ## Splitting -/

theorem mem_of_mem_splitOn (sep : Char) {c : Char} (hc : c ∈ cs) :
    c = sep ∨ ∃ field ∈ cs.splitOn sep, c ∈ field := by
  induction cs with
  | nil => cases hc
  | cons x cs ih =>
      rw [List.splitOn_cons_eq_if_modifyHead]
      rcases List.mem_cons.mp hc with rfl | hc
      · split
        next h => exact .inl (beq_iff_eq.mp h)
        next =>
          cases hsplit : cs.splitOn sep with
          | nil => exact absurd hsplit (List.splitOn_ne_nil sep cs)
          | cons field rest => exact .inr ⟨c :: field, by simp, by simp⟩
      · refine (ih hc).imp_right ?_
        rintro ⟨field, hfield, hmem⟩
        split
        next => exact ⟨field, List.mem_cons_of_mem _ hfield, hmem⟩
        next =>
          cases hsplit : cs.splitOn sep with
          | nil => exact absurd hsplit (List.splitOn_ne_nil sep cs)
          | cons head rest =>
              rw [hsplit] at hfield
              rcases List.mem_cons.mp hfield with rfl | hfield
              · exact ⟨x :: field, by simp, by simp [hmem]⟩
              · exact ⟨field, by simp [hfield], hmem⟩

/-- The first field ends where the separator stands. -/
theorem splitOn_eq_takeWhile_cons (sep : Char) (cs : List Char) :
    ∃ rest, cs.splitOn sep = cs.takeWhile (· ≠ sep) :: rest ∧
      (rest = [] → sep ∉ cs) := by
  induction cs with
  | nil => exact ⟨[], by simp, by simp⟩
  | cons x cs ih =>
      obtain ⟨rest, hsplit, hrest⟩ := ih
      rw [List.splitOn_cons_eq_if_modifyHead]
      by_cases hx : x = sep
      · subst hx
        exact ⟨cs.splitOn x, by simp, fun h => absurd h (by simp)⟩
      · refine ⟨rest, by simp [hx, hsplit], fun h => ?_⟩
        simp [hrest h, Ne.symm hx]

theorem getLast?_splitOn {sep c : Char} (h : cs.getLast? = some c)
    (hc : c ≠ sep) : ∃ field ∈ cs.splitOn sep, field.getLast? = some c := by
  induction cs with
  | nil => cases h
  | cons x cs ih =>
      rw [List.splitOn_cons_eq_if_modifyHead]
      cases cs with
      | nil =>
          obtain rfl : x = c := by simpa using h
          exact ⟨[x], by simp [hc], rfl⟩
      | cons y cs =>
          rw [List.getLast?_cons_cons] at h
          obtain ⟨field, hfield, hlast⟩ := ih h
          split
          next => exact ⟨field, List.mem_cons_of_mem _ hfield, hlast⟩
          next =>
            cases hsplit : (y :: cs).splitOn sep with
            | nil => exact absurd hsplit (List.splitOn_ne_nil sep _)
            | cons head rest =>
                rw [hsplit] at hfield
                rcases List.mem_cons.mp hfield with rfl | hfield
                · refine ⟨x :: field, by simp, ?_⟩
                  rw [List.getLast?_cons, hlast, Option.getD_some]
                · exact ⟨field, by simp [hfield], hlast⟩

theorem forall₂_of_mapM {α β : Type} {f : α → Option β} {xs : List α}
    {ys : List β} (h : xs.mapM f = some ys) :
    List.Forall₂ (fun x y => f x = some y) xs ys := by
  induction xs generalizing ys with
  | nil =>
      obtain rfl : [] = ys := by simpa using h
      exact .nil
  | cons x xs ih =>
      simp only [List.mapM_cons, Option.bind_eq_bind, Option.bind_eq_some_iff,
        Option.pure_def, Option.some.injEq] at h
      obtain ⟨y, hy, ys', hys, rfl⟩ := h
      exact .cons hy (ih hys)

theorem forall_of_mapM {α β : Type} {f : α → Option β} {xs : List α}
    {ys : List β} (h : xs.mapM f = some ys) {p : α → Prop}
    (hp : ∀ x y, f x = some y → p x) : ∀ x ∈ xs, p x :=
  ((List.forall₂_and_left _ _).mp
    ((forall₂_of_mapM h).imp fun x y hxy => ⟨hp x y hxy, hxy⟩)).1

theorem forall_result_of_mapM {α β : Type} {f : α → Option β} {xs : List α}
    {ys : List β} (h : xs.mapM f = some ys) {p : β → Prop}
    (hp : ∀ x y, f x = some y → p y) : ∀ y ∈ ys, p y :=
  ((List.forall₂_and_left _ _).mp ((forall₂_of_mapM h).flip.imp
    fun y x hxy => ⟨hp x y hxy, hxy⟩)).1

/-! ## IPv4 -/

theorem mapM_of_quad? {octets : List ℕ} (h : quad? cs = some octets) :
    (cs.splitOn '.').mapM octet? = some octets ∧ octets.length = 4 := by
  rw [quad?, Option.filter_eq_some_iff, decide_eq_true_eq] at h
  exact h

theorem octet_le_of_quad? {octets : List ℕ} (h : quad? cs = some octets) :
    ∀ n ∈ octets, n < 256 :=
  forall_result_of_mapM (mapM_of_quad? h).1 fun _ _ hn =>
    Nat.lt_succ_of_le (octet?_eq_some.mp hn).2.2.2.1

/-! ## Characters -/

/-- Hexadecimal digits, colons and dots, with no dot at the end. -/
structure AddressChars (cs : List Char) : Prop where
  all : ∀ c ∈ cs, isHexDigit c = true ∨ c = ':' ∨ c = '.'
  last : cs.getLast? ≠ some '.'

/-- No other character is in an address. -/
theorem AddressChars.not_mem (h : AddressChars cs) {c : Char}
    (hhex : isHexDigit c = false) (hcolon : c ≠ ':') (hdot : c ≠ '.') :
    c ∉ cs := by
  intro hc
  rcases h.all c hc with hc | hc | hc
  · rw [hhex] at hc
    cases hc
  · exact hcolon hc
  · exact hdot hc

theorem isDigit_of_quad? {octets : List ℕ} (h : quad? cs = some octets) :
    ∀ c ∈ cs, c.isDigit = true ∨ c = '.' := by
  intro c hc
  rcases mem_of_mem_splitOn '.' hc with hc | ⟨field, hfield, hc⟩
  · exact .inr hc
  · have hdigits := forall_of_mapM (mapM_of_quad? h).1
      (fun _ _ hn => (octet?_eq_some.mp hn).2.1) field hfield
    exact .inl (hdigits c hc)

theorem addressChars_of_quad? {octets : List ℕ} (h : quad? cs = some octets) :
    AddressChars cs where
  all c hc := (isDigit_of_quad? h c hc).imp
    (fun hdigit => by simp [isHexDigit, hdigit]) .inr
  last := by
    intro hlast
    obtain ⟨init, rfl⟩ := List.getLast?_eq_some_iff.mp hlast
    have hempty : [] ∈ (init ++ ['.']).splitOn '.' := by
      rw [List.splitOn_append_cons_self]
      simp
    exact forall_of_mapM (mapM_of_quad? h).1
      (fun _ _ hn => (octet?_eq_some.mp hn).1) [] hempty rfl

theorem addressChars_of_group? {field : List Char} {g : ℕ}
    (h : group? field = some g) : AddressChars field where
  all c hc := .inl ((group?_eq_some.mp h).2.2.1 c hc)
  last := by
    intro hlast
    have hdot := (group?_eq_some.mp h).2.2.1 '.' (List.mem_of_getLast? hlast)
    revert hdot
    decide

/-- The fields of a text have the characters of the text. -/
theorem addressChars_of_fields
    (h : ∀ field ∈ cs.splitOn ':', AddressChars field) : AddressChars cs where
  all c hc := by
    rcases mem_of_mem_splitOn ':' hc with hc | ⟨field, hfield, hc⟩
    · exact .inr (.inl hc)
    · exact (h field hfield).all c hc
  last hlast := by
    obtain ⟨field, hfield, hdot⟩ := getLast?_splitOn hlast
      (show '.' ≠ ':' by decide)
    exact (h field hfield).last hdot

/-! ## IPv6 -/

theorem groups?_cons {field next : List Char} {rest : List (List Char)}
    {gs : List ℕ} : groups? (field :: next :: rest) = some gs ↔
      ∃ g gs', group? field = some g ∧ groups? (next :: rest) = some gs' ∧
        gs = g :: gs' := by
  simp only [groups?, Option.bind_eq_bind, Option.bind_eq_some_iff,
    Option.pure_def, Option.some.injEq]
  constructor
  · rintro ⟨g, hg, gs', hgs', rfl⟩
    exact ⟨g, gs', hg, hgs', rfl⟩
  · rintro ⟨g, gs', hg, hgs', rfl⟩
    exact ⟨g, hg, gs', hgs', rfl⟩

theorem groups?_singleton {field : List Char} {gs : List ℕ}
    (h : groups? [field] = some gs) :
    (∃ g, group? field = some g ∧ gs = [g]) ∨ dotted? field = some gs := by
  rw [groups?] at h
  cases hgroup : group? field with
  | some g =>
      rw [hgroup] at h
      exact .inl ⟨g, rfl, by simpa using h.symm⟩
  | none =>
      rw [hgroup] at h
      exact .inr (by simpa using h)

theorem dotted?_eq_some {field : List Char} {gs : List ℕ}
    (h : dotted? field = some gs) :
    ∃ a b c d, quad? field = some [a, b, c, d] ∧
      gs = [256 * a + b, 256 * c + d] := by
  unfold dotted? at h
  split at h
  next a b c d hquad => exact ⟨a, b, c, d, hquad, by simpa using h.symm⟩
  next => cases h

theorem group?_le {field : List Char} {g : ℕ} (h : group? field = some g) :
    g < 65536 :=
  (group?_lt h).trans_le (Nat.pow_le_pow_right (n := 16) (by decide)
    (group?_eq_some.mp h).2.1)

/-- What a list of fields denotes has their characters and is in range. -/
theorem groups?_spec {fields : List (List Char)} {gs : List ℕ}
    (h : groups? fields = some gs) :
    (∀ field ∈ fields, AddressChars field) ∧ ∀ g ∈ gs, g < 65536 := by
  induction fields generalizing gs with
  | nil => cases h
  | cons field rest ih =>
      cases rest with
      | nil =>
          rcases groups?_singleton h with ⟨g, hg, rfl⟩ | hdotted
          · exact ⟨by simpa using addressChars_of_group? hg,
              by simpa using group?_le hg⟩
          · obtain ⟨a, b, c, d, hquad, rfl⟩ := dotted?_eq_some hdotted
            have hlt := octet_le_of_quad? hquad
            simp only [List.forall_mem_cons, List.not_mem_nil,
              false_imp_iff, implies_true, and_true] at hlt ⊢
            exact ⟨addressChars_of_quad? hquad, by omega, by omega⟩
      | cons next rest =>
          obtain ⟨g, gs', hg, hgs', rfl⟩ := groups?_cons.mp h
          obtain ⟨hchars, hlt⟩ := ih hgs'
          exact ⟨List.forall_mem_cons.mpr ⟨addressChars_of_group? hg, hchars⟩,
            List.forall_mem_cons.mpr ⟨group?_le hg, hlt⟩⟩

theorem mapM_group?_spec {fields : List (List Char)} {gs : List ℕ}
    (h : fields.mapM group? = some gs) :
    (∀ field ∈ fields, AddressChars field) ∧ ∀ g ∈ gs, g < 65536 :=
  ⟨forall_of_mapM h fun _ _ hg => addressChars_of_group? hg,
    forall_result_of_mapM h fun _ _ hg => group?_le hg⟩

theorem side?_spec {groups : List (List Char) → Option (List ℕ)}
    (hgroups : ∀ {fields gs}, groups fields = some gs →
      (∀ field ∈ fields, AddressChars field) ∧ ∀ g ∈ gs, g < 65536)
    {gs : List ℕ} (h : side? groups cs = some gs) :
    AddressChars cs ∧ ∀ g ∈ gs, g < 65536 := by
  unfold side? at h
  split at h
  next hempty =>
    subst hempty
    obtain rfl : [] = gs := by simpa using h
    exact ⟨⟨by simp, by simp⟩, by simp⟩
  next =>
    obtain ⟨hchars, hlt⟩ := hgroups h
    exact ⟨addressChars_of_fields hchars, hlt⟩

theorem compressed?_eq_some {before after : List Char}
    (h : compressed? cs = some (before, after)) :
    cs = before ++ ':' :: ':' :: after := by
  induction cs using compressed?.induct generalizing before with
  | case1 rest =>
      simp only [compressed?, Option.some.injEq, Prod.mk.injEq] at h
      simp [← h.1, ← h.2]
  | case2 c rest hne ih =>
      rw [compressed?.eq_2 _ _ hne, Option.map_eq_some_iff] at h
      obtain ⟨⟨before', after'⟩, hsides, heq⟩ := h
      obtain ⟨rfl, rfl⟩ := Prod.mk.inj heq
      simp [ih hsides]
  | case3 => cases h

theorem eightGroups?_cases {gs : List ℕ} (h : eightGroups? cs = some gs) :
    (groups? (cs.splitOn ':') = some gs ∧ gs.length = 8) ∨
      ∃ before after front back, cs = before ++ ':' :: ':' :: after ∧
        side? (List.mapM group?) before = some front ∧
        side? groups? after = some back ∧ front.length + back.length ≤ 7 ∧
        gs = front ++ List.replicate (8 - (front.length + back.length)) 0 ++
          back := by
  unfold eightGroups? at h
  split at h
  next =>
    rw [Option.filter_eq_some_iff, decide_eq_true_eq] at h
    exact .inl h
  next before after hsides =>
    simp only [Option.bind_eq_bind, Option.bind_eq_some_iff,
      Option.ite_none_right_eq_some, Option.some.injEq] at h
    obtain ⟨front, hfront, back, hback, hlength, rfl⟩ := h
    exact .inr ⟨before, after, front, back, compressed?_eq_some hsides,
      hfront, hback, hlength, rfl⟩

theorem eightGroups?_spec {gs : List ℕ} (h : eightGroups? cs = some gs) :
    AddressChars cs ∧ gs.length = 8 ∧ ∀ g ∈ gs, g < 65536 := by
  rcases eightGroups?_cases h with ⟨hgroups, hlength⟩ |
    ⟨before, after, front, back, rfl, hfront, hback, hlength, rfl⟩
  · obtain ⟨hchars, hlt⟩ := groups?_spec hgroups
    exact ⟨addressChars_of_fields hchars, hlength, hlt⟩
  · obtain ⟨hbefore, hltFront⟩ := side?_spec mapM_group?_spec hfront
    obtain ⟨hafter, hltBack⟩ := side?_spec groups?_spec hback
    refine ⟨⟨fun c hc => ?_, ?_⟩, ?_, fun g hg => ?_⟩
    · simp only [List.mem_append, List.mem_cons] at hc
      rcases hc with hc | rfl | rfl | hc
      · exact hbefore.all c hc
      · exact .inr (.inl rfl)
      · exact .inr (.inl rfl)
      · exact hafter.all c hc
    · intro hlast
      rw [List.getLast?_append, List.getLast?_cons_cons,
        List.getLast?_cons] at hlast
      cases hend : after.getLast? with
      | none => simp [hend] at hlast
      | some c =>
          obtain rfl : c = '.' := by simpa [hend] using hlast
          exact hafter.last hend
    · simp only [List.length_append, List.length_replicate]
      omega
    · simp only [List.mem_append, List.mem_replicate] at hg
      rcases hg with (hg | ⟨-, rfl⟩) | hg
      · exact hltFront g hg
      · decide
      · exact hltBack g hg

/-- The first field is the first group, or empty before `::`. -/
theorem eightGroups?_first {gs : List ℕ} (h : eightGroups? cs = some gs) :
    ':' ∈ cs ∧ ∃ g rest, gs = g :: rest ∧
      (group? (cs.takeWhile (· ≠ ':')) = some g ∨
        (cs.takeWhile (· ≠ ':') = [] ∧ g = 0)) := by
  rcases eightGroups?_cases h with ⟨hgroups, hlength⟩ |
    ⟨before, after, front, back, rfl, hfront, hback, hlength, rfl⟩
  · obtain ⟨rest, hsplit, hcolon⟩ := splitOn_eq_takeWhile_cons ':' cs
    rw [hsplit] at hgroups
    cases rest with
    | nil =>
        rcases groups?_singleton hgroups with ⟨g, -, rfl⟩ | hdotted
        · cases hlength
        · obtain ⟨a, b, c, d, -, rfl⟩ := dotted?_eq_some hdotted
          cases hlength
    | cons next rest =>
        obtain ⟨g, gs', hg, -, rfl⟩ := groups?_cons.mp hgroups
        refine ⟨?_, g, gs', rfl, .inl hg⟩
        by_contra hnot
        rw [List.splitOn_eq_singleton hnot] at hsplit
        simp at hsplit
  · refine ⟨by simp, ?_⟩
    unfold side? at hfront
    split at hfront
    next hempty =>
      subst hempty
      obtain rfl : [] = front := by simpa using hfront
      rw [List.length_nil, zero_add] at hlength ⊢
      have hzeros : 8 - back.length = (7 - back.length) + 1 := by omega
      rw [hzeros, List.replicate_succ]
      exact ⟨0, List.replicate (7 - back.length) 0 ++ back, rfl,
        .inr ⟨by simp, rfl⟩⟩
    next hne =>
      obtain ⟨rest, hsplit, -⟩ := splitOn_eq_takeWhile_cons ':' before
      rw [hsplit, List.mapM_cons] at hfront
      simp only [Option.bind_eq_bind, Option.bind_eq_some_iff,
        Option.pure_def, Option.some.injEq] at hfront
      obtain ⟨g, hg, front', -, rfl⟩ := hfront
      refine ⟨g, _, rfl, .inl ?_⟩
      rw [List.takeWhile_append]
      split
      next hall =>
        have hself : before.takeWhile (· ≠ ':') = before :=
          List.takeWhile_prefix _ |>.eq_of_length hall
        rw [hself] at hg
        simpa using hg
      next => exact hg

/-- An IPv4 address behind `::ffff:`. -/
theorem eightGroups?_mapped {a b c d : ℕ}
    (h : quad? cs = some [a, b, c, d]) :
    eightGroups? ("::ffff:".toList ++ cs) =
      some [0, 0, 0, 0, 0, 0xffff, 256 * a + b, 256 * c + d] := by
  have hcolon : ':' ∉ cs := by
    intro hmem
    rcases isDigit_of_quad? h _ hmem with hdigit | hdot
    · revert hdigit
      decide
    · revert hdot
      decide
  have hgroup : group? cs = none := by
    by_contra hsome
    obtain ⟨g, hg⟩ := Option.ne_none_iff_exists'.mp hsome
    have hdot : '.' ∉ cs := fun hmem =>
      absurd ((group?_eq_some.mp hg).2.2.1 _ hmem) (by decide)
    have hlength := (forall₂_of_mapM (mapM_of_quad? h).1).length_eq
    rw [List.splitOn_eq_singleton hdot] at hlength
    cases hlength
  have hsplit : ("ffff".toList ++ ':' :: cs).splitOn ':' =
      ["ffff".toList, cs] := by
    rw [List.splitOn_append_cons_self_of_not_mem (by decide),
      List.splitOn_eq_singleton hcolon]
  have hlast : groups? [cs] = some [256 * a + b, 256 * c + d] := by
    simp [groups?, hgroup, dotted?, h]
  have hgroups : groups? ["ffff".toList, cs] =
      some [0xffff, 256 * a + b, 256 * c + d] :=
    groups?_cons.mpr ⟨_, _, by decide, hlast, rfl⟩
  have hback : side? groups? ("ffff".toList ++ ':' :: cs) =
      some [0xffff, 256 * a + b, 256 * c + d] := by
    rw [side?, if_neg (by simp), hsplit, hgroups]
  have hcompressed : compressed? ("::ffff:".toList ++ cs) =
      some ([], "ffff".toList ++ ':' :: cs) := rfl
  have hfront : side? (List.mapM group?) [] = some [] := rfl
  simp only [eightGroups?, hcompressed, hfront, hback, Option.bind_eq_bind,
    Option.bind_some]
  rfl

/-! ## Addresses -/

theorem addressOf?_eq_v4 {value : ℕ} : addressOf? cs = some (.v4 value) ↔
    ∃ octets, quad? cs = some octets ∧ value = ofGroups 256 octets := by
  unfold addressOf?
  cases hquad : quad? cs with
  | some octets => simp [eq_comm]
  | none => simp

/-- The part after an IPv6 address: nothing, or a zone. -/
def ZonePart (zone : List Char) : Prop :=
  zone = [] ∨ ∃ name, zone = '%' :: name ∧ name ≠ [] ∧
    ∀ c ∈ name, isZoneChar c = true

theorem quad?_of_colon (h : ':' ∈ cs) : quad? cs = none := by
  by_contra hsome
  obtain ⟨octets, hquad⟩ := Option.ne_none_iff_exists'.mp hsome
  rcases isDigit_of_quad? hquad _ h with hdigit | hdot
  · revert hdigit
    decide
  · revert hdot
    decide

theorem percent_not_mem {gs : List ℕ} (h : eightGroups? cs = some gs) :
    '%' ∉ cs :=
  (eightGroups?_spec h).1.not_mem (by decide) (by decide) (by decide)

theorem addressOf?_eq_v6 {value : ℕ} : addressOf? cs = some (.v6 value) ↔
    ∃ address zone gs, cs = address ++ zone ∧ ZonePart zone ∧
      eightGroups? address = some gs ∧ value = ofGroups 65536 gs := by
  constructor
  · intro h
    unfold addressOf? at h
    split at h
    next => cases h
    next =>
      rw [Option.map_eq_some_iff] at h
      obtain ⟨gs, hgs, hvalue⟩ := h
      obtain rfl : ofGroups 65536 gs = value := Address.v6.inj hvalue
      unfold ipv6? at hgs
      split at hgs
      next => exact ⟨cs, [], gs, by simp, .inl rfl, hgs, rfl⟩
      next c name hdrop =>
        rw [Option.ite_none_right_eq_some, List.all_eq_true] at hgs
        obtain ⟨⟨hne, hname⟩, hgs⟩ := hgs
        have hc : c = '%' := by
          have hhead := List.head?_dropWhile_not (· ≠ '%') cs
          rw [hdrop] at hhead
          simpa using hhead
        subst hc
        refine ⟨_, _, gs, (List.takeWhile_append_dropWhile
          (p := (· ≠ '%'))).symm, .inr ⟨name, hdrop, hne, hname⟩, hgs, rfl⟩
  · rintro ⟨address, zone, gs, rfl, hzone, hgs, rfl⟩
    have hcolon : ':' ∈ address ++ zone :=
      List.mem_append_left _ (eightGroups?_first hgs).1
    have hfree : ∀ c ∈ address, (c ≠ '%' : Bool) = true := by
      intro c hc
      have hne : c ≠ '%' := by
        rintro rfl
        exact percent_not_mem hgs hc
      simp [hne]
    have hipv6 : ipv6? (address ++ zone) = some gs := by
      rcases hzone with rfl | ⟨name, rfl, hne, hname⟩
      · rw [ipv6?, List.append_nil, List.dropWhile_eq_nil_iff.mpr hfree]
        exact hgs
      · rw [ipv6?, List.dropWhile_append_of_pos hfree,
          List.takeWhile_append_of_pos hfree]
        simpa [hne, hgs] using hname
    rw [addressOf?, quad?_of_colon hcolon, hipv6, Option.map_some]

/-- The first character of an address is a digit or a colon. -/
theorem addressOf?_cons_eq_none {c : Char} (hhex : isHexDigit c = false)
    (hcolon : c ≠ ':') (hdot : c ≠ '.') : addressOf? (c :: cs) = none := by
  cases h : addressOf? (c :: cs) with
  | none => rfl
  | some address =>
      exfalso
      cases address with
      | v4 value =>
          obtain ⟨octets, hquad, -⟩ := addressOf?_eq_v4.mp h
          exact (addressChars_of_quad? hquad).not_mem hhex hcolon hdot
            List.mem_cons_self
      | v6 value =>
          obtain ⟨address, zone, gs, happend, -, hgs, -⟩ :=
            addressOf?_eq_v6.mp h
          have hfree := (eightGroups?_spec hgs).1.not_mem hhex hcolon hdot
          cases address with
          | nil => simpa using (eightGroups?_first hgs).1
          | cons x address =>
              obtain ⟨rfl, -⟩ := List.cons.inj happend
              exact hfree List.mem_cons_self

end Net
