import WebhookBroadcast.Db.PgErrors

/-!
# Writing Channels

When the constraints admit a new or a changed Channel, and what the database is
then.  Both writes of the repository come down to two questions about the
resulting row: whether it satisfies the checks, and whether another live
Channel has its slug.
-/

namespace WebhookBroadcast

open Relational

/-! ## The index of live slugs -/

/-- Another live Channel has the slug. -/
def Database.SlugTaken (db : Database) (id : Uuid) (slug : String) : Prop :=
  ∃ other ∈ db.channels, other.id ≠ id ∧ other.deletedAt = none ∧
    other.slug = slug

theorem nodup_activeSlugs_iff
    {channels : Table ChannelRow Uuid ChannelRow.id} :
    (activeSlugs channels.rows).Nodup ↔ ∀ a ∈ channels, ∀ b ∈ channels,
      a.deletedAt = none → b.deletedAt = none → a.slug = b.slug →
        a.id = b.id := by
  have hlive {c : ChannelRow} :
      c ∈ channels.rows.filter (fun c => c.deletedAt = none) ↔
        c ∈ channels ∧ c.deletedAt = none := by
    rw [List.mem_filter, decide_eq_true_iff]
    rfl
  constructor
  · intro hnodup a ha b hb halive hblive hslug
    exact congrArg ChannelRow.id (List.inj_on_of_nodup_map hnodup
      (hlive.mpr ⟨ha, halive⟩) (hlive.mpr ⟨hb, hblive⟩) hslug)
  · intro happart
    refine List.Nodup.map_on (fun a ha b hb hslug => ?_)
      (channels.nodup.of_map _ |>.filter _)
    obtain ⟨ha, halive⟩ := hlive.mp ha
    obtain ⟨hb, hblive⟩ := hlive.mp hb
    exact channels.eq_of_key_eq ha hb (happart a ha b hb halive hblive hslug)

/-! ## What the constraints admit -/

section Writes

variable {db db' : Database} {c : ChannelRow}

theorem insert?_of_insertChannel? (h : db.insertChannel? c = some db') :
    db.channels.insert? c = some db'.channels ∧ c.Valid := by
  unfold Database.insertChannel? at h
  split at h
  next hadmitted =>
    split at h
    next => cases h
    next hins =>
      cases h
      exact ⟨hins, hadmitted.1⟩
  next => cases h

theorem not_nodup_of_insertChannel? (h : db.insertChannel? c = none)
    (hvalid : c.Valid) (hfresh : (db.channels.insert? c).isSome) :
    ¬(activeSlugs (db.channels.rows ++ [c])).Nodup := by
  intro hapart
  unfold Database.insertChannel? at h
  rw [dif_pos ⟨hvalid, hapart⟩] at h
  split at h
  next hins =>
    rw [hins] at hfresh
    cases hfresh
  next => cases h

/-- A Channel with a new id is stored if it is valid and its slug is free. -/
theorem insertChannel?_isSome_iff (hfresh : db.channels.find? c.id = none)
    (hlive : c.deletedAt = none) : (db.insertChannel? c).isSome ↔
      c.Valid ∧ ¬db.SlugTaken c.id c.slug := by
  constructor
  · intro hsome
    obtain ⟨db', h⟩ := Option.isSome_iff_exists.mp hsome
    obtain ⟨hins, hvalid⟩ := insert?_of_insertChannel? h
    refine ⟨hvalid, ?_⟩
    rintro ⟨other, hother, hne, hotherLive, hslug⟩
    exact hne (nodup_activeSlugs_iff.mp db'.channel_slug other
      ((Table.mem_of_insert? hins).mpr (Or.inl hother)) c
      ((Table.mem_of_insert? hins).mpr (Or.inr rfl)) hotherLive hlive hslug)
  · rintro ⟨hvalid, hfree⟩
    cases hins : db.channels.insert? c with
    | none =>
        obtain ⟨other, hother, hid⟩ := Table.insert?_eq_none_iff.mp hins
        exact absurd hid ((Table.find?_eq_none_iff _).mp hfresh other hother)
    | some channels =>
        rw [Option.isSome_iff_ne_none]
        intro hnone
        refine not_nodup_of_insertChannel? hnone hvalid (by rw [hins]; rfl) ?_
        rw [← Table.rows_of_insert? hins, nodup_activeSlugs_iff]
        intro a ha b hb halive hblive hslug
        rcases (Table.mem_of_insert? hins).mp ha with ha | rfl
        · rcases (Table.mem_of_insert? hins).mp hb with hb | rfl
          · exact nodup_activeSlugs_iff.mp db.channel_slug a ha b hb halive
              hblive hslug
          · by_contra hne
            exact hfree ⟨a, ha, hne, halive, hslug⟩
        · rcases (Table.mem_of_insert? hins).mp hb with hb | rfl
          · by_contra hne
            exact hfree ⟨b, hb, fun h => hne h.symm, hblive, hslug.symm⟩
          · rfl

variable {f : ChannelRow → ChannelRow} (hf : ∀ c, (f c).id = c.id)

/-- An update of one live Channel changes its row and no other. -/
theorem mem_update_live (hc : c ∈ db.channels) (hlive : c.deletedAt = none)
    {r : ChannelRow} :
    r ∈ db.channels.update (fun d => d.id = c.id && d.deletedAt = none) f hf ↔
      r = f c ∨ (r ∈ db.channels ∧ r.id ≠ c.id) := by
  rw [Table.mem_update]
  constructor
  · rintro ⟨d, hd, rfl⟩
    by_cases hid : d.id = c.id
    · obtain rfl := db.channels.eq_of_key_eq hd hc hid
      exact Or.inl (if_pos (by simp [hlive]))
    · rw [if_neg (by simp [hid])]
      exact Or.inr ⟨hd, hid⟩
  · rintro (rfl | ⟨hr, hid⟩)
    · exact ⟨c, hc, if_pos (by simp [hlive])⟩
    · exact ⟨r, hr, if_neg (by simp [hid])⟩

/-- The update of a live Channel goes through if its new row is valid and its
new slug free. -/
theorem updateChannels?_isSome_iff (hc : c ∈ db.channels)
    (hlive : c.deletedAt = none) (hkept : (f c).deletedAt = none) :
    (db.updateChannels? (fun d => d.id = c.id && d.deletedAt = none) f
      hf).isSome ↔ (f c).Valid ∧ ¬db.SlugTaken c.id (f c).slug := by
  have hmem := fun r => mem_update_live hf (r := r) hc hlive
  have hvalid : (∀ d ∈ (db.channels.update (fun d => d.id = c.id &&
      d.deletedAt = none) f hf).rows, d.Valid) ↔ (f c).Valid := by
    refine ⟨fun h => h _ ((hmem _).mpr (Or.inl rfl)), fun h d hd => ?_⟩
    rcases (hmem d).mp hd with rfl | ⟨hd, -⟩
    · exact h
    · exact db.channel_valid d hd
  have hapart : (activeSlugs (db.channels.update (fun d => d.id = c.id &&
      d.deletedAt = none) f hf).rows).Nodup ↔
        ¬db.SlugTaken c.id (f c).slug := by
    rw [nodup_activeSlugs_iff]
    constructor
    · rintro h ⟨other, hother, hne, hotherLive, hslug⟩
      have hsame := h other ((hmem _).mpr (Or.inr ⟨hother, hne⟩)) (f c)
        ((hmem _).mpr (Or.inl rfl)) hotherLive hkept hslug
      exact hne (hsame.trans (hf c))
    · intro hfree a ha b hb halive hblive hslug
      rcases (hmem a).mp ha with rfl | ⟨ha, hane⟩
      · rcases (hmem b).mp hb with rfl | ⟨hb, hbne⟩
        · rfl
        · exact absurd ⟨b, hb, hbne, hblive, hslug.symm⟩ hfree
      · rcases (hmem b).mp hb with rfl | ⟨hb, hbne⟩
        · exact absurd ⟨a, ha, hane, halive, hslug⟩ hfree
        · exact nodup_activeSlugs_iff.mp db.channel_slug a ha b hb halive
            hblive hslug
  rw [← hvalid, ← hapart]
  simp only [Database.updateChannels?]
  split
  next hadmitted => exact iff_of_true rfl hadmitted
  next hrefused => exact iff_of_false (by simp) hrefused

/-- The row is stored under its id, and nothing else has changed. -/
structure Database.StoresChannel (db db' : Database) (row : ChannelRow) :
    Prop where
  stored : db'.channels.find? row.id = some row
  others : ∀ id, id ≠ row.id →
    db'.channels.find? id = db.channels.find? id
  below : db.SameBelowChannels db'

theorem storesChannel_of_updateChannels? (hc : c ∈ db.channels)
    (hlive : c.deletedAt = none)
    (h : db.updateChannels? (fun d => d.id = c.id && d.deletedAt = none) f hf =
      some db') : db.StoresChannel db' (f c) := by
  have hchannels : db'.channels = db.channels.update
      (fun d => d.id = c.id && d.deletedAt = none) f hf := by
    simp only [Database.updateChannels?] at h
    split at h
    · cases h
      rfl
    · cases h
  refine ⟨?_, fun id hid => ?_, Database.sameBelowChannels_updateChannels? h⟩
  · rw [hchannels, Table.find?_eq_some_iff, mem_update_live hf hc hlive]
    exact ⟨Or.inl rfl, rfl⟩
  · rw [hchannels, Table.find?_update]
    cases hfind : db.channels.find? id with
    | none => rfl
    | some d =>
        have hdid : d.id = id := Table.key_of_find? hfind
        have hne : d.id ≠ c.id := fun h => hid (hdid.symm.trans (h.trans
          (hf c).symm))
        simp [hne]

theorem insertChannel_admitted (hfresh : db.channels.find? c.id = none)
    (hlive : c.deletedAt = none) (hvalid : c.Valid)
    (hfree : ¬db.SlugTaken c.id c.slug) :
    ∃ db', insertChannel db c = (.ok c, db') ∧ db.StoresChannel db' c := by
  obtain ⟨db', h⟩ := Option.isSome_iff_exists.mp
    ((insertChannel?_isSome_iff hfresh hlive).mpr ⟨hvalid, hfree⟩)
  obtain ⟨hins, -⟩ := insert?_of_insertChannel? h
  have hrows := Table.rows_of_insert? hins
  refine ⟨db', by rw [insertChannel, h], ?_, fun id hid => ?_,
    Database.sameBelowChannels_insertChannel? h⟩
  · exact (Table.find?_eq_some_iff _).mpr
      ⟨(Table.mem_of_insert? hins).mpr (Or.inr rfl), rfl⟩
  · simp [Table.find?, hrows, List.find?_append, hid.symm]

theorem insertChannel_refused (hfresh : db.channels.find? c.id = none)
    (hlive : c.deletedAt = none)
    (hrefused : ¬(c.Valid ∧ ¬db.SlugTaken c.id c.slug)) :
    insertChannel db c = (.error (.ofInsert c.slug c.rejection), db) := by
  have hnone : db.insertChannel? c = none := by
    rw [← Option.not_isSome_iff_eq_none,
      insertChannel?_isSome_iff hfresh hlive]
    exact hrefused
  rw [insertChannel, hnone, ofInsert_eq_ofUpdate, ofUpdate_rejection]

/-- `UPDATE … RETURNING` on a live Channel returns its new row. -/
theorem head?_select_live (hc : c ∈ db.channels) (hlive : c.deletedAt = none) :
    (db.channels.select fun d => d.id = c.id && d.deletedAt = none).head? =
      some c := by
  rw [Table.select, List.head?_filter]
  cases hfind : db.channels.rows.find? fun d =>
      d.id = c.id && d.deletedAt = none with
  | none =>
      have hunmatched := List.find?_eq_none.mp hfind c hc
      simp [hlive] at hunmatched
  | some d =>
      have hmatched := List.find?_some hfind
      rw [Bool.and_eq_true, decide_eq_true_iff] at hmatched
      rw [db.channels.eq_of_key_eq (List.mem_of_find?_eq_some hfind) hc
        hmatched.1]

variable {patch : ChannelUpdate} {updatedAt : Instant}

theorem updateChannel_admitted (hc : c ∈ db.channels)
    (hlive : c.deletedAt = none) (hvalid : (patch.set updatedAt c).Valid)
    (hfree : ¬db.SlugTaken c.id (patch.set updatedAt c).slug) :
    ∃ db', updateChannel db c.id patch updatedAt =
        (.ok (some (patch.set updatedAt c)), db') ∧
      db.StoresChannel db' (patch.set updatedAt c) := by
  obtain ⟨db', h⟩ := Option.isSome_iff_exists.mp
    ((updateChannels?_isSome_iff (f := patch.set updatedAt)
      (fun _ => rfl) hc hlive hlive).mpr ⟨hvalid, hfree⟩)
  refine ⟨db', ?_, storesChannel_of_updateChannels? (fun _ => rfl) hc hlive h⟩
  simp only [updateChannel, h, head?_select_live hc hlive, Option.map_some]

theorem updateChannel_refused (hc : c ∈ db.channels)
    (hlive : c.deletedAt = none)
    (hrefused : ¬((patch.set updatedAt c).Valid ∧
      ¬db.SlugTaken c.id (patch.set updatedAt c).slug)) :
    updateChannel db c.id patch updatedAt =
      (.error (.ofUpdate patch.slug (patch.set updatedAt c).rejection),
        db) := by
  have hnone : db.updateChannels? (fun d => d.id = c.id && d.deletedAt = none)
      (patch.set updatedAt) (fun _ => rfl) = none := by
    rw [← Option.not_isSome_iff_eq_none]
    exact fun hsome => hrefused ((updateChannels?_isSome_iff
      (f := patch.set updatedAt) (fun _ => rfl) hc hlive hlive).mp hsome)
  simp only [updateChannel, hnone, head?_select_live hc hlive,
    Option.map_some, ofUpdate_rejection]

end Writes

end WebhookBroadcast
