import Mathlib.Data.List.AList

/-!
# Registries with two indices

A set of entries held by two maps: one by a running identifier, one by a key
read off the entry. The maps agree when they hold the same entries once each.
-/

namespace Foundation

variable {κ E : Type} [DecidableEq κ] {key : E → κ}

/-- `byId` and `byKey` index the same entries; identifiers stay below `next`. -/
structure Indexed (key : E → κ) (byId : AList fun _ : ℕ => E)
    (byKey : AList fun _ : κ => E) (next : ℕ) : Prop where
  toKey : ∀ {id e}, byId.lookup id = some e → byKey.lookup (key e) = some e
  toId : ∀ {k e}, byKey.lookup k = some e → key e = k ∧ ∃ id, byId.lookup id = some e
  below : ∀ {id e}, byId.lookup id = some e → id < next
  inj : ∀ {id id' e e'}, byId.lookup id = some e → byId.lookup id' = some e' →
    key e = key e' → id = id'

theorem Indexed.empty {next : ℕ} : Indexed key ∅ ∅ next where
  toKey h := by simp at h
  toId h := by simp at h
  below h := by simp at h
  inj h := by simp at h

variable {byId : AList fun _ : ℕ => E} {byKey : AList fun _ : κ => E} {next : ℕ}

theorem lookup_insert_cases {k k' : κ} {e e' : E}
    (h : (byKey.insert k e).lookup k' = some e') :
    (k' = k ∧ e' = e) ∨ (k' ≠ k ∧ byKey.lookup k' = some e') := by
  by_cases hk : k' = k
  · subst hk
    rw [AList.lookup_insert] at h
    exact Or.inl ⟨rfl, (Option.some.inj h).symm⟩
  · rw [AList.lookup_insert_ne hk] at h
    exact Or.inr ⟨hk, h⟩

theorem lookup_erase_cases {k k' : κ} {e' : E}
    (h : (byKey.erase k).lookup k' = some e') :
    k' ≠ k ∧ byKey.lookup k' = some e' := by
  by_cases hk : k' = k
  · subst hk
    simp at h
  · rw [AList.lookup_erase_ne hk] at h
    exact ⟨hk, h⟩

theorem notMem_of_entries_eq_nil (h : byKey.entries = []) (k : κ) : k ∉ byKey := by
  rw [← AList.lookup_eq_none]
  simp [AList.lookup, h]

/-- One entry of a map apart from the rest. -/
theorem entries_perm_erase {k : κ} {e : E} (h : byKey.lookup k = some e) :
    byKey.entries.Perm (⟨k, e⟩ :: (byKey.erase k).entries) := by
  have hmem := AList.mem_lookup_iff.mp h
  have hkey : k ∈ byKey.entries.keys := List.mem_keys_of_mem hmem
  obtain ⟨e', front, back, hfront, hsplit, herase⟩ := List.exists_of_kerase hkey
  have hentries : (byKey.erase k).entries = front ++ back := herase
  -- keys are distinct, so the entry found is the one looked up
  have hlookup : byKey.lookup k = some e' := by
    rw [← Option.mem_def, AList.mem_lookup_iff, hsplit]
    exact List.mem_append_right _ List.mem_cons_self
  obtain rfl : e = e' := Option.some.inj (h.symm.trans hlookup)
  rw [hentries, hsplit]
  exact List.perm_middle

/-- A live identifier's key is taken. -/
theorem Indexed.key_mem (h : Indexed key byId byKey next) {id : ℕ} {e : E}
    (he : byId.lookup id = some e) : key e ∈ byKey := by
  rw [← AList.lookup_isSome, h.toKey he]
  rfl

theorem Indexed.insert (h : Indexed key byId byKey next) {e : E} (hfree : key e ∉ byKey) :
    Indexed key (byId.insert next e) (byKey.insert (key e) e) (next + 1) where
  toKey := by
    intro id e' he
    rcases lookup_insert_cases he with ⟨-, rfl⟩ | ⟨-, hold⟩
    · exact AList.lookup_insert _
    · have hne : key e' ≠ key e := fun heq => hfree (heq ▸ h.key_mem hold)
      rw [AList.lookup_insert_ne hne]
      exact h.toKey hold
  toId := by
    intro k e' he
    rcases lookup_insert_cases he with ⟨rfl, rfl⟩ | ⟨-, hold⟩
    · exact ⟨rfl, next, AList.lookup_insert _⟩
    · obtain ⟨hkey, id, hid⟩ := h.toId hold
      refine ⟨hkey, id, ?_⟩
      rw [AList.lookup_insert_ne (Nat.ne_of_lt (h.below hid))]
      exact hid
  below := by
    intro id e' he
    rcases lookup_insert_cases he with ⟨rfl, -⟩ | ⟨-, hold⟩
    · exact Nat.lt_succ_self _
    · exact Nat.lt_succ_of_lt (h.below hold)
  inj := by
    intro id id' e₁ e₂ h₁ h₂ hkey
    rcases lookup_insert_cases h₁ with ⟨rfl, rfl⟩ | ⟨-, hold₁⟩
    · rcases lookup_insert_cases h₂ with ⟨rfl, -⟩ | ⟨-, hold₂⟩
      · rfl
      · exact absurd (hkey ▸ h.key_mem hold₂) hfree
    · rcases lookup_insert_cases h₂ with ⟨rfl, rfl⟩ | ⟨-, hold₂⟩
      · exact absurd (hkey ▸ h.key_mem hold₁) hfree
      · exact h.inj hold₁ hold₂ hkey

theorem Indexed.erase (h : Indexed key byId byKey next) {id : ℕ} {e : E}
    (he : byId.lookup id = some e) :
    Indexed key (byId.erase id) (byKey.erase (key e)) next where
  toKey := by
    intro id' e' he'
    obtain ⟨hne, hold⟩ := lookup_erase_cases he'
    have hkey : key e' ≠ key e := fun heq => hne (h.inj hold he heq)
    rw [AList.lookup_erase_ne hkey]
    exact h.toKey hold
  toId := by
    intro k e' he'
    obtain ⟨hne, hold⟩ := lookup_erase_cases he'
    obtain ⟨hkey, id', hid'⟩ := h.toId hold
    refine ⟨hkey, id', ?_⟩
    have hid : id' ≠ id := by
      rintro rfl
      rw [he] at hid'
      obtain rfl := Option.some.inj hid'
      exact hne hkey.symm
    rw [AList.lookup_erase_ne hid]
    exact hid'
  below := fun he' => h.below (lookup_erase_cases he').2
  inj := fun h₁ h₂ => h.inj (lookup_erase_cases h₁).2 (lookup_erase_cases h₂).2

/-- The keys of the entries, listed in any order, are the keys in use, once each. -/
theorem Indexed.keys_nodup (h : Indexed key byId byKey next) {order : List (Σ _ : ℕ, E)}
    (hperm : order.Perm byId.entries) : (order.map (key ·.2)).Nodup := by
  have hnodup : order.Nodup := hperm.nodup_iff.mpr byId.nodupKeys.nodup
  refine hnodup.map_on fun e he e' he' hkey => ?_
  have hl : byId.lookup e.1 = some e.2 := AList.mem_lookup_iff.mpr (hperm.mem_iff.mp he)
  have hl' : byId.lookup e'.1 = some e'.2 := AList.mem_lookup_iff.mpr (hperm.mem_iff.mp he')
  have hid : e.1 = e'.1 := h.inj hl hl' hkey
  have hentry : e.2 = e'.2 := Option.some.inj (hl.symm.trans (hid ▸ hl'))
  exact Sigma.ext hid (heq_of_eq hentry)

theorem Indexed.mem_keys_iff (h : Indexed key byId byKey next) {order : List (Σ _ : ℕ, E)}
    (hperm : order.Perm byId.entries) {k : κ} :
    k ∈ order.map (key ·.2) ↔ k ∈ byKey := by
  rw [List.mem_map, ← AList.lookup_isSome, Option.isSome_iff_exists]
  constructor
  · rintro ⟨e, he, rfl⟩
    exact ⟨e.2, h.toKey (AList.mem_lookup_iff.mpr (hperm.mem_iff.mp he))⟩
  · rintro ⟨e, he⟩
    obtain ⟨hkey, id, hid⟩ := h.toId he
    exact ⟨⟨id, e⟩, hperm.mem_iff.mpr (AList.mem_lookup_iff.mp hid), hkey⟩

/-- Both maps hold the same entries, once each. -/
theorem Indexed.entries_perm (h : Indexed key byId byKey next) :
    (byId.entries.map (·.2)).Nodup ∧
      (byId.entries.map (·.2)).Perm (byKey.entries.map (·.2)) := by
  have hids : (byId.entries.map (·.2)).Nodup := by
    apply List.Nodup.of_map key
    rw [List.map_map]
    exact h.keys_nodup (List.Perm.refl _)
  have hkeys : (byKey.entries.map (·.2)).Nodup := by
    apply List.Nodup.of_map key
    have hkeys : (byKey.entries.map (·.2)).map key = byKey.entries.map Sigma.fst := by
      rw [List.map_map]
      exact List.map_congr_left fun e he => (h.toId (AList.mem_lookup_iff.mpr he)).1
    rw [hkeys]
    exact byKey.nodupKeys
  refine ⟨hids, (List.perm_ext_iff_of_nodup hids hkeys).mpr fun e => ?_⟩
  constructor
  · intro he
    obtain ⟨x, hx, rfl⟩ := List.mem_map.mp he
    have hlookup := h.toKey (AList.mem_lookup_iff.mpr hx)
    exact List.mem_map_of_mem (f := (·.2)) (AList.mem_lookup_iff.mp hlookup)
  · intro he
    obtain ⟨x, hx, rfl⟩ := List.mem_map.mp he
    obtain ⟨-, id, hid⟩ := h.toId (AList.mem_lookup_iff.mpr hx)
    exact List.mem_map_of_mem (f := (·.2)) (AList.mem_lookup_iff.mp hid)

end Foundation
