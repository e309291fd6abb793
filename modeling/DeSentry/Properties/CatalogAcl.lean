import DeSentry.Properties.StorageRows

/-!
# Entries of the catalog

A list that is entered under a collection changes the entry of that collection and no other, and
there it is kept or dropped by its version alone (`applyAcl`).  Two lists in a row act as one of
them, so a sequence of lists may be entered twice (`applyAcl_applyAcl`, `applyAcl_twice`).
-/

namespace DeSentry

open ByteCodec

namespace StorageEngine

variable {s : StorageEngine} (name : Bytes) (entry : CollectionMeta) (m : CollectionAcl × UInt64)

/-- What a list makes of the entry of its collection. -/
def applyAcl : CollectionMeta :=
  if m.1.parent = name ∨ m.2 < entry.aclUpdatedMs then entry
  else { entry with acl := m.1, aclUpdatedMs := m.2 }

lemma get_setAclAt {catalog : Catalog} {entry : CollectionMeta} {name : Bytes}
    (h : catalog.get name = some entry) (saved : Except Status Unit) (acl : CollectionAcl)
    (ms : UInt64) (name' : Bytes) : (catalog.setAclAt saved name acl ms).2.get name' =
      if name = name' then some (applyAcl name entry (acl, ms)) else catalog.get name' := by
  have hset : (catalog.setAclAt saved name acl ms).2 =
      if acl.parent = name ∨ ms < entry.aclUpdatedMs then catalog
      else catalog.insert name { entry with acl, aclUpdatedMs := ms } := by
    rw [Catalog.setAclAt, h]
    dsimp only
    split_ifs <;> first | rfl | tauto
  rw [hset, applyAcl]
  by_cases hname : name = name'
  · subst hname
    rw [if_pos rfl]
    split_ifs
    · exact h
    · rw [Catalog.get_insert, if_pos rfl]
  · split_ifs
    · rfl
    · rw [Catalog.get_insert, if_neg (Ne.symm hname)]

variable (saved : Except Status Unit)

lemma get_ensureCollection (name name' : Bytes) :
    (s.ensureCollection saved name).2.catalog.get name' =
      if name = name' then some ((s.catalog.get name).getD {}) else s.catalog.get name' := by
  rw [ensureCollection]
  split_ifs with hhas hname hname
  · subst hname
    obtain ⟨entry, hentry⟩ := Option.isSome_iff_exists.mp hhas
    rw [hentry, Option.getD_some]
  · rfl
  · exact (Catalog.get_insert ..).trans (if_pos hname.symm)
  · exact (Catalog.get_insert ..).trans (if_neg (Ne.symm hname))

@[simp] lemma router_ensureCollection (name : Bytes) :
    (s.ensureCollection saved name).2.router = s.router := by
  rw [ensureCollection]
  split_ifs <;> rfl

lemma engine_applyAcl : (applyAcl name entry m).engine = entry.engine := by
  rw [applyAcl]
  split_ifs <;> rfl

/-- Of two lists in a row only one counts: the later one, unless its version is smaller or it is
refused for naming its own collection as its parent. -/
lemma applyAcl_applyAcl (u v : CollectionAcl × UInt64) :
    applyAcl name (applyAcl name entry u) v = applyAcl name entry
      (if v.1.parent = name ∨ u.1.parent ≠ name ∧ v.2 < u.2 then u else v) := by
  have htrans : v.2 < u.2 → u.2 < entry.aclUpdatedMs → v.2 < entry.aclUpdatedMs :=
    fun h₁ h₂ => UInt64.lt_trans h₁ h₂
  have hback : ¬ v.2 < u.2 → v.2 < entry.aclUpdatedMs → u.2 < entry.aclUpdatedMs :=
    fun h₁ h₂ => UInt64.lt_of_le_of_lt (UInt64.not_lt.mp h₁) h₂
  by_cases hv : v.1.parent = name
  · simp [applyAcl, hv]
  by_cases hu : u.1.parent = name
  · simp [applyAcl, hv, hu]
  by_cases hold : u.2 < entry.aclUpdatedMs
  · by_cases hlt : v.2 < u.2
    · simp [applyAcl, hv, hu, hold, hlt, htrans hlt hold]
    · simp [applyAcl, hv, hu, hold, hlt]
  · by_cases hlt : v.2 < u.2
    · simp [applyAcl, hv, hu, hold, hlt]
    · simp [applyAcl, hv, hu, hold, hlt, mt (hback hlt) hold]

lemma applyAcl_twice (u : CollectionAcl × UInt64) :
    applyAcl name (applyAcl name entry u) u = applyAcl name entry u := by
  rw [applyAcl_applyAcl]
  split_ifs <;> rfl

end StorageEngine

end DeSentry
