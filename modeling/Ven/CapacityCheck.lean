import Ven.BufSetSpec

namespace Ven

open ObjType

/-- Types whose objects take a multiple of 2^32 bytes: `Sizer::size` gives 0. -/
def Ty.Weightless : Ty → Prop
  | .fixed f => f.bytes % 4294967296 = 0
  | _ => False

/-- The call declines: it returns 0 and touches no byte. -/
structure Declines (m : Bytes.Memory) (p : Put) : Prop where
  ret : p.ret = 0
  mem : p.mem = m
  writes : ∀ w ∈ p.writes, w.2 = 0

section
variable {m : Bytes.Memory} {len pos size : Nat} {put : SetLoop}

theorem checked_declines (h : len < add32 pos size) : Declines m (Buf.checked len size m pos put) := by
  unfold Buf.checked
  rw [if_pos h]
  exact ⟨rfl, rfl, fun w hw => by cases hw⟩

theorem checked_passes (h : ¬len < add32 pos size) :
    Buf.checked len size m pos put = ⟨put.mem, size, put.writes⟩ := by
  unfold Buf.checked
  rw [if_neg h]

/-- What is written behind a count starts with the count. -/
theorem foldl_writes {α : Type} {body : SetLoop → α → SetLoop} {xs : List α}
    (h : ∀ s x, ∃ ws, (body s x).writes = s.writes ++ ws) (s : SetLoop) :
    ∃ ws, (xs.foldl body s).writes = s.writes ++ ws := by
  induction xs generalizing s with
  | nil => exact ⟨[], (List.append_nil _).symm⟩
  | cons x xs ih =>
    obtain ⟨ws, hws⟩ := h s x
    obtain ⟨vs, hvs⟩ := ih (body s x)
    exact ⟨ws ++ vs, by rw [List.foldl_cons, hvs, hws, List.append_assoc]⟩

theorem putElem_writes {α : Type} (set : α → Bytes.Memory → Nat → Put) (s : SetLoop) (x : α) :
    ∃ ws, (Buf.putElem set s x).writes = s.writes ++ ws := ⟨_, rfl⟩

theorem putPair_writes {α β : Type} (set₁ : α → Bytes.Memory → Nat → Put) (set₂ : β → Bytes.Memory → Nat → Put)
    (s : SetLoop) (x : α × β) : ∃ ws, (Buf.putPair set₁ set₂ s x).writes = s.writes ++ ws :=
  ⟨_, List.append_assoc _ _ _⟩

theorem setCnt_writes (cnt : Nat) : (Buf.setCnt m pos cnt).writes = [(pos, 4)] := by
  change [(pos, (Bytes.leBytes 4 cnt).length)] = _
  rw [Bytes.length_leBytes]

/-- Wherever the check passes, strings and containers write their count. -/
theorem count_written {put : SetLoop} {cnt : Nat} (h : ∃ ws, put.writes = (Buf.setCnt m pos cnt).writes ++ ws)
    (hpass : ¬len < add32 pos size) : (pos, 4) ∈ (Buf.checked len size m pos put).writes := by
  obtain ⟨ws, hws⟩ := h
  rw [checked_passes hpass, hws, setCnt_writes]
  exact List.mem_append_left _ List.mem_cons_self

end

/-- Where the check passes, only an object without weight is not written at all. -/
theorem set_declines {len : Nat} {t : Ty} {v : t.Obj} {m : Bytes.Memory} {pos : Nat}
    (hpass : ¬len < add32 pos (Sizer.size t v)) (h : Declines m (Buf.set len t v m pos)) : t.Weightless := by
  have hcount : ¬(pos, 4) ∈ (Buf.set len t v m pos).writes := by
    intro hmem
    cases h.writes _ hmem
  cases t with
  | fixed f =>
    have hret : (Buf.set len (.fixed f) v m pos).ret = Sizer.size (.fixed f) v := by
      rw [Buf.set, checked_passes hpass]
    rw [h.ret] at hret
    change f.bytes % 4294967296 = 0
    rw [← sizeFixed_eq]
    exact hret.symm
  | string => exact absurd (count_written ⟨_, rfl⟩ hpass) hcount
  | vector t => exact absurd (count_written (foldl_writes (putElem_writes _) _) hpass) hcount
  | set t => exact absurd (count_written (foldl_writes (putElem_writes _) _) hpass) hcount
  | unorderedSet t => exact absurd (count_written (foldl_writes (putElem_writes _) _) hpass) hcount
  | map k w => exact absurd (count_written (foldl_writes (putPair_writes _ _) _) hpass) hcount
  | unorderedMap k w => exact absurd (count_written (foldl_writes (putPair_writes _ _) _) hpass) hcount

theorem weightless_declines {len : Nat} {t : Ty} (ht : t.Weightless) (v : t.Obj) (m : Bytes.Memory) (pos : Nat) :
    Declines m (Buf.set len t v m pos) := by
  cases t with
  | fixed f =>
    have hsize : Sizer.size (.fixed f) v = 0 := (sizeFixed_eq f).trans ht
    by_cases hpass : len < add32 pos (Sizer.size (.fixed f) v)
    · exact checked_declines hpass
    · rw [Buf.set, checked_passes hpass, hsize]
      refine ⟨rfl, Bytes.writeAt_nil _ _, fun w hw => ?_⟩
      cases List.mem_singleton.mp hw
      rfl
  | _ => cases ht

/-- The capacity check is sound: the call touches nothing and returns 0, or leaves the whole encoding inside the
buffer and nothing outside it, exactly where the exact end of the object is inside the buffer, or is past it also
modulo 2^32, or the object has no weight. -/
theorem set_sound_iff {len : Nat} (hlen : len < 4294967296) (t : Ty) (v : t.Obj) (m : Bytes.Memory) (pos : Nat) :
    (Declines m (Buf.set len t v m pos) ∨
      (pos + (t.enc v).length ≤ len ∧ Puts m pos (Buf.set len t v m pos) (t.enc v))) ↔
    (pos + (t.enc v).length ≤ len ∨ len < (pos + (t.enc v).length) % 4294967296 ∨ t.Weightless) := by
  have hadd : add32 pos (Sizer.size t v) = (pos + (t.enc v).length) % 4294967296 := by
    rw [size_eq, add32_eq, Nat.add_mod_mod]
  constructor
  · rintro (h | ⟨hfit, _⟩)
    · by_cases hpass : len < add32 pos (Sizer.size t v)
      · exact Or.inr (Or.inl (hadd ▸ hpass))
      · exact Or.inr (Or.inr (set_declines hpass h))
    · exact Or.inl hfit
  · rintro (hfit | hpast | hweight)
    · exact Or.inr ⟨hfit, set_spec hlen t v m pos hfit⟩
    · rw [← hadd] at hpast
      refine Or.inl ?_
      cases t with
      | _ => exact checked_declines hpast
    · exact Or.inl (weightless_declines hweight v m pos)

/-- A text in a buffer that it just fills. -/
theorem set_sound_iff_sample :
    Puts (fun _ => 0) 2 (Buf.set 8 .string ([104, 105] : List UInt8) (fun _ => 0) 2)
      (Ty.enc .string ([104, 105] : List UInt8)) := by
  have hlen : 8 < 4294967296 := by decide
  have h := (set_sound_iff hlen .string ([104, 105] : List UInt8) (fun _ => 0) 2).mpr (Or.inl (by decide))
  rcases h with hdeclines | ⟨_, hputs⟩
  · exact absurd hdeclines.ret (by decide)
  · exact hputs

/-- Four bytes at the last position for them: the sum wraps to 0, and they are written far outside the buffer. -/
theorem set_unsound :
    (Buf.set 4 (.fixed .uint32) ⟨[1, 2, 3, 4], rfl⟩ (fun _ => 0) 4294967292).ret = 4 ∧
    (Buf.set 4 (.fixed .uint32) ⟨[1, 2, 3, 4], rfl⟩ (fun _ => 0) 4294967292).writes = [(4294967292, 4)] ∧
    ¬(Declines (fun _ => 0) (Buf.set 4 (.fixed .uint32) ⟨[1, 2, 3, 4], rfl⟩ (fun _ => 0) 4294967292) ∨
      (4294967292 + (Ty.enc (.fixed .uint32) ⟨[1, 2, 3, 4], rfl⟩).length ≤ 4 ∧
        Puts (fun _ => 0) 4294967292 (Buf.set 4 (.fixed .uint32) ⟨[1, 2, 3, 4], rfl⟩ (fun _ => 0) 4294967292)
          (Ty.enc (.fixed .uint32) ⟨[1, 2, 3, 4], rfl⟩))) := by
  have hret : (Buf.set 4 (.fixed .uint32) ⟨[1, 2, 3, 4], rfl⟩ (fun _ => 0) 4294967292).ret = 4 := by decide
  refine ⟨hret, by decide, ?_⟩
  rintro (h | ⟨h, _⟩)
  · rw [h.ret] at hret
    cases hret
  · exact absurd h (by decide)

end Ven
