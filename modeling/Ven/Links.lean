import Mathlib.Data.List.Nodup
import Mathlib.Logic.Function.Basic

namespace Links

variable {ν : Type*} {next next' : ν → Option ν} {a b : Option ν} {l k : List ν}

/-- Following `next` from `a` comes to the nodes of `l` one after the other, and then to null. -/
def Spells (next : ν → Option ν) : Option ν → List ν → Prop
  | a, [] => a = none
  | a, x :: l => a = some x ∧ Spells next (next x) l

theorem Spells.head (h : Spells next a l) : l.head? = a := by
  cases l with
  | nil => exact h.symm
  | cons x l => exact h.1.symm

theorem Spells.unique (h : Spells next a l) (h' : Spells next a k) : l = k := by
  induction l generalizing a k with
  | nil =>
    cases k with
    | nil => rfl
    | cons y k => cases h.symm.trans h'.1
  | cons x l ih =>
    cases k with
    | nil => cases h.1.symm.trans h'
    | cons y k =>
      cases Option.some.inj (h.1.symm.trans h'.1)
      exact congrArg (x :: ·) (ih h.2 h'.2)

/-- Stores to other nodes change nothing. -/
theorem Spells.congr (same : ∀ x ∈ l, next' x = next x) (h : Spells next a l) : Spells next' a l := by
  induction l generalizing a with
  | nil => exact h
  | cons x l ih =>
    refine ⟨h.1, ?_⟩
    rw [same x List.mem_cons_self]
    exact ih (fun y hy => same y (List.mem_cons_of_mem x hy)) h.2

theorem Spells.update [DecidableEq ν] {x : ν} (hx : x ∉ l) (v : Option ν) (h : Spells next a l) :
    Spells (Function.update next x v) a l :=
  h.congr fun y hy => Function.update_of_ne (fun he : y = x => hx (he ▸ hy)) _ _

theorem Spells.split {x : ν} (h : Spells next a l) (hx : x ∈ l) :
    ∃ before after, l = before ++ after ∧ Spells next (some x) after := by
  induction l generalizing a with
  | nil => cases hx
  | cons y l ih =>
    rcases List.mem_cons.mp hx with rfl | hx
    · exact ⟨[], x :: l, rfl, rfl, h.2⟩
    · obtain ⟨before, after, hl, hafter⟩ := ih h.2 hx
      exact ⟨y :: before, after, congrArg (y :: ·) hl, hafter⟩

/-- Two chains with the same nodes start at the same one. -/
theorem Spells.start_eq (hnodup : l.Nodup) (h : Spells next a l) (h' : Spells next b k)
    (same : ∀ x, x ∈ k ↔ x ∈ l) : b = a := by
  cases b with
  | none =>
    cases l with
    | nil => exact h.symm
    | cons y l =>
      cases k with
      | nil => exact absurd ((same y).mpr List.mem_cons_self) List.not_mem_nil
      | cons x k => cases h'.1
  | some x =>
    have hx : x ∈ l := by
      cases k with
      | nil => cases h'
      | cons y k =>
        cases Option.some.inj h'.1
        exact (same x).mp List.mem_cons_self
    obtain ⟨before, after, rfl, hafter⟩ := h.split hx
    cases h'.unique hafter
    cases before with
    | nil => exact hafter.head.symm.trans h.head
    | cons y before =>
      have hy := (same y).mpr List.mem_cons_self
      exact absurd hy (List.disjoint_of_nodup_append hnodup List.mem_cons_self)

theorem Spells.last_null {e : ν} (h : Spells next a l) (he : l.getLast? = some e) : next e = none := by
  induction l generalizing a with
  | nil => cases he
  | cons x l ih =>
    cases l with
    | nil =>
      cases Option.some.inj he
      exact h.2
    | cons y l =>
      rw [List.getLast?_cons_cons] at he
      exact ih h.2 he

/-- Behind its last node a chain is joined to another one by one store. -/
theorem Spells.join [DecidableEq ν] {e : ν} (hnodup : l.Nodup) (he : l.getLast? = some e) (h : Spells next a l)
    (h' : Spells (Function.update next e b) b k) : Spells (Function.update next e b) a (l ++ k) := by
  induction l generalizing a with
  | nil => cases he
  | cons x l ih =>
    refine ⟨h.1, ?_⟩
    cases l with
    | nil =>
      obtain rfl : x = e := Option.some.inj he
      change Spells (Function.update next x b) (Function.update next x b x) k
      rw [Function.update_self]
      exact h'
    | cons y l =>
      have hlast : (y :: l).getLast? = some e := by rwa [List.getLast?_cons_cons] at he
      have hne : x ≠ e := fun hxe => (List.nodup_cons.mp hnodup).1 (hxe ▸ List.mem_of_getLast? hlast)
      rw [Function.update_of_ne hne]
      exact ih (List.nodup_cons.mp hnodup).2 hlast h.2

/-- A store of null behind a node cuts the chain there. -/
theorem Spells.cut [DecidableEq ν] {e : ν} (hnodup : (l ++ k).Nodup) (he : l.getLast? = some e)
    (h : Spells next a (l ++ k)) :
    Spells (Function.update next e none) a l ∧ Spells (Function.update next e none) (next e) k := by
  induction l generalizing a with
  | nil => cases he
  | cons x l ih =>
    cases l with
    | nil =>
      obtain rfl : x = e := Option.some.inj he
      exact ⟨⟨h.1, Function.update_self _ _ _⟩, h.2.update (List.nodup_cons.mp hnodup).1 none⟩
    | cons y l =>
      have hlast : (y :: l).getLast? = some e := by rwa [List.getLast?_cons_cons] at he
      have hne : x ≠ e := fun hxe =>
        (List.nodup_cons.mp hnodup).1 (hxe ▸ List.mem_append_left k (List.mem_of_getLast? hlast))
      obtain ⟨hl, hk⟩ := ih (List.nodup_cons.mp hnodup).2 hlast h.2
      refine ⟨⟨h.1, ?_⟩, hk⟩
      rw [Function.update_of_ne hne]
      exact hl

end Links
