import Ven.SendPath
import Mathlib.Data.List.Nodup

namespace Ven

variable {α : Type}

/-- The `SOV` a thread has in its hands. -/
def SendPC.sov : SendPC α → Option Nat
  | .popped sov => some sov
  | .ended sov _ => some sov
  | .cleared sov _ => some sov
  | _ => none

/-- Each of the `SOV`s in `out` is in the hands of one thread or in the kernel, and `hand` are those
that were popped and not submitted yet. -/
structure Holders (thread : Nat → SendPC α) (inflight hand out : List Nat) : Prop where
  held : ∀ t id, (thread t).sov = some id → id ∈ out ∧ id ∉ inflight
  alone : ∀ t u id, (thread t).sov = some id → (thread u).sov = some id → t = u
  flying : ∀ id ∈ inflight, id ∈ out
  once : inflight.Nodup
  inHand : ∀ id, id ∈ hand ↔ ∃ t, thread t = .popped id
  handOnce : hand.Nodup
  outOnce : out.Nodup

namespace Holders

variable {thread : Nat → SendPC α} {inflight hand out : List Nat} {t : Nat}

theorem sov_update (thread : Nat → SendPC α) (t u : Nat) (pc : SendPC α) :
    (Function.update thread t pc u).sov = if u = t then pc.sov else (thread u).sov := by
  by_cases h : u = t
  · subst h
    simp
  · simp [h]

theorem popped_sov {thread : Nat → SendPC α} {t id : Nat} (h : thread t = .popped id) :
    (thread t).sov = some id := by
  rw [h]
  rfl

/-- `hand` stays as it is where no submission is begun or made. -/
theorem inHand_update (h : Holders thread inflight hand out) {pc : SendPC α} (hp : ∀ id, thread t ≠ .popped id)
    (hp' : ∀ id, pc ≠ .popped id) (id : Nat) : id ∈ hand ↔ ∃ u, Function.update thread t pc u = .popped id := by
  rw [h.inHand id]
  constructor
  · intro ⟨u, hu⟩
    have hne : u ≠ t := by
      intro hut
      subst hut
      exact hp id hu
    exact ⟨u, by rw [Function.update_of_ne hne]; exact hu⟩
  · intro ⟨u, hu⟩
    by_cases hut : u = t
    · subst hut
      rw [Function.update_self] at hu
      exact absurd hu (hp' id)
    · rw [Function.update_of_ne hut] at hu
      exact ⟨u, hu⟩

/-- A thread moves on with what it has in its hands, and submits nothing. -/
theorem move (h : Holders thread inflight hand out) {pc : SendPC α} (hsov : pc.sov = (thread t).sov)
    (hp : ∀ id, thread t ≠ .popped id) (hp' : ∀ id, pc ≠ .popped id) :
    Holders (Function.update thread t pc) inflight hand out := by
  have same : ∀ u, (Function.update thread t pc u).sov = (thread u).sov := by
    intro u
    rw [sov_update]
    by_cases hu : u = t
    · rw [if_pos hu, hu, hsov]
    · rw [if_neg hu]
  refine ⟨fun u id hid => ?_, fun u v id hu hv => ?_, h.flying, h.once, h.inHand_update hp hp', h.handOnce, h.outOnce⟩
  · rw [same] at hid
    exact h.held u id hid
  · rw [same] at hu hv
    exact h.alone u v id hu hv

/-- A thread with empty hands pops an `SOV` that nobody has. -/
theorem pop (h : Holders thread inflight hand out) (hsov : (thread t).sov = none) {id : Nat} (hid : id ∉ out) :
    Holders (Function.update thread t (.popped id)) inflight (hand ++ [id]) (id :: out) := by
  have hpop : ∀ u, (Function.update thread t (.popped id) u).sov = if u = t then some id else (thread u).sov :=
    fun u => sov_update thread t u (.popped id)
  have hnot : id ∉ hand := by
    intro hin
    obtain ⟨u, hu⟩ := (h.inHand id).mp hin
    exact hid (h.held u id (popped_sov hu)).1
  refine ⟨fun u k hk => ?_, fun u v k hu hv => ?_, fun k hk => List.mem_cons_of_mem _ (h.flying k hk), h.once,
    fun k => ?_, ?_, List.nodup_cons.mpr ⟨hid, h.outOnce⟩⟩
  · rw [hpop] at hk
    split at hk
    next =>
      cases Option.some.inj hk
      exact ⟨List.mem_cons_self, fun hf => hid (h.flying id hf)⟩
    next =>
      obtain ⟨hout, hfl⟩ := h.held u k hk
      exact ⟨List.mem_cons_of_mem _ hout, hfl⟩
  · rw [hpop] at hu hv
    split at hu
    next hut =>
      cases Option.some.inj hu
      split at hv
      next hvt => rw [hut, hvt]
      next => exact absurd (h.held v id hv).1 hid
    next =>
      split at hv
      next =>
        cases Option.some.inj hv
        exact absurd (h.held u id hu).1 hid
      next => exact h.alone u v k hu hv
  · rw [List.mem_append, List.mem_singleton, h.inHand k]
    constructor
    · rintro (⟨u, hu⟩ | rfl)
      · have hne : u ≠ t := by
          intro hut
          subst hut
          rw [popped_sov hu] at hsov
          cases hsov
        exact ⟨u, by rw [Function.update_of_ne hne]; exact hu⟩
      · exact ⟨t, Function.update_self t _ thread⟩
    · rintro ⟨u, hu⟩
      by_cases hut : u = t
      · subst hut
        rw [Function.update_self] at hu
        cases hu
        exact Or.inr rfl
      · rw [Function.update_of_ne hut] at hu
        exact Or.inl ⟨u, hu⟩
  · exact List.nodup_append.mpr ⟨h.handOnce, List.nodup_singleton id, fun x hx y hy hxy => hnot (by
      rw [List.mem_singleton] at hy
      rw [← hy, ← hxy]
      exact hx)⟩

/-- `WSASend` fails at once: the thread goes on with the `SOV`. -/
theorem submitFail (h : Holders thread inflight hand out) {id : Nat} (hpc : thread t = .popped id) (err : Nat) :
    Holders (Function.update thread t (.ended id err)) inflight (hand.erase id) out := by
  have same : ∀ u, (Function.update thread t (.ended id err) u).sov = (thread u).sov := by
    intro u
    rw [sov_update]
    by_cases hu : u = t
    · rw [if_pos hu, hu, hpc]
      rfl
    · rw [if_neg hu]
  refine ⟨fun u k hk => ?_, fun u v k hu hv => ?_, h.flying, h.once, fun k => ?_, h.handOnce.erase id, h.outOnce⟩
  · rw [same] at hk
    exact h.held u k hk
  · rw [same] at hu hv
    exact h.alone u v k hu hv
  · rw [h.handOnce.mem_erase_iff, h.inHand k]
    constructor
    · rintro ⟨hne, u, hu⟩
      have hut : u ≠ t := by
        intro hut
        subst hut
        rw [hpc] at hu
        cases hu
        exact hne rfl
      exact ⟨u, by rw [Function.update_of_ne hut]; exact hu⟩
    · rintro ⟨u, hu⟩
      by_cases hut : u = t
      · subst hut
        rw [Function.update_self] at hu
        cases hu
      · rw [Function.update_of_ne hut] at hu
        refine ⟨?_, u, hu⟩
        intro hki
        subst hki
        exact hut (h.alone u t k (popped_sov hu) (popped_sov hpc))

/-- The kernel takes the `SOV` out of a thread's hands. -/
theorem lift (h : Holders thread inflight hand out) {id err : Nat} (hpc : thread t = .ended id err) :
    Holders (Function.update thread t .idle) (id :: inflight) hand out := by
  have hsov : (thread t).sov = some id := by
    rw [hpc]
    rfl
  have hp : ∀ id, thread t ≠ .popped id := by
    rw [hpc]
    exact fun _ h => by cases h
  have hidle : ∀ u, (Function.update thread t .idle u).sov = if u = t then none else (thread u).sov :=
    fun u => sov_update thread t u .idle
  refine ⟨fun u k hk => ?_, fun u v k hu hv => ?_, fun k hk => ?_, ?_, h.inHand_update hp (fun _ h => by cases h), h.handOnce, h.outOnce⟩
  · rw [hidle] at hk
    split at hk
    next => cases hk
    next hut =>
      obtain ⟨hout, hfl⟩ := h.held u k hk
      refine ⟨hout, fun hin => ?_⟩
      rcases List.mem_cons.mp hin with rfl | hin
      · exact hut (h.alone u t k hk hsov)
      · exact hfl hin
  · rw [hidle] at hu hv
    split at hu
    next => cases hu
    next =>
      split at hv
      next => cases hv
      next => exact h.alone u v k hu hv
  · rcases List.mem_cons.mp hk with rfl | hk
    · exact (h.held t k hsov).1
    · exact h.flying k hk
  · exact List.nodup_cons.mpr ⟨(h.held t id hsov).2, h.once⟩

/-- `WSASend` succeeds or pends. -/
theorem submit (h : Holders thread inflight hand out) {id : Nat} (hpc : thread t = .popped id) :
    Holders (Function.update thread t .idle) (id :: inflight) (hand.erase id) out := by
  have hfail := (h.submitFail hpc 0).lift (Function.update_self t _ thread)
  rwa [Function.update_idem] at hfail

/-- A thread with empty hands takes a completion out of the kernel. -/
theorem complete (h : Holders thread inflight hand out) (hpc : thread t = .idle) {id : Nat} (hid : id ∈ inflight)
    (err : Nat) : Holders (Function.update thread t (.ended id err)) (inflight.erase id) hand out := by
  have hp : ∀ id, thread t ≠ .popped id := by
    rw [hpc]
    exact fun _ h => by cases h
  have hend : ∀ u, (Function.update thread t (.ended id err) u).sov = if u = t then some id else (thread u).sov :=
    fun u => sov_update thread t u (.ended id err)
  have hnot : ∀ u, (thread u).sov ≠ some id := fun u hu => (h.held u id hu).2 hid
  refine ⟨fun u k hk => ?_, fun u v k hu hv => ?_, fun k hk => h.flying k (List.mem_of_mem_erase hk),
    h.once.erase id, h.inHand_update hp (fun _ h => by cases h), h.handOnce, h.outOnce⟩
  · rw [hend] at hk
    rw [h.once.mem_erase_iff]
    split at hk
    next =>
      cases Option.some.inj hk
      exact ⟨h.flying id hid, fun hin => hin.1 rfl⟩
    next =>
      obtain ⟨hout, hfl⟩ := h.held u k hk
      exact ⟨hout, fun hin => hfl hin.2⟩
  · rw [hend] at hu hv
    split at hu
    next hut =>
      cases Option.some.inj hu
      split at hv
      next hvt => rw [hut, hvt]
      next => exact absurd hv (hnot v)
    next =>
      split at hv
      next =>
        cases Option.some.inj hv
        exact absurd hu (hnot u)
      next => exact h.alone u v k hu hv

/-- A thread gives its `SOV` back. -/
theorem back (h : Holders thread inflight hand out) {id err : Nat} (hpc : thread t = .cleared id err)
    {pc : SendPC α} (hsov : pc.sov = none) :
    Holders (Function.update thread t pc) inflight hand (out.erase id) := by
  have hpc' : (thread t).sov = some id := by
    rw [hpc]
    rfl
  have hp : ∀ id, thread t ≠ .popped id := by
    rw [hpc]
    exact fun _ h => by cases h
  have hp' : ∀ id, pc ≠ .popped id := by
    intro id hpc'
    rw [hpc'] at hsov
    cases hsov
  have hback : ∀ u, (Function.update thread t pc u).sov = if u = t then none else (thread u).sov := by
    intro u
    rw [sov_update, hsov]
  refine ⟨fun u k hk => ?_, fun u v k hu hv => ?_, fun k hk => ?_, h.once, h.inHand_update hp hp',
    h.handOnce, h.outOnce.erase id⟩
  · rw [hback] at hk
    rw [h.outOnce.mem_erase_iff]
    split at hk
    next => cases hk
    next hut =>
      obtain ⟨hout, hfl⟩ := h.held u k hk
      refine ⟨⟨?_, hout⟩, hfl⟩
      intro hki
      subst hki
      exact hut (h.alone u t k hk hpc')
  · rw [hback] at hu hv
    split at hu
    next => cases hu
    next =>
      split at hv
      next => cases hv
      next => exact h.alone u v k hu hv
  · rw [h.outOnce.mem_erase_iff]
    refine ⟨?_, h.flying k hk⟩
    intro hki
    subst hki
    exact (h.held t k hpc').2 hk

end Holders

end Ven
