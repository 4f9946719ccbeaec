import Ven.SendHolders
import Ven.SBufSpec

namespace Ven

variable {α : Type}

namespace Sender

/-- The `SOV`s that are not free. -/
def busy (s : Sender α) : Multiset Nat :=
  (s.sbuf.sov.toList : Multiset Nat) + (s.out : Multiset Nat) + (s.away : Multiset Nat)

/-- Every `SOV` has one owner: the pool, `sov_`, another session, a thread or the kernel. -/
structure Owned (s : Sender α) : Prop where
  pool : s.pool.Ok s.busy
  holders : Holders s.thread s.inflight s.hand s.out
  room : ∀ id, s.sbuf.sov = some id → (s.pool.items id).length < s.pool.arrCnt
  popCnt : s.sbuf.popCnt = s.out.length
  usable : s.sbuf.pool = s.sbuf.sov.isSome
  none_out : s.sbuf.sov = none → s.out = []
  filled : ∀ id ∈ s.hand, s.pool.items id ≠ []
  cleared : ∀ t id err, s.thread t = .cleared id err → s.pool.items id = []

variable {s : Sender α}

theorem mem_busy {id : Nat} : id ∈ s.busy ↔ s.sbuf.sov = some id ∨ id ∈ s.out ∨ id ∈ s.away := by
  simp [busy]

theorem Owned.busy_nodup (h : Owned s) : s.busy.Nodup := (Multiset.nodup_add.mp h.pool.nodup).1

/-- The three kinds of owners outside the pool have nothing in common. -/
theorem Owned.apart (h : Owned s) (id : Nat) :
    (s.sbuf.sov = some id → id ∉ s.out ∧ id ∉ s.away) ∧ (id ∈ s.out → id ∉ s.away) := by
  have hn := h.busy_nodup
  rw [busy, Multiset.nodup_add, Multiset.nodup_add, Multiset.disjoint_left, Multiset.disjoint_left] at hn
  obtain ⟨⟨_, _, hcur⟩, _, hboth⟩ := hn
  constructor
  · intro hs
    have hmem : id ∈ (s.sbuf.sov.toList : Multiset Nat) := by
      simp [hs]
    exact ⟨hcur hmem, hboth (Multiset.mem_add.mpr (Or.inl hmem))⟩
  · intro ho
    exact hboth (Multiset.mem_add.mpr (Or.inr ho))

/-- What the `s_lock_` section of `send` does: the `Buf` is appended to the current `SOV`, and this is
popped and replaced unless something is being sent already and there is room left. -/
theorem Owned.lock_cases (h : Owned s) {cur : Nat} (hs : s.sbuf.sov = some cur) (t : Nat) (buf : Option α) :
    (∃ pool, s.lock t buf = { s.goto t .idle with pool := pool, accepted := s.accepted ++ buf.toList } ∧
      pool.Ok s.busy ∧ pool.items cur = s.pool.items cur ++ buf.toList ∧
      (∀ k, k ≠ cur → pool.items k = s.pool.items k) ∧ pool.arrCnt = s.pool.arrCnt ∧
      (pool.items cur = [] ∨ 0 < s.sbuf.popCnt ∧ (pool.items cur).length < pool.arrCnt)) ∨
    ∃ new pool, s.lock t buf = { s.goto t (.popped cur) with
        sbuf := { s.sbuf with sov := some new, popCnt := s.sbuf.popCnt + 1 }
        pool := pool
        accepted := s.accepted ++ buf.toList
        hand := s.hand ++ [cur]
        out := cur :: s.out } ∧
      pool.Ok (new ::ₘ s.busy) ∧ pool.items cur = s.pool.items cur ++ buf.toList ∧ pool.items cur ≠ [] ∧
      pool.items new = [] ∧ (∀ k ∈ s.busy, k ≠ cur → pool.items k = s.pool.items k) ∧
      pool.arrCnt = s.pool.arrCnt := by
  have hcur : cur ∈ s.busy := mem_busy.mpr (Or.inl hs)
  have husable : s.sbuf.pool = true := by
    rw [h.usable, hs]
    rfl
  have hroom := h.room cur hs
  obtain ⟨p, hp, hok, hitems, hother, harr⟩ := SBuf.push_spec h.pool hs hcur hroom buf
  have hle : (p.items cur).length ≤ p.arrCnt := by
    have hbuf : buf.toList.length ≤ 1 := by
      cases buf with
      | none => exact Nat.zero_le 1
      | some x => exact Nat.le_refl 1
    rw [hitems, harr, List.length_append]
    omega
  unfold Sender.lock
  rw [hp]
  dsimp only
  rcases SBuf.pop_spec hok hs hcur husable hle with ⟨hpop, hstay⟩ | ⟨new, q, hpop, hne, hok', hnew, same⟩
  · left
    rw [hpop]
    exact ⟨p, rfl, hok, hitems, hother, harr, hstay⟩
  · right
    rw [hpop]
    refine ⟨new, q, rfl, hok', ?_, ?_, hnew, fun k hk hne => ?_, same.1.trans harr⟩
    · rw [same.2 cur hcur, hitems]
    · rw [same.2 cur hcur]
      exact hne
    · rw [same.2 k hk, hother k hne]

theorem cleared_of_update {thread : Nat → SendPC α} {t u id err : Nat} {pc : SendPC α}
    (hpc : ∀ id err, pc ≠ .cleared id err) (hu : Function.update thread t pc u = .cleared id err) :
    thread u = .cleared id err := by
  by_cases hut : u = t
  · subst hut
    rw [Function.update_self] at hu
    exact absurd hu (hpc id err)
  · rwa [Function.update_of_ne hut] at hu

/-- A step that leaves the pool, `sov_` and the lists alone, with a thread that has nothing in its
hands before and after. -/
theorem Owned.goto (h : Owned s) {t : Nat} {pc : SendPC α} (hsov : (s.thread t).sov = none) (hpc : pc.sov = none) :
    Owned (s.goto t pc) := by
  have hp : ∀ id, s.thread t ≠ .popped id := by
    intro id hid
    rw [hid] at hsov
    cases hsov
  have hp' : ∀ id, pc ≠ .popped id := by
    intro id hid
    rw [hid] at hpc
    cases hpc
  have hc : ∀ id err, pc ≠ .cleared id err := by
    intro id err hid
    rw [hid] at hpc
    cases hpc
  exact ⟨h.pool, h.holders.move (hpc.trans hsov.symm) hp hp', h.room, h.popCnt, h.usable, h.none_out, h.filled,
    fun u id err hu => h.cleared u id err (cleared_of_update hc hu)⟩

theorem Owned.lock (h : Owned s) {cur : Nat} (hs : s.sbuf.sov = some cur) {t : Nat} {buf : Option α} {resumed : Bool}
    (hpc : s.thread t = .entered buf resumed) : Owned (s.lock t buf) ∧ (s.lock t buf).crashed = s.crashed := by
  have hsov : (s.thread t).sov = none := by
    rw [hpc]
    rfl
  rcases h.lock_cases hs t buf with ⟨p, hl, hok, hitems, hother, harr, hstay⟩ |
    ⟨new, p, hl, hok, hitems, hne, hnew, hother, harr⟩
  · rw [hl]
    have hg := h.goto hsov (rfl : (SendPC.idle : SendPC α).sov = none)
    have hroom := h.room cur hs
    have hapart := (h.apart cur).1 hs
    have out_ne : ∀ id ∈ s.out, id ≠ cur := by
      intro id hid hic
      subst hic
      exact hapart.1 hid
    refine ⟨⟨hok, hg.holders, fun id hid => ?_, h.popCnt, h.usable, h.none_out, fun id hid => ?_,
      fun u id err hu => ?_⟩, rfl⟩
    · change s.sbuf.sov = some id at hid
      rw [hs] at hid
      cases Option.some.inj hid
      have harr' := h.pool.room
      rcases hstay with hnil | ⟨_, hlt⟩
      · rw [hnil, harr]
        exact harr'
      · exact hlt
    · obtain ⟨u, hu⟩ := (h.holders.inHand id).mp hid
      have hout := (h.holders.held u id (Holders.popped_sov hu)).1
      rw [hother id (out_ne id hout)]
      exact h.filled id hid
    · have hcl := hg.cleared u id err hu
      have hu' : (((s.goto t .idle).thread) u).sov = some id := by
        rw [show (s.goto t .idle).thread u = .cleared id err from hu]
        rfl
      have hout := (hg.holders.held u id hu').1
      rw [hother id (out_ne id hout)]
      exact hcl
  · rw [hl]
    have hnot : cur ∉ s.out := ((h.apart cur).1 hs).1
    have hcount : new ∉ s.busy := (Multiset.nodup_cons.mp (Multiset.nodup_add.mp hok.nodup).1).1
    have hfresh : ∀ id ∈ s.out, id ∈ s.busy := fun id hid => mem_busy.mpr (Or.inr (Or.inl hid))
    have out_ne : ∀ id ∈ s.out, id ≠ cur := by
      intro id hid hic
      subst hic
      exact hnot hid
    refine ⟨⟨?_, h.holders.pop hsov hnot, fun id hid => ?_, ?_, ?_, fun hn => (by cases hn), fun id hid => ?_,
      fun u id err hu => ?_⟩, rfl⟩
    · have hbusy : new ::ₘ s.busy = ((new :: (cur :: s.out) : List Nat) : Multiset Nat) + (s.away : Multiset Nat) := by
        rw [busy, hs]
        rfl
      rw [hbusy] at hok
      exact hok
    · cases Option.some.inj hid
      change (p.items new).length < p.arrCnt
      rw [hnew]
      exact hok.room
    · change s.sbuf.popCnt + 1 = (cur :: s.out).length
      rw [h.popCnt]
      rfl
    · change s.sbuf.pool = true
      rw [h.usable, hs]
      rfl
    · rcases List.mem_append.mp hid with hid | hid
      · obtain ⟨u, hu⟩ := (h.holders.inHand id).mp hid
        have hout := (h.holders.held u id (Holders.popped_sov hu)).1
        change p.items id ≠ []
        rw [hother id (hfresh id hout) (out_ne id hout)]
        exact h.filled id hid
      · cases List.mem_singleton.mp hid
        exact hne
    · have hu' := cleared_of_update (fun id err hid => (by cases hid)) hu
      have hout : id ∈ s.out := (h.holders.held u id (by rw [hu']; rfl)).1
      change p.items id = []
      rw [hother id (hfresh id hout) (out_ne id hout)]
      exact h.cleared u id err hu'

end Sender

end Ven
