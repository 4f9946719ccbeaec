import Ven.SendWakeups
import Ven.SendOrder

namespace Ven

variable {α : Type}

/-- What the threads and the kernel do without being called. -/
def SendOp.Internal : SendOp α → Prop
  | .lock _ | .wsaSend _ none | .complete _ _ 0 | .clear _ | .pushBack _ | .check _ | .resume _ | .leave _ => True
  | _ => False

/-- The turn of a thread in a step: where it stood and where it goes, what is accepted, and what becomes of the `SOV`s
that are out and of those in the kernel. -/
inductive SendTurn (t : Nat) : SendOp α → SendPC α → SendPC α → List α → (List Nat → List Nat) → (List Nat → List Nat) → Prop
  | call (buf : Option α) : SendTurn t (.call t buf) .idle (.entered buf false) [] id id
  | stay (buf : Option α) (resumed : Bool) : SendTurn t (.lock t) (.entered buf resumed) .idle buf.toList id id
  | pop (buf : Option α) (resumed : Bool) (sov : Nat) :
      SendTurn t (.lock t) (.entered buf resumed) (.popped sov) buf.toList (sov :: ·) id
  | submit (sov : Nat) : SendTurn t (.wsaSend t none) (.popped sov) .idle [] id (sov :: ·)
  | fail (sov err : Nat) : SendTurn t (.wsaSend t (some err)) (.popped sov) (.ended sov err) [] id id
  | complete (sov err : Nat) : SendTurn t (.complete t sov err) .idle (.ended sov err) [] id (·.erase sov)
  | clear (sov err : Nat) : SendTurn t (.clear t) (.ended sov err) (.cleared sov err) [] id id
  | pushBack (sov err : Nat) (hasToSend : Bool) :
      SendTurn t (.pushBack t) (.cleared sov err) (.pushed err hasToSend) [] (·.erase sov) id
  | check (err : Nat) (hasToSend : Bool) {pc : SendPC α} (hpc : pc = .leaving err ∨ pc = .resuming ∨ pc = .idle) :
      SendTurn t (.check t) (.pushed err hasToSend) pc [] id id
  | resume {pc : SendPC α} (hpc : pc = .entered none true ∨ pc = .idle) : SendTurn t (.resume t) .resuming pc [] id id
  | leave (err : Nat) : SendTurn t (.leave t) (.leaving err) .idle [] id id

/-- What a thread lets go of in its turn is in the kernel then, or not out any more. -/
theorem SendTurn.covers {t : Nat} {op : SendOp α} {pc pc' : SendPC α} {added : List α} {out inflight : List Nat → List Nat}
    (turn : SendTurn t op pc pc' added out inflight) {o i : List Nat} (honce : o.Nodup) {sov : Nat} (hout : sov ∈ out o) :
    pc'.sov = some sov ∨ sov ∈ o ∧ (sov ∈ i → sov ∈ inflight i) ∧ (pc.sov = some sov → sov ∈ inflight i) := by
  cases turn with
  | call | stay | resume => exact Or.inr ⟨hout, fun hi => hi, nofun⟩
  | leave | check => exact Or.inr ⟨hout, fun hi => hi, nofun⟩
  | pop buf resumed cur =>
    rcases List.mem_cons.mp hout with rfl | hold
    · exact Or.inl rfl
    · exact Or.inr ⟨hold, fun hi => hi, nofun⟩
  | submit id =>
    refine Or.inr ⟨hout, fun hi => List.mem_cons_of_mem _ hi, fun hsov => ?_⟩
    cases Option.some.inj hsov
    exact List.mem_cons_self
  | fail id err | clear id err =>
    by_cases hid : id = sov
    · exact Or.inl (by rw [hid]; rfl)
    · exact Or.inr ⟨hout, fun hi => hi, fun hsov => absurd (Option.some.inj hsov) hid⟩
  | complete id err =>
    by_cases hid : id = sov
    · exact Or.inl (by rw [hid]; rfl)
    · exact Or.inr ⟨hout, fun hi => (List.mem_erase_of_ne (Ne.symm hid)).mpr hi, nofun⟩
  | pushBack id err hasToSend =>
    obtain ⟨hne, hold⟩ := honce.mem_erase_iff.mp hout
    exact Or.inr ⟨hold, fun hi => hi, fun hsov => absurd (Option.some.inj hsov).symm hne⟩

namespace Sender

variable {s s' : Sender α}

/-- Neither the threads nor what they have accepted or popped are touched. -/
structure SameTurns (s : Sender α) (op : SendOp α) (s' : Sender α) : Prop where
  thread : s'.thread = s.thread
  accepted : s'.accepted = s.accepted
  out : s'.out = s.out
  inflight : s'.inflight = s.inflight
  stays : s'.isConnected = true → s.isConnected = true ∨ ∃ actor, op = .conn actor

/-- One thread takes its turn. -/
structure Turned (s : Sender α) (op : SendOp α) (s' : Sender α) (t : Nat) (pc : SendPC α) (added : List α)
    (out inflight : List Nat → List Nat) : Prop where
  turn : SendTurn t op (s.thread t) pc added out inflight
  thread : s'.thread = Function.update s.thread t pc
  accepted : s'.accepted = s.accepted ++ added
  out : s'.out = out s.out
  inflight : s'.inflight = inflight s.inflight
  stays : s'.isConnected = true → s.isConnected = true

theorem Turned.silent {op : SendOp α} {t : Nat} {pc pc' : SendPC α} (hpc : s.thread t = pc)
    (turn : SendTurn t op pc pc' [] id id) (hthread : s'.thread = Function.update s.thread t pc')
    (hacc : s'.accepted = s.accepted) (hout : s'.out = s.out) (hin : s'.inflight = s.inflight)
    (stays : s'.isConnected = true → s.isConnected = true) : Turned s op s' t pc' [] id id :=
  ⟨by rw [hpc]; exact turn, hthread, by rw [hacc, List.append_nil], hout, hin, stays⟩

theorem Ready.turned_lock (h : Ready s) {t : Nat} {buf : Option α} {resumed : Bool}
    (hpc : s.thread t = .entered buf resumed) :
    ∃ pc added out inflight, Turned s (.lock t) (s.lock t buf) t pc added out inflight := by
  obtain ⟨cur, hcur⟩ := h.sov_some (t := t) (by rw [hpc]; exact nofun)
  rcases h.owned.lock_cases hcur t buf with ⟨p, hl, _⟩ | ⟨new, p, hl, _⟩
  · rw [hl]
    exact ⟨.idle, buf.toList, id, id, by rw [hpc]; exact .stay buf resumed, rfl, rfl, rfl, rfl, fun hc => hc⟩
  · rw [hl]
    exact ⟨.popped cur, buf.toList, (cur :: ·), id, by rw [hpc]; exact .pop buf resumed cur, rfl, rfl, rfl, rfl,
      fun hc => hc⟩

/-- Every step is the turn of one thread, or nobody's. -/
theorem Ready.turned (h : Ready s) {op : SendOp α} (hs : s.step op = some s') :
    SameTurns s op s' ∨ ∃ t pc added out inflight, Turned s op s' t pc added out inflight := by
  cases Move.of_step hs with
  | @enter t buf idle on => exact Or.inr ⟨t, _, _, _, _, .silent idle (.call buf) rfl rfl rfl rfl fun hc => hc⟩
  | refuse => exact Or.inl ⟨rfl, rfl, rfl, rfl, Or.inl⟩
  | @lock t _ _ entered => exact Or.inr ⟨t, h.turned_lock entered⟩
  | @wsaSend t sov fail popped =>
    cases fail with
    | none =>
      exact Or.inr ⟨t, .idle, [], id, (sov :: ·), by rw [popped]; exact .submit sov, rfl, (List.append_nil _).symm, rfl,
        rfl, fun hc => hc⟩
    | some err => exact Or.inr ⟨t, _, _, _, _, .silent popped (.fail sov err) rfl rfl rfl rfl fun hc => hc⟩
  | @complete t sov err idle =>
    exact Or.inr ⟨t, .ended sov err, [], id, (·.erase sov), by rw [idle]; exact .complete sov err, rfl,
      (List.append_nil _).symm, rfl, rfl, fun hc => hc⟩
  | @clear t sov err ended =>
    exact Or.inr ⟨t, _, _, _, _, .silent ended (.clear sov err) rfl rfl rfl rfl fun hc => hc⟩
  | @pushBack t sov err cleared =>
    obtain ⟨hasToSend, cur, hl, _⟩ := h.owned.pushBack_cases cleared
    rw [hl]
    exact Or.inr ⟨t, .pushed err hasToSend, [], (·.erase sov), id, by rw [cleared]; exact .pushBack sov err hasToSend, rfl,
      (List.append_nil _).symm, rfl, rfl, fun hc => hc⟩
  | @stop t err hasToSend pushed =>
    exact Or.inr ⟨t, _, _, _, _, .silent pushed (.check err hasToSend (Or.inl rfl)) rfl rfl rfl rfl fun hc => hc⟩
  | @wake t pushed =>
    exact Or.inr ⟨t, _, _, _, _, .silent pushed (.check 0 true (Or.inr (Or.inl rfl))) rfl rfl rfl rfl fun hc => hc⟩
  | @rest t pushed =>
    exact Or.inr ⟨t, _, _, _, _, .silent pushed (.check 0 false (Or.inr (Or.inr rfl))) rfl rfl rfl rfl fun hc => hc⟩
  | @resume t resuming =>
    exact Or.inr ⟨t, _, _, _, _, .silent resuming (.resume (Or.inl rfl)) rfl rfl rfl rfl fun hc => hc⟩
  | @giveUp t resuming =>
    exact Or.inr ⟨t, _, _, _, _, .silent resuming (.resume (Or.inr rfl)) rfl rfl rfl rfl fun hc => hc⟩
  | @leave t err leaving =>
    exact Or.inr ⟨t, _, _, _, _, .silent leaving (.leave err) rfl rfl rfl rfl (by intro hc; cases hc)⟩
  | @conn actor => exact Or.inl ⟨rfl, rfl, rfl, rfl, fun _ => Or.inr ⟨actor, rfl⟩⟩
  | @connFails actor => exact Or.inl ⟨rfl, rfl, rfl, rfl, Or.inl⟩
  | disconnect => exact Or.inl ⟨rfl, rfl, rfl, rfl, by intro hc; cases hc⟩
  | otherPop => exact Or.inl ⟨rfl, rfl, rfl, rfl, Or.inl⟩
  | otherFill => exact Or.inl ⟨rfl, rfl, rfl, rfl, Or.inl⟩
  | otherPush => exact Or.inl ⟨rfl, rfl, rfl, rfl, Or.inl⟩

/-- Each `SOV` that is out is in the kernel or in the hands of a thread. -/
def Covered (s : Sender α) : Prop := ∀ id ∈ s.out, id ∈ s.inflight ∨ ∃ t, (s.thread t).sov = some id

theorem Ready.covered (h : Ready s) (c : Covered s) {op : SendOp α} (hs : s.step op = some s') : Covered s' := by
  intro sov hout
  rcases h.turned hs with same | ⟨t, pc, added, out, inflight, turned⟩
  · rw [same.out] at hout
    rw [same.thread, same.inflight]
    exact c sov hout
  · rw [turned.out] at hout
    rw [turned.thread, turned.inflight]
    rcases turned.turn.covers (i := s.inflight) h.owned.holders.outOnce hout with hpc | ⟨hold, hstay, hlet⟩
    · exact Or.inr ⟨t, by rw [Function.update_self]; exact hpc⟩
    · rcases c sov hold with hin | ⟨u, hu⟩
      · exact Or.inl (hstay hin)
      · by_cases hut : u = t
        · rw [hut] at hu
          exact Or.inl (hlet hu)
        · exact Or.inr ⟨u, by rw [Function.update_of_ne hut]; exact hu⟩

/-- All that was accepted, or is about to be, has the property `Q`. -/
structure Carries (Q : α → Prop) (s : Sender α) : Prop where
  accepted : ∀ buf ∈ s.accepted, Q buf
  entered : ∀ t buf resumed, s.thread t = .entered (some buf) resumed → Q buf

/-- What is accepted was passed to `send`. -/
theorem Ready.carries (h : Ready s) {Q : α → Prop} (c : Carries Q s) {op : SendOp α}
    (hop : ∀ t buf, op = .call t (some buf) → Q buf) (hs : s.step op = some s') : Carries Q s' := by
  rcases h.turned hs with same | ⟨t, pc, added, out, inflight, turned⟩
  · exact ⟨fun buf hbuf => c.accepted buf (same.accepted ▸ hbuf),
      fun t buf resumed ht => c.entered t buf resumed (same.thread ▸ ht)⟩
  · have hturn := turned.turn
    refine ⟨fun buf hbuf => ?_, fun u buf resumed hu => ?_⟩
    · rw [turned.accepted] at hbuf
      rcases List.mem_append.mp hbuf with hold | hnew
      · exact c.accepted buf hold
      · generalize hpc : s.thread t = before at hturn
        cases hturn with
        | stay b r | pop b r =>
          have hb : b = some buf := Option.mem_toList.mp hnew
          exact c.entered t buf r (by rw [hpc, hb])
        | _ => cases hnew
    · rw [turned.thread] at hu
      by_cases hut : u = t
      · rw [hut, Function.update_self] at hu
        subst hu
        generalize s.thread t = before at hturn
        cases hturn with
        | call => exact hop t buf rfl
        | check _ _ hcase => rcases hcase with hcase | hcase | hcase <;> cases hcase
        | resume hcase => rcases hcase with hcase | hcase <;> cases hcase
      · rw [Function.update_of_ne hut] at hu
        exact c.entered u buf resumed hu

/-- No thread is inside `send` or `_on_send`, and the kernel holds nothing. -/
def Idle (s : Sender α) : Prop := (∀ t, s.thread t = .idle) ∧ s.inflight = []

/-- Where something is left to do, a thread or the kernel can go on. -/
theorem exists_internal (hbusy : ¬Idle s) : ∃ op : SendOp α, op.Internal ∧ (s.step op).isSome = true := by
  by_cases hthreads : ∀ t, s.thread t = .idle
  · have hfly : s.inflight ≠ [] := fun hnil => hbusy ⟨hthreads, hnil⟩
    obtain ⟨id, hid⟩ := List.exists_mem_of_ne_nil _ hfly
    exact ⟨.complete 0 id 0, trivial, by simp only [Sender.step, hthreads 0, if_pos hid, Option.isSome_some]⟩
  · obtain ⟨t, ht⟩ := not_forall.mp hthreads
    cases hpc : s.thread t with
    | idle => exact absurd hpc ht
    | entered buf resumed => exact ⟨.lock t, trivial, by simp only [Sender.step, hpc, Option.isSome_some]⟩
    | popped sov => exact ⟨.wsaSend t none, trivial, by simp only [Sender.step, hpc, Option.isSome_some]⟩
    | ended sov err => exact ⟨.clear t, trivial, by simp only [Sender.step, hpc, Option.isSome_some]⟩
    | cleared sov err => exact ⟨.pushBack t, trivial, by simp only [Sender.step, hpc, Option.isSome_some]⟩
    | pushed err hasToSend => exact ⟨.check t, trivial, by simp only [Sender.step, hpc, Option.isSome_some]⟩
    | resuming => exact ⟨.resume t, trivial, by simp only [Sender.step, hpc, Option.isSome_some]⟩
    | leaving err => exact ⟨.leave t, trivial, by simp only [Sender.step, hpc, Option.isSome_some]⟩

/-- A session at rest that is still connected has submitted everything it accepted. -/
theorem Ready.drained (h : Ready s) (w : Woken s) (c : Covered s) (a : InOrder s) (hidle : Idle s)
    (hconn : s.isConnected = true) : s.accepted = s.handed.flatten := by
  obtain ⟨hthreads, hfly⟩ := hidle
  have hout : s.out = [] := by
    rw [List.eq_nil_iff_forall_not_mem]
    intro id hid
    rcases c id hid with hin | ⟨t, ht⟩
    · rw [hfly] at hin
      cases hin
    · rw [hthreads t] at ht
      cases ht
  have hzero : s.sbuf.popCnt = 0 := by
    rw [h.owned.popCnt, hout]
    rfl
  have hhand : s.hand = [] := by
    rw [List.eq_nil_iff_forall_not_mem]
    intro id hid
    obtain ⟨t, ht⟩ := (h.owned.holders.inHand id).mp hid
    rw [hthreads t] at ht
    cases ht
  have hcur : s.current = [] := by
    by_contra hne
    obtain ⟨t, ht⟩ := w hconn hzero hne
    rw [hthreads t] at ht
    cases ht
  have hpend : s.pending = [] := by
    rw [pending, hhand, hcur]
    rfl
  have hall : s.accepted = s.handed.flatten ++ s.pending := a
  rwa [hpend, List.append_nil] at hall

end Sender

end Ven
