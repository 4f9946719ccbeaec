import Ven.SendDrain
import Ven.SendSizes
import Ven.SendNet

namespace Ven

variable {α : Type}

/-- What others do to the pool. -/
def SendOp.IsOther : SendOp α → Bool
  | .otherPop _ | .otherFill _ _ | .otherPush _ => true
  | _ => false

namespace SOVPool

variable {p q : SOVPool α}

theorem create_sovs (cnt : Nat) {k : Nat} (hk : k < p.totalCnt) : (p.create cnt).sovs k = p.sovs k := by
  induction cnt generalizing p with
  | zero => rfl
  | succ cnt ih =>
    have hone : (p.createOne).sovs k = p.sovs k := Function.update_of_ne (Nat.ne_of_lt hk) _ _
    have hlt : k < p.createOne.totalCnt := Nat.lt_succ_of_lt hk
    rw [create, ih hlt, hone]

theorem popFree_sovs {id : Option Nat} (h : p.popFree = (id, q)) : q.sovs = p.sovs := by
  unfold popFree at h
  split at h
  next =>
    cases h
    rfl
  next =>
    cases h
    rfl

theorem popFree_none (h : p.popFree = (none, q)) : q = p := by
  unfold popFree at h
  split at h
  next =>
    cases h
    rfl
  next => cases h

/-- `pop` leaves the `SOV`s alone that were there before. -/
theorem pop_sovs {id : Option Nat} (h : p.pop = (id, q)) {k : Nat} (hk : k < p.totalCnt) : q.sovs k = p.sovs k := by
  unfold pop at h
  split at h
  next hfree =>
    cases h
    rw [popFree_sovs hfree]
  next hfree =>
    rw [popFree_sovs h]
    have hnone : p = _ := (popFree_none hfree).symm
    rw [← hnone]
    exact create_sovs _ hk

theorem actor_setItems (p : SOVPool α) (id k : Nat) (items : List α) :
    ((p.setItems id items).sovs k).actor = (p.sovs k).actor := by
  by_cases hk : k = id
  · simp only [setItems, hk, Function.update_self]
  · simp only [setItems, Function.update_of_ne hk]

end SOVPool

theorem SBuf.alloc_actor {b : SBuf} {p q : SOVPool α} {new : Nat} (h : b.alloc p = some (new, q)) :
    (q.sovs new).actor = b.actor ∧ ∀ k, k < p.totalCnt → k ≠ new → q.sovs k = p.sovs k := by
  unfold alloc at h
  split at h
  next =>
    split at h
    next => cases h
    next hpop =>
      cases Option.some.inj h
      refine ⟨by simp only [Function.update_self], fun k hk hne => ?_⟩
      simp only [Function.update_of_ne hne]
      exact SOVPool.pop_sovs hpop hk
  next => cases h

/-- What the owner of some `SOV`s does to the pool and to what it owns: it fills one, takes one or gives one back. -/
inductive Touch (k : Nat) : SOVPool α × Multiset Nat → SOVPool α × Multiset Nat → Prop
  | fill {p : SOVPool α} {own : Multiset Nat} {id : Nat} (items : List α) (hid : id ∈ own) :
      Touch k (p, own) (p.setItems id items, own)
  | take {p q : SOVPool α} {own : Multiset Nat} {b : SBuf} {new : Nat} (hpool : b.pool = true)
      (hactor : b.actor = some k) (halloc : b.alloc p = some (new, q)) : Touch k (p, own) (q, new ::ₘ own)
  | give {p : SOVPool α} {own : Multiset Nat} {id : Nat} (hid : id ∈ own) (hempty : p.items id = []) :
      Touch k (p, own) (p.push id, own.erase id)

abbrev Touches (k : Nat) : SOVPool α × Multiset Nat → SOVPool α × Multiset Nat → Prop :=
  Relation.ReflTransGen (Touch k)

section
variable {k : Nat} {x y : SOVPool α × Multiset Nat}

/-- The owner's name is on its `SOV`s, and the others stay as they are. -/
theorem Touch.actors (touch : Touch k x y) {rest : Multiset Nat} (hok : x.1.Ok (x.2 + rest))
    (hmine : ∀ id ∈ x.2, (x.1.sovs id).actor = some k) :
    y.1.Ok (y.2 + rest) ∧ (∀ id ∈ y.2, (y.1.sovs id).actor = some k) ∧
      ∀ id ∈ rest, (y.1.sovs id).actor = (x.1.sovs id).actor := by
  cases touch with
  | fill items hid =>
    refine ⟨hok.setItems (Multiset.mem_add.mpr (Or.inl hid)) items, fun id hid => ?_, fun id _ => ?_⟩
    · rw [SOVPool.actor_setItems]
      exact hmine id hid
    · exact SOVPool.actor_setItems _ _ _ _
  | @take p q own b new hpool hactor halloc =>
    obtain ⟨id, q', hspec, hok', _, _⟩ := SBuf.alloc_spec hok hpool
    rw [halloc] at hspec
    cases Option.some.inj hspec
    obtain ⟨hnew, hold⟩ := SBuf.alloc_actor halloc
    have hfresh : new ∉ own + rest := (Multiset.nodup_cons.mp (Multiset.nodup_add.mp hok'.nodup).1).1
    have hkept : ∀ id ∈ own + rest, q.sovs id = p.sovs id := fun id hid =>
      hold id (hok.busy_lt hid) fun he => hfresh (he ▸ hid)
    refine ⟨by rw [Multiset.cons_add]; exact hok', fun id hid => ?_, fun id hid => ?_⟩
    · rcases Multiset.mem_cons.mp hid with rfl | hid
      · exact hnew.trans hactor
      · exact (congrArg SOV.actor (hkept id (Multiset.mem_add.mpr (Or.inl hid)))).trans (hmine id hid)
    · exact congrArg SOV.actor (hkept id (Multiset.mem_add.mpr (Or.inr hid)))
  | @give p own id hid hempty =>
    have hsplit : own + rest = id ::ₘ (own.erase id + rest) := by
      rw [← Multiset.cons_add, Multiset.cons_erase hid]
    have hok' : p.Ok (id ::ₘ (own.erase id + rest)) := hsplit ▸ hok
    exact ⟨hok'.push hempty, fun j hj => hmine j (Multiset.mem_of_mem_erase hj), fun _ _ => rfl⟩

theorem Touches.actors (touches : Touches k x y) {rest : Multiset Nat} (hok : x.1.Ok (x.2 + rest))
    (hmine : ∀ id ∈ x.2, (x.1.sovs id).actor = some k) :
    y.1.Ok (y.2 + rest) ∧ (∀ id ∈ y.2, (y.1.sovs id).actor = some k) ∧
      ∀ id ∈ rest, (y.1.sovs id).actor = (x.1.sovs id).actor := by
  induction touches with
  | refl => exact ⟨hok, hmine, fun _ _ => rfl⟩
  | tail _ touch ih =>
    obtain ⟨hok', hmine', hrest⟩ := ih
    obtain ⟨hok'', hmine'', hrest'⟩ := touch.actors hok' hmine'
    exact ⟨hok'', hmine'', fun id hid => (hrest' id hid).trans (hrest id hid)⟩

/-- The same as seen by somebody else who uses the pool. -/
theorem Touch.seen (touch : Touch k x y) {o : Sender α} (hpool : o.pool = x.1) {rest : Multiset Nat}
    (haway : (o.away : Multiset Nat) = x.2 + rest) :
    ∃ op o', op.IsOther = true ∧ o.step op = some o' ∧ o' = { o with pool := y.1, away := o'.away } ∧
      (o'.away : Multiset Nat) = y.2 + rest := by
  have hmem : ∀ id ∈ x.2, id ∈ o.away := by
    intro id hid
    have hin : id ∈ (o.away : Multiset Nat) := by
      rw [haway]
      exact Multiset.mem_add.mpr (Or.inl hid)
    exact Multiset.mem_coe.mp hin
  cases touch with
  | @fill p own id items hid =>
    refine ⟨.otherFill id items, { o with pool := p.setItems id items }, rfl, ?_, rfl, haway⟩
    rw [Sender.step, if_pos (hmem id hid), hpool]
  | @take p q own b new hb hactor halloc =>
    have hsame : ({ SBuf.null with actor := some k, pool := true } : SBuf).alloc p = some (new, q) := by
      rw [← halloc]
      unfold SBuf.alloc
      rw [hb, hactor]
    refine ⟨.otherPop k, { o with pool := q, away := new :: o.away }, rfl, ?_, rfl, ?_⟩
    · rw [Sender.step, hpool, hsame]
      rfl
    · rw [Multiset.cons_add, ← haway]
      rfl
  | @give p own id hid hempty =>
    have hclear : p.clear id = p := by
      unfold SOVPool.clear SOVPool.setItems
      have hsov : ({ p.sovs id with slist := { (p.sovs id).slist with items := [] } } : SOV α) = p.sovs id := by
        rw [← hempty]
        rfl
      rw [hsov, Function.update_eq_self]
    refine ⟨.otherPush id, { o with pool := p.push id, away := o.away.erase id }, rfl, ?_, rfl, ?_⟩
    · rw [Sender.step, if_pos (hmem id hid), hpool, hclear]
    · change (o.away : Multiset Nat).erase id = _
      rw [haway, Multiset.erase_add_left_pos rest hid]

theorem Touches.seen (touches : Touches k x y) {o : Sender α} (hpool : o.pool = x.1) {rest : Multiset Nat}
    (haway : (o.away : Multiset Nat) = x.2 + rest) :
    ∃ ops o', (∀ op ∈ ops, op.IsOther = true) ∧ Machine.exec Sender.step o ops = some o' ∧
      o' = { o with pool := y.1, away := o'.away } ∧ (o'.away : Multiset Nat) = y.2 + rest := by
  induction touches with
  | refl => exact ⟨[], o, nofun, rfl, by rw [← hpool], haway⟩
  | tail _ touch ih =>
    obtain ⟨ops, o₁, hothers, hrun, heq, haway₁⟩ := ih
    have hpool₁ := congrArg Sender.pool heq
    obtain ⟨op, o₂, hother, hstep, heq₂, haway₂⟩ := touch.seen hpool₁ haway₁
    refine ⟨ops ++ [op], o₂, fun op' hop' => ?_, ?_, ?_, haway₂⟩
    · rcases List.mem_append.mp hop' with hop' | hop'
      · exact hothers op' hop'
      · rw [List.mem_singleton.mp hop']
        exact hother
    · rw [Machine.exec_append, hrun]
      exact congrArg (Option.bind · _) hstep
    · rw [heq₂, heq]

end

namespace SBuf

variable {b b' : SBuf} {p q : SOVPool α}

theorem push_cases {buf : Option α} (h : b.push p buf = some q) :
    q = p ∨ ∃ id items, b.sov = some id ∧ q = p.setItems id items := by
  cases buf with
  | none => exact Or.inl (Option.some.inj h).symm
  | some x =>
    unfold push at h
    dsimp only at h
    split at h
    next => cases h
    next id hsov =>
      obtain ⟨slist, _, rfl⟩ := Option.map_eq_some_iff.mp h
      exact Or.inr ⟨id, slist.items, hsov, rfl⟩

theorem pop_cases {sov : Option Nat} (h : b.pop p = some (sov, b', q)) :
    sov = none ∧ b' = b ∧ q = p ∨ ∃ id new, sov = some id ∧ b.sov = some id ∧ b.alloc p = some (new, q) ∧
      b' = { b with sov := some new, popCnt := b.popCnt + 1 } := by
  unfold pop at h
  split at h
  next => cases h
  next id hsov =>
    split at h
    next =>
      cases h
      exact Or.inl ⟨rfl, rfl, rfl⟩
    next =>
      split at h
      next =>
        obtain ⟨⟨new, r⟩, halloc, hget⟩ := Option.map_eq_some_iff.mp h
        cases hget
        exact Or.inr ⟨id, new, hsov, hsov, halloc, rfl⟩
      next =>
        cases h
        exact Or.inl ⟨rfl, rfl, rfl⟩

end SBuf

namespace Sender

variable {s s' : Sender α} {k : Nat}

/-- The `SOV`s of the session itself. -/
def own (s : Sender α) : Multiset Nat := (s.sbuf.sov.toList : Multiset Nat) + (s.out : Multiset Nat)

theorem busy_own (s : Sender α) : s.busy = s.own + (s.away : Multiset Nat) := rfl

theorem mem_own {id : Nat} : id ∈ s.own ↔ s.sbuf.sov = some id ∨ id ∈ s.out := by
  simp [own]

/-- While `pool_` is set, so is `actor_`. -/
def Named (k : Nat) (s : Sender α) : Prop := s.sbuf.pool = true → s.sbuf.actor = some k

theorem Ready.touches_lock (h : Ready s) (named : s.Named k) {t : Nat} {buf : Option α} {resumed : Bool}
    (hpc : s.thread t = .entered buf resumed) :
    Touches k (s.pool, s.own) ((s.lock t buf).pool, (s.lock t buf).own) ∧ (s.lock t buf).Named k := by
  obtain ⟨cur, hcur⟩ := h.sov_some (t := t) (by rw [hpc]; exact nofun)
  have husable : s.sbuf.pool = true := by
    rw [h.owned.usable, hcur]
    rfl
  unfold lock
  split
  next => exact ⟨.refl, named⟩
  next pool hpush =>
    have hfill : Touches k (s.pool, s.own) (pool, s.own) := by
      rcases SBuf.push_cases hpush with rfl | ⟨id, items, hsov, rfl⟩
      · exact .refl
      · exact .single (.fill items (mem_own.mpr (Or.inl hsov)))
    split
    next => exact ⟨.refl, named⟩
    next sbuf pool' hpop =>
      rcases SBuf.pop_cases hpop with ⟨_, rfl, rfl⟩ | ⟨id, new, hid, _⟩
      · exact ⟨hfill, named⟩
      · cases hid
    next sov sbuf pool' hpop =>
      rcases SBuf.pop_cases hpop with ⟨hsov, _⟩ | ⟨id, new, hid, hsov, halloc, rfl⟩
      · cases hsov
      · cases hid
        refine ⟨hfill.tail ?_, named⟩
        have htake : Touch k (pool, s.own) (pool', new ::ₘ s.own) := .take husable (named husable) halloc
        have hown : new ::ₘ s.own = ((some new).toList : Multiset Nat) + ((sov :: s.out : List Nat) : Multiset Nat) := by
          rw [own, hsov]
          rfl
        rw [hown] at htake
        exact htake

theorem Ready.touches_pushBack (h : Ready s) (named : s.Named k) {t sov err : Nat}
    (hpc : s.thread t = .cleared sov err) :
    Touches k (s.pool, s.own) ((s.pushBack t sov err).pool, (s.pushBack t sov err).own) ∧
      (s.pushBack t sov err).Named k := by
  have hout := h.owned.cleared_out hpc
  obtain ⟨hasToSend, cur, hl, _⟩ := h.owned.pushBack_cases hpc
  rw [hl]
  refine ⟨.single ?_, named⟩
  have hgive := Touch.give (k := k) (mem_own.mpr (Or.inr hout)) (h.owned.cleared t sov err hpc)
  have hne : sov ∉ (s.sbuf.sov.toList : Multiset Nat) := by
    intro hin
    have hcase : s.sbuf.sov = some sov := Option.mem_toList.mp (Multiset.mem_coe.mp hin)
    exact h.owned.ne_out hcase hout rfl
  have hown : s.own.erase sov = (s.sbuf.sov.toList : Multiset Nat) + ((s.out.erase sov : List Nat) : Multiset Nat) := by
    rw [own, Multiset.erase_add_right_neg _ hne]
    rfl
  rw [hown] at hgive
  exact hgive

/-- A step of the session itself only touches its own `SOV`s, and new ones. -/
theorem Ready.touches (h : Ready s) (named : s.Named k) {op : SendOp α} (hop : op.IsOther = false)
    (hconn : ∀ actor, op = .conn actor → actor = k) (hs : s.step op = some s') :
    Touches k (s.pool, s.own) (s'.pool, s'.own) ∧ s'.Named k := by
  cases Move.of_step hs with
  | lock entered => exact h.touches_lock named entered
  | @wsaSend t sov fail popped =>
    cases fail with
    | none => exact ⟨.refl, named⟩
    | some err => exact ⟨.refl, named⟩
  | @clear t sov err ended =>
    have hout : sov ∈ s.out := (h.owned.holders.held t sov (by rw [ended]; rfl)).1
    exact ⟨.single (.fill [] (mem_own.mpr (Or.inr hout))), named⟩
  | pushBack cleared => exact h.touches_pushBack named cleared
  | @conn actor sbuf pool bare off init =>
    cases hconn actor rfl
    obtain ⟨⟨new, q⟩, halloc, hget⟩ := Option.map_eq_some_iff.mp init
    cases hget
    have hout : s.out = [] := h.owned.none_out (by rw [bare]; rfl)
    refine ⟨.single ?_, fun _ => rfl⟩
    have htake : Touch k (s.pool, s.own) (pool, new ::ₘ s.own) := .take rfl rfl halloc
    have hown : new ::ₘ s.own = ((some new).toList : Multiset Nat) + (s.out : Multiset Nat) := by
      rw [own, bare, hout]
      rfl
    rw [hown] at htake
    exact htake
  | otherPop => cases hop
  | otherFill => cases hop
  | otherPush => cases hop
  | _ => exact ⟨.refl, named⟩

/-- What the others hold makes no difference to a step of the session itself. -/
theorem step_away (s : Sender α) (away : List Nat) {op : SendOp α} (hop : op.IsOther = false) :
    ({ s with away := away } : Sender α).step op = (s.step op).map fun s' => { s' with away := away } := by
  cases op with
  | call t buf =>
    simp only [Sender.step]
    split
    next =>
      split
      next => rfl
      next => rfl
    next => rfl
  | lock t =>
    simp only [Sender.step]
    split
    next =>
      simp only [Sender.lock, Option.map_some, Option.some.injEq]
      split
      next => rfl
      next =>
        split
        next => rfl
        next => rfl
        next => rfl
    next => rfl
  | wsaSend t fail =>
    simp only [Sender.step]
    split
    next =>
      cases fail with
      | none => rfl
      | some err => rfl
    next => rfl
  | complete t sov err =>
    simp only [Sender.step]
    split
    next =>
      split
      next => rfl
      next => rfl
    next => rfl
  | clear t =>
    simp only [Sender.step]
    split
    next => rfl
    next => rfl
  | pushBack t =>
    simp only [Sender.step]
    split
    next =>
      simp only [Sender.pushBack, Option.map_some, Option.some.injEq]
      split
      next => rfl
      next =>
        split
        next => rfl
        next => rfl
    next => rfl
  | check t =>
    simp only [Sender.step]
    split
    next =>
      split
      next => rfl
      next =>
        split
        next => rfl
        next => rfl
    next => rfl
  | resume t =>
    simp only [Sender.step]
    split
    next =>
      split
      next => rfl
      next => rfl
    next => rfl
  | leave t =>
    simp only [Sender.step]
    split
    next => rfl
    next => rfl
  | conn actor =>
    simp only [Sender.step]
    split
    next =>
      split
      next => rfl
      next => rfl
    next => rfl
  | disconnect => rfl
  | _ => cases hop

/-- Which thread an operation is of. -/
theorem Ready.step_thread (h : Ready s) {op : SendOp α} (hs : s.step op = some s') :
    s'.thread = s.thread ∨ ∃ t pc, s'.thread = Function.update s.thread t pc ∧
      (op.inside = some t ∨ (∃ buf, op = .call t buf) ∨ ∃ sov err, op = .complete t sov err) := by
  rcases h.turned hs with same | ⟨t, pc, _, _, _, turned⟩
  · exact Or.inl same.thread
  · refine Or.inr ⟨t, pc, turned.thread, ?_⟩
    have hturn := turned.turn
    generalize s.thread t = before at hturn
    cases hturn with
    | call buf => exact Or.inr (Or.inl ⟨buf, rfl⟩)
    | complete sov err => exact Or.inr (Or.inr ⟨sov, err, rfl⟩)
    | _ => exact Or.inl rfl

end Sender

namespace SendNet

variable {n n' : SendNet α} {i k : Nat}

/-- Each `WSASend` is the turn of its connection. -/
def InTurn (n : SendNet α) : Op α → Prop
  | .run op => ∀ t, op.inside = some t → (n.view (n.thread t).1 []).InTurn op
  | _ => True

/-- `s` is the connection `i`, with what all the others hold. -/
structure Seen (n : SendNet α) (i : Nat) (s : Sender α) : Prop where
  view : s = n.view i s.away
  others : ∀ id, id ∈ s.away ↔ ∃ j, j ≠ i ∧ id ∈ (n.view j []).own
  ready : s.Ready
  named : s.Named i

/-- Each connection is in order by itself, and its name is on its `SOV`s. -/
structure Sound (n : SendNet α) : Prop where
  seen : ∀ i, ∃ s, Seen n i s
  actors : ∀ i, ∀ id ∈ (n.view i []).own, (n.pool.sovs id).actor = some i
  fits : n.pool.arrCnt ≤ 178956970

/-- Only the connection `k` moves, to `s`. -/
structure Moves (n : SendNet α) (k : Nat) (s : Sender α) (n' : SendNet α) : Prop where
  self : ∀ away, n'.view k away = { s with away := away }
  conn : ∀ i, i ≠ k → n'.conn i = n.conn i
  standing : ∀ i, i ≠ k → n'.standing i = n.standing i

theorem Moves.rest {s : Sender α} (moves : Moves n k s n') (hik : i ≠ k) (away : List Nat) :
    n'.view i away = { n.view i away with pool := s.pool } := by
  have hpool : n'.pool = s.pool := congrArg Sender.pool (moves.self [])
  unfold view
  rw [hpool, moves.conn i hik, moves.standing i hik]

theorem moves_put {s : Sender α} (hthread : s.thread = n.standing k) : Moves n k s (n.put k s) := by
  refine ⟨fun away => ?_, fun i hik => Function.update_of_ne hik _ _, fun i _ => rfl⟩
  unfold view put standing
  simp only [Function.update_self]
  rw [hthread]
  rfl

/-- A thread goes on inside its connection, or enters one. -/
theorem moves_goto {s : Sender α} {t : Nat} (hfree : ∀ i, i ≠ k → n.standing i t = .idle)
    (hthread : ∃ pc, s.thread = Function.update (n.standing k) t pc) : Moves n k s ((n.put k s).goto t k (s.thread t)) := by
  obtain ⟨pc, hpc⟩ := hthread
  have hself : ∀ i u, ((n.put k s).goto t k (s.thread t)).standing i u =
      if u = t then (if k = i then s.thread t else .idle) else n.standing i u := by
    intro i u
    unfold standing goto put
    by_cases hu : u = t
    · simp only [hu, Function.update_self, if_true]
    · simp only [Function.update_of_ne hu, if_neg hu]
  refine ⟨fun away => ?_, fun i hik => Function.update_of_ne hik _ _, fun i hik => ?_⟩
  · have hstand : ((n.put k s).goto t k (s.thread t)).standing k = s.thread := by
      funext u
      rw [hself, if_pos rfl]
      split
      next hu => rw [hu]
      next hu => rw [hpc, Function.update_of_ne hu]
    unfold view
    rw [hstand]
    unfold goto put
    simp only [Function.update_self]
  · funext u
    rw [hself]
    split
    next hu => rw [if_neg (Ne.symm hik), hu, hfree i hik]
    next => rfl

/-- No two connections have an `SOV` in common. -/
theorem Sound.disjoint (h : Sound n) (hik : i ≠ k) {id : Nat} (hi : id ∈ (n.view i []).own) :
    id ∉ (n.view k []).own := by
  intro hk
  obtain ⟨s, seen⟩ := h.seen k
  have haway : id ∈ (s.away : Multiset Nat) := Multiset.mem_coe.mpr ((seen.others id).mpr ⟨i, hik, hi⟩)
  have hown : id ∈ s.own := by
    rw [seen.view]
    exact hk
  have hnodup := seen.ready.owned.busy_nodup
  rw [Sender.busy_own, Multiset.nodup_add] at hnodup
  exact Multiset.disjoint_left.mp hnodup.2.2 hown haway

theorem Seen.step {sk s : Sender α} (seen : Seen n k sk) {op : SendOp α} (hop : op.IsOther = false)
    (hs : (n.view k []).step op = some s) : sk.step op = some { s with away := sk.away } := by
  have hframe := Sender.step_away (n.view k []) sk.away hop
  have hview : ({ n.view k [] with away := sk.away } : Sender α) = sk := seen.view.symm
  rwa [hs, hview] at hframe

/-- Where the sizes suffice, a connection steps as it does without them. -/
theorem Seen.of_sized {sk s : Sender α} (seen : Seen n k sk) (hfit : n.pool.arrCnt ≤ 178956970) {op : SendOp α}
    (hop : op.IsOther = false) (hs : (n.view k []).sizedStep op = some s) (countable : s.pool.totalCnt < 4294967296) :
    (n.view k []).step op = some s := by
  have hinside : (n.view k []).overruns op = false := by
    have hk := seen.ready.owned.fits (by rw [seen.view]; exact hfit) op
    rw [seen.view] at hk
    exact hk
  rw [Sender.sizedStep, hinside, if_neg Bool.false_ne_true] at hs
  obtain ⟨raw, hraw, rfl⟩ := Option.map_eq_some_iff.mp hs
  have hready := (seen.ready.step (seen.step hop hraw)).1
  have hcnt : u32 (raw.sbuf.popCnt : Nat) = raw.sbuf.popCnt := by
    refine u32_of_lt ?_
    have hpop : raw.sbuf.popCnt = raw.out.length := hready.owned.popCnt
    have hle : raw.out.length ≤ raw.pool.totalCnt := hready.owned.out_le
    rw [hpop]
    exact Nat.lt_of_le_of_lt hle countable
  rw [hraw, Sender.stored, hcnt]

/-- What a connection itself sees of its step. -/
theorem Seen.self {sk s : Sender α} (seen : Seen n k sk) (moves : Moves n k s n') {op : SendOp α}
    (hop : op.IsOther = false) (hconn : ∀ actor, op = .conn actor → actor = k) (hs : (n.view k []).step op = some s) :
    sk.step op = some { s with away := sk.away } ∧ Seen n' k { s with away := sk.away } ∧
      Touches k (n.pool, (n.view k []).own) (s.pool, s.own) := by
  have hstep := seen.step hop hs
  obtain ⟨touches, named⟩ := seen.ready.touches seen.named hop hconn hstep
  have hpool : sk.pool = n.pool := by
    rw [seen.view]
    rfl
  have hown : sk.own = (n.view k []).own := by
    rw [seen.view]
    rfl
  rw [hpool, hown] at touches
  refine ⟨hstep, ⟨(moves.self _).symm, fun id => (seen.others id).trans ?_, (seen.ready.step hstep).1, named⟩, touches⟩
  refine exists_congr fun j => and_congr_right fun hj => ?_
  rw [moves.rest hj]
  rfl

theorem Moves.own_self {s : Sender α} (moves : Moves n k s n') : (n'.view k []).own = s.own := by
  rw [moves.self]
  rfl

theorem Moves.own_rest {s : Sender α} (moves : Moves n k s n') (hik : i ≠ k) :
    (n'.view i []).own = (n.view i []).own := by
  rw [moves.rest hik]
  rfl

/-- What another one sees of it. -/
theorem Seen.other {s₀ s : Sender α} (seen : Seen n i s₀) (hik : i ≠ k) (moves : Moves n k s n')
    (once : (n.view k []).own.Nodup)
    (apart : ∀ j, j ≠ k → ∀ id ∈ (n.view j []).own, id ∉ (n.view k []).own)
    (touches : Touches k (n.pool, (n.view k []).own) (s.pool, s.own)) :
    ∃ ops s₁, (∀ op ∈ ops, op.IsOther = true) ∧ Machine.exec Sender.step s₀ ops = some s₁ ∧ Seen n' i s₁ := by
  have hpool : s₀.pool = n.pool := by
    rw [seen.view]
    rfl
  have haway : (s₀.away : Multiset Nat).Nodup := by
    have hnodup := seen.ready.owned.busy_nodup
    rw [Sender.busy_own, Multiset.nodup_add] at hnodup
    exact hnodup.2.1
  have hle : (n.view k []).own ≤ (s₀.away : Multiset Nat) := by
    refine (Multiset.le_iff_subset once).mpr fun id hid => ?_
    exact Multiset.mem_coe.mpr ((seen.others id).mpr ⟨k, Ne.symm hik, hid⟩)
  have hsplit : (s₀.away : Multiset Nat) = (n.view k []).own + ((s₀.away : Multiset Nat) - (n.view k []).own) :=
    (add_tsub_cancel_of_le hle).symm
  obtain ⟨ops, s₁, hothers, hrun, heq, haway₁⟩ := touches.seen hpool hsplit
  have hmem : ∀ id, id ∈ s₁.away ↔ id ∈ s.own ∨ id ∈ s₀.away ∧ id ∉ (n.view k []).own := by
    intro id
    rw [← Multiset.mem_coe, haway₁, Multiset.mem_add, Multiset.mem_sub_of_nodup haway, Multiset.mem_coe]
  refine ⟨ops, s₁, hothers, hrun, ⟨?_, fun id => ?_, ?_, ?_⟩⟩
  · rw [moves.rest hik]
    exact heq.trans (congrArg (fun x : Sender α => { x with pool := s.pool, away := s₁.away }) seen.view)
  · rw [hmem]
    constructor
    · rintro (hid | ⟨hid, hnot⟩)
      · exact ⟨k, Ne.symm hik, by rw [moves.own_self]; exact hid⟩
      · obtain ⟨j, hj, hjown⟩ := (seen.others id).mp hid
        have hjk : j ≠ k := fun he => hnot (he ▸ hjown)
        exact ⟨j, hj, by rw [moves.own_rest hjk]; exact hjown⟩
    · rintro ⟨j, hj, hid⟩
      by_cases hjk : j = k
      · rw [hjk, moves.own_self] at hid
        exact Or.inl hid
      · rw [moves.own_rest hjk] at hid
        exact Or.inr ⟨(seen.others id).mpr ⟨j, hj, hid⟩, apart j hjk id hid⟩
  · exact Machine.exec_invariant (fun s op s' h hs => (h.step hs).1) seen.ready hrun
  · rw [heq]
    exact seen.named

/-- A step of one connection, as all of them see it. -/
theorem Sound.move (h : Sound n) {s : Sender α} (moves : Moves n k s n') {op : SendOp α} (hop : op.IsOther = false)
    (hconn : ∀ actor, op = .conn actor → actor = k) (hs : (n.view k []).step op = some s) :
    Sound n' ∧ ∀ i s₀, Seen n i s₀ → ∃ ops s₁, Machine.exec Sender.step s₀ ops = some s₁ ∧ Seen n' i s₁ ∧
      ((n.view k []).InTurn op → Machine.Along Sender.step Sender.InTurn s₀ ops) := by
  obtain ⟨sk, hk⟩ := h.seen k
  obtain ⟨_, _, touches⟩ := hk.self moves hop hconn hs
  have hkpool : sk.pool = n.pool := by
    rw [hk.view]
    rfl
  have hkown : sk.own = (n.view k []).own := by
    rw [hk.view]
    rfl
  have honce : (n.view k []).own.Nodup := by
    have hnodup := hk.ready.owned.busy_nodup
    rw [Sender.busy_own, Multiset.nodup_add, hkown] at hnodup
    exact hnodup.1
  have apart : ∀ j, j ≠ k → ∀ id ∈ (n.view j []).own, id ∉ (n.view k []).own :=
    fun j hj id hid => h.disjoint hj hid
  have go : ∀ i s₀, Seen n i s₀ → ∃ ops s₁, Machine.exec Sender.step s₀ ops = some s₁ ∧ Seen n' i s₁ ∧
      ((n.view k []).InTurn op → Machine.Along Sender.step Sender.InTurn s₀ ops) := by
    intro i s₀ seen
    by_cases hik : i = k
    · subst hik
      obtain ⟨hstep, hseen, _⟩ := seen.self moves hop hconn hs
      refine ⟨[op], _, congrArg (Option.bind · _) hstep, hseen, fun turn => ⟨?_, fun _ _ => trivial⟩⟩
      rw [seen.view]
      cases op with
      | wsaSend t fail => exact turn
      | _ => exact trivial
    · obtain ⟨ops, s₁, hothers, hrun, hseen⟩ := seen.other hik moves honce apart touches
      refine ⟨ops, s₁, hrun, hseen, fun _ => Machine.along_of_forall (fun op' hop' s' => ?_) s₀⟩
      have hother := hothers op' hop'
      cases op' with
      | wsaSend t fail => cases hother
      | _ => exact trivial
  have hok : n.pool.Ok ((n.view k []).own + (sk.away : Multiset Nat)) := by
    rw [← hkown, ← hkpool]
    exact hk.ready.owned.pool
  have hactors := touches.actors hok (h.actors k)
  have hpool : n'.pool = s.pool := congrArg Sender.pool (moves.self [])
  have hfits : n'.pool.arrCnt ≤ 178956970 := by
    rw [hpool, (Sender.step_grows hs).arrCnt]
    exact h.fits
  refine ⟨⟨fun i => ?_, fun i id hid => ?_, hfits⟩, go⟩
  · obtain ⟨s₀, seen⟩ := h.seen i
    obtain ⟨_, s₁, _, hseen, _⟩ := go i s₀ seen
    exact ⟨s₁, hseen⟩
  · rw [hpool]
    by_cases hik : i = k
    · rw [hik] at hid ⊢
      rw [moves.own_self] at hid
      exact hactors.2.1 id hid
    · rw [moves.own_rest hik] at hid
      have haway : id ∈ (sk.away : Multiset Nat) := Multiset.mem_coe.mpr ((hk.others id).mpr ⟨i, hik, hid⟩)
      exact (hactors.2.2 id haway).trans (h.actors i id hid)

theorem Seen.thread {sk s : Sender α} (seen : Seen n k sk) {op : SendOp α} (hop : op.IsOther = false)
    (hs : (n.view k []).step op = some s) :
    s.thread = n.standing k ∨ ∃ t pc, s.thread = Function.update (n.standing k) t pc ∧
      (op.inside = some t ∨ (∃ buf, op = .call t buf) ∨ ∃ sov err, op = .complete t sov err) := by
  have hthread := seen.ready.step_thread (seen.step hop hs)
  have hstanding : sk.thread = n.standing k := by
    rw [seen.view]
    rfl
  rwa [hstanding] at hthread

/-- A step of the whole is a step of one connection. -/
theorem Sound.step_moves (h : Sound n) {op : Op α} (hs : n.step op = some n') (countable : n'.Countable) :
    ∃ k op' s, op'.IsOther = false ∧ (∀ actor, op' = .conn actor → actor = k) ∧ (n.view k []).step op' = some s ∧
      Moves n k s n' ∧ (n.InTurn op → (n.view k []).InTurn op') := by
  cases op with
  | connect i =>
    obtain ⟨s, hsized, rfl⟩ := Option.map_eq_some_iff.mp hs
    obtain ⟨si, seen⟩ := h.seen i
    have hstep := seen.of_sized h.fits rfl hsized countable
    refine ⟨i, .conn i, s, rfl, fun _ he => (SendOp.conn.inj he).symm, hstep, moves_put ?_, fun _ => trivial⟩
    rcases seen.thread rfl hstep with hsame | ⟨t, pc, _, hop | ⟨_, hop⟩ | ⟨_, _, hop⟩⟩
    · exact hsame
    · cases hop
    · cases hop
    · cases hop
  | disconnect i =>
    change ((n.view i []).sizedStep .disconnect).map (n.put i) = some n' at hs
    obtain ⟨s, hsized, rfl⟩ := Option.map_eq_some_iff.mp hs
    obtain ⟨si, seen⟩ := h.seen i
    have hstep := seen.of_sized h.fits rfl hsized countable
    cases Option.some.inj hstep
    exact ⟨i, .disconnect, _, rfl, (by intro actor he; cases he), rfl, moves_put rfl, fun _ => trivial⟩
  | call t i buf =>
    simp only [SendNet.step] at hs
    split at hs
    next hidle =>
      obtain ⟨s, hsized, rfl⟩ := Option.map_eq_some_iff.mp hs
      obtain ⟨si, seen⟩ := h.seen i
      have hstep := seen.of_sized h.fits rfl hsized countable
      refine ⟨i, .call t buf, s, rfl, (by intro actor he; cases he), hstep, moves_goto (fun j _ => ?_) ?_, fun _ => trivial⟩
      · unfold standing
        rw [hidle, ite_self]
      · rcases seen.thread rfl hstep with hsame | ⟨u, pc, hthread, hop | ⟨_, hop⟩ | ⟨_, _, hop⟩⟩
        · exact ⟨n.standing i t, by rw [hsame, Function.update_eq_self]⟩
        · cases hop
        · cases hop
          exact ⟨pc, hthread⟩
        · cases hop
    next => cases hs
  | run op =>
    obtain ⟨t, hin, hs⟩ := Option.bind_eq_some_iff.mp hs
    obtain ⟨s, hsized, rfl⟩ := Option.map_eq_some_iff.mp hs
    obtain ⟨si, seen⟩ := h.seen (n.thread t).1
    have hop : op.IsOther = false ∧ ∀ actor, op ≠ .conn actor := by
      cases op with
      | lock u | clear u | pushBack u | check u | resume u | leave u => exact ⟨rfl, by intro actor he; cases he⟩
      | wsaSend u fail => exact ⟨rfl, by intro actor he; cases he⟩
      | _ => cases hin
    have hstep := seen.of_sized h.fits hop.1 hsized countable
    refine ⟨(n.thread t).1, op, s, hop.1, fun actor he => absurd he (hop.2 actor), hstep,
      moves_goto (fun j hj => if_neg (Ne.symm hj)) ?_, fun turn => turn t hin⟩
    rcases seen.thread hop.1 hstep with hsame | ⟨u, pc, hthread, hop | ⟨_, rfl⟩ | ⟨_, _, rfl⟩⟩
    · exact ⟨n.standing (n.thread t).1 t, by rw [hsame, Function.update_eq_self]⟩
    · cases Option.some.inj (hin.symm.trans hop)
      exact ⟨pc, hthread⟩
    · cases hin
    · cases hin
  | complete t i sov err =>
    simp only [SendNet.step] at hs
    split at hs
    next hidle =>
      split at hs
      next hfly =>
        obtain ⟨actor, hactor, rfl⟩ := Option.map_eq_some_iff.mp hs
        obtain ⟨si, seen⟩ := h.seen i
        have hown : sov ∈ (n.view i []).own := by
          have hflying := seen.ready.owned.holders.flying sov
          rw [seen.view] at hflying
          exact Sender.mem_own.mpr (Or.inr (hflying hfly))
        -- `actor_` names the session that has posted the send
        cases Option.some.inj (hactor.symm.trans (h.actors i sov hown))
        have hstanding : ∀ j, n.standing j t = .idle := fun j => by
          unfold standing
          rw [hidle, ite_self]
        have hstep : (n.view i []).step (.complete t sov err) =
            some { (n.view i []).goto t (.ended sov err) with inflight := (n.conn i).inflight.erase sov } := by
          have hview : (n.view i []).thread t = .idle := hstanding i
          rw [Sender.step, hview]
          exact if_pos hfly
        refine ⟨i, .complete t sov err, _, rfl, (by intro actor he; cases he), hstep, ?_, fun _ => trivial⟩
        have hmoves := moves_goto (fun j _ => hstanding j)
          (s := { (n.view i []).goto t (.ended sov err) with inflight := (n.conn i).inflight.erase sov })
          (k := i) ⟨.ended sov err, rfl⟩
        have hpc : ((n.view i []).goto t (.ended sov err)).thread t = .ended sov err := Function.update_self _ _ _
        dsimp only at hmoves
        rw [hpc] at hmoves
        exact hmoves
      next => cases hs
    next => cases hs

theorem Sound.step (h : Sound n) {op : Op α} (hs : n.step op = some n') (countable : n'.Countable) :
    Sound n' ∧ ∀ i s₀, Seen n i s₀ → ∃ ops s₁, Machine.exec Sender.step s₀ ops = some s₁ ∧ Seen n' i s₁ ∧
      (n.InTurn op → Machine.Along Sender.step Sender.InTurn s₀ ops) := by
  obtain ⟨k, op', s, hop, hconn, hstep, moves, turn⟩ := h.step_moves hs countable
  obtain ⟨hsound, hall⟩ := h.move moves hop hconn hstep
  refine ⟨hsound, fun i s₀ seen => ?_⟩
  obtain ⟨ops, s₁, hrun, hseen, hturn⟩ := hall i s₀ seen
  exact ⟨ops, s₁, hrun, hseen, fun hin => hturn (turn hin)⟩

/-- Over a whole run. -/
theorem Sound.run (h : Sound n) {s₀ : Sender α} (seen : Seen n i s₀) {ops : List (Op α)}
    (countable : Machine.Throughout SendNet.step Countable n ops) (run : Machine.exec SendNet.step n ops = some n') :
    Sound n' ∧ ∃ ops' s₁, Machine.exec Sender.step s₀ ops' = some s₁ ∧ Seen n' i s₁ ∧
      (Machine.Along SendNet.step InTurn n ops → Machine.Along Sender.step Sender.InTurn s₀ ops') := by
  induction ops generalizing n s₀ with
  | nil =>
    cases Option.some.inj run
    exact ⟨h, [], s₀, rfl, seen, fun _ => trivial⟩
  | cons op ops ih =>
    obtain ⟨mid, hm, run⟩ := Option.bind_eq_some_iff.mp run
    obtain ⟨_, countable⟩ := (Machine.throughout_cons hm).mp countable
    obtain ⟨hmid, hall⟩ := h.step hm (countable [] mid List.nil_prefix rfl)
    obtain ⟨first, s₁, hfirst, hseen, hturn⟩ := hall i s₀ seen
    obtain ⟨hend, rest, s₂, hrest, hseen', hturn'⟩ := ih hmid hseen countable run
    refine ⟨hend, first ++ rest, s₂, ?_, hseen', fun good => ?_⟩
    · rw [Machine.exec_append, hfirst]
      exact hrest
    · exact Machine.along_run (hturn good.1) hfirst (hturn' (good.2 mid hm))

theorem seen_start {initCnt stepCnt arrCnt : Nat} (hstep : 0 < stepCnt) (harr : 0 < arrCnt) (i : Nat) :
    Seen (start initCnt stepCnt arrCnt : SendNet α) i (Sender.start initCnt stepCnt arrCnt) := by
  have hview : (Sender.start initCnt stepCnt arrCnt : Sender α) = (start initCnt stepCnt arrCnt).view i [] := by
    have hidle : (start initCnt stepCnt arrCnt : SendNet α).standing i = fun _ => .idle := by
      funext t
      exact ite_self _
    unfold view
    rw [hidle]
    rfl
  refine ⟨hview, fun id => ⟨nofun, ?_⟩, Sender.ready_start hstep harr, nofun⟩
  rintro ⟨j, _, hid⟩
  cases hid

theorem sound_start {initCnt stepCnt arrCnt : Nat} (hstep : 0 < stepCnt) (harr : 0 < arrCnt)
    (hfit : arrCnt ≤ 178956970) : Sound (start initCnt stepCnt arrCnt : SendNet α) :=
  ⟨fun i => ⟨_, seen_start hstep harr i⟩, fun i id hid => (by cases hid), (SOVPool.create_grows _ initCnt).arrCnt.trans_le hfit⟩

/-- Whatever the other connections do, each one goes through a run of its own, in which they are users of the pool and
its counter and its blocks suffice; and its submissions are made in turn if they are made so in the whole. -/
theorem connections_refine {initCnt stepCnt arrCnt : Nat} (hstep : 0 < stepCnt) (harr : 0 < arrCnt)
    (hfit : arrCnt ≤ 178956970) {ops : List (Op α)}
    (countable : Machine.Throughout SendNet.step Countable (start initCnt stepCnt arrCnt) ops)
    (run : Machine.exec SendNet.step (start initCnt stepCnt arrCnt) ops = some n) (i : Nat) :
    ∃ ops' away, Machine.exec Sender.step (Sender.start initCnt stepCnt arrCnt) ops' = some (n.view i away) ∧
      Machine.exec Sender.sizedStep (Sender.start initCnt stepCnt arrCnt) ops' = some (n.view i away) ∧
      Machine.Throughout Sender.sizedStep Sender.Countable (Sender.start initCnt stepCnt arrCnt) ops' ∧
      (Machine.Along SendNet.step InTurn (start initCnt stepCnt arrCnt) ops →
        Machine.Along Sender.step Sender.InTurn (Sender.start initCnt stepCnt arrCnt) ops') := by
  obtain ⟨_, ops', s, hrun, hseen, hturn⟩ := (sound_start hstep harr hfit).run (seen_start hstep harr i) countable run
  have hview : Machine.exec Sender.step (Sender.start initCnt stepCnt arrCnt) ops' = some (n.view i s.away) := by
    rw [hrun]
    exact congrArg some hseen.view
  have hend : n.Countable := countable ops n (List.prefix_refl ops) run
  have harrays : (Sender.start initCnt stepCnt arrCnt : Sender α).pool.arrCnt ≤ 178956970 :=
    (SOVPool.create_grows _ initCnt).arrCnt.trans_le hfit
  obtain ⟨hsized, hcounts⟩ := (Sender.ready_start hstep harr).exec_sized harrays hview hend
  exact ⟨ops', s.away, hview, hsized, hcounts, hturn⟩

/-- Two connections exchange packets with the kernel at the same time. -/
theorem connections_refine_sample :
    ∃ n : SendNet Nat, Machine.exec SendNet.step (start 1 1 2)
      [.connect 0, .connect 1, .call 0 0 (some 7), .call 1 1 (some 8), .run (.lock 0), .run (.lock 1),
        .run (.wsaSend 1 none), .run (.wsaSend 0 none), .complete 2 1 1 0, .run (.clear 2), .run (.pushBack 2)] = some n ∧
      ∃ ops' away, Machine.exec Sender.sizedStep (Sender.start 1 1 2) ops' = some (n.view 1 away) ∧
        Machine.Along Sender.step Sender.InTurn (Sender.start 1 1 2) ops' := by
  have run : ∃ n : SendNet Nat, Machine.exec SendNet.step (start 1 1 2)
      [.connect 0, .connect 1, .call 0 0 (some 7), .call 1 1 (some 8), .run (.lock 0), .run (.lock 1),
        .run (.wsaSend 1 none), .run (.wsaSend 0 none), .complete 2 1 1 0, .run (.clear 2), .run (.pushBack 2)] =
      some n ∧ n.Countable := ⟨_, rfl, by decide⟩
  obtain ⟨n, run, hend⟩ := run
  obtain ⟨ops', away, _, hrun, _, hturn⟩ := connections_refine (by decide) (by decide) (by decide)
    (Machine.throughout_of_along (by decide) run hend) run 1
  refine ⟨n, run, ops', away, hrun, hturn ?_⟩
  exact Machine.along_cons trivial rfl (Machine.along_cons trivial rfl (Machine.along_cons trivial rfl
    (Machine.along_cons trivial rfl (Machine.along_cons (by rintro t ⟨⟩; exact trivial) rfl
      (Machine.along_cons (by rintro t ⟨⟩; exact trivial) rfl (Machine.along_cons (by rintro t ⟨⟩; exact rfl) rfl
        (Machine.along_cons (by rintro t ⟨⟩; exact rfl) rfl (Machine.along_cons trivial rfl
          (Machine.along_cons (by rintro t ⟨⟩; exact trivial) rfl
            (Machine.along_cons (by rintro t ⟨⟩; exact trivial) rfl trivial))))))))))

end SendNet

end Ven
