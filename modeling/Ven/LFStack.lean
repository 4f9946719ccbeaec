import Ven.Links
import Ven.Machine
import Ven.Word

namespace Ven

/-- Where a thread stands in `push` or `pop`: before the access to shared memory that the name says. -/
inductive StackPc (ν : Type)
  | idle
  | pushLoad (n : ν)
  | pushStore (n : ν) (ptr : Option ν)
  | pushCas (n : ν) (ptr : Option ν)
  | pushCnt
  | popLoad
  | popCnt (ptr : Option ν)
  | popNext (ptr : ν) (popCnt : Nat)
  | popCas (ptr : ν) (popCnt : Nat) (next : Option ν)
  | popDec (ptr : ν)
  | popClear (ptr : ν)
deriving DecidableEq

/-- A stack of nodes `ν` that threads `ι` use. `owns` are the nodes a thread may push, and `pops` records what each
`CAS2` of `pop` has taken with what was on top before it. -/
structure LFStack (ι ν : Type) where
  ptr : Option ν
  popCnt : Nat
  cnt : Nat
  next : ν → Option ν
  pc : ι → StackPc ν
  owns : ι → List ν
  pops : List (ν × Option ν)

/-- A thread calls `push` or `pop`, or makes its next step in the one it is in. -/
inductive StackAct (ν : Type)
  | push (n : ν)
  | pop
  | run

namespace LFStack

variable {ι ν : Type} [DecidableEq ι] [DecidableEq ν]

def init (next : ν → Option ν) (owns : ι → List ν) : LFStack ι ν := ⟨none, 0, 0, next, fun _ => .idle, owns, []⟩

def goto (s : LFStack ι ν) (t : ι) (pc : StackPc ν) : LFStack ι ν := { s with pc := Function.update s.pc t pc }

def store (s : LFStack ι ν) (n : ν) (v : Option ν) : LFStack ι ν := { s with next := Function.update s.next n v }

/-- The compare-and-swap of `push` succeeds. -/
def pushed (s : LFStack ι ν) (t : ι) (n : ν) : LFStack ι ν :=
  { s with ptr := some n, owns := Function.update s.owns t ((s.owns t).erase n) }

/-- `CAS2` succeeds. -/
def popped (s : LFStack ι ν) (t : ι) (ptr : ν) (next : Option ν) : LFStack ι ν :=
  { s with
    ptr := next
    popCnt := (s.popCnt + 1) % 18446744073709551616
    owns := Function.update s.owns t (ptr :: s.owns t)
    pops := s.pops ++ [(ptr, s.ptr)] }

def advance (s : LFStack ι ν) (t : ι) : StackPc ν → Option (LFStack ι ν)
  | .idle => none
  | .pushLoad n => some (s.goto t (.pushStore n s.ptr))
  | .pushStore n ptr => some ((s.store n ptr).goto t (.pushCas n ptr))
  | .pushCas n ptr =>
    if s.ptr = ptr then some ((s.pushed t n).goto t .pushCnt) else some (s.goto t (.pushLoad n))
  | .pushCnt => some ({ s with cnt := add32 s.cnt 1 }.goto t .idle)
  | .popLoad => some (s.goto t (.popCnt s.ptr))
  | .popCnt none => some (s.goto t .idle)
  | .popCnt (some ptr) => some (s.goto t (.popNext ptr s.popCnt))
  | .popNext ptr popCnt => some (s.goto t (.popCas ptr popCnt (s.next ptr)))
  | .popCas ptr popCnt next =>
    if s.ptr = some ptr ∧ s.popCnt = popCnt then some ((s.popped t ptr next).goto t (.popDec ptr))
    else some (s.goto t .popLoad)
  | .popDec ptr => some ({ s with cnt := pred32 s.cnt }.goto t (.popClear ptr))
  | .popClear ptr => some ((s.store ptr none).goto t .idle)

def step (s : LFStack ι ν) : ι × StackAct ν → Option (LFStack ι ν)
  | (t, .push n) => if s.pc t = .idle ∧ n ∈ s.owns t then some (s.goto t (.pushLoad n)) else none
  | (t, .pop) => if s.pc t = .idle then some (s.goto t .popLoad) else none
  | (t, .run) => s.advance t (s.pc t)

/-- The nodes on the stack, each there once, and the nodes that the threads own, each by one of them, are all nodes. -/
structure Apart (s : LFStack ι ν) (l : List ν) : Prop where
  chain : Links.Spells s.next s.ptr l
  nodup : l.Nodup
  all : ∀ x, x ∈ l ∨ ∃ t, x ∈ s.owns t
  apart : ∀ x ∈ l, ∀ t, x ∉ s.owns t
  single : ∀ t u x, x ∈ s.owns t → x ∈ s.owns u → t = u
  once : ∀ t, (s.owns t).Nodup

/-- No node is lost or doubled, and every pop has taken what was on top. -/
def Conserved (s : LFStack ι ν) : Prop := (∃ l, Apart s l) ∧ ∀ p ∈ s.pops, p.2 = some p.1

/-- A `CAS2` that succeeds puts in what the node's `next_` still is. -/
def CasCurrent (s : LFStack ι ν) : StackPc ν → Prop
  | .popCas ptr popCnt next => s.ptr = some ptr ∧ s.popCnt = popCnt → next = s.next ptr
  | _ => True

def Current (s : LFStack ι ν) (a : ι × StackAct ν) : Prop := s.CasCurrent (s.pc a.1)

instance (s : LFStack ι ν) (a : ι × StackAct ν) : Decidable (Current s a) :=
  match h : s.pc a.1 with
  | .popCas ptr popCnt next =>
    decidable_of_iff (s.ptr = some ptr ∧ s.popCnt = popCnt → next = s.next ptr) (by rw [Current, h]; rfl)
  | .idle | .pushLoad _ | .pushStore _ _ | .pushCas _ _ | .pushCnt | .popLoad | .popCnt _ | .popNext _ _ | .popDec _
  | .popClear _ => isTrue (by rw [Current, h]; trivial)

/-- What a thread has of the node it works on. -/
def PcOk (next : ν → Option ν) (owns : List ν) : StackPc ν → Prop
  | .pushLoad n => n ∈ owns
  | .pushStore n _ => n ∈ owns
  | .pushCas n ptr => n ∈ owns ∧ next n = ptr
  | .popDec ptr => ptr ∈ owns
  | .popClear ptr => ptr ∈ owns
  | _ => True

structure Inv (s : LFStack ι ν) (l : List ν) : Prop where
  nodes : Apart s l
  pcs : ∀ t, PcOk s.next (s.owns t) (s.pc t)
  pops : ∀ p ∈ s.pops, p.2 = some p.1

variable {s s' : LFStack ι ν} {l : List ν} {t u : ι} {n : ν}

omit [DecidableEq ι] [DecidableEq ν] in
theorem Inv.conserved (i : Inv s l) : Conserved s := ⟨⟨l, i.nodes⟩, i.pops⟩

omit [DecidableEq ν] in
/-- A step that stores nothing. -/
theorem Inv.goto (i : Inv s l) {pc : StackPc ν} (hpc : PcOk s.next (s.owns t) pc) : Inv (s.goto t pc) l := by
  refine ⟨⟨i.nodes.chain, i.nodes.nodup, i.nodes.all, i.nodes.apart, i.nodes.single, i.nodes.once⟩, fun u => ?_, i.pops⟩
  by_cases h : u = t
  · subst h
    simp only [LFStack.goto, Function.update_self]
    exact hpc
  · simp only [LFStack.goto, Function.update_of_ne h]
    exact i.pcs u

/-- Only nodes that the thread owns are written to: the stack does not change, and neither does what the others
work on. -/
theorem Inv.store (i : Inv s l) (hn : n ∈ s.owns t) (v : Option ν) {pc : StackPc ν}
    (hpc : PcOk (s.store n v).next (s.owns t) pc) : Inv ((s.store n v).goto t pc) l := by
  have hl : n ∉ l := fun h => i.nodes.apart n h t hn
  refine ⟨⟨i.nodes.chain.update hl v, i.nodes.nodup, i.nodes.all, i.nodes.apart, i.nodes.single, i.nodes.once⟩,
    fun u => ?_, i.pops⟩
  by_cases h : u = t
  · subst h
    simp only [LFStack.goto, Function.update_self]
    exact hpc
  · have hu := i.pcs u
    simp only [LFStack.goto, LFStack.store, Function.update_of_ne h]
    cases hp : s.pc u with
    | pushCas m ptr =>
      rw [hp] at hu
      have hne : m ≠ n := fun he => h (i.nodes.single u t m hu.1 (he ▸ hn))
      exact ⟨hu.1, (Function.update_of_ne hne _ _).trans hu.2⟩
    | _ =>
      rw [hp] at hu
      exact hu

omit [DecidableEq ν] in
theorem mem_update {owns : ι → List ν} {k : List ν} {x : ν} :
    x ∈ Function.update owns t k u ↔ (u = t ∧ x ∈ k) ∨ (u ≠ t ∧ x ∈ owns u) := by
  by_cases h : u = t
  · subst h
    simp
  · simp [h]

omit [DecidableEq ν] in
/-- The other threads do not see that `t` has more or fewer nodes. -/
theorem Inv.pcs_update (i : Inv s l) (k : List ν) {pc : StackPc ν} (hpc : PcOk s.next k pc) (u : ι) :
    PcOk s.next (Function.update s.owns t k u) (Function.update s.pc t pc u) := by
  by_cases h : u = t
  · subst h
    simp only [Function.update_self]
    exact hpc
  · simp only [Function.update_of_ne h]
    exact i.pcs u

omit [DecidableEq ι] [DecidableEq ν] in
theorem Inv.count (i : Inv s l) (cnt : Nat) : Inv { s with cnt := cnt } l :=
  ⟨⟨i.nodes.chain, i.nodes.nodup, i.nodes.all, i.nodes.apart, i.nodes.single, i.nodes.once⟩, i.pcs, i.pops⟩

omit [DecidableEq ι] [DecidableEq ν] in
theorem Inv.top (i : Inv s l) (h : s.ptr = some n) : ∃ rest, l = n :: rest := by
  cases l with
  | nil => cases h.symm.trans i.nodes.chain
  | cons x rest =>
    cases Option.some.inj (h.symm.trans i.nodes.chain.1)
    exact ⟨rest, rfl⟩

theorem Inv.pushed (i : Inv s l) (hn : n ∈ s.owns t) (hnext : s.next n = s.ptr) :
    Inv ((s.pushed t n).goto t .pushCnt) (n :: l) := by
  have hl : n ∉ l := fun h => i.nodes.apart n h t hn
  have hsub : ∀ {x u}, x ∈ Function.update s.owns t ((s.owns t).erase n) u → x ∈ s.owns u ∧ x ≠ n := by
    intro x u hx
    rcases mem_update.mp hx with ⟨rfl, hx⟩ | ⟨hne, hx⟩
    · exact ⟨List.mem_of_mem_erase hx, fun he => (i.nodes.once u).not_mem_erase (he ▸ hx)⟩
    · exact ⟨hx, fun he => hne (i.nodes.single u t n (he ▸ hx) hn)⟩
  refine ⟨⟨⟨rfl, ?_⟩, List.nodup_cons.mpr ⟨hl, i.nodes.nodup⟩, ?_, ?_, ?_, ?_⟩,
    i.pcs_update ((s.owns t).erase n) trivial, i.pops⟩
  · change Links.Spells s.next (s.next n) l
    rw [hnext]
    exact i.nodes.chain
  · intro x
    by_cases hx : x = n
    · exact Or.inl (List.mem_cons.mpr (Or.inl hx))
    · rcases i.nodes.all x with hin | ⟨u, hu⟩
      · exact Or.inl (List.mem_cons_of_mem n hin)
      · refine Or.inr ⟨u, mem_update.mpr ?_⟩
        by_cases hut : u = t
        · exact Or.inl ⟨hut, (List.mem_erase_of_ne hx).mpr (hut ▸ hu)⟩
        · exact Or.inr ⟨hut, hu⟩
  · intro x hx u hu
    obtain ⟨hold, hne⟩ := hsub hu
    exact i.nodes.apart x ((List.mem_cons.mp hx).resolve_left hne) u hold
  · intro u v x hu hv
    exact i.nodes.single u v x (hsub hu).1 (hsub hv).1
  · intro u
    by_cases hut : u = t
    · subst hut
      simp only [LFStack.goto, LFStack.pushed, Function.update_self]
      exact (i.nodes.once u).erase n
    · simp only [LFStack.goto, LFStack.pushed, Function.update_of_ne hut]
      exact i.nodes.once u

omit [DecidableEq ν] in
theorem Inv.popped {ptr : ν} (i : Inv s (ptr :: l)) (t : ι) :
    Inv ((s.popped t ptr (s.next ptr)).goto t (.popDec ptr)) l := by
  obtain ⟨hnew, hnodup⟩ := List.nodup_cons.mp i.nodes.nodup
  have hfree : ∀ u, ptr ∉ s.owns u := i.nodes.apart ptr List.mem_cons_self
  refine ⟨⟨i.nodes.chain.2, hnodup, ?_, ?_, ?_, ?_⟩, i.pcs_update (ptr :: s.owns t) List.mem_cons_self, ?_⟩
  · intro x
    rcases i.nodes.all x with hin | ⟨u, hu⟩
    · rcases List.mem_cons.mp hin with rfl | hin
      · exact Or.inr ⟨t, mem_update.mpr (Or.inl ⟨rfl, List.mem_cons_self⟩)⟩
      · exact Or.inl hin
    · refine Or.inr ⟨u, mem_update.mpr ?_⟩
      by_cases hut : u = t
      · exact Or.inl ⟨hut, List.mem_cons_of_mem ptr (hut ▸ hu)⟩
      · exact Or.inr ⟨hut, hu⟩
  · intro x hx u hu
    rcases mem_update.mp hu with ⟨rfl, hu⟩ | ⟨_, hu⟩
    · rcases List.mem_cons.mp hu with rfl | hu
      · exact hnew hx
      · exact i.nodes.apart x (List.mem_cons_of_mem ptr hx) u hu
    · exact i.nodes.apart x (List.mem_cons_of_mem ptr hx) u hu
  · intro u v x hu₀ hv₀
    rcases mem_update.mp hu₀ with ⟨rfl, hu⟩ | ⟨_, hu⟩
    · rcases mem_update.mp hv₀ with ⟨rfl, hv⟩ | ⟨_, hv⟩
      · rfl
      · rcases List.mem_cons.mp hu with rfl | hu
        · exact absurd hv (hfree v)
        · exact i.nodes.single u v x hu hv
    · rcases mem_update.mp hv₀ with ⟨rfl, hv⟩ | ⟨_, hv⟩
      · rcases List.mem_cons.mp hv with rfl | hv
        · exact absurd hu (hfree u)
        · exact i.nodes.single u v x hu hv
      · exact i.nodes.single u v x hu hv
  · intro u
    by_cases hut : u = t
    · subst hut
      simp only [LFStack.goto, LFStack.popped, Function.update_self]
      exact List.nodup_cons.mpr ⟨hfree u, i.nodes.once u⟩
    · simp only [LFStack.goto, LFStack.popped, Function.update_of_ne hut]
      exact i.nodes.once u
  · intro p hp
    rcases List.mem_append.mp hp with hold | hnew
    · exact i.pops p hold
    · cases List.mem_singleton.mp hnew
      exact i.nodes.chain.1

omit [DecidableEq ν] in
/-- A stale `next_` loses the nodes above it, or brings back one that has an owner. -/
theorem Inv.stale {ptr : ν} (i : Inv s (ptr :: l)) (t : ι) {next : Option ν} (hstale : next ≠ s.next ptr)
    (pc : StackPc ν) : ¬Conserved ((s.popped t ptr next).goto t pc) := by
  rintro ⟨⟨k, nodes⟩, _⟩
  obtain ⟨hnew, hnodup⟩ := List.nodup_cons.mp i.nodes.nodup
  have same : ∀ x, x ∈ k ↔ x ∈ l := by
    intro x
    constructor
    · intro hx
      have hfree : ∀ u, x ∉ s.owns u ∧ (u = t → x ≠ ptr) := by
        intro u
        have h := nodes.apart x hx u
        refine ⟨fun hu => h (mem_update.mpr ?_), fun hut he => h (mem_update.mpr ?_)⟩
        · by_cases hut : u = t
          · exact Or.inl ⟨hut, List.mem_cons_of_mem ptr (hut ▸ hu)⟩
          · exact Or.inr ⟨hut, hu⟩
        · exact Or.inl ⟨hut, List.mem_cons.mpr (Or.inl he)⟩
      rcases i.nodes.all x with hin | ⟨u, hu⟩
      · exact (List.mem_cons.mp hin).resolve_left ((hfree t).2 rfl)
      · exact absurd hu (hfree u).1
    · intro hx
      rcases nodes.all x with hin | ⟨u, hu⟩
      · exact hin
      · rcases mem_update.mp hu with ⟨rfl, hu⟩ | ⟨_, hu⟩
        · rcases List.mem_cons.mp hu with rfl | hu
          · exact absurd hx hnew
          · exact absurd hu (i.nodes.apart x (List.mem_cons_of_mem ptr hx) u)
        · exact absurd hu (i.nodes.apart x (List.mem_cons_of_mem ptr hx) u)
  exact hstale (Links.Spells.start_eq hnodup i.nodes.chain.2 nodes.chain same)

/-- Every step keeps all nodes, unless it is a `CAS2` that puts in a stale `next_`. -/
theorem Inv.step (i : Inv s l) {a : ι × StackAct ν} (ha : Current s a) (hs : s.step a = some s') : ∃ l', Inv s' l' := by
  obtain ⟨t, act⟩ := a
  cases act with
  | push n =>
    simp only [LFStack.step] at hs
    split at hs
    next h =>
      cases Option.some.inj hs
      exact ⟨l, i.goto h.2⟩
    next => cases hs
  | pop =>
    simp only [LFStack.step] at hs
    split at hs
    next =>
      cases Option.some.inj hs
      exact ⟨l, i.goto trivial⟩
    next => cases hs
  | run =>
    have hpc := i.pcs t
    simp only [LFStack.step] at hs
    unfold Current at ha
    cases hp : s.pc t with
    | idle =>
      rw [hp] at hs
      cases hs
    | pushLoad n =>
      rw [hp] at hs hpc
      cases Option.some.inj hs
      exact ⟨l, i.goto hpc⟩
    | pushStore n ptr =>
      rw [hp] at hs hpc
      cases Option.some.inj hs
      exact ⟨l, i.store hpc ptr ⟨hpc, Function.update_self _ _ _⟩⟩
    | pushCas n ptr =>
      rw [hp] at hs hpc
      simp only [advance] at hs
      split at hs
      next heq =>
        cases Option.some.inj hs
        exact ⟨n :: l, i.pushed hpc.1 (hpc.2.trans heq.symm)⟩
      next =>
        cases Option.some.inj hs
        exact ⟨l, i.goto hpc.1⟩
    | pushCnt =>
      rw [hp] at hs
      cases Option.some.inj hs
      exact ⟨l, (i.count _).goto trivial⟩
    | popLoad =>
      rw [hp] at hs
      cases Option.some.inj hs
      exact ⟨l, i.goto trivial⟩
    | popCnt ptr =>
      rw [hp] at hs
      cases ptr with
      | none =>
        cases Option.some.inj hs
        exact ⟨l, i.goto trivial⟩
      | some ptr =>
        cases Option.some.inj hs
        exact ⟨l, i.goto trivial⟩
    | popNext ptr popCnt =>
      rw [hp] at hs
      cases Option.some.inj hs
      exact ⟨l, i.goto trivial⟩
    | popCas ptr popCnt next =>
      rw [hp] at hs ha
      simp only [advance] at hs
      split at hs
      next heq =>
        cases Option.some.inj hs
        obtain ⟨rest, rfl⟩ := i.top heq.1
        rw [ha heq]
        exact ⟨rest, i.popped t⟩
      next =>
        cases Option.some.inj hs
        exact ⟨l, i.goto trivial⟩
    | popDec ptr =>
      rw [hp] at hs hpc
      cases Option.some.inj hs
      exact ⟨l, (i.count _).goto hpc⟩
    | popClear ptr =>
      rw [hp] at hs hpc
      cases Option.some.inj hs
      exact ⟨l, i.store hpc none trivial⟩

theorem Inv.step_fails (i : Inv s l) {a : ι × StackAct ν} (ha : ¬Current s a) (hs : s.step a = some s') :
    ¬Conserved s' := by
  obtain ⟨t, act⟩ := a
  unfold Current at ha
  cases hp : s.pc t with
  | popCas ptr popCnt next =>
    simp only [hp] at ha
    obtain ⟨heq, hstale⟩ := Classical.not_imp.mp ha
    cases act with
    | push n =>
      simp only [LFStack.step, hp, reduceCtorEq, false_and, if_false] at hs
    | pop =>
      simp only [LFStack.step, hp, reduceCtorEq, if_false] at hs
    | run =>
      simp only [LFStack.step, hp, advance] at hs
      rw [if_pos heq] at hs
      cases Option.some.inj hs
      obtain ⟨rest, rfl⟩ := i.top heq.1
      exact i.stale t hstale _
  | _ =>
    simp only [hp] at ha
    exact absurd trivial ha

/-- Every node belongs to one thread. -/
structure Dealt (owns : ι → List ν) : Prop where
  all : ∀ x, ∃ t, x ∈ owns t
  single : ∀ t u x, x ∈ owns t → x ∈ owns u → t = u
  once : ∀ t, (owns t).Nodup

/-- In every interleaving, nothing is lost or doubled at any step exactly when no `CAS2` that succeeds puts in a
`next_` that the node no longer has. -/
theorem stack_conserved_iff (next : ν → Option ν) {owns : ι → List ν} (hown : Dealt owns)
    {as : List (ι × StackAct ν)} {s : LFStack ι ν} (run : Machine.exec step (init next owns) as = some s) :
    Machine.Throughout step Conserved (init next owns) as ↔ Machine.Along step Current (init next owns) as := by
  have hstart : Inv (init next owns) [] :=
    ⟨⟨rfl, List.nodup_nil, fun x => Or.inr (hown.all x), (fun x hx => by cases hx), hown.single, hown.once⟩,
      fun _ => trivial, (fun p hp => by cases hp)⟩
  exact Machine.throughout_iff_along (I := fun s => ∃ l, Inv s l) (fun _ ⟨_, i⟩ => i.conserved)
    (fun _ _ _ ⟨_, i⟩ ha hs => i.step ha hs) (fun _ _ _ ⟨_, i⟩ ha hs => i.step_fails ha hs) ⟨[], hstart⟩ run

/-- Two threads meet in `push`, and one of them pops. -/
theorem stack_conserved_sample :
    Machine.Throughout step Conserved (init (fun _ : Bool => none) fun t : Bool => [t])
      [(true, .push true), (false, .push false), (true, .run), (false, .run), (true, .run), (false, .run), (true, .run),
        (false, .run), (false, .run), (false, .run), (false, .run), (true, .run), (true, .pop), (true, .run),
        (true, .run), (true, .run), (true, .run)] :=
  (stack_conserved_iff _ ⟨fun x => ⟨x, List.mem_singleton_self x⟩,
    fun _ _ _ ht hu => (List.mem_singleton.mp ht).symm.trans (List.mem_singleton.mp hu), List.nodup_singleton⟩ rfl).mpr
    (by decide)

/-- The node `true` is popped and pushed again between two loads of another pop, whose counter is new and whose
`next_` is old: the node `false` is lost. -/
theorem stale_next_loses_node :
    ∃ s, Machine.exec step (init (fun _ : Bool => none) fun t : Bool => if t then [true, false] else [])
      [(true, .push false), (true, .run), (true, .run), (true, .run), (true, .run),
        (true, .push true), (true, .run), (true, .run), (true, .run), (true, .run),
        (false, .pop), (false, .run),
        (true, .pop), (true, .run), (true, .run), (true, .run), (true, .run), (true, .run), (true, .run),
        (false, .run), (false, .run),
        (true, .push true), (true, .run), (true, .run), (true, .run), (true, .run),
        (false, .run)] = some s ∧ s.ptr = none ∧ (∀ t, false ∉ s.owns t) ∧ ¬Conserved s := by
  refine ⟨_, rfl, rfl, by decide, ?_⟩
  rintro ⟨⟨l, nodes⟩, _⟩
  cases l with
  | nil => exact absurd (nodes.all false) (by decide)
  | cons x l => cases nodes.chain.1

end LFStack

end Ven
