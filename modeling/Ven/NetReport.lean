import Mathlib.Data.Prod.Lex
import Mathlib.Data.List.Lex
import Mathlib.Order.Nat
import Ven.SortedMap
import Ven.MemPoolState
import Ven.NetServers

namespace Ven

/-- Compares characters as unsigned ones, up to the first difference or the end of a text. -/
def strcmp : List UInt8 → List UInt8 → Int
  | [], [] => 0
  | [], _ :: _ => -1
  | _ :: _, [] => 1
  | c :: s, d :: t => if c = d then strcmp s t else if c < d then -1 else 1

namespace Addr

/-- `operator<` -/
def less (a b : Addr) : Bool :=
  let r := strcmp a.ip b.ip
  if r = 0 then decide (a.port < b.port) else decide (r < 0)

/-- What an address is ordered by. -/
def key (a : Addr) : Lex (List Nat × Nat) := toLex (a.ip.map UInt8.toNat, a.port.toNat)

theorem key_injective : Function.Injective key := by
  intro a b h
  have hpair : (a.ip.map UInt8.toNat, a.port.toNat) = (b.ip.map UInt8.toNat, b.port.toNat) := toLex_inj.mp h
  obtain ⟨ip, port, short, terminated⟩ := a
  obtain ⟨ip', port', short', terminated'⟩ := b
  obtain ⟨hip, hport⟩ := Prod.mk.inj hpair
  have hbytes : ip = ip' := List.map_injective_iff.mpr (fun _ _ => UInt8.toNat.inj) hip
  have hnumber : port = port' := UInt16.toNat.inj hport
  subst hbytes
  subst hnumber
  rfl

instance : LinearOrder Addr := LinearOrder.lift' key key_injective

theorem strcmp_spec (s t : List UInt8) :
    (strcmp s t = 0 ↔ s = t) ∧ (strcmp s t < 0 ↔ s.map UInt8.toNat < t.map UInt8.toNat) := by
  induction s generalizing t with
  | nil =>
    cases t with
    | nil => exact ⟨⟨fun _ => rfl, fun _ => rfl⟩, by simp [strcmp]⟩
    | cons d t => exact ⟨⟨nofun, nofun⟩, by simp [strcmp]⟩
  | cons c s ih =>
    cases t with
    | nil => exact ⟨⟨nofun, nofun⟩, by simp [strcmp]⟩
    | cons d t =>
      obtain ⟨heq, hlt⟩ := ih t
      unfold strcmp
      rw [List.map_cons, List.map_cons, List.cons_lt_cons_iff, List.cons.injEq]
      split
      next hc =>
        subst hc
        exact ⟨heq.trans ⟨fun h => ⟨rfl, h⟩, And.right⟩, by simp [hlt]⟩
      next hc =>
        have hne : c.toNat ≠ d.toNat := fun h => hc (UInt8.toNat.inj h)
        split
        next hless =>
          have hnum : c.toNat < d.toNat := UInt8.lt_iff_toNat_lt.mp hless
          simp [hc, hnum]
        next hless =>
          have hnum : ¬c.toNat < d.toNat := fun h => hless (UInt8.lt_iff_toNat_lt.mpr h)
          simp [hc, hnum, hne]

/-- `operator<` is the order of the addresses. -/
theorem less_iff {a b : Addr} : a.less b = true ↔ a < b := by
  obtain ⟨heq, hlt⟩ := strcmp_spec a.ip b.ip
  have hkey : a < b ↔ a.key < b.key := Iff.rfl
  rw [hkey, key, key, Prod.Lex.toLex_lt_toLex]
  unfold less
  dsimp only
  split
  next hzero =>
    have hip := heq.mp hzero
    rw [hip, decide_eq_true_eq, UInt16.lt_iff_toNat_lt]
    exact ⟨fun h => Or.inr ⟨rfl, h⟩, fun h => h.elim (fun hless => absurd hless (lt_irrefl _)) And.right⟩
  next hzero =>
    rw [decide_eq_true_eq, hlt]
    refine ⟨Or.inl, fun h => h.elim id fun hsame => absurd ?_ hzero⟩
    exact heq.mpr (List.map_injective_iff.mpr (fun _ _ => UInt8.toNat.inj) hsame.1)

end Addr

structure SvrState where
  total : Nat
  free : Nat
  conn : Nat
  accepting : Nat
deriving DecidableEq

structure SOVState where
  total : Nat
  free : Nat

structure NetState where
  mem : MemState
  sov : SOVState
  svr : SortedMap Addr SvrState

namespace Net

variable {α : Type}

/-- `order` is how the loop comes by the servers, and `svrState` what a server writes into its `SvrState`: all four
numbers. -/
def state (mem : MemState) (sov : SOVState) (svrState : Nat → SvrState) (order : List (AddrObj × Nat)) : NetState where
  mem := mem
  sov := sov
  svr := order.foldl (fun m it => m.set it.1.addr (svrState it.2)) .empty

/-- The servers of the report: one entry for each address, and in it the numbers of the last server visited there. -/
theorem mem_svr (mem : MemState) (sov : SOVState) (svrState : Nat → SvrState) (order : List (AddrObj × Nat))
    {a : Addr} {s : SvrState} (h : (a, s) ∈ (state mem sov svrState order).svr.entries) :
    ∃ it ∈ order, it.1.addr = a ∧ s = svrState it.2 := by
  induction order using List.reverseRecOn with
  | nil => cases h
  | append_singleton order it ih =>
    rw [state, List.foldl_append] at h
    rcases SortedMap.mem_set.mp h with ⟨rfl, rfl⟩ | ⟨_, hold⟩
    · exact ⟨it, List.mem_append_right _ (List.mem_singleton.mpr rfl), rfl, rfl⟩
    · obtain ⟨it', hin, haddr, hs⟩ := ih hold
      exact ⟨it', List.mem_append_left _ hin, haddr, hs⟩

theorem mem_svr_keys (mem : MemState) (sov : SOVState) (svrState : Nat → SvrState) (order : List (AddrObj × Nat))
    (a : Addr) : a ∈ (state mem sov svrState order).svr.keys ↔ ∃ it ∈ order, it.1.addr = a := by
  induction order using List.reverseRecOn with
  | nil => exact ⟨nofun, nofun⟩
  | append_singleton order it ih =>
    have hstep : (state mem sov svrState (order ++ [it])).svr =
        (state mem sov svrState order).svr.set it.1.addr (svrState it.2) := List.foldl_append
    rw [hstep, SortedMap.mem_set_keys, ih]
    constructor
    · rintro (rfl | ⟨it', hin, haddr⟩)
      · exact ⟨it, List.mem_append_right _ (List.mem_singleton.mpr rfl), rfl⟩
      · exact ⟨it', List.mem_append_left _ hin, haddr⟩
    · rintro ⟨it', hin, haddr⟩
      rcases List.mem_append.mp hin with hin | hin
      · exact Or.inr ⟨it', hin, haddr⟩
      · rw [List.mem_singleton.mp hin] at haddr
        exact Or.inl haddr.symm

/-- No server is hidden exactly when no two are visited under one address. -/
theorem length_svr (mem : MemState) (sov : SOVState) (svrState : Nat → SvrState) (order : List (AddrObj × Nat)) :
    (state mem sov svrState order).svr.entries.length ≤ order.length ∧
      ((state mem sov svrState order).svr.entries.length = order.length ↔
        (order.map fun it => it.1.addr).Nodup) := by
  induction order using List.reverseRecOn with
  | nil => exact ⟨Nat.le_refl _, fun _ => List.nodup_nil, fun _ => rfl⟩
  | append_singleton order it ih =>
    obtain ⟨hle, hiff⟩ := ih
    have hstep : (state mem sov svrState (order ++ [it])).svr =
        (state mem sov svrState order).svr.set it.1.addr (svrState it.2) := List.foldl_append
    have hmem : it.1.addr ∈ (state mem sov svrState order).svr.keys ↔ it.1.addr ∈ order.map fun it => it.1.addr := by
      rw [mem_svr_keys, List.mem_map]
    rw [hstep, SortedMap.length_set, List.length_append, List.length_singleton, List.map_append, List.map_singleton,
      List.nodup_append_comm, List.singleton_append, List.nodup_cons, ← hmem, ← hiff]
    split
    next hin => exact ⟨by omega, fun h => by omega, fun h => absurd hin h.1⟩
    next hin => exact ⟨by omega, fun h => ⟨hin, by omega⟩, fun h => by omega⟩

/-- In a report over distinct addresses, every server is under its own. -/
theorem svr_of_distinct (mem : MemState) (sov : SOVState) (svrState : Nat → SvrState) {order : List (AddrObj × Nat)}
    (hnodup : (order.map fun it => it.1.addr).Nodup) {it : AddrObj × Nat} (hin : it ∈ order) :
    (it.1.addr, svrState it.2) ∈ (state mem sov svrState order).svr.entries := by
  have hkey := (mem_svr_keys mem sov svrState order it.1.addr).mpr ⟨it, hin, rfl⟩
  obtain ⟨⟨a, s⟩, hentry, rfl⟩ := List.mem_map.mp hkey
  obtain ⟨it', hin', haddr, hs⟩ := mem_svr mem sov svrState order hentry
  have hsame : it' = it := List.inj_on_of_nodup_map hnodup hin' hin haddr
  rw [← hsame, ← hs, haddr]
  exact hentry

variable {std : StdHash} {net : Net α}

theorem distinct_iff_nodup :
    net.tcp_svrs.Distinct (addrHashing std) ↔ (net.tcp_svrs.nodes.map fun it => it.1.addr).Nodup := by
  unfold UnorderedMap.Distinct List.Nodup
  rw [List.pairwise_map]
  refine List.Pairwise.iff fun it it' => ?_
  change AddrEqualTo it.1 it'.1 = false ↔ _
  rw [Bool.eq_false_iff]
  exact not_congr addrEqualTo_iff

/-- A history that keeps to the buckets keeps the addresses of the servers distinct. -/
theorem distinct_of_meets {ops : List (ServerOp α)} (run : Machine.exec (serverStep std) (start std) ops = some net)
    (along : Machine.Along (serverStep std) (Meets std) (start std) ops) :
    net.tcp_svrs.Distinct (addrHashing std) := by
  have keep : ∀ (n : Net α) op n', n.tcp_svrs.Distinct (addrHashing std) → n.Meets std op →
      n.serverStep std op = some n' → n'.tcp_svrs.Distinct (addrHashing std) :=
    fun n op n' hd meets hs => ((right_iff_meets hd op).mpr meets).distinct hd hs
  have hstart : (start std : Net α).tcp_svrs.Distinct (addrHashing std) := List.Pairwise.nil
  exact Machine.exec_invariant_along keep hstart along run

/-- `state` reports exactly the addresses that are registered, in the order of `operator<`. A server is missing
exactly when another is registered under an equal address, which no history makes in which every lookup uses the
bucket of what it looks for; then every server is reported under its address. -/
theorem state_reports {ops : List (ServerOp α)} (run : Machine.exec (serverStep std) (start std) ops = some net)
    {order : List (AddrObj × Nat)} (visited : order.Perm net.tcp_svrs.nodes) (mem : MemState) (sov : SOVState)
    (svrState : Nat → SvrState) :
    (∀ a, a ∈ (state mem sov svrState order).svr.keys ↔ ∃ it ∈ net.tcp_svrs.nodes, it.1.addr = a) ∧
    (state mem sov svrState order).svr.keys.Pairwise (fun a b => a.less b = true) ∧
    ((state mem sov svrState order).svr.entries.length = net.tcp_svrs.nodes.length ↔
      net.tcp_svrs.Distinct (addrHashing std)) ∧
    (Machine.Along (serverStep std) (Meets std) (start std) ops →
      ∀ it ∈ net.tcp_svrs.nodes, (it.1.addr, svrState it.2) ∈ (state mem sov svrState order).svr.entries) := by
  have hnodup : (order.map fun it => it.1.addr).Nodup ↔ net.tcp_svrs.Distinct (addrHashing std) := by
    rw [distinct_iff_nodup]
    exact (visited.map _).nodup_iff
  refine ⟨fun a => ?_, ?_, ?_, fun along it hin => ?_⟩
  · rw [mem_svr_keys]
    exact exists_congr fun it => and_congr_left fun _ => visited.mem_iff
  · exact (state mem sov svrState order).svr.sorted.imp Addr.less_iff.mpr
  · rw [← hnodup, ← visited.length_eq]
    exact (length_svr mem sov svrState order).2
  · exact svr_of_distinct mem sov svrState (hnodup.mpr (distinct_of_meets run along)) (visited.mem_iff.mpr hin)

/-- Two servers under one port, the later one with the smaller address. -/
theorem state_reports_sample :
    ∃ net : Net Nat, Machine.exec (serverStep identityHash) (start identityHash)
      [.run ⟨0, [50], 80, by decide, by decide⟩ (some .stopped) 5 1024,
        .run ⟨8, [49], 80, by decide, by decide⟩ (some .stopped) 6 2048] = some net ∧
      net.tcp_svrs.nodes.map Prod.snd = [6, 5] ∧
      ∀ it ∈ net.tcp_svrs.nodes, (it.1.addr, (⟨it.2, 0, 0, 0⟩ : SvrState)) ∈
        (state ⟨OrdMap.empty ⟨0, 0, 0, 0⟩, 0, 0⟩ ⟨0, 0⟩ (fun svr => ⟨svr, 0, 0, 0⟩) net.tcp_svrs.nodes).svr.entries := by
  have run : ∃ net : Net Nat, Machine.exec (serverStep identityHash) (start identityHash)
      [.run ⟨0, [50], 80, by decide, by decide⟩ (some .stopped) 5 1024,
        .run ⟨8, [49], 80, by decide, by decide⟩ (some .stopped) 6 2048] = some net ∧
      net.tcp_svrs.nodes.map Prod.snd = [6, 5] := ⟨_, rfl, rfl⟩
  obtain ⟨net, run, hnodes⟩ := run
  have hmeets : Machine.Along (serverStep identityHash) (Meets identityHash) (start identityHash : Net Nat)
      [.run ⟨0, [50], 80, by decide, by decide⟩ (some .stopped) 5 1024,
        .run ⟨8, [49], 80, by decide, by decide⟩ (some .stopped) 6 2048] := by
    refine ⟨Or.inr nofun, fun mid hs => ⟨Or.inr fun it hin heq => ?_, fun _ _ => trivial⟩⟩
    cases Option.some.inj hs
    cases List.mem_singleton.mp hin
    cases heq
  exact ⟨net, run, hnodes, (state_reports run (List.Perm.refl _) _ ⟨0, 0⟩ fun svr => ⟨svr, 0, 0, 0⟩).2.2.2 hmeets⟩

end Net

end Ven
