import Ven.Net

namespace Ven

/-- Calls of `run_tcp_server` and `stop_tcp_server`. -/
inductive ServerOp (α : Type)
  | run (conf : AddrObj) (server : Option (TcpServer α)) (svr : Nat) (node : UInt64)
  | stop (addr : AddrObj)

namespace Net

variable {α : Type} (std : StdHash)

/-- A `Net` without endpoints. -/
def start : Net α where
  tcp_svrs := UnorderedMap.empty (addrHashing std)
  tcp_clis := []
  udp_sessions := []
  iocp := true
  servers := fun _ => .stopped
  clients := fun _ => .start false 0 0 0
  udps := fun _ => .fresh

/-- A server with an equal address is registered. -/
def Registered (net : Net α) (a : AddrObj) : Prop := ∃ n ∈ net.tcp_svrs.nodes, AddrEqualTo n.1 a = true

/-- `run_tcp_server` fails exactly when the address is taken or `listen` fails, and `stop_tcp_server` succeeds
exactly when the address is registered and then removes that server. -/
def Right (net : Net α) : ServerOp α → Prop
  | .run conf server svr node =>
    ((net.run_tcp_server std conf server svr node).2 = false ↔ net.Registered conf ∨ server = none) ∧
      ((net.run_tcp_server std conf server svr node).2 = false →
        (net.run_tcp_server std conf server svr node).1 = net) ∧
      ((net.run_tcp_server std conf server svr node).2 = true →
        (net.run_tcp_server std conf server svr node).1.tcp_svrs.nodes =
          (⟨node, conf.addr⟩, svr) :: net.tcp_svrs.nodes)
  | .stop addr =>
    ((net.stop_tcp_server std addr).2 = true ↔ net.Registered addr) ∧
      ((net.stop_tcp_server std addr).2 = false → (net.stop_tcp_server std addr).1 = net) ∧
      ((net.stop_tcp_server std addr).2 = true → ∃ n, AddrEqualTo n.1 addr = true ∧
        (n :: (net.stop_tcp_server std addr).1.tcp_svrs.nodes).Perm net.tcp_svrs.nodes ∧
        (net.stop_tcp_server std addr).1.servers n.2 = .stopped)

/-- The address looked up and the equal one in the map, two objects, fall into one bucket. -/
def Meets (net : Net α) : ServerOp α → Prop
  | .run conf server _ _ => server = none ∨ ∀ n ∈ net.tcp_svrs.nodes, AddrEqualTo n.1 conf = true →
      net.tcp_svrs.SameBucket (addrHashing std) n.1 conf
  | .stop addr => ∀ n ∈ net.tcp_svrs.nodes, AddrEqualTo n.1 addr = true →
      net.tcp_svrs.SameBucket (addrHashing std) n.1 addr

def serverStep (net : Net α) : ServerOp α → Option (Net α)
  | .run conf server svr node => some (net.run_tcp_server std conf server svr node).1
  | .stop addr => some (net.stop_tcp_server std addr).1

variable {std} {net net' : Net α}

theorem found_iff {a : AddrObj} : (net.tcp_svrs.find (addrHashing std) a).isSome = true ↔
    ∃ n ∈ net.tcp_svrs.nodes, net.tcp_svrs.SameBucket (addrHashing std) n.1 a ∧ AddrEqualTo n.1 a = true :=
  UnorderedMap.find_isSome_iff

/-- With distinct addresses in the map, a lookup finds what is registered exactly when it looks into its bucket. -/
theorem found_registered_iff (hd : net.tcp_svrs.Distinct (addrHashing std)) (a : AddrObj) :
    ((net.tcp_svrs.find (addrHashing std) a).isSome = true ↔ net.Registered a) ↔
      ∀ n ∈ net.tcp_svrs.nodes, AddrEqualTo n.1 a = true → net.tcp_svrs.SameBucket (addrHashing std) n.1 a := by
  constructor
  · intro h n hin heq
    obtain ⟨n', hin', hsame, heq'⟩ := found_iff.mp (h.mpr ⟨n, hin, heq⟩)
    have hboth : AddrEqualTo n.1 n'.1 = true :=
      addrEqualTo_iff.mpr ((addrEqualTo_iff.mp heq).trans (addrEqualTo_iff.mp heq').symm)
    have hone : n = n' := hd.node_unique addrEqualTo_comm hin hin' hboth
    rw [hone]
    exact hsame
  · intro h
    rw [found_iff]
    constructor
    · rintro ⟨n, hin, _, heq⟩
      exact ⟨n, hin, heq⟩
    · rintro ⟨n, hin, heq⟩
      exact ⟨n, hin, h n hin heq, heq⟩

theorem run_not_found {conf : AddrObj} {server : TcpServer α} {svr : Nat} {node : UInt64}
    (hnone : (net.tcp_svrs.find (addrHashing std) conf).isSome = false) :
    net.run_tcp_server std conf (some server) svr node = ({ net with
      servers := Function.update net.servers svr server
      tcp_svrs := net.tcp_svrs.insert (addrHashing std) (⟨node, conf.addr⟩, svr) }, true) := by
  unfold run_tcp_server
  rw [hnone]
  rfl

theorem run_refused {conf : AddrObj} {server : Option (TcpServer α)} {svr : Nat} {node : UInt64}
    (h : server = none ∨ (net.tcp_svrs.find (addrHashing std) conf).isSome = true) :
    net.run_tcp_server std conf server svr node = (net, false) := by
  unfold run_tcp_server
  split
  next => rfl
  next hnone =>
    rcases h with hserver | hfound
    · rw [hserver]
    · exact absurd hfound hnone

/-- The new node holds an address that no other node holds. -/
theorem fresh_node {conf : AddrObj} (free : ¬net.Registered conf) (node : UInt64) :
    ∀ n ∈ net.tcp_svrs.nodes, (addrHashing std).equal n.1 ⟨node, conf.addr⟩ = false := by
  intro n hin
  change AddrEqualTo n.1 ⟨node, conf.addr⟩ = false
  rw [Bool.eq_false_iff]
  intro heq
  exact free ⟨n, hin, addrEqualTo_iff.mpr (addrEqualTo_iff.mp heq)⟩

theorem run_right_iff (hd : net.tcp_svrs.Distinct (addrHashing std)) (conf : AddrObj) (server : Option (TcpServer α))
    (svr : Nat) (node : UInt64) :
    net.Right std (.run conf server svr node) ↔ net.Meets std (.run conf server svr node) := by
  cases server with
  | none =>
    have hres : net.run_tcp_server std conf none svr node = (net, false) := run_refused (Or.inl rfl)
    refine ⟨fun _ => Or.inl rfl, fun _ => ?_⟩
    simp only [Right, hres]
    exact ⟨⟨fun _ => Or.inr trivial, fun _ => trivial⟩, fun _ => trivial, nofun⟩
  | some server =>
    rw [show net.Meets std (.run conf (some server) svr node) ↔ ∀ n ∈ net.tcp_svrs.nodes, AddrEqualTo n.1 conf = true →
      net.tcp_svrs.SameBucket (addrHashing std) n.1 conf by simp [Meets], ← found_registered_iff hd conf]
    cases hfound : (net.tcp_svrs.find (addrHashing std) conf).isSome with
    | true =>
      have hres : net.run_tcp_server std conf (some server) svr node = (net, false) := run_refused (Or.inr hfound)
      simp only [Right, hres, reduceCtorEq, or_false]
      exact ⟨fun h => h.1, fun h => ⟨h, fun _ => trivial, nofun⟩⟩
    | false =>
      have hres : net.run_tcp_server std conf (some server) svr node = _ := run_not_found hfound
      simp only [Right, hres, reduceCtorEq, or_false]
      constructor
      · exact fun h => h.1
      · intro h
        have free : ¬net.Registered conf := fun hreg => h.mpr hreg
        refine ⟨⟨nofun, fun hreg => absurd hreg free⟩, nofun, fun _ => ?_⟩
        rw [UnorderedMap.insert_fresh (fresh_node free node)]

theorem stop_not_found {addr : AddrObj} (hnone : net.tcp_svrs.find (addrHashing std) addr = none) :
    net.stop_tcp_server std addr = (net, false) := by
  unfold stop_tcp_server
  rw [hnone]

theorem stop_found {addr : AddrObj} {it : AddrObj × Nat} (hf : net.tcp_svrs.find (addrHashing std) addr = some it) :
    net.stop_tcp_server std addr = ({ net with
      tcp_svrs := net.tcp_svrs.erase (addrHashing std) addr
      servers := Function.update net.servers it.2 .stopped }, true) := by
  unfold stop_tcp_server
  rw [hf]

theorem stop_right_iff (hd : net.tcp_svrs.Distinct (addrHashing std)) (addr : AddrObj) :
    net.Right std (.stop addr) ↔ net.Meets std (.stop addr) := by
  rw [show net.Meets std (.stop addr) ↔ _ from Iff.rfl]
  unfold Meets
  dsimp only
  rw [← found_registered_iff hd addr]
  cases hfound : net.tcp_svrs.find (addrHashing std) addr with
  | none =>
    simp only [Right, stop_not_found hfound, Option.isSome_none]
    exact ⟨fun h => h.1, fun h => ⟨h, fun _ => trivial, nofun⟩⟩
  | some it =>
    simp only [Right, stop_found hfound, Option.isSome_some]
    refine ⟨fun h => h.1, fun h => ⟨h, nofun, fun _ => ⟨it, ?_, UnorderedMap.erase_perm hfound, ?_⟩⟩⟩
    · exact (UnorderedMap.find_some hfound).2.2
    · exact Function.update_self it.2 _ _

theorem right_iff_meets (hd : net.tcp_svrs.Distinct (addrHashing std)) (op : ServerOp α) :
    net.Right std op ↔ net.Meets std op := by
  cases op with
  | run conf server svr node => exact run_right_iff hd conf server svr node
  | stop addr => exact stop_right_iff hd addr

/-- What is right keeps the addresses in the map distinct. -/
theorem Right.distinct {op : ServerOp α} (right : net.Right std op) (hd : net.tcp_svrs.Distinct (addrHashing std))
    (hs : net.serverStep std op = some net') : net'.tcp_svrs.Distinct (addrHashing std) := by
  cases op with
  | run conf server svr node =>
    cases Option.some.inj hs
    cases hres : (net.run_tcp_server std conf server svr node).2 with
    | false =>
      rw [right.2.1 hres]
      exact hd
    | true =>
      have free : ¬net.Registered conf := by
        intro hreg
        have hno := right.1.mpr (Or.inl hreg)
        rw [hres] at hno
        cases hno
      unfold UnorderedMap.Distinct
      rw [right.2.2 hres]
      refine List.pairwise_cons.mpr ⟨fun n hin => ?_, hd⟩
      change AddrEqualTo ⟨node, conf.addr⟩ n.1 = false
      rw [addrEqualTo_comm]
      have hfresh : (addrHashing std).equal n.1 ⟨node, conf.addr⟩ = false := fresh_node free node n hin
      exact hfresh
  | stop addr =>
    cases Option.some.inj hs
    cases hres : (net.stop_tcp_server std addr).2 with
    | false =>
      rw [right.2.1 hres]
      exact hd
    | true =>
      cases hfound : net.tcp_svrs.find (addrHashing std) addr with
      | none =>
        rw [stop_not_found hfound]
        exact hd
      | some it =>
        rw [stop_found hfound]
        exact hd.erase addr

theorem distinct_right_along (hd : net.tcp_svrs.Distinct (addrHashing std)) (ops : List (ServerOp α)) :
    Machine.Along (serverStep std) (Right std) net ops ↔ Machine.Along (serverStep std) (Meets std) net ops := by
  induction ops generalizing net with
  | nil => exact Iff.rfl
  | cons op ops ih =>
    simp only [Machine.Along]
    rw [← right_iff_meets hd op]
    refine and_congr_right fun right => ?_
    refine forall_congr' fun mid => ?_
    exact imp_congr_right fun hs => ih (right.distinct hd hs)

/-- Two objects with one address have one hash only as one object, and the registry follows the addresses in
exactly the histories in which every lookup of a registered address happens to use its bucket. -/
theorem registry_right_iff :
    (∀ a b : AddrObj, AddrEqualTo a b = true → ((∀ std, AddrHash std a = AddrHash std b) ↔ a.loc = b.loc)) ∧
    ∀ (std : StdHash) (ops : List (ServerOp α)),
      Machine.Along (serverStep std) (Right std) (start std) ops ↔
        Machine.Along (serverStep std) (Meets std) (start std) ops := by
  refine ⟨fun a b heq => addrHash_of_equal heq, fun std ops => ?_⟩
  have hd : (start std : Net α).tcp_svrs.Distinct (addrHashing std) := List.Pairwise.nil
  exact distinct_right_along hd ops

/-- Hashes that are the values themselves, in thirteen buckets. -/
def identityHash : StdHash where
  pointer := id
  size := id
  index := fun n h => h.toNat % n
  first := 13
  grow := fun n _ => n

/-- "127.0.0.1" -/
def loopback (loc : UInt64) : AddrObj where
  loc := loc
  addr := ⟨[49, 50, 55, 46, 48, 46, 48, 46, 49], 80, by decide, by decide⟩

/-- The address of a registered server is not found in another object: a second server is run under it, and
neither is stopped. -/
theorem registry_misses :
    AddrEqualTo (loopback 4096) (loopback 12288) = true ∧
    AddrHash identityHash (loopback 4096) ≠ AddrHash identityHash (loopback 12288) ∧
    ∃ one two three : Net Nat,
      run_tcp_server identityHash (start identityHash) (loopback 4096) (some .stopped) 1 8192 = (one, true) ∧
      run_tcp_server identityHash one (loopback 12288) (some .stopped) 2 16384 = (two, true) ∧
      stop_tcp_server identityHash two (loopback 4096) = (three, false) ∧
      one.Registered (loopback 12288) ∧ two.Registered (loopback 4096) ∧
      ¬Machine.Along (serverStep identityHash) (Right identityHash) (start identityHash : Net Nat)
        [.run (loopback 4096) (some .stopped) 1 8192, .run (loopback 12288) (some .stopped) 2 16384] := by
  refine ⟨by decide, by decide, _, _, _, rfl, rfl, rfl, ?_, ?_, ?_⟩
  · exact ⟨_, List.mem_cons_self, rfl⟩
  · exact ⟨_, List.mem_cons_self, rfl⟩
  · intro along
    have hright := (along.2 _ rfl).1
    have hno := hright.1.mpr (Or.inl ⟨_, List.mem_cons_self, rfl⟩)
    cases hno

end Net

end Ven
