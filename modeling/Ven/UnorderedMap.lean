import Mathlib.Data.List.Pairwise

namespace Ven

/-- The functors of a hash table: `index` turns a hash into the number of one of its buckets, `first` is how many
buckets it starts with, and `grow` how many it has after an insertion. -/
structure Hashing (K H : Type*) where
  hash : K → H
  equal : K → K → Bool
  index : Nat → H → Nat
  first : Nat
  grow : Nat → Nat → Nat

/-- A hash table. A node hashes the key object it holds, not the one it was looked up with. -/
structure UnorderedMap (K V : Type*) where
  nodes : List (K × V)
  buckets : Nat

namespace UnorderedMap

variable {K V H : Type*} (h : Hashing K H)

def empty : UnorderedMap K V where
  nodes := []
  buckets := h.first

/-- The keys fall into one bucket. -/
def SameBucket (m : UnorderedMap K V) (k k' : K) : Prop := h.index m.buckets (h.hash k) = h.index m.buckets (h.hash k')

instance (m : UnorderedMap K V) (k k' : K) : Decidable (m.SameBucket h k k') :=
  inferInstanceAs (Decidable (h.index m.buckets (h.hash k) = h.index m.buckets (h.hash k')))

/-- A lookup of `k` stops at the node: it only walks the bucket of `k`. -/
def hits (m : UnorderedMap K V) (k : K) (n : K × V) : Bool := decide (m.SameBucket h n.1 k) && h.equal n.1 k

def find (m : UnorderedMap K V) (k : K) : Option (K × V) := m.nodes.find? (m.hits h k)

def insert (m : UnorderedMap K V) (n : K × V) : UnorderedMap K V :=
  if (m.find h n.1).isSome then m
  else { nodes := n :: m.nodes, buckets := h.grow m.buckets (m.nodes.length + 1) }

/-- Takes out the node a lookup of `k` finds. -/
def erase (m : UnorderedMap K V) (k : K) : UnorderedMap K V := { m with nodes := m.nodes.eraseP (m.hits h k) }

/-- No two nodes hold equal keys. -/
def Distinct (m : UnorderedMap K V) : Prop := m.nodes.Pairwise fun n n' => h.equal n.1 n'.1 = false

variable {h} {m : UnorderedMap K V} {k : K} {n : K × V}

theorem hits_iff : m.hits h k n = true ↔ m.SameBucket h n.1 k ∧ h.equal n.1 k = true := by
  simp [hits]

theorem find_isSome_iff : (m.find h k).isSome = true ↔ ∃ n ∈ m.nodes, m.SameBucket h n.1 k ∧ h.equal n.1 k = true := by
  simp only [find, List.find?_isSome, hits_iff]

theorem find_some (hf : m.find h k = some n) : n ∈ m.nodes ∧ m.SameBucket h n.1 k ∧ h.equal n.1 k = true :=
  ⟨List.mem_of_find?_eq_some hf, hits_iff.mp (List.find?_some hf)⟩

/-- `eraseP` takes out what `find?` finds. -/
theorem find_eraseP_perm {α : Type*} {p : α → Bool} {x : α} {xs : List α} (hf : xs.find? p = some x) :
    (x :: xs.eraseP p).Perm xs := by
  induction xs with
  | nil => cases hf
  | cons y ys ih =>
    cases hp : p y with
    | true =>
      rw [List.find?_cons_of_pos hp] at hf
      cases Option.some.inj hf
      rw [List.eraseP_cons_of_pos hp]
    | false =>
      rw [List.find?_cons_of_neg (by simp [hp])] at hf
      rw [List.eraseP_cons_of_neg (by simp [hp])]
      exact (List.Perm.swap y x _).trans ((ih hf).cons y)

theorem erase_perm (hf : m.find h k = some n) : (n :: (m.erase h k).nodes).Perm m.nodes := find_eraseP_perm hf

/-- With no equal key in the table, `insert` adds the node. -/
theorem insert_fresh (fresh : ∀ n' ∈ m.nodes, h.equal n'.1 n.1 = false) :
    m.insert h n = { nodes := n :: m.nodes, buckets := h.grow m.buckets (m.nodes.length + 1) } := by
  have hnone : (m.find h n.1).isSome ≠ true := by
    intro hsome
    obtain ⟨n', hin, _, heq⟩ := find_isSome_iff.mp hsome
    rw [fresh n' hin] at heq
    cases heq
  unfold insert
  rw [if_neg hnone]

theorem Distinct.insert (hd : m.Distinct h) (symm : ∀ a b, h.equal a b = h.equal b a)
    (fresh : ∀ n' ∈ m.nodes, h.equal n'.1 n.1 = false) : (m.insert h n).Distinct h := by
  rw [insert_fresh fresh]
  refine List.pairwise_cons.mpr ⟨fun n' hin => ?_, hd⟩
  rw [symm]
  exact fresh n' hin

/-- Equal keys are those of one node. -/
theorem Distinct.node_unique (hd : m.Distinct h) (symm : ∀ a b, h.equal a b = h.equal b a) {n' : K × V}
    (hin : n ∈ m.nodes) (hin' : n' ∈ m.nodes) (heq : h.equal n.1 n'.1 = true) : n = n' := by
  by_contra hne
  have : Std.Symm fun n n' : K × V => h.equal n.1 n'.1 = false := ⟨fun a b hab => (symm b.1 a.1).trans hab⟩
  have hoff := List.Pairwise.forall hd hin hin' hne
  rw [heq] at hoff
  cases hoff

theorem Distinct.erase (hd : m.Distinct h) (k : K) : (m.erase h k).Distinct h :=
  List.Pairwise.sublist (List.eraseP_sublist) hd

end UnorderedMap

end Ven
