import Mathlib.Algebra.Order.BigOperators.Group.List
import Mathlib.Algebra.Order.Group.Nat
import Mathlib.Algebra.GroupWithZero.Nat
import Mathlib.Data.List.Basic

namespace Ven

variable {κ : Type} [DecidableEq κ]

/-- The log files there are, each with its length. -/
abbrev Files (κ : Type) := List (κ × Nat)

namespace Files

/-- A file that does not exist has no bytes. -/
def size (p : κ) : Files κ → Nat
  | [] => 0
  | (q, n) :: fs => if q = p then n else size p fs

/-- `n` bytes go to the end of a file, which is created if need be. -/
def append (p : κ) (n : Nat) : Files κ → Files κ
  | [] => [(p, n)]
  | (q, m) :: fs => if q = p then (q, m + n) :: fs else (q, m) :: append p n fs

def paths (fs : Files κ) : List κ := fs.map Prod.fst

def total (fs : Files κ) : Nat := (fs.map Prod.snd).sum

variable {p q : κ} {n B : Nat} {fs : Files κ}

theorem size_append_self : (fs.append p n).size p = fs.size p + n := by
  induction fs with
  | nil => simp [append, size]
  | cons f fs ih =>
    obtain ⟨q, m⟩ := f
    by_cases h : q = p
    · simp [append, size, h]
    · simp only [append, size, h, if_false]
      exact ih

theorem paths_append_of_mem (h : p ∈ fs.paths) : (fs.append p n).paths = fs.paths := by
  induction fs with
  | nil => cases h
  | cons f fs ih =>
    obtain ⟨q, m⟩ := f
    by_cases hq : q = p
    · simp [append, paths, hq]
    · have hrest : p ∈ paths fs := (List.mem_cons.mp h).resolve_left fun he => hq he.symm
      simp only [append, hq, if_false]
      exact congrArg (q :: ·) (ih hrest)

theorem paths_append_of_notMem (h : p ∉ fs.paths) : (fs.append p n).paths = fs.paths ++ [p] := by
  induction fs with
  | nil => rfl
  | cons f fs ih =>
    obtain ⟨q, m⟩ := f
    have hne := List.ne_of_not_mem_cons h
    simp only [append, hne.symm, if_false]
    exact congrArg (q :: ·) (ih (List.not_mem_of_not_mem_cons h))

theorem mem_append_self : (p, fs.size p + n) ∈ fs.append p n := by
  induction fs with
  | nil => simp [append, size]
  | cons f fs ih =>
    obtain ⟨q, m⟩ := f
    by_cases h : q = p
    · simp [append, size, h]
    · simp only [append, size, h, if_false]
      exact List.mem_cons_of_mem _ ih

/-- The other files stay as they are. -/
theorem append_bounded (h : ∀ f ∈ fs, f.2 < B) (hp : fs.size p + n < B) : ∀ f ∈ fs.append p n, f.2 < B := by
  induction fs with
  | nil =>
    intro f hf
    cases List.mem_singleton.mp hf
    simpa [size] using hp
  | cons g fs ih =>
    obtain ⟨q, m⟩ := g
    intro f hf
    by_cases hq : q = p
    · simp only [append, hq, if_true] at hf
      simp only [size, hq, if_true] at hp
      rcases List.mem_cons.mp hf with rfl | hf
      · exact hp
      · exact h f (List.mem_cons_of_mem _ hf)
    · simp only [append, hq, if_false] at hf
      simp only [size, hq, if_false] at hp
      rcases List.mem_cons.mp hf with rfl | hf
      · exact h _ List.mem_cons_self
      · exact ih (fun g hg => h g (List.mem_cons_of_mem _ hg)) hp f hf

theorem size_lt (h : ∀ f ∈ fs, f.2 < B) (hB : 0 < B) : fs.size p < B := by
  induction fs with
  | nil => exact hB
  | cons f fs ih =>
    obtain ⟨q, m⟩ := f
    simp only [size]
    split
    next => exact h (q, m) List.mem_cons_self
    next => exact ih fun g hg => h g (List.mem_cons_of_mem _ hg)

omit [DecidableEq κ] in
theorem total_le (h : ∀ f ∈ fs, f.2 < B) : fs.total ≤ fs.paths.length * B := by
  have hsum := List.sum_le_card_nsmul (fs.map Prod.snd) B (by
    intro n hn
    obtain ⟨f, hf, rfl⟩ := List.mem_map.mp hn
    exact (h f hf).le)
  unfold paths
  rw [List.length_map] at hsum ⊢
  exact hsum

end Files

/-- `file` is the path that `file_` was opened with, and `none` for a null pointer; `files` is the directory. -/
structure LogFile (κ : Type) where
  file : Option κ
  size : Nat
  files : Files κ

namespace LogFile

/-- No file is open, and there is none. -/
def start : LogFile κ := ⟨none, 0, []⟩

def valid (f : LogFile κ) : Bool := f.file.isSome

/-- `open_file` opens in append mode, where it does not fail; `fseek` and `ftell` give the length, also where a `long`
does not hold it. -/
def «open» (f : LogFile κ) (path : κ) : LogFile κ :=
  ⟨some path, (f.files.append path 0).size path, f.files.append path 0⟩

def write (f : LogFile κ) (len : Nat) : LogFile κ :=
  match f.file with
  | none => f
  | some path => ⟨f.file, f.size + len, f.files.append path len⟩

/-- `size_` is the length of the file that is open. -/
def Fresh (f : LogFile κ) : Prop := ∀ path, f.file = some path → f.size = f.files.size path

theorem fresh_open (f : LogFile κ) (path : κ) : (f.open path).Fresh := by
  intro q hq
  cases Option.some.inj hq
  rfl

theorem Fresh.write {f : LogFile κ} (h : f.Fresh) (len : Nat) : (f.write len).Fresh := by
  intro q hq
  unfold LogFile.write at hq ⊢
  split at hq
  next hf => cases hf.symm.trans hq
  next path hf =>
    cases Option.some.inj (hf.symm.trans hq)
    change f.size + len = (f.files.append q len).size q
    rw [Files.size_append_self, h q hf]

end LogFile

end Ven
