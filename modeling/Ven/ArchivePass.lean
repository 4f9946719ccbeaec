import Ven.Archive
import Ven.BufSetSpec
import Ven.BufGetSpec

namespace Ven

/-- The encodings of the fields. -/
def Packet.enc : (ts : List Ty) → Packet ts → List (List UInt8)
  | [], _ => []
  | t :: ts, p => t.enc p.1 :: enc ts p.2

def Packet.bytes (ts : List Ty) (p : Packet ts) : List UInt8 := (Packet.enc ts p).flatten

def Packet.Same : (ts : List Ty) → Packet ts → Packet ts → Prop
  | [], _, _ => True
  | t :: ts, p, q => t.Same p.1 q.1 ∧ Same ts p.2 q.2

/-- Every string and container of the packet is without elements. -/
def Packet.Empty : (ts : List Ty) → Packet ts → Prop
  | [], _ => True
  | t :: ts, p => t.Empty p.1 ∧ Empty ts p.2

/-- The positions after each of the pieces. -/
def ends : Nat → List (List UInt8) → List Nat
  | _, [] => []
  | pos, x :: xs => (pos + x.length) :: ends (pos + x.length) xs

theorem ends_congr {xs ys : List (List UInt8)} (h : xs.map List.length = ys.map List.length) (pos : Nat) :
    ends pos xs = ends pos ys := by
  induction xs generalizing ys pos with
  | nil =>
    cases ys with
    | nil => rfl
    | cons y ys => cases h
  | cons x xs ih =>
    cases ys with
    | nil => cases h
    | cons y ys =>
      obtain ⟨hx, hxs⟩ := List.cons.inj h
      rw [ends, ends, hx, ih hxs]

namespace Archive

variable (I : Impl)

/-- Each field's `set` returns the field's size and writes its own range, byte for byte, and nothing
else. -/
def EachFills : (ts : List Ty) → Archive → Packet ts → Prop
  | [], _, _ => True
  | t :: ts, ar, p =>
    ((Buf.set ar.len t p.1 ar.mem ar.pos).ret = Sizer.size t p.1 ∧
      Tiles ar.pos (Buf.set ar.len t p.1 ar.mem ar.pos).writes (ar.pos + Sizer.size t p.1)) ∧
    EachFills ts (ar.shl I t p.1).1 p.2

theorem size_pass {ts : List Ty} (p : Packet ts) (ar : Archive) (hmode : ar.mode = .size)
    (hfit : ar.pos + (Packet.bytes ts p).length < 4294967296) :
    (serialize I ts ar p).1.pos = ar.pos + (Packet.bytes ts p).length ∧
      (serialize I ts ar p).1.trail = ar.trail ++ ends ar.pos (Packet.enc ts p) := by
  induction ts generalizing ar with
  | nil => exact ⟨rfl, (List.append_nil _).symm⟩
  | cons t ts ih =>
    have hbytes : Packet.bytes (t :: ts) p = t.enc p.1 ++ Packet.bytes ts p.2 := rfl
    rw [hbytes, List.length_append] at hfit ⊢
    have hsize := size_eq t p.1
    have hpos : add32 ar.pos (Sizer.size t p.1) = ar.pos + (t.enc p.1).length := by
      rw [add32_of_lt (by omega)]
      omega
    have hshl := shl_size I hmode t p.1
    rw [hpos] at hshl
    obtain ⟨hp, ht⟩ := ih p.2 (ar.shl I t p.1).1 (by rw [hshl]; exact hmode) (by rw [hshl]; dsimp only; omega)
    rw [hshl] at hp ht
    have hser : (serialize I (t :: ts) ar p).1 = (serialize I ts (ar.shl I t p.1).1 p.2).1 := rfl
    rw [hser, hshl]
    refine ⟨by rw [hp]; dsimp only; omega, ?_⟩
    rw [ht, List.append_assoc]
    rfl

theorem write_pass {ts : List Ty} (p : Packet ts) (ar : Archive) (hmode : ar.mode = .write)
    (hlen : ar.len < 4294967296) (hfit : ar.pos + (Packet.bytes ts p).length ≤ ar.len) :
    (serialize I ts ar p).1.mem = Bytes.writeAt ar.mem ar.pos (Packet.bytes ts p) ∧
      (serialize I ts ar p).1.trail = ar.trail ++ ends ar.pos (Packet.enc ts p) ∧
      (∃ ws, (serialize I ts ar p).1.writes = ar.writes ++ ws ∧
        Tiles ar.pos ws (ar.pos + (Packet.bytes ts p).length)) ∧
      EachFills I ts ar p := by
  induction ts generalizing ar with
  | nil =>
    refine ⟨(Bytes.writeAt_nil _ _).symm, (List.append_nil _).symm, ⟨[], (List.append_nil _).symm, rfl⟩, trivial⟩
  | cons t ts ih =>
    have hbytes : Packet.bytes (t :: ts) p = t.enc p.1 ++ Packet.bytes ts p.2 := rfl
    rw [hbytes, List.length_append] at hfit
    have hput := set_spec hlen t p.1 ar.mem ar.pos (by omega)
    have hpos : add32 ar.pos (t.enc p.1).length = ar.pos + (t.enc p.1).length := add32_of_lt (by omega)
    have hshl := shl_write I hmode t p.1
    rw [hput.ret, hpos, hput.mem] at hshl
    obtain ⟨hm, ht, ⟨ws, hws, htiles⟩, heach⟩ := ih p.2 (ar.shl I t p.1).1 (by rw [hshl]; exact hmode)
      (by rw [hshl]; exact hlen) (by rw [hshl]; dsimp only; omega)
    have hser : (serialize I (t :: ts) ar p).1 = (serialize I ts (ar.shl I t p.1).1 p.2).1 := rfl
    have hsize := size_eq t p.1
    have hsame : (t.enc p.1).length = Sizer.size t p.1 := by omega
    refine ⟨?_, ?_, ⟨(Buf.set ar.len t p.1 ar.mem ar.pos).writes ++ ws, ?_, ?_⟩, ?_, heach⟩
    · rw [hser, hm, hshl, hbytes, Bytes.writeAt_append]
    · rw [hser, ht, hshl, List.append_assoc]
      rfl
    · rw [hser, hws, hshl, List.append_assoc]
    · rw [hshl] at htiles
      rw [hbytes, List.length_append, ← Nat.add_assoc]
      exact hput.writes.append htiles
    · rw [← hsame]
      exact ⟨hput.ret, hput.writes⟩

theorem read_pass {ts : List Ty} (p q : Packet ts) (hq : Packet.Empty ts q) (ar : Archive)
    (hmode : ar.mode = .read) (hlen : ar.len < 4294967296)
    (h : Holds ar.mem ar.len ar.pos (Packet.bytes ts p)) :
    Packet.Same ts p (serialize I ts ar q).2 ∧
      (serialize I ts ar q).1.pos = ar.pos + (Packet.bytes ts p).length := by
  induction ts generalizing ar with
  | nil => exact ⟨trivial, rfl⟩
  | cons t ts ih =>
    have hbytes : Packet.bytes (t :: ts) p = t.enc p.1 ++ Packet.bytes ts p.2 := rfl
    rw [hbytes] at h ⊢
    have hfit := h.1
    rw [List.length_append] at hfit
    obtain ⟨hfst, hsnd⟩ := holds_append.mp h
    obtain ⟨hsame, hret⟩ := get_spec I hlen t p.1 q.1 hq.1 ar.pos hfst
    have hpos : add32 ar.pos (t.enc p.1).length = ar.pos + (t.enc p.1).length := add32_of_lt (by omega)
    have hshl := shl_read I hmode t q.1
    rw [hret, hpos] at hshl
    obtain ⟨hrest, hp⟩ := ih p.2 q.2 hq.2 (ar.shl I t q.1).1 (by rw [hshl]; exact hmode)
      (by rw [hshl]; exact hlen) (by rw [hshl]; exact hsnd)
    have hser : serialize I (t :: ts) ar q = ((serialize I ts (ar.shl I t q.1).1 q.2).1,
      ((ar.shl I t q.1).2, (serialize I ts (ar.shl I t q.1).1 q.2).2)) := rfl
    rw [hser, List.length_append]
    refine ⟨⟨?_, hrest⟩, ?_⟩
    · rw [hshl]
      exact hsame
    · rw [hp, hshl]
      exact Nat.add_assoc _ _ _

end Archive

end Ven
