import Ven.ByteMemory
import Ven.Machine
import Mathlib.Data.Int.Order.Basic

namespace Ven

/-- The two branches of `#if defined(WINDOWS)`. -/
inductive Build
  | windows
  | posix
deriving DecidableEq

/-- An `int` converted to `size_t`. -/
def sizeT (z : Int) : Nat := (z % 18446744073709551616).toNat

/-- What `vsnprintf_s` stores and returns for a formatted output: -1 when it is longer than `count`. -/
def vsnprintf_s (count : Nat) (out : List UInt8) : List UInt8 × Int :=
  if out.length ≤ count then (out ++ [0], out.length) else (out.take count ++ [0], -1)

/-- What `vsnprintf` stores and returns: the length before truncation, and -1 when that is no `int`. -/
def vsnprintf (n : Nat) (out : List UInt8) : List UInt8 × Int :=
  if 2147483647 < out.length then ([], -1)
  else if n = 0 then ([], out.length)
  else (out.take (n - 1) ++ [0], out.length)

/-- `arr` are the `size` bytes of `arr_`. `text` records the outputs since the last `reset`, and `overrun` whether
something was written behind the array, where `pos_` itself lies: from then on nothing is known of the object. -/
structure CharArray where
  size : Nat
  arr : Bytes.Memory
  pos : Int
  text : List UInt8
  overrun : Bool

inductive CharOp
  | add (out : List UInt8)
  | reset

namespace CharArray

def init (size : Nat) : CharArray := ⟨size, fun _ => 0, 0, [], false⟩

def len (s : CharArray) : Int := s.pos

def reset (s : CharArray) : CharArray := { s with pos := 0, text := [] }

/-- The call that formats, and which of the two it is. -/
def print (b : Build) (s : CharArray) (out : List UInt8) : List UInt8 × Int :=
  match b with
  | .windows => vsnprintf_s (sizeT (s.size - s.pos - 1)) out
  | .posix => vsnprintf (sizeT (s.size - s.pos)) out

/-- `out` is what the format and its arguments come to. -/
def add (b : Build) (s : CharArray) (out : List UInt8) : CharArray :=
  if s.pos = -1 then { s with text := s.text ++ out }
  else
    let (bytes, ret) := print b s out
    if bytes ≠ [] ∧ s.size < s.pos.toNat + bytes.length then { s with overrun := true }
    else
      { s with
        arr := Bytes.writeAt s.arr s.pos.toNat bytes
        pos := if ret = -1 then -1 else s.pos + ret
        text := s.text ++ out }

def step (b : Build) (s : CharArray) : CharOp → Option CharArray
  | .add out => some (if s.overrun then s else add b s out)
  | .reset => some (if s.overrun then s else reset s)

/-- The number of bytes that `LogFile::write` reads. -/
def read (s : CharArray) : Nat := sizeT s.len

/-- The length is true, `ch` is the text, and neither a writer nor a reader has left the array. -/
structure Sound (s : CharArray) : Prop where
  nonneg : 0 ≤ s.len
  room : s.len ≤ s.size - 1
  text : Bytes.readAt s.arr 0 s.len.toNat = s.text.take s.len.toNat
  most : s.len.toNat ≤ s.text.length
  terminated : s.arr s.len.toNat = 0
  written : s.overrun = false
  read : s.read ≤ s.size

/-- The output fits behind the text, and nothing but an empty text is reset. -/
def Fits (s : CharArray) : CharOp → Prop
  | .add out => s.text.length + out.length ≤ s.size - 1
  | .reset => s.text.headD 0 = 0

instance (s : CharArray) : ∀ op : CharOp, Decidable (Fits s op)
  | .add _ => inferInstanceAs (Decidable (_ ≤ _))
  | .reset => inferInstanceAs (Decidable (_ = _))

variable {s : CharArray} {out : List UInt8}

/-- The whole text stands at the front of the array. -/
structure Whole (s : CharArray) : Prop where
  pos : 1 ≤ s.size
  bits : s.size ≤ 2147483647
  len : s.pos = s.text.length
  room : s.text.length ≤ s.size - 1
  text : Bytes.readAt s.arr 0 s.text.length = s.text
  terminated : s.arr s.text.length = 0
  written : s.overrun = false

theorem whole_init {size : Nat} (hpos : 1 ≤ size) (hbits : size ≤ 2147483647) : Whole (init size) where
  pos := hpos
  bits := hbits
  len := rfl
  room := Nat.zero_le _
  text := rfl
  terminated := rfl
  written := rfl

theorem Whole.sound (h : Whole s) : Sound s := by
  have hlen : s.len = s.text.length := h.len
  have hroom := h.room
  have hpos := h.pos
  have hbits := h.bits
  have hnat : s.len.toNat = s.text.length := by omega
  refine ⟨by omega, by omega, ?_, by omega, ?_, h.written, ?_⟩
  · rw [hnat, List.take_length]
    exact h.text
  · rw [hnat]
    exact h.terminated
  · unfold read sizeT
    omega

theorem Whole.pos_ne (h : Whole s) : s.pos ≠ -1 := by
  have := h.len
  omega

/-- Both functions store an output that fits, and return its length. -/
theorem Whole.print_fits (h : Whole s) (b : Build) (hfit : s.text.length + out.length ≤ s.size - 1) :
    print b s out = (out ++ [0], (out.length : Int)) := by
  have hlen := h.len
  have hpos := h.pos
  have hbits := h.bits
  cases b with
  | windows =>
    have hcount : out.length ≤ sizeT (s.size - s.pos - 1) := by
      unfold sizeT
      omega
    simp only [print, vsnprintf_s, hcount, if_true]
  | posix =>
    have hn : out.length + 1 ≤ sizeT (s.size - s.pos) := by
      unfold sizeT
      omega
    have htake : out.take (sizeT (s.size - s.pos) - 1) = out := List.take_of_length_le (by omega)
    simp only [print, vsnprintf]
    rw [if_neg (by omega), if_neg (by omega), htake]

/-- An output that does not fit leaves the length outside the array, on either side. -/
theorem Whole.print_long (h : Whole s) (b : Build) (hlong : s.size - 1 < s.text.length + out.length) :
    (print b s out).2 = -1 ∨ (s.size : Int) - 1 < s.pos + (print b s out).2 := by
  have hlen := h.len
  have hpos := h.pos
  have hbits := h.bits
  cases b with
  | windows =>
    have hcount : ¬out.length ≤ sizeT (s.size - s.pos - 1) := by
      have hroom := h.room
      unfold sizeT
      omega
    simp only [print, vsnprintf_s, hcount, if_false]
    exact Or.inl trivial
  | posix =>
    simp only [print, vsnprintf]
    split
    next => exact Or.inl rfl
    next =>
      split
      next => exact Or.inr (by change _ < s.pos + (out.length : Int); omega)
      next => exact Or.inr (by change _ < s.pos + (out.length : Int); omega)

/-- Behind a whole text even an output that is cut off stays inside the array. -/
theorem Whole.print_inside (h : Whole s) (b : Build) (out : List UInt8) :
    s.pos.toNat + (print b s out).1.length ≤ s.size := by
  have hlen := h.len
  have hpos := h.pos
  have hbits := h.bits
  have hroom := h.room
  cases b with
  | windows =>
    have hcount : sizeT (s.size - s.pos - 1) + s.pos.toNat + 1 = s.size := by
      unfold sizeT
      omega
    simp only [print, vsnprintf_s]
    split
    next => simp only [List.length_append, List.length_singleton]; omega
    next => simp only [List.length_append, List.length_take, List.length_singleton]; omega
  | posix =>
    have hn : sizeT (s.size - s.pos) + s.pos.toNat = s.size := by
      unfold sizeT
      omega
    simp only [print, vsnprintf]
    split
    next => simp only [List.length_nil]; omega
    next =>
      split
      next => simp only [List.length_nil]; omega
      next => simp only [List.length_append, List.length_take, List.length_singleton]; omega

theorem Whole.add_eq (h : Whole s) (b : Build) (out : List UInt8) :
    s.add b out = { s with
      arr := Bytes.writeAt s.arr s.pos.toNat (print b s out).1
      pos := if (print b s out).2 = -1 then -1 else s.pos + (print b s out).2
      text := s.text ++ out } := by
  unfold CharArray.add
  rw [if_neg h.pos_ne]
  exact if_neg fun hout => Nat.not_lt.mpr (h.print_inside b out) hout.2

theorem Whole.add (h : Whole s) (b : Build) (hfit : s.text.length + out.length ≤ s.size - 1) :
    Whole (s.add b out) := by
  have hlen := h.len
  have hpos := h.pos
  have hnat : s.pos.toNat = s.text.length := by omega
  have hadd : s.add b out = { s with
      arr := Bytes.writeAt s.arr s.text.length (out ++ [0])
      pos := s.pos + out.length
      text := s.text ++ out } := by
    rw [h.add_eq, h.print_fits b hfit, hnat]
    simp only
    rw [if_neg (by omega)]
  rw [hadd]
  refine ⟨hpos, h.bits, ?_, ?_, ?_, ?_, h.written⟩
  · change s.pos + (out.length : Int) = ((s.text ++ out).length : Int)
    rw [List.length_append, hlen]
    push_cast
    rfl
  · change (s.text ++ out).length ≤ s.size - 1
    rw [List.length_append]
    exact hfit
  · change Bytes.readAt (Bytes.writeAt s.arr s.text.length (out ++ [0])) 0 (s.text ++ out).length = s.text ++ out
    rw [List.length_append, Bytes.readAt_add, Bytes.readAt_writeAt_disjoint (by omega), h.text, Nat.zero_add,
      Bytes.writeAt_append, Bytes.readAt_writeAt_disjoint (by omega), Bytes.readAt_writeAt_same]
  · change Bytes.writeAt s.arr s.text.length (out ++ [0]) (s.text ++ out).length = 0
    rw [List.length_append, Bytes.writeAt_inside (by rw [List.length_append]; exact Nat.lt_succ_self _)]
    exact List.getElem_concat_length rfl _

theorem Whole.first (h : Whole s) : s.arr 0 = s.text.headD 0 := by
  cases htext : s.text with
  | nil =>
    have hterm := h.terminated
    rw [htext] at hterm
    exact hterm
  | cons c text =>
    have hread := h.text
    rw [htext, List.length_cons, Nat.add_comm, Bytes.readAt_add] at hread
    exact (List.cons.inj hread).1

theorem Whole.reset (h : Whole s) (hfirst : s.text.headD 0 = 0) : Whole s.reset where
  pos := h.pos
  bits := h.bits
  len := rfl
  room := Nat.zero_le _
  text := rfl
  terminated := h.first.trans hfirst
  written := h.written

theorem Whole.len_add (h : Whole s) (b : Build) (out : List UInt8) :
    (s.add b out).len = (if (print b s out).2 = -1 then -1 else s.pos + (print b s out).2) ∧
      (s.add b out).size = s.size := by
  rw [h.add_eq]
  exact ⟨rfl, rfl⟩

theorem Whole.add_fails (h : Whole s) (b : Build) (hlong : s.size - 1 < s.text.length + out.length) :
    ¬Sound (s.add b out) := by
  intro sound
  obtain ⟨hlen, hsize⟩ := h.len_add b out
  have hnonneg := sound.nonneg
  have hroom := sound.room
  rw [hlen] at hnonneg hroom
  rw [hsize] at hroom
  split at hroom
  next hfail =>
    rw [if_pos hfail] at hnonneg
    omega
  next hfail =>
    rcases h.print_long b hlong with hneg | hpast
    · exact hfail hneg
    · omega

/-- `reset` leaves the text in the array. -/
theorem Whole.reset_fails (h : Whole s) (hfirst : s.text.headD 0 ≠ 0) : ¬Sound s.reset := by
  intro sound
  exact hfirst (h.first.symm.trans sound.terminated)

/-- Text, length and bounds are right after every operation of exactly those sequences in which each output fits
behind the text and no text is reset. -/
theorem formatted_text_sound_iff (b : Build) {size : Nat} (hpos : 1 ≤ size) (hbits : size ≤ 2147483647)
    {ops : List CharOp} {s : CharArray} (run : Machine.exec (step b) (init size) ops = some s) :
    Machine.Throughout (step b) Sound (init size) ops ↔ Machine.Along (step b) Fits (init size) ops := by
  refine Machine.throughout_iff_along (I := Whole) (fun _ h => h.sound) ?_ ?_ (whole_init hpos hbits) run
  · intro s op s' h hfit hs
    cases op with
    | add out =>
      rw [step, h.written] at hs
      cases Option.some.inj hs
      exact h.add b hfit
    | reset =>
      rw [step, h.written] at hs
      cases Option.some.inj hs
      exact h.reset hfit
  · intro s op s' h hfit hs
    cases op with
    | add out =>
      rw [step, h.written] at hs
      cases Option.some.inj hs
      exact h.add_fails b (Nat.lt_of_not_le hfit)
    | reset =>
      rw [step, h.written] at hs
      cases Option.some.inj hs
      exact h.reset_fails hfit

theorem formatted_text_sound_sample :
    Machine.Throughout (step .posix) Sound (init 8) [.reset, .add [97, 98, 99], .add [100, 101, 102, 103]] :=
  (formatted_text_sound_iff .posix (by decide) (by decide) rfl).mpr (by decide)

/-- A text that is cut off leaves a length of -1, or one behind the array, where the next output is written; and a
text that was reset is still there. -/
theorem formatted_text_breaks :
    (∃ s, Machine.exec (step .windows) (init 4) [.add [97, 98, 99, 100]] = some s ∧ s.len = -1 ∧
      s.read = 18446744073709551615 ∧ ¬Sound s) ∧
    (∃ s s', Machine.exec (step .posix) (init 4) [.add [97, 98, 99, 100, 101]] = some s ∧ s.len = 5 ∧ ¬Sound s ∧
      step .posix s (.add [102]) = some s' ∧ s'.overrun = true) ∧
    ∃ s, Machine.exec (step .posix) (init 4) [.add [97], .reset] = some s ∧ s.len = 0 ∧ s.arr 0 = 97 ∧ ¬Sound s := by
  refine ⟨⟨_, rfl, rfl, rfl, fun h => ?_⟩, ⟨_, _, rfl, rfl, fun h => ?_, rfl, rfl⟩, ⟨_, rfl, rfl, rfl, fun h => ?_⟩⟩
  · exact absurd h.nonneg (by decide)
  · exact absurd h.room (by decide)
  · exact absurd h.terminated (by decide)

end CharArray

end Ven
