import Ven.FrameParse

namespace Ven

open SessionTCP

/-- A buffer that a session with the default functions takes for one packet. -/
structure Whole (frame : List UInt8) : Prop where
  size : getPacketSize frame = some frame.length
  valid : isValidPacketSize frame.length = true

variable {frame : List UInt8}

theorem Whole.header (h : Whole frame) : 4 ≤ frame.length ∧ Bytes.leNat (frame.take 4) = frame.length := by
  have hlen : ¬frame.length < headerSize := by
    intro hlt
    have hs := h.size
    rw [getPacketSize, if_pos hlt] at hs
    cases hs
  have hle : 4 ≤ frame.length := Nat.le_of_not_lt hlen
  have hs := h.size
  rw [getPacketSize_of_le hle] at hs
  exact ⟨hle, Option.some.inj hs⟩

theorem Whole.bounds (h : Whole frame) : ¬(frame.length = 0 ∨ 131072 < frame.length) :=
  (@valid_defaults 0 _).mp h.valid

instance (frame : List UInt8) : Decidable (Whole frame) :=
  decidable_of_iff (getPacketSize frame = some frame.length ∧ isValidPacketSize frame.length = true)
    ⟨fun h => ⟨h.1, h.2⟩, fun h => ⟨h.size, h.valid⟩⟩

/-- The parse of a stream that begins with a packet. -/
theorem refParse_whole (h : Whole frame) (more : List UInt8) :
    refParse (frame ++ more) = { refParse more with frames := frame :: (refParse more).frames } := by
  obtain ⟨hle, hnat⟩ := h.header
  have htake : Bytes.leNat ((frame ++ more).take 4) = frame.length := by
    rw [List.take_append_of_le_length hle, hnat]
  rw [refParse, if_neg (by rw [List.length_append]; omega)]
  dsimp only
  rw [htake, if_neg h.bounds, if_pos (by rw [List.length_append]; omega), List.drop_left, List.take_left]

/-- The parse of a packet that is cut off. -/
theorem refParse_cut (h : Whole frame) {bytes : List UInt8} (hpre : bytes <+: frame)
    (hlt : bytes.length < frame.length) : refParse bytes = ⟨[], bytes, false⟩ := by
  obtain ⟨hle, hnat⟩ := h.header
  rw [refParse]
  split
  next => rfl
  next hlong =>
    obtain ⟨rest, hrest⟩ := hpre
    have htake : Bytes.leNat (bytes.take 4) = frame.length := by
      rw [← hnat, ← hrest, List.take_append_of_le_length (by omega)]
    dsimp only
    rw [htake, if_neg h.bounds, if_neg (by omega)]

theorem refParse_nil : refParse [] = ⟨[], [], false⟩ := by
  rw [refParse]
  rfl

/-- The packets of a stream come out whole, once and in order, however much of the stream is there. -/
theorem refParse_prefix {frames : List (List UInt8)} (hw : ∀ f ∈ frames, Whole f) {bytes : List UInt8}
    (hpre : bytes <+: frames.flatten) :
    (refParse bytes).bad = false ∧ (refParse bytes).frames <+: frames := by
  induction frames generalizing bytes with
  | nil =>
    have hnil : bytes = [] := List.prefix_nil.mp hpre
    rw [hnil, refParse_nil]
    exact ⟨rfl, List.prefix_refl _⟩
  | cons f frames ih =>
    have hf := hw f List.mem_cons_self
    rw [List.flatten_cons] at hpre
    rcases Nat.lt_or_ge bytes.length f.length with hlt | hge
    · have hcut : bytes <+: f := List.prefix_of_prefix_length_le hpre (List.prefix_append _ _) (Nat.le_of_lt hlt)
      rw [refParse_cut hf hcut hlt]
      exact ⟨rfl, List.nil_prefix⟩
    · obtain ⟨more, hmore⟩ := List.prefix_of_prefix_length_le (List.prefix_append f frames.flatten) hpre hge
      rw [← hmore, List.prefix_append_right_inj] at hpre
      obtain ⟨hbad, hrest⟩ := ih (fun g hg => hw g (List.mem_cons_of_mem _ hg)) hpre
      rw [← hmore, refParse_whole hf]
      exact ⟨hbad, List.cons_prefix_cons.mpr ⟨rfl, hrest⟩⟩

/-- Of a stream that is there to its end nothing is left over. -/
theorem refParse_flatten {frames : List (List UInt8)} (hw : ∀ f ∈ frames, Whole f) :
    refParse frames.flatten = ⟨frames, [], false⟩ := by
  induction frames with
  | nil => exact refParse_nil
  | cons f frames ih =>
    rw [List.flatten_cons, refParse_whole (hw f List.mem_cons_self), ih fun g hg => hw g (List.mem_cons_of_mem _ hg)]

end Ven
