import Ven.Receiver

namespace Ven

/-- How a stream is cut into frames: those found, the bytes left over, and whether they start
with a size that is refused. -/
structure Parse where
  frames : List (List UInt8)
  rest : List UInt8
  bad : Bool
deriving DecidableEq

/-- The frames that a session with the virtual functions `V` sees in a buffer. -/
inductive Framed (V : ISessionTCP) : List UInt8 → Parse → Prop
  | short {w} (h : V.getPacketSize w = none) : Framed V w ⟨[], w, false⟩
  | refused {w n} (h : V.getPacketSize w = some n) (hv : ¬V.isValidPacketSize n) : Framed V w ⟨[], w, true⟩
  | partly {w n} (h : V.getPacketSize w = some n) (hv : V.isValidPacketSize n) (hn : w.length < n) :
      Framed V w ⟨[], w, false⟩
  | frame {w n p} (h : V.getPacketSize w = some n) (hv : V.isValidPacketSize n) (hn : n ≤ w.length)
      (rest : Framed V (w.drop n) p) : Framed V w { p with frames := w.take n :: p.frames }

/-- The reference parse of a stream with the default virtual functions. -/
def refParse (bytes : List UInt8) : Parse :=
  if bytes.length < 4 then ⟨[], bytes, false⟩
  else
    let size := Bytes.leNat (bytes.take 4)
    if size = 0 ∨ 131072 < size then ⟨[], bytes, true⟩
    else if size ≤ bytes.length then
      let p := refParse (bytes.drop size)
      { p with frames := bytes.take size :: p.frames }
    else ⟨[], bytes, false⟩
termination_by bytes.length
decreasing_by rw [List.length_drop]; omega

theorem Framed.det {V : ISessionTCP} {w : List UInt8} {p q : Parse} (a : Framed V w p)
    (b : Framed V w q) : p = q := by
  induction a generalizing q with
  | short h =>
    cases b with
    | short => rfl
    | refused h' => exact absurd (h.symm.trans h') (by simp)
    | partly h' => rfl
    | frame h' => exact absurd (h.symm.trans h') (by simp)
  | refused h hv =>
    cases b with
    | short h' => exact absurd (h.symm.trans h') (by simp)
    | refused => rfl
    | partly h' hv' => cases Option.some.inj (h.symm.trans h'); exact absurd hv' hv
    | frame h' hv' => cases Option.some.inj (h.symm.trans h'); exact absurd hv' hv
  | partly h hv hn =>
    cases b with
    | short => rfl
    | refused h' hv' => cases Option.some.inj (h.symm.trans h'); exact absurd hv hv'
    | partly => rfl
    | frame h' _ hn' => cases Option.some.inj (h.symm.trans h'); omega
  | frame h hv hn _ ih =>
    cases b with
    | short h' => exact absurd (h.symm.trans h') (by simp)
    | refused h' hv' => cases Option.some.inj (h.symm.trans h'); exact absurd hv hv'
    | partly h' _ hn' => cases Option.some.inj (h.symm.trans h'); omega
    | frame h' _ _ r =>
      cases Option.some.inj (h.symm.trans h')
      rw [ih r]

/-- More bytes are parsed where the earlier ones left off. -/
theorem Framed.append {V : ISessionTCP} (ext : ∀ w n more, V.getPacketSize w = some n →
    V.getPacketSize (w ++ more) = some n) {w more : List UInt8} {p q : Parse} (a : Framed V w p)
    (hgood : p.bad = false) (b : Framed V (p.rest ++ more) q) :
    Framed V (w ++ more) { q with frames := p.frames ++ q.frames } := by
  induction a with
  | short => exact b
  | refused => cases hgood
  | partly => exact b
  | @frame w n p h hv hn _ ih =>
    have hr := ih hgood b
    have hd : (w ++ more).drop n = w.drop n ++ more := List.drop_append_of_le_length hn
    have ht : (w ++ more).take n = w.take n := List.take_append_of_le_length hn
    rw [← hd] at hr
    have hf := Framed.frame (ext w n more h) hv (by rw [List.length_append]; omega) hr
    rwa [ht] at hf

namespace SessionTCP

theorem valid_defaults {rbs n : Nat} :
    (defaults rbs).isValidPacketSize n = true ↔ ¬(n = 0 ∨ 131072 < n) := by
  simp only [defaults, isValidPacketSize, Bool.and_eq_true, bne_iff_ne, decide_eq_true_eq]
  omega

theorem getPacketSize_of_le {w : List UInt8} (h : 4 ≤ w.length) :
    getPacketSize w = some (Bytes.leNat (w.take 4)) := by
  rw [getPacketSize, if_neg]
  simp only [headerSize]
  omega

theorem getPacketSize_append {w more : List UInt8} {n : Nat} (h : getPacketSize w = some n) :
    getPacketSize (w ++ more) = some n := by
  have hlen : 4 ≤ w.length := by
    unfold getPacketSize at h
    split at h
    next => cases h
    next hw => simp only [headerSize] at hw; omega
  rw [getPacketSize_of_le hlen] at h
  rw [getPacketSize_of_le (by rw [List.length_append]; omega), List.take_append_of_le_length hlen]
  exact h

/-- The reference parse is how a session with the default functions cuts the stream. -/
theorem framed_refParse (rbs : Nat) (w : List UInt8) : Framed (defaults rbs) w (refParse w) := by
  induction hk : w.length using Nat.strongRecOn generalizing w with
  | ind k ih =>
    rw [refParse]
    split
    next hs =>
      have hnone : getPacketSize w = none := by
        have hlt : w.length < headerSize := hs
        rw [getPacketSize, if_pos hlt]
      exact .short hnone
    next hs =>
      have hg : (defaults rbs).getPacketSize w = some (Bytes.leNat (w.take 4)) :=
        getPacketSize_of_le (by omega)
      dsimp only
      split
      next hbad => exact .refused hg (fun hv => valid_defaults.mp hv hbad)
      next hok =>
        have hv : (defaults rbs).isValidPacketSize (Bytes.leNat (w.take 4)) = true :=
          valid_defaults.mpr hok
        split
        next hn =>
          have hr := ih (w.drop (Bytes.leNat (w.take 4))).length
            (by rw [List.length_drop]; omega) _ rfl
          exact .frame hg hv hn hr
        next hn => exact .partly hg hv (by omega)

end SessionTCP

end Ven
