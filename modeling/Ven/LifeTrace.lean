import Mathlib.Data.List.DropRight

namespace Ven

/-- What a session shows of itself: `on_conn`, calls of `_disconnect`, `on_disc` raised by `_on_disc` with the
`WSARecv`s and `WSASend`s then outstanding for the connection it follows, `on_disc` raised by `_on_conn`, and
`on_recv` with the number of the connection the bytes came from. -/
inductive Event
  | conn
  | disconnect (err : Nat)
  | disc (err recvs sends : Nat)
  | refused (err : Nat)
  | recv (conn : Nat)
deriving DecidableEq

namespace Event

def isDisc : Event → Bool
  | .disc _ _ _ => true
  | _ => false

/-- The argument of `_disconnect`. -/
def argument : Event → Option Nat
  | .disconnect err => some err
  | _ => none

/-- The events since the last `on_conn`. -/
def since (trace : List Event) : List Event := trace.rtakeWhile (· ≠ .conn)

/-- After each `on_conn` there is at most one `on_disc` before the next; nothing of the connection is
outstanding when it is raised, it reports the argument of the first `_disconnect`, and no `on_recv` of that
connection follows it. -/
structure Orderly (trace : List Event) : Prop where
  once : ∀ before during after, trace = before ++ conn :: (during ++ after) → conn ∉ during →
    during.countP isDisc ≤ 1
  alone : ∀ before during after err recvs sends, trace = before ++ conn :: (during ++ disc err recvs sends :: after) →
    conn ∉ during → recvs = 0 ∧ sends = 0
  first : ∀ before during after err recvs sends, trace = before ++ conn :: (during ++ disc err recvs sends :: after) →
    conn ∉ during → (during.filterMap argument).head? = some err
  last : ∀ before during after err recvs sends, trace = before ++ conn :: (during ++ disc err recvs sends :: after) →
    conn ∉ during → recv (before.count conn + 1) ∉ after

/-- The next event of an orderly trace. -/
def Allowed (trace : List Event) : Event → Prop
  | .disc err recvs sends => conn ∈ trace → (since trace).countP isDisc = 0 ∧ recvs = 0 ∧ sends = 0 ∧
      ((since trace).filterMap argument).head? = some err
  | .recv g => g = trace.count conn ∧ (since trace).countP isDisc = 0
  | _ => True

theorem since_conn (trace : List Event) : since (trace ++ [conn]) = [] := by
  exact List.rtakeWhile_concat_neg _ _ _ (by decide)

theorem since_concat (trace : List Event) {e : Event} (he : e ≠ conn) : since (trace ++ [e]) = since trace ++ [e] := by
  exact List.rtakeWhile_concat_pos _ _ _ (by simpa using he)

theorem since_eq (before : List Event) {during : List Event} (h : conn ∉ during) :
    since (before ++ conn :: during) = during := by
  induction during using List.reverseRecOn with
  | nil => exact since_conn before
  | append_singleton during e ih =>
    simp only [List.mem_append, List.mem_singleton, not_or] at h
    have hcut : before ++ conn :: (during ++ [e]) = (before ++ conn :: during) ++ [e] := by
      simp only [List.append_assoc, List.cons_append]
    rw [hcut, since_concat _ (Ne.symm h.2), ih h.1]

theorem orderly_nil : Orderly [] := by
  refine ⟨?_, ?_, ?_, ?_⟩
  all_goals
    intro before during after
    simp

/-- The last event of a trace that is cut somewhere before it. -/
theorem concat_cut {trace left right : List Event} {e : Event} (h : trace ++ [e] = left ++ right) :
    (right = [] ∧ left = trace ++ [e]) ∨ ∃ rest, right = rest ++ [e] ∧ trace = left ++ rest := by
  rcases right.eq_nil_or_concat with hnil | ⟨rest, x, hx⟩
  · left
    rw [hnil, List.append_nil] at h
    exact ⟨hnil, h.symm⟩
  · right
    rw [List.concat_eq_append] at hx
    rw [hx, ← List.append_assoc] at h
    obtain ⟨hcut, he⟩ := List.append_inj' h rfl
    cases he
    exact ⟨rest, hx, hcut⟩

variable {trace before during after : List Event} {e : Event} {err recvs sends : Nat}

/-- The last event stands right behind what follows an `on_conn`, or within it. -/
theorem cut_conn (h : trace ++ [e] = before ++ conn :: (during ++ after)) :
    (after = [] ∧ trace ++ [e] = before ++ conn :: during) ∨
      ∃ rest, after = rest ++ [e] ∧ trace = before ++ conn :: (during ++ rest) := by
  have hsplit : trace ++ [e] = (before ++ conn :: during) ++ after := by
    rw [h]
    simp only [List.append_assoc, List.cons_append]
  rcases concat_cut hsplit with ⟨hnil, hleft⟩ | ⟨rest, hrest, hcut⟩
  · exact Or.inl ⟨hnil, hleft.symm⟩
  · refine Or.inr ⟨rest, hrest, ?_⟩
    rw [hcut]
    simp only [List.append_assoc, List.cons_append]

theorem cut_disc (h : trace ++ [e] = before ++ conn :: (during ++ disc err recvs sends :: after)) :
    (after = [] ∧ trace = before ++ conn :: during ∧ e = disc err recvs sends) ∨
      ∃ rest, after = rest ++ [e] ∧ trace = before ++ conn :: (during ++ disc err recvs sends :: rest) := by
  rcases cut_conn h with ⟨hnil, _⟩ | ⟨rest, hrest, htrace⟩
  · cases hnil
  · cases rest with
    | nil =>
      simp only [List.nil_append, List.cons.injEq] at hrest
      refine Or.inl ⟨hrest.2, ?_, hrest.1.symm⟩
      rw [htrace, List.append_nil]
    | cons x rest =>
      simp only [List.cons_append, List.cons.injEq] at hrest
      refine Or.inr ⟨rest, hrest.2, ?_⟩
      rw [htrace, ← hrest.1]

theorem Allowed.disc_during (allowed : Allowed (before ++ conn :: during) (disc err recvs sends))
    (hconn : conn ∉ during) :
    during.countP isDisc = 0 ∧ recvs = 0 ∧ sends = 0 ∧ (during.filterMap argument).head? = some err := by
  have hall := allowed (by simp)
  rw [since_eq before hconn] at hall
  exact hall

/-- An `on_recv` that is allowed is not of the connection of an earlier `on_disc`. -/
theorem Allowed.recv_after (allowed : Allowed (before ++ conn :: (during ++ disc err recvs sends :: after))
    (recv (before.count conn + 1))) (hconn : conn ∉ during) : False := by
  obtain ⟨hg, hzero⟩ := allowed
  have hdisc : disc err recvs sends ≠ conn := nofun
  have hnone : conn ∉ after := by
    intro hin
    have hpos := List.count_pos_iff.mpr hin
    simp only [List.count_append, List.count_cons_self, List.count_cons_of_ne hdisc] at hg
    omega
  rw [since_eq before (by simp [hconn, hnone]), List.countP_append, List.countP_cons] at hzero
  simp only [isDisc, if_true] at hzero
  omega

theorem last_conn {trace : List Event} (h : conn ∈ trace) :
    ∃ before during, trace = before ++ conn :: during ∧ conn ∉ during := by
  induction trace using List.reverseRecOn with
  | nil => cases h
  | append_singleton trace e ih =>
    by_cases he : e = conn
    · exact ⟨trace, [], by rw [he], List.not_mem_nil⟩
    · have hin : conn ∈ trace := by
        rcases List.mem_append.mp h with hin | heq
        · exact hin
        · exact absurd (List.mem_singleton.mp heq).symm he
      obtain ⟨before, during, htrace, hnone⟩ := ih hin
      refine ⟨before, during ++ [e], ?_, ?_⟩
      · rw [htrace]
        simp only [List.append_assoc, List.cons_append]
      · simp only [List.mem_append, List.mem_singleton, not_or]
        exact ⟨hnone, Ne.symm he⟩

theorem Orderly.since_once (h : Orderly trace) (hconn : conn ∈ trace) : (since trace).countP isDisc ≤ 1 := by
  obtain ⟨before, during, htrace, hnone⟩ := last_conn hconn
  rw [htrace, since_eq before hnone]
  refine h.once before during [] ?_ hnone
  rw [htrace, List.append_nil]

theorem Orderly.concat (h : Orderly trace) (allowed : Allowed trace e) : Orderly (trace ++ [e]) := by
  refine ⟨?_, ?_, ?_, ?_⟩
  · intro before during after heq hconn
    rcases cut_conn heq with ⟨_, hend⟩ | ⟨rest, _, htrace⟩
    · have hend : trace ++ [e] = before ++ conn :: ([] ++ during) := hend
      rcases cut_conn hend with ⟨hnil, _⟩ | ⟨rest, hrest, htrace⟩
      · rw [hnil]
        exact Nat.zero_le 1
      · subst hrest
        simp only [List.mem_append, List.mem_singleton, not_or] at hconn
        rw [List.countP_append]
        cases e with
        | disc err recvs sends =>
          rw [htrace] at allowed
          have hzero : rest.countP isDisc = 0 := (allowed.disc_during hconn.1).1
          rw [hzero]
          exact le_refl 1
        | _ => exact h.once before rest [] (by rw [htrace, List.nil_append, List.append_nil]) hconn.1
    · exact h.once before during rest htrace hconn
  · intro before during after err recvs sends heq hconn
    rcases cut_disc heq with ⟨_, htrace, he⟩ | ⟨rest, _, htrace⟩
    · subst htrace he
      obtain ⟨_, hrecvs, hsends, _⟩ := allowed.disc_during hconn
      exact ⟨hrecvs, hsends⟩
    · exact h.alone before during rest err recvs sends htrace hconn
  · intro before during after err recvs sends heq hconn
    rcases cut_disc heq with ⟨_, htrace, he⟩ | ⟨rest, _, htrace⟩
    · subst htrace he
      exact (allowed.disc_during hconn).2.2.2
    · exact h.first before during rest err recvs sends htrace hconn
  · intro before during after err recvs sends heq hconn
    rcases cut_disc heq with ⟨hnil, _, _⟩ | ⟨rest, hrest, htrace⟩
    · rw [hnil]
      exact List.not_mem_nil
    · rw [hrest, List.mem_append, List.mem_singleton]
      intro hin
      rcases hin with hin | he
      · exact h.last before during rest err recvs sends htrace hconn hin
      · subst htrace he
        exact allowed.recv_after hconn

end Event

end Ven
