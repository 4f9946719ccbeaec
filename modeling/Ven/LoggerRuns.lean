import Ven.Logger

namespace Ven

/-- The record that says what a call says. -/
def LogCall.info (b : Build) (c : LogCall) : LogInfo := Log.info b ⟨true, c.level, c.func, c.file, c.line⟩ c

namespace Logger

open Machine

/-- The calls of a run, in the order of their `add` or `write`. -/
def calls (as : List LoggerAct) : List LogCall :=
  as.filterMap fun
    | .log c => some c
    | .turn => none

/-- The records that pass a logger whose `level_` is `own`. -/
def records (b : Build) (own : LogLevel) (cs : List LogCall) : List LogInfo := cs.filterMap fun c => (proxy own c).call b c

variable {ε : Type} {p : Platform} {e : LogEvent ε} {file : ε} {s s' : Logger ε} {a : LoggerAct} {as : List LoggerAct}
  {cs : List LogCall} {info : LogInfo}

/-- The state of the event and of its file once these records were handed over. -/
def filed (p : Platform) (e : LogEvent ε) (file : ε) (infos : List LogInfo) : ε :=
  infos.foldl (fun f info => e.file f info ((CharArray.init 1024).add p.build (info.format p.pointer)).read) file

def printed (e : LogEvent ε) (infos : List LogInfo) : List LogInfo :=
  if e.has_console && e.use_console then infos else []

/-- No record is lost, written twice or reordered, and what is written determines the file and the console. -/
structure Flow (p : Platform) (e : LogEvent ε) (file : ε) (s : Logger ε) : Prop where
  level : s.level = .debug
  evt : s.evt = e
  th : s.th.isSome = e.async
  order : s.written ++ s.waiting = s.added
  swapped : ∀ th, s.th = some th → th.loop = .swap → th.q2 = []
  file : s.file = filed p e file s.written
  console : s.console = printed e s.written

theorem flow_init (p : Platform) (e : LogEvent ε) (file : ε) : Flow p e file (init e file) := by
  unfold init
  cases ha : e.async with
  | false =>
    refine ⟨rfl, rfl, ha.symm, rfl, ?_, rfl, (ite_self []).symm⟩
    intro th hth
    cases hth
  | true =>
    refine ⟨rfl, rfl, ha.symm, rfl, ?_, rfl, (ite_self []).symm⟩
    intro th hth _
    cases Option.some.inj hth
    rfl

theorem filed_append (p : Platform) (e : LogEvent ε) (file : ε) (infos : List LogInfo) (info : LogInfo) :
    filed p e file (infos ++ [info]) =
      e.file (filed p e file infos) info ((CharArray.init 1024).add p.build (info.format p.pointer)).read := by
  unfold filed
  rw [List.foldl_append]
  rfl

theorem printed_append (e : LogEvent ε) (infos : List LogInfo) (info : LogInfo) :
    printed e (infos ++ [info]) =
      if e.has_console && e.use_console then printed e infos ++ [info] else printed e infos := by
  unfold printed
  split
  next => rfl
  next => rfl

theorem write_output (hf : s.file = filed p s.evt file s.written) (hc : s.console = printed s.evt s.written)
    (info : LogInfo) :
    (s.write p info).file = filed p s.evt file (s.written ++ [info]) ∧
      (s.write p info).console = printed s.evt (s.written ++ [info]) := by
  unfold Logger.write
  simp only
  rw [hf, hc, filed_append, printed_append]
  exact ⟨rfl, rfl⟩

theorem waiting_of_th {th : LogThread} (h : s.th = some th) : s.waiting = th.rest ++ th.q1 := by
  rw [waiting, h]

theorem pass_some {th : LogThread} (h : s.th = some th) (info : LogInfo) :
    s.pass p info = { s with added := s.added ++ [info], th := some (th.add info) } := by
  rw [pass, h]

theorem pass_none (h : s.th = none) (info : LogInfo) :
    s.pass p info = write p { s with added := s.added ++ [info] } info := by
  rw [pass, h]

theorem Flow.pass (h : Flow p e file s) (info : LogInfo) : Flow p e file (s.pass p info) := by
  obtain ⟨hlevel, rfl, hth, horder, hswap, hfile, hconsole⟩ := h
  cases ht : s.th with
  | some th =>
    rw [pass_some ht]
    rw [ht] at hth
    rw [waiting_of_th ht] at horder
    refine ⟨hlevel, rfl, hth, ?_, ?_, hfile, hconsole⟩
    · have hrest : (th.add info).rest = th.rest := rfl
      rw [waiting_of_th rfl, hrest, ← horder]
      simp only [LogThread.add, List.append_assoc]
    · intro th' hth' hloop
      cases Option.some.inj hth'
      exact hswap th ht hloop
  | none =>
    rw [pass_none ht]
    have hout := write_output (s := { s with added := s.added ++ [info] }) hfile hconsole info
    refine ⟨hlevel, rfl, hth, ?_, ?_, hout.1, hout.2⟩
    · rw [waiting, ht] at horder
      rw [waiting, show (write p { s with added := s.added ++ [info] } info).th = none from ht]
      simpa [Logger.write] using horder
    · intro th' hth'
      cases ht.symm.trans hth'

theorem Flow.log (h : Flow p e file s) (c : LogCall) : Flow p e file (s.log p c) := by
  unfold Logger.log
  split
  next => exact h
  next info _ => exact h.pass info

/-- The writing thread's next step: the queues change places, the test, a record is written, or `q2_` is cleared. -/
theorem turn_cases (p : Platform) (s : Logger ε) (th : LogThread) :
    (th.loop = .swap ∧ s.turn p th = { s with th := some ⟨th.q2, th.q1, .test⟩ }) ∨
    (th.loop = .test ∧ th.q2 = [] ∧ s.turn p th = { s with th := some { th with loop := .swap } }) ∨
    (th.loop = .test ∧ s.turn p th = { s with th := some { th with loop := .at 0 } }) ∨
    (∃ i info, th.loop = .at i ∧ th.q2[i]? = some info ∧
      s.turn p th = { write p s info with th := some { th with loop := .at (i + 1) } }) ∨
    (∃ i, th.loop = .at i ∧ th.q2.drop i = [] ∧ s.turn p th = { s with th := some { th with q2 := [], loop := .swap } }) := by
  unfold Logger.turn
  cases hloop : th.loop with
  | swap => exact Or.inl ⟨rfl, rfl⟩
  | test =>
    cases hq : th.q2.isEmpty with
    | true => exact Or.inr (Or.inl ⟨rfl, List.isEmpty_iff.mp hq, rfl⟩)
    | false => exact Or.inr (Or.inr (Or.inl ⟨rfl, rfl⟩))
  | «at» i =>
    cases hi : th.q2[i]? with
    | some info => exact Or.inr (Or.inr (Or.inr (Or.inl ⟨i, info, rfl, hi, by simp only [hi]⟩)))
    | none =>
      have hdrop := List.drop_eq_nil_of_le (List.getElem?_eq_none_iff.mp hi)
      exact Or.inr (Or.inr (Or.inr (Or.inr ⟨i, rfl, hdrop, by simp only [hi]⟩)))

/-- The queues change, but not what is in them one behind the other. -/
theorem Flow.requeue (h : Flow p e file s) {th th' : LogThread} (ht : s.th = some th)
    (hq : th'.rest ++ th'.q1 = th.rest ++ th.q1) (hs : th'.loop = .swap → th'.q2 = []) :
    Flow p e file { s with th := some th' } := by
  have horder := h.order
  have hth := h.th
  rw [waiting_of_th ht] at horder
  rw [ht] at hth
  refine ⟨h.level, h.evt, hth, ?_, ?_, h.file, h.console⟩
  · rw [waiting_of_th rfl, hq]
    exact horder
  · intro th'' hth'' hl
    cases Option.some.inj hth''
    exact hs hl

theorem Flow.write (h : Flow p e file s) {th : LogThread} (ht : s.th = some th) {i : Nat} (hl : th.loop = .at i)
    (hi : th.q2[i]? = some info) :
    Flow p e file { s.write p info with th := some { th with loop := .at (i + 1) } } := by
  obtain ⟨hlevel, rfl, hth, horder, hswap, hfile, hconsole⟩ := h
  obtain ⟨hlt, hget⟩ := List.getElem?_eq_some_iff.mp hi
  have hout := write_output (p := p) hfile hconsole info
  have hrest : th.rest = info :: th.q2.drop (i + 1) := by
    rw [LogThread.rest, hl]
    simp only
    rw [List.drop_eq_getElem_cons hlt, hget]
  rw [waiting_of_th ht, hrest] at horder
  rw [ht] at hth
  refine ⟨hlevel, rfl, hth, ?_, ?_, hout.1, hout.2⟩
  · rw [waiting_of_th rfl, LogThread.rest]
    simpa [Logger.write] using horder
  · intro th' hth' hl'
    cases Option.some.inj hth'
    cases hl'

theorem Flow.turn (h : Flow p e file s) {th : LogThread} (ht : s.th = some th) : Flow p e file (s.turn p th) := by
  rcases turn_cases p s th with ⟨hl, hs⟩ | ⟨hl, hq, hs⟩ | ⟨hl, hs⟩ | ⟨i, info, hl, hi, hs⟩ | ⟨i, hl, hdrop, hs⟩
  · rw [hs]
    refine h.requeue ht ?_ (by intro hl'; cases hl')
    have hq2 := h.swapped th ht hl
    simp [LogThread.rest, hl, hq2]
  · rw [hs]
    refine h.requeue ht ?_ fun _ => hq
    simp [LogThread.rest, hl]
  · rw [hs]
    refine h.requeue ht ?_ (by intro hl'; cases hl')
    simp [LogThread.rest, hl]
  · rw [hs]
    exact h.write ht hl hi
  · rw [hs]
    refine h.requeue ht ?_ fun _ => rfl
    simp [LogThread.rest, hl, hdrop]

theorem flow_step (h : Flow p e file s) (hs : step p s a = some s') : Flow p e file s' := by
  cases a with
  | log c =>
    cases Option.some.inj hs
    exact h.log c
  | turn =>
    obtain ⟨th, ht, rfl⟩ := Option.map_eq_some_iff.mp hs
    exact h.turn ht

theorem flow_exec (h : exec (step p) (init e file) as = some s) : Flow p e file s :=
  exec_invariant (I := Flow p e file) (fun _ _ _ hi hs => flow_step hi hs) (flow_init p e file) h

theorem added_log (h : Flow p e file s) (c : LogCall) :
    (s.log p c).added = s.added ++ records p.build .debug [c] := by
  unfold Logger.log records
  rw [h.level]
  cases hc : (proxy .debug c).call p.build c with
  | none => simp [hc]
  | some info =>
    have hpass : (s.pass p info).added = s.added ++ [info] := by
      unfold Logger.pass
      cases s.th with
      | none => rfl
      | some th => rfl
    simpa [hc] using hpass

theorem added_turn (s : Logger ε) (th : LogThread) : (s.turn p th).added = s.added := by
  rcases turn_cases p s th with ⟨_, hs⟩ | ⟨_, _, hs⟩ | ⟨_, hs⟩ | ⟨_, _, _, _, hs⟩ | ⟨_, _, _, hs⟩
  all_goals rw [hs]
  rfl

theorem records_cons (b : Build) (own : LogLevel) (c : LogCall) (cs : List LogCall) :
    records b own (c :: cs) = records b own [c] ++ records b own cs :=
  List.filterMap_append (l := [c])

/-- The records that a run adds are those of its calls. -/
theorem added_exec (hf : Flow p e file s) (h : exec (step p) s as = some s') :
    s'.added = s.added ++ records p.build .debug (calls as) := by
  induction as generalizing s with
  | nil =>
    cases Option.some.inj h
    exact (List.append_nil _).symm
  | cons a as ih =>
    obtain ⟨mid, hm, h⟩ := Option.bind_eq_some_iff.mp h
    have hrest := ih (flow_step hf hm) h
    cases a with
    | log c =>
      cases Option.some.inj hm
      rw [hrest, added_log hf c, List.append_assoc, ← records_cons]
      rfl
    | turn =>
      obtain ⟨th, _, rfl⟩ := Option.map_eq_some_iff.mp hm
      rw [hrest, added_turn]
      rfl

/-- An asynchronous logger takes every step of every thread. -/
theorem exec_async (ha : e.async = true) (hf : Flow p e file s) (as : List LoggerAct) :
    ∃ t, exec (step p) s as = some t := by
  induction as generalizing s with
  | nil => exact ⟨s, rfl⟩
  | cons a as ih =>
    obtain ⟨th, ht⟩ := Option.isSome_iff_exists.mp (hf.th.trans ha)
    have hstep : ∃ mid, step p s a = some mid := by
      cases a with
      | log c => exact ⟨_, rfl⟩
      | turn => exact ⟨s.turn p th, by rw [step, ht]; rfl⟩
    obtain ⟨mid, hm⟩ := hstep
    obtain ⟨t, hrun⟩ := ih (flow_step hf hm)
    exact ⟨t, by rw [exec, hm]; exact hrun⟩

theorem exec_log (p : Platform) (s : Logger ε) (cs : List LogCall) :
    ∃ t, exec (step p) s (cs.map LoggerAct.log) = some t := by
  induction cs generalizing s with
  | nil => exact ⟨s, rfl⟩
  | cons c cs ih => exact ih (s.log p c)

theorem calls_log (cs : List LogCall) : calls (cs.map LoggerAct.log) = cs := by
  induction cs with
  | nil => rfl
  | cons c cs ih => exact congrArg (c :: ·) ih

/-- A synchronous logger writes the record of each call at once. -/
theorem synchronous (p : Platform) (e : LogEvent ε) (ha : e.async = false) (file : ε) (cs : List LogCall) :
    ∃ t, exec (step p) (init e file) (cs.map LoggerAct.log) = some t ∧ t.added = records p.build .debug cs ∧
      t.written = t.added ∧ t.file = filed p e file t.written ∧ t.console = printed e t.written := by
  obtain ⟨t, ht⟩ := exec_log p (init e file) cs
  have hf := flow_exec ht
  have hadded := added_exec (flow_init p e file) ht
  have horder := hf.order
  have hth : t.th = none := by
    rw [← Option.not_isSome_iff_eq_none, hf.th, ha]
    exact Bool.false_ne_true
  unfold waiting at horder
  rw [hth] at horder
  rw [calls_log] at hadded
  exact ⟨t, ht, hadded, by simpa using horder, hf.file, hf.console⟩

theorem asynchronous_refines (ha : e.async = true) (h : exec (step p) (init e file) as = some s) :
    (∃ th, s.th = some th ∧ s.written ++ th.rest ++ th.q1 = s.added) ∧ s.added = records p.build .debug (calls as) ∧
      (∃ full, exec (step p) (init { e with async := false } file) ((calls as).map LoggerAct.log) = some full ∧
        full.written = s.added ∧ s.written <+: full.written) ∧
      ∃ before part, before <+: calls as ∧
        exec (step p) (init { e with async := false } file) (before.map LoggerAct.log) = some part ∧
        part.written = s.written ∧ part.file = s.file ∧ part.console = s.console := by
  have hf := flow_exec h
  have hadded : s.added = records p.build .debug (calls as) := added_exec (flow_init p e file) h
  have horder := hf.order
  obtain ⟨th, ht⟩ := Option.isSome_iff_exists.mp (hf.th.trans ha)
  have hprefix : s.written <+: records p.build .debug (calls as) := ⟨s.waiting, horder.trans hadded⟩
  obtain ⟨full, hfull, hfadded, hfwritten, _, _⟩ := synchronous p { e with async := false } rfl file (calls as)
  obtain ⟨before, hbefore, hrecords⟩ := List.prefix_filterMap_iff.mp hprefix
  obtain ⟨part, hpart, hpadded, hpwritten, hpfile, hpconsole⟩ :=
    synchronous p { e with async := false } rfl file before
  have hpw : part.written = s.written := (hpwritten.trans hpadded).trans hrecords.symm
  refine ⟨⟨th, ht, ?_⟩, hadded, ⟨full, hfull, ?_, ?_⟩, before, part, hbefore, hpart, hpw, ?_, ?_⟩
  · rw [waiting_of_th ht] at horder
    rw [List.append_assoc]
    exact horder
  · rw [hfwritten, hfadded]
    exact hadded.symm
  · rw [hfwritten, hfadded]
    exact hprefix
  · rw [hpfile, hf.file, hpw]
    rfl
  · rw [hpconsole, hf.console, hpw]
    rfl

/-- A POSIX platform whose `%p` prints hexadecimal digits. -/
def posix : Platform := ⟨.posix, fun n => "0x" ++ String.ofList (Nat.toDigits 16 n)⟩

/-- `VENL_D(name)("hi")` and so on, from thread 1 at midnight. -/
def hi (level : LogLevel) : LogCall :=
  ⟨level, Text.ofString "main", Text.ofString "a/b.cpp", 7, Text.ofString "hi", 1, ⟨2000, 1, 2, 0, 0, 0, 0⟩⟩

/-- Two calls around a swap, and the first record written. -/
theorem asynchronous_refines_two : ∃ s : Logger RollingLog,
    exec (step posix) (init (RollingLog.event "ven" true true .debug true) (RollingLog.init 10240 3))
      [.log (hi .debug), .turn, .log (hi .error), .turn, .turn] = some s ∧
    ∃ th, s.th = some th ∧ s.written ++ th.rest ++ th.q1 = s.added := by
  obtain ⟨s, hs⟩ := exec_async (p := posix) rfl
    (flow_init posix (RollingLog.event "ven" true true .debug true) (RollingLog.init 10240 3))
    [.log (hi .debug), .turn, .log (hi .error), .turn, .turn]
  exact ⟨s, hs, (asynchronous_refines rfl hs).1⟩

/-- The records handed to the event and those on their way there are those of the calls from level `L` on, each once,
and the console and the file get no other. -/
structure Respects (b : Build) (L : LogLevel) (cs : List LogCall) (s : Logger ε) : Prop where
  handed : s.written ++ s.waiting = (cs.filter (L ≤ ·.level)).map (LogCall.info b)
  written : ∀ info ∈ s.written, L ≤ info.level
  console : ∀ info ∈ s.console, L ≤ info.level

theorem call_proxy (b : Build) {c : LogCall} (hc : c.level ≠ .off) : (proxy .debug c).call b c = some (c.info b) := by
  have hlt : ¬c.level < .debug := by
    cases hl : c.level with
    | off => exact absurd hl hc
    | debug => decide
    | info => decide
    | warn => decide
    | error => decide
  unfold proxy
  rw [if_neg hlt, Log.call, if_neg (by simp [hc])]
  rfl

theorem records_debug (b : Build) (hcs : ∀ c ∈ cs, c.level ≠ .off) : records b .debug cs = cs.map (LogCall.info b) := by
  induction cs with
  | nil => rfl
  | cons c cs ih =>
    have hone : records b .debug [c] = [c.info b] := by
      simp [records, call_proxy b (hcs c List.mem_cons_self)]
    rw [records_cons, hone, ih fun c h => hcs c (List.mem_cons_of_mem _ h)]
    rfl

theorem calls_mono {before : List LoggerAct} (h : before <+: as) : calls before <+: calls as := h.filterMap _

/-- What a logger hands over does not depend on the level of its event. -/
theorem handed_exec (hcs : ∀ c ∈ calls as, c.level ≠ .off) (h : exec (step p) (init e file) as = some s) :
    s.written ++ s.waiting = (calls as).map (LogCall.info p.build) := by
  rw [(flow_exec h).order, ← records_debug p.build hcs]
  exact added_exec (flow_init p e file) h

theorem respects_of_levels (hcs : ∀ c ∈ calls as, c.level ≠ .off) (h : exec (step p) (init e file) as = some s)
    (hl : ∀ c ∈ calls as, e.level ≤ c.level) : Respects p.build e.level (calls as) s := by
  have hhanded := handed_exec hcs h
  have hfilter : (calls as).filter (e.level ≤ ·.level) = calls as :=
    List.filter_eq_self.mpr fun c hc => decide_eq_true (hl c hc)
  have hwritten : ∀ info ∈ s.written, e.level ≤ info.level := by
    intro info hi
    have hmem : info ∈ (calls as).map (LogCall.info p.build) := hhanded ▸ List.mem_append_left _ hi
    obtain ⟨c, hc, rfl⟩ := List.mem_map.mp hmem
    exact hl c hc
  refine ⟨?_, hwritten, ?_⟩
  · rw [hfilter]
    exact hhanded
  · intro info hi
    rw [(flow_exec h).console, printed] at hi
    split at hi
    next => exact hwritten info hi
    next => cases hi

/-- The level of the event is respected just when no call is below it. -/
theorem respects_iff (hcs : ∀ c ∈ calls as, c.level ≠ .off) (h : exec (step p) (init e file) as = some s) :
    (∀ before t, before <+: as → exec (step p) (init e file) before = some t →
      Respects p.build e.level (calls before) t) ↔ ∀ c ∈ calls as, e.level ≤ c.level := by
  constructor
  · intro hr c hc
    have hend := (hr as s (List.prefix_refl as) h).handed
    rw [handed_exec hcs h] at hend
    have hlen := congrArg List.length hend
    rw [List.length_map, List.length_map] at hlen
    have hfilter := List.length_filter_eq_length_iff.mp hlen.symm
    exact of_decide_eq_true (hfilter c hc)
  · intro hl before t hb ht
    have hsub := (calls_mono hb).subset
    exact respects_of_levels (fun c hc => hcs c (hsub hc)) ht fun c hc => hl c (hsub hc)

/-- Two calls that are not below the level of the event. -/
theorem respects_iff_warn : ∃ s : Logger RollingLog,
    exec (step posix) (init (RollingLog.event "ven" true true .warn true) (RollingLog.init 10240 3))
      [.log (hi .error), .turn, .log (hi .warn), .turn, .turn] = some s ∧
    ((∀ before t, before <+: [.log (hi .error), .turn, .log (hi .warn), .turn, .turn] →
      exec (step posix) (init (RollingLog.event "ven" true true .warn true) (RollingLog.init 10240 3)) before = some t →
      Respects Build.posix .warn (calls before) t) ↔
      ∀ c ∈ calls [.log (hi .error), .turn, .log (hi .warn), .turn, .turn], LogLevel.warn ≤ c.level) := by
  obtain ⟨s, hs⟩ := exec_async (p := posix) rfl
    (flow_init posix (RollingLog.event "ven" true true .warn true) (RollingLog.init 10240 3))
    [.log (hi .error), .turn, .log (hi .warn), .turn, .turn]
  exact ⟨s, hs, respects_iff (by decide) hs⟩

/-- A debug record goes through a logger whose event asks for errors only. -/
theorem not_respects_debug : ∃ s : Logger RollingLog,
    exec (step posix) (init (RollingLog.event "ven" true true .error false) (RollingLog.init 10240 3))
      [.log (hi .debug)] = some s ∧ s.written = [(hi .debug).info .posix] ∧
      ¬Respects Build.posix .error [hi .debug] s := by
  obtain ⟨s, hs, hadded, hwritten, _, _⟩ := synchronous posix (RollingLog.event "ven" true true .error false) rfl
    (RollingLog.init 10240 3) [hi .debug]
  have hw : s.written = [(hi .debug).info .posix] := by
    rw [hwritten, hadded]
    exact records_debug .posix (by decide)
  refine ⟨s, hs, hw, ?_⟩
  intro hr
  have hlevel := hr.written ((hi .debug).info .posix) (by rw [hw]; exact List.mem_cons_self)
  exact absurd hlevel (by decide)

end Logger

end Ven
