import Ven.Server
import Ven.Machine
import Mathlib.Data.Fintype.Option

namespace Ven

open Locks

variable {α : Type} {n : Nat}

/-- The iteration order of an `unordered_set`. -/
def SetOrder : Type := { f : List Nat → List Nat // ∀ l, (f l).Perm l }

namespace Server

/-- The sessions that `uninit` of the session pool disconnects while it holds `lock_`. -/
def disconnectAll (onDisc : Nat → List (ServerCall α)) (accepts : List Bool) : List Nat → ServerProg α → ServerProg α
  | [], k => k
  | i :: v, k => disconnect i false accepts (calls (onDisc i)) (disconnectAll onDisc accepts v k)

/-- The loop in which `uninit` waits for its sessions. -/
def awaitAll : Nat → ServerProg α → ServerProg α
  | 0, _ => .done
  | polls + 1, k =>
    .lock .pool <| .test fun v => .unlock .pool <|
      if v.spool.totalCnt = v.spool.free.length then k else awaitAll polls k

/-- `uninit` of the session pool, in a run in which its loop is passed at most `polls` times. -/
def uninit (order : SetOrder) (onDisc : Nat → List (ServerCall α)) (accepts : List Bool) (polls : Nat) : ServerProg α :=
  .locked .pool (fun ret => .test fun v => disconnectAll onDisc accepts (order.1 v.spool.use) ret) <|
    awaitAll polls <|
      .locked .pool (.update fun v => { v with spool := { v.spool with free := [] } }) .done

end Server

/-- The threads of a server; `none` is the one that stops it. -/
abbrev Serving (α : Type) (n : Nat) := State (Option (Fin n)) SessionLock (Server α)

inductive ServingOp (α : Type) (n : Nat)
  | run (t : Option (Fin n))
  | listen (t : Fin n) (accepts : List Bool)
  | event (t : Fin n) (e : ServerEvent α)
  | stopAcceptor
  | uninit (order : SetOrder) (onDisc : Nat → List (ServerCall α)) (accepts : List Bool) (polls : Nat)

namespace Serving

def start (v : Server α) : Serving α n := ⟨fun _ => .done, fun _ => [], v⟩

/-- An idle thread begins to run a program. -/
def begin (s : Serving α n) (t : Option (Fin n)) (p : ServerProg α) (v : Server α) : Option (Serving α n) :=
  if (s.prog t).isDone then some (s.goto t p (s.held t) v) else none

/-- One step: a thread goes on, or an idle one takes a call or a completion. -/
def step (s : Serving α n) (op : ServingOp α n) : Option (Serving α n) :=
  if s.data.crashed then none
  else
    match op with
    | .run t => State.step s t
    | .listen t accepts => s.begin (some t) (Server.accept_all accepts .done) s.data
    | .event t e => (s.data.dequeue e).bind fun v => s.begin (some t) (Server.handler e) v
    | .stopAcceptor => s.begin none .done { s.data with isRelease := true }
    | .uninit order onDisc accepts polls => s.begin none (Server.uninit order onDisc accepts polls) s.data

/-- No `s_lock_` is held, and `lock_` only by `uninit`. -/
def Clean (stopping : Bool) (held : List SessionLock) : Prop :=
  (∀ i, SessionLock.s i ∉ held) ∧ (SessionLock.pool ∈ held → stopping = true)

/-- In which situations the threads take locks. -/
def allowed (stopping : Bool) (held : List SessionLock) (_ : SessionLock) : Prop := Clean stopping held

/-- What a callback keeps. -/
def Keeps (stopping : Bool) (body : ServerProg α → ServerProg α) : Prop :=
  ∀ held k, Clean stopping held → k.Follows (allowed stopping) held → (body k).Follows (allowed stopping) held

variable {b : Bool} {held : List SessionLock} {k yes no : ServerProg α} {f : ServerProg α → ServerProg α}

theorem Clean.cd (h : Clean b held) (i : Nat) : Clean b (.cd i :: held) := by
  refine ⟨fun j hj => ?_, fun hp => ?_⟩
  · rcases List.mem_cons.mp hj with heq | hin
    · cases heq
    · exact h.1 j hin
  · rcases List.mem_cons.mp hp with heq | hin
    · cases heq
    · exact h.2 hin

theorem Clean.pool (h : Clean true held) : Clean true (.pool :: held) := by
  refine ⟨fun j hj => ?_, fun _ => rfl⟩
  rcases List.mem_cons.mp hj with heq | hin
  · cases heq
  · exact h.1 j hin

theorem follows_accept (h : Clean b held) (pends : Bool) (hyes : yes.Follows (allowed b) held)
    (hno : no.Follows (allowed b) held) : (Server.accept pends yes no).Follows (allowed b) held := by
  refine .test fun v => ?_
  split
  next => exact hno
  next =>
    refine .act fun v => ?_
    split
    next => exact hno
    next aov _ _ =>
      refine .atomic h fun v => ?_
      split
      next => exact fun _ => hno
      next =>
        split
        next => exact fun _ _ => hyes
        next => exact hno

theorem follows_acceptAll (h : Clean b held) (accepts : List Bool) (hk : k.Follows (allowed b) held) :
    (Server.accept_all accepts k).Follows (allowed b) held := by
  have loop : (Server.acceptLoop accepts k).Follows (allowed b) held := by
    induction accepts with
    | nil => exact hk
    | cons pends accepts ih =>
      refine .test fun v => ?_
      split
      next => exact hk
      next => exact follows_accept h pends ih hk
  refine .test fun v => ?_
  split
  next => exact hk
  next => exact loop

theorem follows_disconnected (h : Clean b held) (i : Nat) (accepts : List Bool) (hk : k.Follows (allowed b) held) :
    (Server.disconnected i accepts k).Follows (allowed b) held :=
  .update <| .locked h (fun _ hin => .update hin) (follows_acceptAll h accepts hk)

theorem keeps_onDisc (hf : Keeps b f) (i : Nat) (accepts : List Bool) : Keeps b (Server._on_disc i accepts f) := by
  intro held k h hk
  refine .locked h (fun ret hret => .update (hf _ _ (h.cd i) (.test fun v => ?_))) hk
  split
  next => exact .update hret
  next => exact follows_disconnected (h.cd i) i accepts hret

theorem keeps_disconnectWith (hf : Keeps b f) (i err : Nat) (ok : Bool) (accepts : List Bool) :
    Keeps b (Server._disconnect i err ok accepts f) := by
  intro held k h hk
  refine .locked h (fun ret hret => .update (.atomic (h.cd i) fun v => .test fun w => ?_)) hk
  split
  next => exact hret
  next =>
    split
    next => exact hret
    next =>
      refine .act fun w => ?_
      split
      next => exact keeps_onDisc hf i accepts _ _ (h.cd i) hret
      next =>
        split
        next => exact .update hret
        next => exact hret

theorem keeps_disconnect (hf : Keeps b f) (i : Nat) (isRelease : Bool) (accepts : List Bool) :
    Keeps b (Server.disconnect i isRelease accepts f) := by
  intro held k h hk
  refine .locked h (fun ret hret => .act fun v => ?_) hk
  split
  next => exact hret
  next =>
    split
    next => exact hret
    next => exact .update (keeps_disconnectWith hf i 0 true accepts _ _ (h.cd i) hret)

theorem keeps_sendBuf {post : Nat → ServerProg α → ServerProg α} (posts : ∀ sov, Keeps b (post sov)) (i : Nat)
    (buf : Option α) : Keeps b (Server.sendBuf i buf post) := by
  intro held k h hk
  refine .test fun v => ?_
  split
  next => exact hk
  next =>
    refine .atomic h fun v => ?_
    split
    next => exact hk
    next sov _ => exact posts sov held k h hk

theorem keeps_onSend {resend : ServerProg α → ServerProg α} (hf : Keeps b f) (hr : Keeps b resend) (i err sov : Nat) (ok : Bool)
    (accepts : List Bool) : Keeps b (Server._on_send i err sov ok accepts f resend) := by
  intro held k h hk
  refine .update (.atomic h fun v => ?_)
  split
  next => exact hk
  next =>
    refine .test fun w => ?_
    split
    next => exact keeps_disconnectWith hf i err ok accepts held k h hk
    next =>
      split
      next => exact hr held k h hk
      next => exact hk

theorem keeps_sendSov (hf : Keeps b f) (i : Nat) (ok : Bool) (accepts : List Bool) (answers : List (Option Nat)) :
    ∀ sov, Keeps b (Server.sendSov i ok accepts f answers sov) := by
  induction answers with
  | nil => exact fun sov held k _ hk => .update hk
  | cons answer answers ih =>
    intro sov
    cases answer with
    | none => exact fun held k _ hk => .update hk
    | some err => exact keeps_onSend hf (keeps_sendBuf ih i none) i err sov ok accepts

theorem keeps_send (hf : Keeps b f) (i : Nat) (buf : Option α) (answers : List (Option Nat)) (ok : Bool)
    (accepts : List Bool) : Keeps b (Server.send i buf answers ok accepts f) :=
  keeps_sendBuf (keeps_sendSov hf i ok accepts answers) i buf

mutual

theorem keeps_call : ∀ c : ServerCall α, Keeps b (Server.call c)
  | .send i buf answers ok onDisc accepts => by
    simp only [Server.call]
    exact keeps_send (keeps_calls onDisc) i buf answers ok accepts
  | .disconnect i isRelease onDisc accepts => by
    simp only [Server.call]
    exact keeps_disconnect (keeps_calls onDisc) i isRelease accepts

theorem keeps_calls : ∀ cs : List (ServerCall α), Keeps b (Server.calls cs)
  | [] => by
    intro held k _ hk
    simp only [Server.calls]
    exact hk
  | c :: cs => by
    intro held k h hk
    simp only [Server.calls]
    exact keeps_call c held _ h (keeps_calls cs held k h hk)

end

theorem keeps_recv (hf : Keeps b f) (i : Nat) (fail : Option Nat) (ok : Bool) (accepts : List Bool) :
    Keeps b (Server.recv i fail ok accepts f) := by
  intro held k h hk
  refine .test fun v => ?_
  split
  next => exact hk
  next =>
    refine .update ?_
    cases fail with
    | none => exact .update hk
    | some err => exact .update (keeps_disconnectWith hf i err ok accepts held k h hk)

theorem keeps_onAccept (i : Nat) (updated : Bool) (o : Server.ServerOpening α) : Keeps b (Server._on_accept i updated o) := by
  intro held k h hk
  unfold Server._on_accept
  split
  next => exact keeps_disconnect (keeps_calls o.onDisc) i false o.accepts held k h hk
  next =>
    exact .update (keeps_calls o.onConn held _ h (keeps_recv (keeps_calls o.onDisc) i o.fail o.ok o.accepts held k h hk))

theorem keeps_deliver (i g : Nat) (packets : List (List (ServerCall α))) : Keeps b (Server.deliver i g packets) := by
  induction packets with
  | nil => exact fun held k _ hk => hk
  | cons cs packets ih => exact fun held k h hk => .update (keeps_calls cs held _ h (ih held k h hk))

theorem keeps_onRecv (hf : Keeps b f) (i g err bytes : Nat) (packets : List (List (ServerCall α))) (bad : Bool)
    (fail : Option Nat) (ok : Bool) (accepts : List Bool) :
    Keeps b (Server._on_recv i g err bytes packets bad fail ok accepts f) := by
  intro held k h hk
  unfold Server._on_recv
  split
  next => exact .update (keeps_disconnectWith hf i err ok accepts held k h hk)
  next =>
    refine keeps_deliver i g packets held _ h ?_
    split
    next => exact .update (keeps_disconnectWith hf i 16000 ok accepts held k h hk)
    next =>
      refine .act fun v => ?_
      split
      next => exact keeps_disconnectWith hf i 0 ok accepts held k h hk
      next => exact keeps_recv hf i fail ok accepts held k h hk

theorem keeps_onAcceptEvent (aov i err : Nat) (updated : Bool) (o : Server.ServerOpening α) (onError : List (ServerCall α))
    (pends : Bool) : Keeps b (Server.on_accept_event aov i err updated o onError pends) := by
  intro held k h hk
  have hnext : (Server.acceptNext aov pends k).Follows (allowed b) held :=
    .update (.update (follows_accept h pends hk hk))
  unfold Server.on_accept_event
  split
  next =>
    refine .locked h (fun _ hin => .update hin) (.test fun v => ?_)
    split
    next => exact hnext
    next => exact keeps_calls onError held _ h hnext
  next => exact .update (keeps_onAccept i updated o held _ h hnext)

theorem follows_handler (e : ServerEvent α) : (Server.handler e).Follows (allowed b) [] := by
  have empty : Clean b [] := ⟨nofun, nofun⟩
  have done : (Prog.done : ServerProg α).Follows (allowed b) [] := rfl
  cases e with
  | call c => exact keeps_call c [] _ empty done
  | accept aov i err updated o onError pends => exact keeps_onAcceptEvent aov i err updated o onError pends [] _ empty done
  | disc i onDisc accepts => exact keeps_onDisc (keeps_calls onDisc) i accepts [] _ empty done
  | recv i g err bytes packets bad fail ok onDisc accepts =>
    exact keeps_onRecv (keeps_calls onDisc) i g err bytes packets bad fail ok accepts [] _ empty done
  | send i sov g err answers ok onDisc accepts =>
    exact keeps_onSend (keeps_calls onDisc) (keeps_send (keeps_calls onDisc) i none answers ok accepts) i err sov ok accepts []
      _ empty done

theorem follows_uninit (order : SetOrder) (onDisc : Nat → List (ServerCall α)) (accepts : List Bool) (polls : Nat) :
    (Server.uninit order onDisc accepts polls).Follows (allowed true) [] := by
  have empty : Clean true [] := ⟨nofun, nofun⟩
  have all : ∀ (v : List Nat) (k : ServerProg α), k.Follows (allowed true) [.pool] →
      (Server.disconnectAll onDisc accepts v k).Follows (allowed true) [.pool] := by
    intro v
    induction v with
    | nil => exact fun k hk => hk
    | cons i v ih => exact fun k hk => keeps_disconnect (keeps_calls (onDisc i)) i false accepts _ _ empty.pool (ih k hk)
  have waiting : ∀ (polls : Nat) (k : ServerProg α), k.Follows (allowed true) [] →
      (Server.awaitAll polls k).Follows (allowed true) [] := by
    intro polls k hk
    induction polls with
    | zero => exact rfl
    | succ polls ih =>
      refine .atomic empty fun v => ?_
      split
      next => exact hk
      next => exact ih
  exact .locked empty (fun ret hret => .test fun v => all _ ret hret) (waiting polls _ (.locked empty (fun _ hin => .update hin) rfl))

end Serving

end Ven
