import Ven.BufArray
import Ven.Word
import Mathlib.Logic.Function.Basic

namespace Ven

/-- Who gets the completion of a send, and the `Buf`s it carries. -/
structure SOV (α : Type) where
  actor : Option Nat
  slist : BufArray α

/-- The `SOV`s created so far, numbered from 0, and those of them that are free. -/
structure SOVPool (α : Type) where
  sovs : Nat → SOV α
  stepCnt : Nat
  arrCnt : Nat
  free : List Nat
  totalCnt : Nat

/-- `pool` is false while `pool_` is null. -/
structure SBuf where
  actor : Option Nat
  pool : Bool
  sov : Option Nat
  popCnt : Nat
deriving DecidableEq

namespace SOVPool

variable {α : Type}

/-- The `Buf`s in the array of an `SOV`. -/
def items (p : SOVPool α) (id : Nat) : List α := (p.sovs id).slist.items

def setItems (p : SOVPool α) (id : Nat) (items : List α) : SOVPool α :=
  { p with sovs := Function.update p.sovs id { p.sovs id with slist := { (p.sovs id).slist with items := items } } }

/-- `slist_.clear()` -/
def clear (p : SOVPool α) (id : Nat) : SOVPool α := p.setItems id []

def push (p : SOVPool α) (id : Nat) : SOVPool α := { p with free := id :: p.free }

/-- `_push(create())` -/
def createOne (p : SOVPool α) : SOVPool α :=
  { p with
    sovs := Function.update p.sovs p.totalCnt ⟨none, ⟨p.arrCnt, []⟩⟩
    free := p.totalCnt :: p.free
    totalCnt := p.totalCnt + 1 }

def create (p : SOVPool α) : Nat → SOVPool α
  | 0 => p
  | cnt + 1 => create p.createOne cnt

def init (initCnt stepCnt arrCnt : Nat) : SOVPool α :=
  create ⟨fun _ => ⟨none, ⟨arrCnt, []⟩⟩, stepCnt, arrCnt, [], 0⟩ initCnt

/-- `_pop` -/
def popFree (p : SOVPool α) : Option Nat × SOVPool α :=
  match p.free with
  | [] => (none, p)
  | id :: free => (some id, { p with free := free })

def pop (p : SOVPool α) : Option Nat × SOVPool α :=
  match p.popFree with
  | (some id, p) => (some id, p)
  | (none, p) => (p.create p.stepCnt).popFree

end SOVPool

namespace SBuf

variable {α : Type}

-- a result of `none` stands for a null pointer that is followed, or for `out_of_range`

def alloc (b : SBuf) (p : SOVPool α) : Option (Nat × SOVPool α) :=
  if b.pool then
    match p.pop with
    | (none, _) => none
    | (some id, p) => some (id, { p with sovs := Function.update p.sovs id { p.sovs id with actor := b.actor } })
  else none

/-- A `SBuf` as it is created, and after `uninit`. -/
def null : SBuf := ⟨none, false, none, 0⟩

def init (actor : Nat) (p : SOVPool α) : Option (SBuf × SOVPool α) :=
  let b : SBuf := { null with actor := some actor, pool := true }
  (b.alloc p).map fun (id, p) => ({ b with sov := some id }, p)

def uninit (b : SBuf) (p : SOVPool α) : SBuf × SOVPool α :=
  match b.sov with
  | none => (null, p)
  | some id => (null, (p.clear id).push id)

def push (b : SBuf) (p : SOVPool α) : Option α → Option (SOVPool α)
  | none => some p
  | some buf =>
    match b.sov with
    | none => none
    | some id => ((p.sovs id).slist.pushBack buf).map fun slist => p.setItems id slist.items

/-- Whether this `push` writes behind the block that the array of `sov_` lies in. -/
def overruns (b : SBuf) (p : SOVPool α) : Option α → Bool
  | none => false
  | some _ => b.sov.any fun id => !(p.sovs id).slist.isFull && (p.sovs id).slist.overruns

def isSending (b : SBuf) : Bool := decide (0 < b.popCnt)

def get (b : SBuf) (p : SOVPool α) : Option (Option Nat × SBuf × SOVPool α) :=
  (b.alloc p).map fun (id, p) => (b.sov, { b with sov := some id }, p)

def pop (b : SBuf) (p : SOVPool α) : Option (Option Nat × SBuf × SOVPool α) :=
  match b.sov with
  | none => none
  | some id =>
    if (p.sovs id).slist.empty then some (none, b, p)
    else if !b.isSending || (p.sovs id).slist.isFull then { b with popCnt := b.popCnt + 1 }.get p
    else some (none, b, p)

def hasToSend (b : SBuf) (p : SOVPool α) : Option Bool :=
  if b.isSending then some false else b.sov.map fun id => !(p.sovs id).slist.empty

/-- `push(SOV*)` -/
def pushSov (b : SBuf) (p : SOVPool α) (id : Nat) : Option (SBuf × SOVPool α) :=
  if b.pool then some ({ b with popCnt := pred32 b.popCnt }, p.push id) else none

end SBuf

end Ven
