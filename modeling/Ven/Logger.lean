import Ven.CharArray
import Ven.TimeAdd

namespace Ven

/-- The bytes of a C string or of a `std::string`. -/
abbrev Text := List UInt8

namespace Text

def ofString (s : String) : Text := s.toUTF8.data.toList

/-- What is behind the last `c`. -/
def afterLast (c : UInt8) : Text → Option Text
  | [] => none
  | x :: xs =>
    match afterLast c xs with
    | some ys => some ys
    | none => if x = c then some xs else none

/-- `filename`: behind the last backslash, else behind the last slash. -/
def filename (path : Text) : Text :=
  match afterLast 92 path with
  | some name => name
  | none => (afterLast 47 path).getD path

/-- The string that starts at a buffer's first byte. -/
def ofBuf (buf : List UInt8) : Text := buf.takeWhile (· ≠ 0)

end Text

inductive LogLevel
  | off
  | debug
  | info
  | warn
  | error
deriving DecidableEq

namespace LogLevel

/-- The value of the enumerator. -/
def rank : LogLevel → Nat
  | off => 0
  | debug => 1
  | info => 2
  | warn => 3
  | error => 4

instance : LE LogLevel := ⟨fun a b => a.rank ≤ b.rank⟩

instance : LT LogLevel := ⟨fun a b => a.rank < b.rank⟩

instance : DecidableLE LogLevel := fun a b => inferInstanceAs (Decidable (a.rank ≤ b.rank))

instance : DecidableLT LogLevel := fun a b => inferInstanceAs (Decidable (a.rank < b.rank))

def str : LogLevel → String
  | off => "O"
  | debug => "D"
  | info => "I"
  | warn => "W"
  | error => "E"

end LogLevel

structure LogInfo where
  tid : Nat
  func : Text
  file : Text
  filename : Text
  line : Int
  time : Windows.Time
  level : LogLevel
  msg : Text
deriving DecidableEq

/-- `[%04d-%02d-%02d %02d:%02d:%02d.%03d %p %s] %s (%s:%d)\r\n`; `pointer` is what `%p` prints. -/
def LogInfo.format (pointer : Nat → String) (info : LogInfo) : Text :=
  let t := info.time
  Text.ofString ("[" ++ padded 4 (asInt32 t.year) ++ "-" ++ padded 2 (asInt32 t.mon) ++ "-" ++ padded 2 (asInt32 t.day) ++
    " " ++ padded 2 (asInt32 t.hour) ++ ":" ++ padded 2 (asInt32 t.min) ++ ":" ++ padded 2 (asInt32 t.sec) ++
    "." ++ padded 3 (asInt32 t.msec) ++ " " ++ pointer info.tid ++ " " ++ info.level.str ++ "] ") ++
    info.msg ++ Text.ofString " (" ++ info.filename ++ Text.ofString (":" ++ padded 0 info.line ++ ")\r\n")

/-- The members of `LogEvent`. `ε` is the state of the derived class together with the logger's `LogFile`, and `file` is
what a `write` of `n` bytes does to it. -/
structure LogEvent (ε : Type) where
  has_console : Bool
  use_console : Bool
  level : LogLevel
  async : Bool
  file : ε → LogInfo → Nat → ε

def RollingLog.event (binaryPath : String) (has_console use_console : Bool) (level : LogLevel) (async : Bool) :
    LogEvent RollingLog :=
  ⟨has_console, use_console, level, async, fun s _ len => s.write binaryPath len⟩

/-- The platform: the branch of `#if defined(WINDOWS)`, and what `%p` prints. -/
structure Platform where
  build : Build
  pointer : Nat → String

/-- A call of `log` and of the `Log` that it returns: the arguments, the text that the format and its arguments come
to, the thread and its clock. -/
structure LogCall where
  level : LogLevel
  func : Text
  file : Text
  line : Int
  out : List UInt8
  tid : Nat
  now : Windows.Time
deriving DecidableEq

/-- The proxy that `Logger::log` returns. `logger` tells whether `logger_` is set. -/
structure Log where
  logger : Bool
  level : LogLevel
  func : Text
  file : Text
  line : Int

/-- What `Logger::log` returns when its `level_` is `own`. -/
def Logger.proxy (own : LogLevel) (c : LogCall) : Log :=
  if c.level < own then ⟨false, .off, [], [], 0⟩ else ⟨true, c.level, c.func, c.file, c.line⟩

/-- `buf` after `vsnprintf_s(buf, size, size - 1, …)` or `vsnprintf(buf, size - 1, …)`. -/
def Log.buf (b : Build) (size : Nat) (out : List UInt8) : List UInt8 :=
  match b with
  | .windows => (vsnprintf_s (size - 1) out).1
  | .posix => (vsnprintf (size - 1) out).1

/-- The record that the private `log` builds. -/
def Log.info (b : Build) (l : Log) (c : LogCall) : LogInfo where
  tid := c.tid
  func := l.func
  file := l.file
  filename := Text.filename l.file
  line := l.line
  level := l.level
  time := c.now
  msg := Text.ofBuf (Log.buf b 1024 c.out)

/-- `Log::operator()` -/
def Log.call (b : Build) (l : Log) (c : LogCall) : Option LogInfo :=
  if !l.logger || l.level = .off then none else some (l.info b c)

/-- Where the writing thread is: before `swap`, before the test for an empty `q2_`, or at a record of `q2_`. -/
inductive LogLoop
  | swap
  | test
  | at (i : Nat)
deriving DecidableEq

structure LogThread where
  q1 : List LogInfo
  q2 : List LogInfo
  loop : LogLoop

namespace LogThread

def start : LogThread := ⟨[], [], .swap⟩

def add (th : LogThread) (info : LogInfo) : LogThread := { th with q1 := th.q1 ++ [info] }

/-- The unwritten rest of `q2_`. -/
def rest (th : LogThread) : List LogInfo :=
  match th.loop with
  | .swap => th.q2
  | .test => th.q2
  | .at i => th.q2.drop i

end LogThread

/-- A `Logger` after `init`. `console` records what was printed, `added` the records that `log` passed on, and `written`
those handed to `LogEvent::write`. -/
structure Logger (ε : Type) where
  level : LogLevel
  evt : LogEvent ε
  file : ε
  console : List LogInfo
  th : Option LogThread
  added : List LogInfo
  written : List LogInfo

inductive LoggerAct
  | log (c : LogCall)
  | turn
deriving DecidableEq

namespace Logger

variable {ε : Type}

def init (evt : LogEvent ε) (file : ε) : Logger ε :=
  ⟨.debug, evt, file, [], if evt.async then some LogThread.start else none, [], []⟩

/-- `write`, through `LogEvent::write` and `write_default`. -/
def write (p : Platform) (s : Logger ε) (info : LogInfo) : Logger ε :=
  let arr := (CharArray.init 1024).add p.build (info.format p.pointer)
  { s with
    console := if s.evt.has_console && s.evt.use_console then s.console ++ [info] else s.console
    file := s.evt.file s.file info arr.read
    written := s.written ++ [info] }

/-- The private `log`, once the record is built. -/
def pass (p : Platform) (s : Logger ε) (info : LogInfo) : Logger ε :=
  let s := { s with added := s.added ++ [info] }
  match s.th with
  | some th => { s with th := some (th.add info) }
  | none => write p s info

/-- A call up to its end. What precedes `add` is local to the thread. -/
def log (p : Platform) (s : Logger ε) (c : LogCall) : Logger ε :=
  match (proxy s.level c).call p.build c with
  | none => s
  | some info => pass p s info

/-- The next step of `LogThread::loop`. -/
def turn (p : Platform) (s : Logger ε) (th : LogThread) : Logger ε :=
  match th.loop with
  | .swap => { s with th := some ⟨th.q2, th.q1, .test⟩ }
  | .test => { s with th := some { th with loop := if th.q2.isEmpty then .swap else .at 0 } }
  | .at i =>
    match th.q2[i]? with
    | some info => { write p s info with th := some { th with loop := .at (i + 1) } }
    | none => { s with th := some { th with q2 := [], loop := .swap } }

def step (p : Platform) (s : Logger ε) : LoggerAct → Option (Logger ε)
  | .log c => some (log p s c)
  | .turn => s.th.map (turn p s)

/-- The records added that were not written: the rest of `q2_`, then `q1_`. -/
def waiting (s : Logger ε) : List LogInfo :=
  match s.th with
  | some th => th.rest ++ th.q1
  | none => []

end Logger

end Ven
