import Mathlib.Algebra.GroupWithZero.Nat
import Mathlib.Data.List.Basic

/-!
# Timestamps and timeranges

`internal/timerange`: the parser of TAMS timerange strings, the canonical
rendering, and the conversion of a range to half-open nanosecond bounds.
Integers are the source's machine integers. A function that dereferences a
pointer or panics answers `none` where the source would panic.
-/

namespace OpenTams

/-! ## Go strings -/

/-- A Go string is a sequence of bytes. -/
abbrev Str := List UInt8

def ch (c : Char) : UInt8 := c.toNat.toUInt8

def lit (s : String) : Str := s.toList.map ch

/-- `strings.Cut`: the parts around the first `sep`, and whether there is one. -/
def cut (sep : UInt8) : Str → Str × Str × Bool
  | [] => ([], [], false)
  | b :: s =>
    if b = sep then ([], s, true)
    else
      let r := cut sep s
      (b :: r.1, r.2.1, r.2.2)

def decStr (n : Nat) : Str := (Nat.toDigits 10 n).map ch

def intStr (i : Int) : Str := if i < 0 then ch '-' :: decStr (-i).toNat else decStr i.toNat

def decVal (s : Str) : Nat := s.foldl (fun n b => 10 * n + (b.toNat - 48)) 0

def isDigit (b : UInt8) : Bool := ch '0' ≤ b && b ≤ ch '9'

/-! ## Timestamps -/

/-- `nanoseconds` is meant to be in `[0, 999_999_999]`; the type does not say so. -/
structure Timestamp where
  seconds : Int64
  nanoseconds : Int32
  deriving DecidableEq

def nsPerSec : Int64 := 1000000000

inductive ParseError where
  | expectedColon (s : Str)
  | badSeconds (s : Str)
  | badNanoseconds (s : Str)
  | secondsOutOfRange (s : Str)
  | emptyString
  | exclusiveInstant (s : Str)
  | timestamp (s : Str) (e : ParseError)
  deriving DecidableEq

/-- Strings of the form `(0|[1-9][0-9]*)`. -/
def validInt : Str → Bool
  | [] => false
  | b :: s =>
    if b :: s = lit "0" then true
    else if b < ch '1' || ch '9' < b then false
    else s.all isDigit

def validNano : Str → Bool
  | [] => false
  | b :: s =>
    if b :: s = lit "0" then true
    else if b < ch '1' || ch '9' < b then false
    else if 9 < (b :: s).length then false
    else s.all isDigit

def parseUint (s : Str) : Option UInt64 :=
  if decVal s < 2 ^ 64 then some (UInt64.ofNat (decVal s)) else none

def maxInt64 : UInt64 := 9223372036854775807

def parseTimestamp (s : Str) : Except ParseError Timestamp :=
  let neg := s.head? = some (ch '-')
  let (secStr, nsStr, ok) := cut (ch ':') (if neg then s.tail else s)
  if !ok then .error (.expectedColon s)
  else if !validInt secStr then .error (.badSeconds s)
  else if !validNano nsStr then .error (.badNanoseconds s)
  else match parseUint secStr with
    | none => .error (.secondsOutOfRange s)
    | some mag =>
      let ns := Int64.ofNat (decVal nsStr)
      if !neg || (mag = 0 && ns = 0) then
        if maxInt64 < mag then .error (.secondsOutOfRange s)
        else .ok ⟨mag.toInt64, ns.toInt32⟩
      else if ns = 0 then
        if maxInt64 + 1 < mag then .error (.secondsOutOfRange s)
        else .ok ⟨-(mag - 1).toInt64 - 1, 0⟩
      else
        if maxInt64 < mag then .error (.secondsOutOfRange s)
        else .ok ⟨-mag.toInt64 - 1, (nsPerSec - ns).toInt32⟩

namespace Timestamp

def string (ts : Timestamp) : Str :=
  if 0 ≤ ts.seconds then
    intStr ts.seconds.toInt ++ ch ':' :: intStr ts.nanoseconds.toInt
  else
    let magSec := (-(ts.seconds + 1)).toUInt64
    let magNs := nsPerSec - ts.nanoseconds.toInt64
    let (magSec, magNs) := if ts.nanoseconds = 0 then (magSec + 1, 0) else (magSec, magNs)
    ch '-' :: decStr magSec.toNat ++ ch ':' :: intStr magNs.toInt

def before (ts other : Timestamp) : Bool :=
  if ts.seconds ≠ other.seconds then ts.seconds < other.seconds
  else ts.nanoseconds < other.nanoseconds

def next (ts : Timestamp) : Timestamp :=
  if ts.nanoseconds.toInt64 < nsPerSec - 1 then ⟨ts.seconds, ts.nanoseconds + 1⟩
  else ⟨ts.seconds + 1, 0⟩

def equal (ts other : Timestamp) : Bool :=
  ts.seconds = other.seconds && ts.nanoseconds = other.nanoseconds

end Timestamp

/-! ## Timeranges -/

inductive BoundType where
  | inclusive
  | exclusive
  | unbounded
  deriving DecidableEq

structure TimeRange where
  start : Option Timestamp
  startType : BoundType
  endTs : Option Timestamp
  endType : BoundType
  deriving DecidableEq

def TimeRange.empty : TimeRange := ⟨none, .exclusive, none, .exclusive⟩

def startMarker : Str → Option UInt8 × Str
  | [] => (none, [])
  | b :: s => if b = ch '[' || b = ch '(' then (some b, s) else (none, b :: s)

def endMarker (s : Str) : Option UInt8 × Str :=
  match s.getLast? with
  | none => (none, s)
  | some b => if b = ch ']' || b = ch ')' then (some b, s.dropLast) else (none, s)

/-- One side of a range with a separator; a marker next to an omitted timestamp is ignored. -/
def parseSide (s side : Str) (exclusive : Bool) : Except ParseError (Option Timestamp × BoundType) :=
  if side = [] then .ok (none, .unbounded)
  else match parseTimestamp side with
    | .error e => .error (.timestamp s e)
    | .ok ts => .ok (some ts, if exclusive then .exclusive else .inclusive)

def parse (s : Str) : Except ParseError TimeRange :=
  if s = [] then .error .emptyString
  else
    let (startM, body) := startMarker s
    let (endM, body) := endMarker body
    let (startStr, endStr, hasSep) := cut (ch '_') body
    if !hasSep then
      if startStr = [] then .ok .empty
      else if startM = some (ch '(') || endM = some (ch ')') then .error (.exclusiveInstant s)
      else match parseTimestamp startStr with
        | .error e => .error (.timestamp s e)
        | .ok ts => .ok ⟨some ts, .inclusive, some ts, .inclusive⟩
    else
      match parseSide s startStr (startM = some (ch '(')) with
      | .error e => .error e
      | .ok (start, startType) =>
        match parseSide s endStr (endM = some (ch ')')) with
        | .error e => .error e
        | .ok (endTs, endType) => .ok ⟨start, startType, endTs, endType⟩

namespace TimeRange

def isEmpty (tr : TimeRange) : Bool :=
  match tr.start, tr.endTs with
  | none, none => tr.startType ≠ .unbounded || tr.endType ≠ .unbounded
  | none, some _ => false
  | some _, none => false
  | some s, some e =>
    if e.before s then true
    else if s.equal e then tr.startType = .exclusive || tr.endType = .exclusive
    else if tr.startType = .exclusive && tr.endType = .exclusive then e.equal s.next
    else false

def isEternity (tr : TimeRange) : Bool :=
  tr.startType = .unbounded && tr.endType = .unbounded

def startsAfter (tr : TimeRange) (ts : Timestamp) : Bool :=
  match tr.start with
  | none => false
  | some s => match tr.startType with
    | .inclusive => ts.before s
    | .exclusive => ts.before s || ts.equal s
    | .unbounded => false

def endsBefore (tr : TimeRange) (ts : Timestamp) : Bool :=
  match tr.endTs with
  | none => false
  | some e => match tr.endType with
    | .inclusive => e.before ts
    | .exclusive => e.before ts || e.equal ts
    | .unbounded => false

def contains (tr : TimeRange) (ts : Timestamp) : Bool :=
  if tr.isEmpty then false
  else if tr.isEternity then true
  else if tr.startsAfter ts then false
  else if tr.endsBefore ts then false
  else true

/-- The canonical string; `none` is the panic on a nil bound that is not unbounded. -/
def string (tr : TimeRange) : Option Str :=
  if tr.isEmpty then some (lit "()")
  else if tr.isEternity then some (lit "_")
  else if tr.start.isNone ≠ decide (tr.startType = .unbounded) ||
    tr.endTs.isNone ≠ decide (tr.endType = .unbounded) then
    none
  else match tr.start, tr.endTs with
    | some s, some e =>
      if s.equal e then some (ch '[' :: s.string ++ [ch ']'])
      else some (startPart s ++ ch '_' :: endPart e)
    | some s, none => some (startPart s ++ [ch '_'])
    | none, some e => some (ch '_' :: endPart e)
    | none, none => some [ch '_']
where
  startPart (s : Timestamp) : Str := (if tr.startType = .exclusive then ch '(' else ch '[') :: s.string
  endPart (e : Timestamp) : Str := e.string ++ [if tr.endType = .exclusive then ch ')' else ch ']']

end TimeRange

/-! ## Nanosecond bounds -/

/-- The half-open interval `[lower, upper)`; a bound counts only when its side is not unbounded. -/
structure NsBounds where
  lower : Int64 := 0
  upper : Int64 := 0
  lowerUnbounded : Bool := false
  upperUnbounded : Bool := false
  deriving DecidableEq

inductive NsError where
  | emptyRange
  | startOutOfRange
  | endOutOfRange
  deriving DecidableEq

def Timestamp.nanos (ts : Timestamp) : Option Int64 :=
  let borrow := ts.seconds < 0 && 0 < ts.nanoseconds.toInt64
  let s := if borrow then ts.seconds + 1 else ts.seconds
  let ns := if borrow then ts.nanoseconds.toInt64 - nsPerSec else ts.nanoseconds.toInt64
  if Int64.maxValue / nsPerSec < s || s < Int64.minValue / nsPerSec then none
  else
    let v := s * nsPerSec
    if (0 < ns && Int64.maxValue - ns < v) || (ns < 0 && v < Int64.minValue - ns) then none
    else some (v + ns)

def boundNanos (ts : Timestamp) (addOne : Bool) : Option Int64 :=
  match ts.nanos with
  | none => none
  | some v => if addOne && v = Int64.maxValue then none else some (if addOne then v + 1 else v)

def TimeRange.nsBounds (tr : TimeRange) : Except NsError NsBounds :=
  if tr.isEmpty then .error .emptyRange
  else
    let lower := match tr.start with
      | none => some (0, true)
      | some ts => (boundNanos ts (tr.startType = .exclusive)).map (·, false)
    let upper := match tr.endTs with
      | none => some (0, true)
      | some ts => (boundNanos ts (tr.endType = .inclusive)).map (·, false)
    match lower, upper with
    | none, _ => .error .startOutOfRange
    | some _, none => .error .endOutOfRange
    | some (lo, lu), some (hi, uu) => .ok ⟨lo, hi, lu, uu⟩

end OpenTams
