import ReferenceSystem.Samples
import ReferenceSystem.Runs
import ReferenceSystem.Stream

/-!
# Tracking records and delivery reports

`TrackingWriter` and the threads that use it. Each operation of the writer runs
under its mutex and is one step; between them callback threads read the clock
for their events, and the reporter reads the clock before it takes the lock.
Times and the 64-bit counters are natural numbers. Records are kept as data;
`TrackingRecord.text` is the string that the write function receives.
-/

namespace ReferenceSystem

/-! ## The writer -/

structure ProducerState where
  nextRecord : Nat := 0
  nextCallback : Nat := 0
  active : List (Nat × Nat) := []
  deriving DecidableEq, Repr

inductive TrackingContent where
  | event (timestampNs : Nat) (text : Bytes)
  | delivery (throughNs : Nat)
  deriving DecidableEq, Repr

structure TrackingRecord where
  producer : Bytes
  instanceId : Bytes
  bootId : Bytes
  recordSeq : Nat
  content : TrackingContent
  deriving DecidableEq, Repr

/-! ## Record texts -/

/-- The body of the loop: a line break is replaced, a quote or backslash marked. -/
def quoteByte (c : UInt8) : Bytes :=
  if c = 10 then ascii "\\n" else if c = 13 then ascii "\\r" else if c = 92 ∨ c = 34 then [92, c] else [c]

def jsonQuote (value : Bytes) : Bytes := ascii "\"" ++ value.flatMap quoteByte ++ ascii "\""

/-- The first position of a pattern. -/
def findText (pattern text : Bytes) : Option Nat :=
  (List.range (text.length + 1)).find? fun i => pattern.isPrefixOf (text.drop i)

/-- The last position of a byte. -/
def rfindByte (c : UInt8) (text : Bytes) : Option Nat :=
  (List.range text.length).reverse.find? fun i => text[i]? = some c

def raiseSchema (event : Bytes) : Bytes :=
  let schema := ascii "\"schema\":1"
  match findText schema event with
  | none => event
  | some i => event.take i ++ ascii "\"schema\":2" ++ event.drop (i + schema.length)

/-- The fields that both kinds of records share. -/
def identityFields (producer instanceId bootId : Bytes) (sequence : Nat) : Bytes :=
  ascii ",\"producer\":" ++ jsonQuote producer ++ ascii ",\"instance\":" ++ jsonQuote instanceId ++
    ascii ",\"boot_id\":" ++ jsonQuote bootId ++ ascii ",\"record_seq\":" ++ decimal sequence

def withIdentity (event producer instanceId bootId : Bytes) (sequence : Nat) : Bytes :=
  let result := raiseSchema event
  match rfindByte 125 result with
  | none => result
  | some i => result.take i ++ identityFields producer instanceId bootId sequence ++ result.drop i

/-- The sequence number is printed from a 64-bit counter. -/
def TrackingRecord.text (r : TrackingRecord) : Bytes :=
  match r.content with
  | .event _ event => withIdentity event r.producer r.instanceId r.bootId (r.recordSeq % 2 ^ 64)
  | .delivery through =>
    ascii "\x7b\"schema\":2,\"event\":\"delivery\"" ++
      identityFields r.producer r.instanceId r.bootId (r.recordSeq % 2 ^ 64) ++
      ascii ",\"through_ns\":" ++ decimal through ++ ascii "\x7d"

/-! ## Identifiers -/

/-- `std::hex`. -/
def hexadecimal (n : Nat) : Bytes := (Nat.toDigits 16 n).map fun c => UInt8.ofNat c.toNat

/-- An environment variable that is set and not empty is taken as it is. -/
def overridden (overrideValue : Option Bytes) (value : Bytes) : Bytes :=
  match overrideValue with
  | some (c :: rest) => c :: rest
  | _ => value

/-- `REFERENCE_SYSTEM_INSTANCE_ID`, or the time and the process id. -/
def processInstanceId (overrideValue : Option Bytes) (nowNs pid : UInt64) : Bytes :=
  overridden overrideValue (hexadecimal nowNs.toNat ++ ascii "-" ++ hexadecimal pid.toNat)

/-! ## The state of the writer -/

/-- The writer with everything it has handed to its write function. -/
structure TrackingWriter where
  bootId : Bytes
  instanceId : Bytes
  producers : Bytes → Option ProducerState := fun _ => none
  written : List TrackingRecord := []

/-- The watermark of a report: no later than `nowNs`, and before every active callback began. -/
def throughNs (active : List (Nat × Nat)) (nowNs : Nat) : Nat :=
  active.foldl (fun through callback => if callback.2 = 0 then 0 else min through (callback.2 - 1)) nowNs

namespace TrackingWriter

def state (w : TrackingWriter) (producer : Bytes) : ProducerState := (w.producers producer).getD {}

def update (w : TrackingWriter) (producer : Bytes) (f : ProducerState → ProducerState) : TrackingWriter :=
  { w with producers := fun p => if p = producer then some (f (w.state producer)) else w.producers p }

def write (w : TrackingWriter) (producer : Bytes) (content : TrackingContent) : TrackingWriter :=
  { w.update producer fun s => { s with nextRecord := s.nextRecord + 1 } with
    written := w.written ++ [⟨producer, w.instanceId, w.bootId, (w.state producer).nextRecord, content⟩] }

/-- The new token; `emplace` keeps an existing binding. -/
def beginCallback (w : TrackingWriter) (producer : Bytes) (entryNs : Nat) : TrackingWriter × Nat :=
  let token := (w.state producer).nextCallback + 1
  (w.update producer fun s =>
    { s with
      nextCallback := token
      active := if token ∈ s.active.map Prod.fst then s.active else s.active ++ [(token, entryNs)] }, token)

def registerProducer (w : TrackingWriter) (producer : Bytes) : TrackingWriter := w.update producer id

def writeEvent (w : TrackingWriter) (producer : Bytes) (timestampNs : Nat) (event : Bytes) : TrackingWriter :=
  w.write producer (.event timestampNs event)

def reportDelivery (w : TrackingWriter) (producer : Bytes) (nowNs : Nat) : TrackingWriter :=
  w.write producer (.delivery (throughNs (w.state producer).active nowNs))

def endCallback (w : TrackingWriter) (producer : Bytes) (token : Nat) : TrackingWriter :=
  match w.producers producer with
  | none => w
  | some _ => w.update producer fun s => { s with active := s.active.filter (·.1 ≠ token) }

end TrackingWriter

inductive WriterCall where
  | registerProducer (producer : Bytes)
  | beginCallback (producer : Bytes) (entryNs : Nat)
  | endCallback (producer : Bytes) (token : Nat)
  | writeEvent (producer : Bytes) (timestampNs : Nat) (event : Bytes)
  | reportDelivery (producer : Bytes) (nowNs : Nat)
  deriving DecidableEq, Repr

def WriterCall.producer : WriterCall → Bytes
  | registerProducer p => p
  | beginCallback p _ => p
  | endCallback p _ => p
  | writeEvent p _ _ => p
  | reportDelivery p _ => p

def TrackingWriter.call (w : TrackingWriter) : WriterCall → TrackingWriter
  | .registerProducer producer => w.registerProducer producer
  | .beginCallback producer entryNs => (w.beginCallback producer entryNs).1
  | .endCallback producer token => w.endCallback producer token
  | .writeEvent producer timestampNs event => w.writeEvent producer timestampNs event
  | .reportDelivery producer nowNs => w.reportDelivery producer nowNs

/-- Any calls, in the order in which they take the mutex. -/
def TrackingWriter.calls (w : TrackingWriter) (cs : List WriterCall) : TrackingWriter := cs.foldl TrackingWriter.call w

/-! ## Threads -/

/-- A callback with its guard, and the times it has read for its events. -/
structure CallbackThread where
  producer : Bytes
  token : Nat
  entryNs : Nat
  stamps : List Nat := []
  live : Bool := true
  deriving DecidableEq, Repr

structure TrackingState where
  writer : TrackingWriter
  callbacks : List CallbackThread := []
  reporter : Option (Bytes × Nat) := none
  reads : List Nat := []

inductive TrackingStep where
  | register (producer : Bytes)
  | beginCallback (producer : Bytes) (now : Nat)
  | stamp (callback : Nat) (now : Nat)
  | write (callback : Nat) (stamp : Nat) (event : Bytes)
  | endCallback (callback : Nat)
  | read (producer : Bytes) (now : Nat)
  | report
  deriving DecidableEq, Repr

def liveCallback (s : TrackingState) (c : Nat) : Option CallbackThread :=
  s.callbacks[c]?.filter (·.live)

def trackingStep (s : TrackingState) : TrackingStep → Option TrackingState
  | .register producer => some { s with writer := s.writer.registerProducer producer }
  | .beginCallback producer now =>
    let begun := s.writer.beginCallback producer now
    some { s with
      writer := begun.1
      callbacks := s.callbacks ++ [{ producer, token := begun.2, entryNs := now }]
      reads := s.reads ++ [now] }
  | .stamp c now =>
    (liveCallback s c).map fun t =>
      { s with callbacks := s.callbacks.set c { t with stamps := t.stamps ++ [now] }, reads := s.reads ++ [now] }
  | .write c k event =>
    (liveCallback s c).bind fun t => t.stamps[k]?.map fun timestamp =>
      { s with writer := s.writer.writeEvent t.producer timestamp event }
  | .endCallback c =>
    (liveCallback s c).map fun t =>
      { s with
        writer := s.writer.endCallback t.producer t.token
        callbacks := s.callbacks.set c { t with live := false } }
  | .read producer now =>
    if s.reporter = none then some { s with reporter := some (producer, now), reads := s.reads ++ [now] } else none
  | .report =>
    s.reporter.map fun (producer, now) =>
      { s with writer := s.writer.reportDelivery producer now, reporter := none }

def trackingRun (bootId instanceId : Bytes) (steps : List TrackingStep) : Option TrackingState :=
  runSteps trackingStep { writer := { bootId, instanceId } } steps

end ReferenceSystem
