import PiAgents.Spooling.Record

/-! The bounded on-disk spool: its directory, the effects on it and the operations, each one as
the effects it performs in order, the spool it leaves and what it returns. -/

namespace PiAgents.Spooling

/-- Sequence numbers reserved per write of the sequence file. -/
def sequenceBlock : Nat := 4096

/-- The spool's directory. A segment file is named by the first sequence number in it. -/
structure Disk where
  segments : List (Nat × List UInt8)
  sequence : Option String
  sequenceTmp : Option String
  acked : Option String
  ackedTmp : Option String
  deriving DecidableEq

inductive Effect where
  | createSequenceTmp
  | writeSequenceTmp (text : String)
  | renameSequenceTmp
  | createSegment (name : Nat)
  | appendSegment (name : Nat) (bytes : List UInt8)
  | truncateSegment (name : Nat) (length : Nat)
  | removeSegment (name : Nat)
  | writeAckedTmp (text : String)
  | renameAckedTmp
  deriving DecidableEq

namespace Disk

def empty : Disk := ⟨[], none, none, none, none⟩

def file (disk : Disk) (name : Nat) : Option (List UInt8) := disk.segments.lookup name

def edit (disk : Disk) (name : Nat) (change : List UInt8 → List UInt8) : Disk :=
  { disk with
    segments := disk.segments.map fun file =>
      if file.1 = name then (file.1, change file.2) else file }

def apply (disk : Disk) : Effect → Disk
  | .createSequenceTmp => { disk with sequenceTmp := some "" }
  | .writeSequenceTmp text => { disk with sequenceTmp := some text }
  | .renameSequenceTmp => { disk with sequence := disk.sequenceTmp, sequenceTmp := none }
  | .createSegment name =>
      if disk.segments.any (·.1 == name) then disk
      else { disk with segments := disk.segments ++ [(name, [])] }
  | .appendSegment name bytes => disk.edit name (· ++ bytes)
  | .truncateSegment name length => disk.edit name (·.take length)
  | .removeSegment name => { disk with segments := disk.segments.filter (·.1 ≠ name) }
  | .writeAckedTmp text => { disk with ackedTmp := some text }
  | .renameAckedTmp => { disk with acked := disk.ackedTmp, ackedTmp := none }

def applyAll (disk : Disk) (effects : List Effect) : Disk := effects.foldl apply disk

def sorted (disk : Disk) : List (Nat × List UInt8) :=
  disk.segments.mergeSort fun a b => a.1 ≤ b.1

end Disk

def isWhitespace (c : Char) : Bool :=
  (9 ≤ c.toNat && c.toNat ≤ 13) || (8192 ≤ c.toNat && c.toNat ≤ 8202) ||
    [32, 133, 160, 5760, 8232, 8233, 8239, 8287, 12288].contains c.toNat

/-- `s.trim().parse::<u64>().ok()`. -/
def parseNumber (text : String) : Option Nat :=
  let trimmed := ((text.toList.dropWhile isWhitespace).reverse.dropWhile isWhitespace).reverse
  let digits := if trimmed.head? = some '+' then trimmed.tail else trimmed
  if digits ≠ [] ∧ digits.all Char.isDigit ∧ Nat.ofDigitChars 10 digits 0 < 2 ^ 64 then
    some (Nat.ofDigitChars 10 digits 0)
  else none

def numberLine (number : Nat) : String := toString number ++ "\n"

structure Loss where
  count : Nat
  firstSeq : Nat
  lastSeq : Nat
  firstEventTimeMs : Int64
  lastEventTimeMs : Int64
  deriving DecidableEq, Repr

structure SpoolConfig where
  segmentBytes : Nat
  maxBytes : Nat
  deriving DecidableEq, Repr

/-- Sequence numbers are contiguous within a segment; it keeps one acknowledgement bit for each.
Its path is the number in its file's name. -/
structure Segment where
  path : Nat
  firstSeq : Nat
  count : Nat
  acked : List Bool
  unacked : Nat
  minTime : Int64
  maxTime : Int64
  bytes : Nat
  deriving DecidableEq, Repr

namespace Segment

def new (path firstSeq : Nat) : Segment :=
  ⟨path, firstSeq, 0, [], 0, Int64.maxValue, Int64.minValue, 0⟩

def contains (s : Segment) (seq : Nat) : Bool :=
  s.firstSeq ≤ seq && seq < s.firstSeq + s.count

def isAcked (s : Segment) (seq : Nat) : Bool := s.acked.getD (seq - s.firstSeq) false

def setAcked (s : Segment) (seq : Nat) : Segment :=
  { s with
    acked := s.acked.set (seq - s.firstSeq) true
    unacked := if s.isAcked seq then s.unacked else s.unacked - 1 }

def push (s : Segment) (eventTimeMs : Int64) (recordLen : Nat) : Segment :=
  { s with
    count := s.count + 1
    acked := s.acked ++ [false]
    unacked := s.unacked + 1
    minTime := min s.minTime eventTimeMs
    maxTime := max s.maxTime eventTimeMs
    bytes := s.bytes + recordLen }

def seqs (s : Segment) : List Nat := List.range' s.firstSeq s.count

def unackedSeqs (s : Segment) : List Nat := s.seqs.filter fun seq => !s.isAcked seq

end Segment

structure Cursor where
  segment : Nat
  offset : Nat
  deriving DecidableEq, Repr

structure Spool where
  config : SpoolConfig
  segments : List Segment
  /-- The segment file open for appending. -/
  writer : Option Nat
  nextSeq : Nat
  reservedUntil : Nat
  totalBytes : Nat
  deriving DecidableEq, Repr

namespace Spool

/-- Writes the end of the next block. None when it does not fit a 64-bit number: the release build
wraps around there, and what it does then is not modelled. -/
def reserveSequences (spool : Spool) : List Effect × Option Spool :=
  let blockEnd := spool.nextSeq + sequenceBlock
  if blockEnd < 2 ^ 64 then
    ([.createSequenceTmp, .writeSequenceTmp (numberLine blockEnd), .renameSequenceTmp],
      some { spool with reservedUntil := blockEnd })
  else ([], none)

/-- Removes fully acknowledged segments from the front, except the last one. -/
def ackedFront : List Segment → List Segment × List Segment
  | first :: second :: rest =>
      if first.unacked = 0 then
        let later := ackedFront (second :: rest)
        (first :: later.1, later.2)
      else ([], first :: second :: rest)
  | segments => ([], segments)

def removals (segments : List Segment) : List Effect :=
  segments.map fun s => .removeSegment s.path

def bytesOf (segments : List Segment) : Nat := (segments.map (·.bytes)).sum

def dropAckedFront (spool : Spool) : List Effect × Spool :=
  let front := ackedFront spool.segments
  (removals front.1,
    { spool with segments := front.2, totalBytes := spool.totalBytes - bytesOf front.1 })

/-- A file without a valid record is removed; a torn or corrupt tail is cut off. -/
def recoveryEffects (file : Nat × List UInt8) : List Effect :=
  if (readSegment file.2).1.isEmpty then [.removeSegment file.1]
  else if (readSegment file.2).2 < file.2.length then
    [.truncateSegment file.1 (readSegment file.2).2]
  else []

def recoveredSegment (file : Nat × List UInt8) : Option Segment :=
  (readSegment file.2).1.head?.map fun first =>
    { (readSegment file.2).1.foldl (fun s entry => s.push entry.eventTimeMs 0)
        (Segment.new file.1 first.seq) with
      bytes := (readSegment file.2).2 }

def maxSeq (files : List (Nat × List UInt8)) : Option Nat :=
  (files.filterMap fun file => (readSegment file.2).1.getLast?.map (·.seq)).max?

def markDelivered (watermark : Nat) (s : Segment) : Segment :=
  (s.seqs.filter (· < watermark)).foldl Segment.setAcked s

def readNumber (text : Option String) : Nat := (text.bind parseNumber).getD 0

/-- Opens the spool, recovering the segments left by a previous run. -/
def «open» (config : SpoolConfig) (disk : Disk) : List Effect × Option Spool :=
  if config.maxBytes < 2 * config.segmentBytes then ([], none)
  else
    let files := disk.sorted
    let recovery := files.flatMap recoveryEffects
    let segments := files.filterMap recoveredSegment
    let nextSeq := max (readNumber disk.sequence) (((maxSeq files).map (· + 1)).getD 0)
    let reserved := reserveSequences
      ⟨config, segments, none, nextSeq, nextSeq, bytesOf segments⟩
    match reserved.2 with
    | none => (recovery, none)
    | some spool =>
        let marked := { spool with
          segments := spool.segments.map (markDelivered (readNumber disk.acked)) }
        let dropped := marked.dropAckedFront
        (recovery ++ reserved.1 ++ dropped.1, some dropped.2)

def unacked (spool : Spool) : Nat := (spool.segments.map (·.unacked)).sum

/-- The loss of a dropped segment, merged with what was dropped before it. -/
def addLoss (loss : Option Loss) (segment : Segment) : Option Loss :=
  if segment.unacked = 0 then loss
  else
    match segment.unackedSeqs.head?, segment.unackedSeqs.getLast? with
    | some first, some last =>
        let l := loss.getD ⟨0, first, last, segment.minTime, segment.maxTime⟩
        some { l with
          count := l.count + segment.unacked
          lastSeq := last
          firstEventTimeMs := min l.firstEventTimeMs segment.minTime
          lastEventTimeMs := max l.lastEventTimeMs segment.maxTime }
    | _, _ => loss

/-- The oldest closed segments that have to go until the incoming bytes fit, and the rest. -/
def overLimit (maxBytes incoming : Nat) : Nat → List Segment → List Segment × List Segment
  | totalBytes, first :: second :: rest =>
      if maxBytes < totalBytes + incoming then
        let later := overLimit maxBytes incoming (totalBytes - first.bytes) (second :: rest)
        (first :: later.1, later.2)
      else ([], first :: second :: rest)
  | _, segments => ([], segments)

def lossOf (dropped : List Segment) : Option Loss := dropped.foldl addLoss none

def enforceLimit (spool : Spool) (incoming : Nat) : List Effect × Spool × Option Loss :=
  let split := overLimit spool.config.maxBytes incoming spool.totalBytes spool.segments
  (removals split.1,
    { spool with segments := split.2, totalBytes := spool.totalBytes - bytesOf split.1 },
    lossOf split.1)

def rotate (spool : Spool) (firstSeq : Nat) : List Effect × Spool :=
  ([.createSegment firstSeq],
    { spool with
      segments := spool.segments ++ [Segment.new firstSeq firstSeq]
      writer := some firstSeq })

def needsRotation (spool : Spool) (recordLen : Nat) : Bool :=
  match spool.segments.getLast? with
  | some last => spool.writer.isNone || decide (spool.config.segmentBytes < last.bytes + recordLen)
  | none => true

def pushLast (segments : List Segment) (eventTimeMs : Int64) (recordLen : Nat) : List Segment :=
  match segments.getLast? with
  | some last => segments.dropLast ++ [last.push eventTimeMs recordLen]
  | none => segments

/-- An event to append; its payload is built from its sequence number. -/
structure Event where
  topic : Topic
  key : List UInt8
  eventTimeMs : Int64
  payload : Nat → List UInt8

def Event.entry (event : Event) (seq : Nat) : Entry :=
  ⟨seq, event.eventTimeMs, event.topic, event.key, event.payload seq⟩

/-- Room for the record is made before it is written. The writer is the last segment's file. -/
def appendReserved (spool : Spool) (event : Event) :
    List Effect × Spool × Nat × Option Loss :=
  let seq := spool.nextSeq
  let record := encodeEntry (event.entry seq)
  let rotated := if spool.needsRotation record.length then spool.rotate seq else ([], spool)
  let limited := rotated.2.enforceLimit record.length
  (rotated.1 ++ limited.1 ++ (limited.2.1.writer.toList.map fun name =>
      Effect.appendSegment name record),
    { limited.2.1 with
      segments := pushLast limited.2.1.segments event.eventTimeMs record.length
      totalBytes := limited.2.1.totalBytes + record.length
      nextSeq := limited.2.1.nextSeq + 1 },
    seq, limited.2.2)

/-- Returns the sequence number of the event and the loss caused by dropping old segments; none
when the next block of numbers does not fit. -/
def append (spool : Spool) (event : Event) :
    List Effect × Option (Spool × Nat × Option Loss) :=
  if spool.reservedUntil ≤ spool.nextSeq then
    let reserved := spool.reserveSequences
    match reserved.2 with
    | none => (reserved.1, none)
    | some spool =>
        let appended := spool.appendReserved event
        (reserved.1 ++ appended.1, some appended.2)
  else
    let appended := spool.appendReserved event
    (appended.1, some appended.2)

/-- The first segment that contains the sequence number takes the bit. -/
def ackSegments : List Segment → Nat → List Segment
  | [], _ => []
  | first :: rest, seq =>
      if first.contains seq then first.setAcked seq :: rest else first :: ackSegments rest seq

/-- Marks a sequence as delivered. Unknown sequences are ignored. -/
def ack (spool : Spool) (seq : Nat) : List Effect × Spool :=
  if spool.segments.any (·.contains seq) then
    { spool with segments := ackSegments spool.segments seq }.dropAckedFront
  else ([], spool)

def ackWatermark (spool : Spool) : Nat :=
  match spool.segments.find? fun s => 0 < s.unacked with
  | some s => s.unackedSeqs.headD spool.nextSeq
  | none => spool.nextSeq

def sync (spool : Spool) : List Effect :=
  [.writeAckedTmp (numberLine spool.ackWatermark), .renameAckedTmp]

/-- A cursor at the oldest segment that still has unacknowledged entries. -/
def rewind (spool : Spool) : Cursor :=
  match (spool.segments.find? fun s => 0 < s.unacked).or spool.segments.getLast? with
  | some s => ⟨s.firstSeq, 0⟩
  | none => ⟨0, 0⟩

/-- The records of one segment from the cursor on: entries not acknowledged, each with its own
position. Every round takes a header of the bytes left. -/
def readRest (segment : Segment) : Nat → Nat → List UInt8 → Cursor → List (Cursor × Entry) × Cursor
  | 0, _, _, cursor => ([], cursor)
  | rounds + 1, limit, bytes, cursor =>
      if limit = 0 then ([], cursor)
      else
        match readFrame bytes with
        | none => ([], cursor)
        | some (_, body, rest) =>
            let next : Cursor := { cursor with offset := cursor.offset + (recordHeader + body.length) }
            match (decodeBody body).filter fun entry =>
                segment.contains entry.seq && !segment.isAcked entry.seq with
            | some entry =>
                let later := readRest segment rounds (limit - 1) rest next
                ((cursor, entry) :: later.1, later.2)
            | none => readRest segment rounds limit rest next

/-- Reads on through the segments from the cursor's one. -/
def readSegments (disk : Disk) : Nat → List Segment → Cursor → List (Cursor × Entry) × Cursor
  | _, [], cursor => ([], cursor)
  | limit, segment :: rest, cursor =>
      if limit = 0 then ([], cursor)
      else
        let bytes := ((disk.file segment.path).getD []).drop cursor.offset
        let here := readRest segment (bytes.length + 1) limit bytes cursor
        match rest with
        | [] => here
        | next :: _ =>
            if here.2.offset < segment.bytes then here
            else
              let later := readSegments disk (limit - here.1.length) rest ⟨next.firstSeq, 0⟩
              (here.1 ++ later.1, later.2)

/-- Reads up to `limit` unacknowledged entries at or after the cursor. A cursor whose segment is
gone continues at the oldest one. -/
def read (spool : Spool) (disk : Disk) (cursor : Cursor) (limit : Nat) :
    List (Cursor × Entry) × Cursor :=
  if spool.segments.any (·.firstSeq == cursor.segment) then
    readSegments disk limit (spool.segments.dropWhile (·.firstSeq != cursor.segment)) cursor
  else
    readSegments disk limit spool.segments ⟨(spool.segments.head?.map (·.firstSeq)).getD 0, 0⟩

end Spool

end PiAgents.Spooling
