import Mathlib

/-! Readers of byte streams, and the rules by which a reader gets back what a writer has put in
front of any rest. -/

namespace PiAgents.ByteStream

abbrev Reader (α : Type) := StateT (List UInt8) Option α

/-- From these bytes, whatever follows, the reader makes the value. -/
def Reads {α : Type} (reader : Reader α) (bytes : List UInt8) (value : α) : Prop :=
  ∀ rest, reader (bytes ++ rest) = some (value, rest)

section Rules

variable {α β : Type}

theorem Reads.pure (value : α) : Reads (Pure.pure value) [] value := fun _ => rfl

theorem Reads.bind {reader : Reader α} {next : α → Reader β} {first second : List UInt8}
    {value : α} {result : β} (reads : Reads reader first value)
    (continues : Reads (next value) second result) :
    Reads (reader >>= next) (first ++ second) result := by
  intro rest
  have before := reads (second ++ rest)
  rw [← List.append_assoc] at before
  change (reader (first ++ second ++ rest)).bind (fun pair => next pair.1 pair.2) = _
  rw [before]
  exact continues rest

theorem Reads.last {reader : Reader α} {bytes : List UInt8} {value : α} {result : β}
    {finish : α → Reader β} (reads : Reads reader bytes value)
    (done : finish value = Pure.pure result) : Reads (reader >>= finish) bytes result := by
  have ends : Reads (finish value) [] result := by
    rw [done]
    exact Reads.pure result
  have both := reads.bind ends
  rwa [List.append_nil] at both

def readMany : Nat → Reader α → Reader (List α)
  | 0, _ => pure []
  | count + 1, reader => do
      let value ← reader
      let later ← readMany count reader
      return value :: later

theorem reads_many {reader : Reader α} {bytes : α → List UInt8} {values : List α}
    (reads : ∀ value ∈ values, Reads reader (bytes value) value) :
    Reads (readMany values.length reader) (values.flatMap bytes) values := by
  induction values with
  | nil => exact .pure []
  | cons value rest ih =>
      have first := reads value (List.mem_cons_self ..)
      have later := ih fun other member => reads other (List.mem_cons_of_mem _ member)
      exact first.bind (later.last rfl)

/-- A byte, when there is one. -/
def readByte : Reader UInt8
  | [] => none
  | byte :: rest => some (byte, rest)

theorem reads_byte (byte : UInt8) : Reads readByte [byte] byte := fun _ => rfl

def readBytes (count : Nat) : Reader (List UInt8) := fun input =>
  if count ≤ input.length then some (input.take count, input.drop count) else none

theorem reads_bytes (bytes : List UInt8) : Reads (readBytes bytes.length) bytes bytes := by
  intro rest
  have inside : bytes.length ≤ (bytes ++ rest).length := by
    rw [List.length_append]
    exact Nat.le_add_right _ _
  rw [readBytes, if_pos inside, List.take_left, List.drop_left]

end Rules

/-! Numbers of a fixed width, the most significant byte first. -/

def toBeBytes : Nat → Nat → List UInt8
  | 0, _ => []
  | width + 1, n => UInt8.ofNat (n / 256 ^ width) :: toBeBytes width n

def fromBeBytes (bytes : List UInt8) : Nat := bytes.foldl (fun n byte => 256 * n + byte.toNat) 0

@[simp] theorem toBeBytes_length (width n : Nat) : (toBeBytes width n).length = width := by
  induction width with
  | zero => rfl
  | succ width ih => rw [toBeBytes, List.length_cons, ih]

private theorem fromBeBytes_after (width n high : Nat) :
    (toBeBytes width n).foldl (fun n byte => 256 * n + byte.toNat) high =
      256 ^ width * high + n % 256 ^ width := by
  induction width generalizing high with
  | zero => simp [toBeBytes, Nat.mod_one]
  | succ width ih =>
      rw [toBeBytes, List.foldl_cons, ih, UInt8.toNat_ofNat']
      calc
        256 ^ width * (256 * high + n / 256 ^ width % 256) + n % 256 ^ width
          = 256 ^ width * 256 * high +
              (n % 256 ^ width + 256 ^ width * (n / 256 ^ width % 256)) := by ring
        _ = 256 ^ (width + 1) * high + n % 256 ^ (width + 1) := by
            rw [← Nat.mod_mul, ← Nat.pow_succ]

theorem fromBeBytes_toBeBytes (width n : Nat) :
    fromBeBytes (toBeBytes width n) = n % 256 ^ width := by
  rw [fromBeBytes, fromBeBytes_after, Nat.mul_zero, Nat.zero_add]

def readNumber (width : Nat) : Reader Nat := do
  let bytes ← readBytes width
  return fromBeBytes bytes

theorem reads_number {width n : Nat} (bound : n < 256 ^ width) :
    Reads (readNumber width) (toBeBytes width n) n := by
  have bytes := reads_bytes (toBeBytes width n)
  rw [toBeBytes_length] at bytes
  apply bytes.last
  rw [fromBeBytes_toBeBytes, Nat.mod_eq_of_lt bound]

end PiAgents.ByteStream
