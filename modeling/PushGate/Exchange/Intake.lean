import PushGate.Exchange.Request

/-!
# Receiving bodies

A body is received chunk by chunk, up to a limit on its length.  It is refused as soon as more than
that has come, or when the connection fails; it is never complete if the connection stalls.

**Results.**
* `receive_eq`: the bytes that come, and how they end, settle what is received.
* `receive_congr`: how a body is cut into chunks makes no difference.
-/

namespace PushGate

/-- Why a body could not be received. -/
inductive BodyError where
  /-- It is longer than the limit. -/
  | tooLong
  /-- The connection failed. -/
  | stream (cause : String)
deriving DecidableEq

def BodyError.message : BodyError → String
  | .tooLong => "length limit exceeded"
  | .stream cause => cause

/-- What comes of receiving a body. -/
inductive Intake where
  | whole (bytes : Bytes)
  | failed (cause : BodyError)
  /-- It never comes to an end. -/
  | pending
deriving DecidableEq

/-- Receives chunks, of which `room` bytes may still come, after the pieces `done` (latest
first). -/
def Intake.receiveFrom (room : Nat) (done : List Bytes) : List Chunk → Intake
  | [] => .whole done.reverse.flatten
  | .data bytes :: chunks =>
      if room < bytes.length then .failed .tooLong
      else receiveFrom (room - bytes.length) (bytes :: done) chunks
  | .failure cause :: _ => .failed (.stream cause)
  | .stalled :: _ => .pending

/-- Receives a body of at most `limit` bytes. -/
def Intake.receive (limit : Nat) (chunks : List Chunk) : Intake :=
  receiveFrom limit [] chunks

/-! ## Bodies and chunks -/

/-- How the bytes of a body end. -/
inductive Terminator where
  | complete
  | failure (cause : String)
  | stalled
deriving DecidableEq

/-- The bytes that come before the end of the data. -/
def deliveredBytes : List Chunk → Bytes
  | .data bytes :: chunks => bytes ++ deliveredBytes chunks
  | _ => []

/-- What ends the data. -/
def terminator : List Chunk → Terminator
  | [] => .complete
  | .data _ :: chunks => terminator chunks
  | .failure cause :: _ => .failure cause
  | .stalled :: _ => .stalled

/-- What comes of bytes that end in a way. -/
def Intake.ofDelivery (limit : Nat) (bytes : Bytes) (e : Terminator) : Intake :=
  if limit < bytes.length then .failed .tooLong
  else
    match e with
    | .complete => .whole bytes
    | .failure cause => .failed (.stream cause)
    | .stalled => .pending

theorem Intake.receiveFrom_eq (room : Nat) (done : List Bytes) (chunks : List Chunk) :
    receiveFrom room done chunks =
      if room < (deliveredBytes chunks).length then .failed .tooLong
      else
        match terminator chunks with
        | .complete => .whole (done.reverse.flatten ++ deliveredBytes chunks)
        | .failure cause => .failed (.stream cause)
        | .stalled => .pending := by
  induction chunks generalizing room done with
  | nil => simp [receiveFrom, deliveredBytes, terminator]
  | cons chunk chunks ih =>
      cases chunk with
      | data bytes =>
          rw [receiveFrom, deliveredBytes, terminator, List.length_append]
          split
          · rw [if_pos (by omega)]
          · rw [ih]
            by_cases h : room < bytes.length + (deliveredBytes chunks).length
            · rw [if_pos h, if_pos (by omega)]
            · rw [if_neg h, if_neg (by omega)]
              simp
      | failure cause => simp [receiveFrom, deliveredBytes, terminator]
      | stalled => simp [receiveFrom, deliveredBytes, terminator]

/-- The limit and the end of the data settle what is received. -/
theorem Intake.receive_eq (limit : Nat) (chunks : List Chunk) :
    receive limit chunks = ofDelivery limit (deliveredBytes chunks) (terminator chunks) := by
  rw [receive, receiveFrom_eq]
  rfl

/-- How a body is cut into chunks makes no difference. -/
theorem Intake.receive_congr {limit : Nat} {s t : List Chunk}
    (hbytes : deliveredBytes s = deliveredBytes t) (hend : terminator s = terminator t) :
    receive limit s = receive limit t := by
  rw [receive_eq, receive_eq, hbytes, hend]

end PushGate
