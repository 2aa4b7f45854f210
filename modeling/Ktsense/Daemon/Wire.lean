import Ktsense.Foundation.Json

/-!
# The daemon's wire format

`wire.rs`: a frame is a big-endian length of four bytes and that many bytes of
JSON.  How JSON is printed and parsed belongs to `serde_json` and is a parameter;
the shape of each frame is the one its derived serialiser gives it.
-/

namespace Ktsense.Daemon

open Ktsense.Foundation

def maxFrame : ℕ := 16 * 1024 * 1024

def protocolVersion : ℕ := 11

inductive ServerFrame where
  | hello (protocolVersion : ℕ)
  | result (value : Json)
  | error (message : String)

inductive ClientFrame where
  | request (method : String) (params : Json)
  | stop

def ServerFrame.toJson : ServerFrame → Json
  | .hello version =>
      .obj [("type", .str "hello"), ("protocol_version", .ofNat version)]
  | .result value => .obj [("type", .str "result"), ("value", value)]
  | .error message => .obj [("type", .str "error"), ("message", .str message)]

def ServerFrame.fromJson (json : Json) : Option ServerFrame := do
  let tag ← (← json.member? "type").str?
  match tag with
  | "hello" =>
      return .hello (← (← json.member? "protocol_version").unsigned? (2 ^ 32 - 1))
  | "result" => return .result (← json.member? "value")
  | "error" => return .error (← (← json.member? "message").str?)
  | _ => none

def ClientFrame.toJson : ClientFrame → Json
  | .request method params =>
      .obj [("type", .str "request"), ("method", .str method), ("params", params)]
  | .stop => .obj [("type", .str "stop")]

def ClientFrame.fromJson (json : Json) : Option ClientFrame := do
  let tag ← (← json.member? "type").str?
  match tag with
  | "request" =>
      return .request (← (← json.member? "method").str?) (← json.member? "params")
  | "stop" => return .stop
  | _ => none

inductive WireError where
  | unexpectedEof
  | malformed
  | tooLarge (length limit : ℕ)
  deriving DecidableEq, Repr

/-- `u32::to_be_bytes`. -/
def toBeBytes (length : ℕ) : List UInt8 :=
  [UInt8.ofNat (length / 2 ^ 24), UInt8.ofNat (length / 2 ^ 16),
    UInt8.ofNat (length / 2 ^ 8), UInt8.ofNat length]

/-- `u32::from_be_bytes`. -/
def fromBeBytes (bytes : List UInt8) : ℕ :=
  bytes.foldl (fun value byte => value * 256 + byte.toNat) 0

section Frames

variable (printJson : Json → List UInt8) (parseJson : List UInt8 → Option Json)

def writeFrame (frame : Json) : Except WireError (List UInt8) :=
  let body := printJson frame
  if body.length > maxFrame then .error (.tooLarge body.length maxFrame)
  else .ok (toBeBytes body.length ++ body)

/-- `read_frame` on the bytes a peer sends before it closes the stream, with
what is left of them.  An end of the stream inside the length is taken for a
clean close, as the source does. -/
def readFrame {T : Type*} (decode : Json → Option T) (stream : List UInt8) :
    Except WireError (Option (T × List UInt8)) :=
  if stream.length < 4 then .ok none
  else
    let length := fromBeBytes (stream.take 4)
    if length > maxFrame then .error (.tooLarge length maxFrame)
    else if (stream.drop 4).length < length then .error .unexpectedEof
    else
      match (parseJson ((stream.drop 4).take length)).bind decode with
      | some frame => .ok (some (frame, (stream.drop 4).drop length))
      | none => .error .malformed

end Frames

theorem ServerFrame.fromJson_toJson {frame : ServerFrame}
    (hversion : ∀ version, frame = .hello version → version < 2 ^ 32) :
    ServerFrame.fromJson frame.toJson = some frame := by
  cases frame with
  | hello version =>
      have hlimit : version ≤ 2 ^ 32 - 1 := by
        have := hversion version rfl
        omega
      have hread := Json.unsigned?_ofNat hlimit
      change (Json.unsigned? (2 ^ 32 - 1) (.ofNat version)).bind
        (fun version => some (ServerFrame.hello version)) = _
      rw [hread]
      rfl
  | result value => rfl
  | error message => rfl

theorem ClientFrame.fromJson_toJson (frame : ClientFrame) :
    ClientFrame.fromJson frame.toJson = some frame := by
  cases frame with
  | request method params => rfl
  | stop => rfl

theorem fromBeBytes_toBeBytes {length : ℕ} (hlength : length < 2 ^ 32) :
    fromBeBytes (toBeBytes length) = length := by
  simp only [fromBeBytes, toBeBytes, List.foldl_cons, List.foldl_nil,
    UInt8.toNat_ofNat']
  omega

/-- A frame within the ceiling is read back, and the rest of the stream is
left. -/
theorem readFrame_writeFrame {T : Type*} {printJson : Json → List UInt8}
    {parseJson : List UInt8 → Option Json} {decode : Json → Option T} {json : Json}
    {frame : T} (hsize : (printJson json).length ≤ maxFrame)
    (hcodec : parseJson (printJson json) = some json)
    (hdecode : decode json = some frame) (rest : List UInt8) :
    ∃ bytes, writeFrame printJson json = .ok bytes ∧
      readFrame parseJson decode (bytes ++ rest) = .ok (some (frame, rest)) := by
  have hlength : (printJson json).length < 2 ^ 32 :=
    hsize.trans_lt (by decide)
  refine ⟨toBeBytes (printJson json).length ++ printJson json, ?_, ?_⟩
  · rw [writeFrame, if_neg (by omega)]
  · have htake : (toBeBytes (printJson json).length ++ printJson json ++ rest).take 4 =
        toBeBytes (printJson json).length := rfl
    have hdrop : (toBeBytes (printJson json).length ++ printJson json ++ rest).drop 4 =
        printJson json ++ rest := rfl
    have hlong : ¬(toBeBytes (printJson json).length ++ printJson json ++
        rest).length < 4 := by
      simp [toBeBytes]
    have hwhole : ¬(printJson json ++ rest).length < (printJson json).length := by
      simp
    rw [readFrame, if_neg hlong]
    simp only [htake, hdrop, fromBeBytes_toBeBytes hlength]
    rw [if_neg (not_lt.2 hsize), if_neg hwhole]
    simp only [List.take_left, List.drop_left, hcodec, Option.bind_some, hdecode]

end Ktsense.Daemon
