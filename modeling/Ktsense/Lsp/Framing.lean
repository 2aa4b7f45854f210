import Ktsense.Foundation.Text

/-!
# Content-Length framing

`framing.rs` turns a byte stream into message bodies.  The decoder only sees
what has arrived, so a read may end anywhere: in a header name, in the digits,
in the terminator or in a body.  `FrameDecoder.nextFrame` is modelled with all
its faults, and the reader loop of `client.rs` around it; whatever the cuts, the
bodies that were encoded come out in order.
-/

namespace Ktsense.Lsp

open Ktsense.Foundation

def headerTerminator : List UInt8 := [13, 10, 13, 10]

def contentLength : String := "content-length"

def maxContentLength : ℕ := 64 * 1024 * 1024

def maxHeaderBytes : ℕ := 8 * 1024

def usizeMax : ℕ := 2 ^ 64 - 1

def isizeMax : ℕ := 2 ^ 63 - 1

inductive FramingError where
  | missingContentLength
  | invalidContentLength (value : String)
  | invalidHeaderText
  | frameTooLarge (length limit : ℕ)
  | headerTooLarge (limit : ℕ)
  deriving DecidableEq, Repr

def FramingError.message : FramingError → String
  | .missingContentLength => "frame header block carried no Content-Length"
  | .invalidContentLength value =>
      "Content-Length `" ++ value ++ "` is not a valid byte count"
  | .invalidHeaderText => "frame header block was not valid UTF-8"
  | .frameTooLarge length limit =>
      "Content-Length " ++ toString length ++ " exceeds the " ++
        toString limit ++ " byte frame ceiling"
  | .headerTooLarge limit =>
      "frame header grew past " ++ toString limit ++ " bytes without a terminator"

def encode (body : List UInt8) : List UInt8 :=
  utf8 ("Content-Length: " ++ toString body.length ++ "\r\n\r\n") ++ body

/-- The loop of `parse_content_length` over the header lines. -/
def lengthInLines : List (List Char) → Except FramingError ℕ
  | [] => .error .missingContentLength
  | line :: lines =>
      match splitOnce ':' line with
      | none => lengthInLines lines
      | some (name, value) =>
          if eqIgnoreAsciiCase (trim name) contentLength.toList then
            match parseUnsigned usizeMax (trim value) with
            | some length => .ok length
            | none => .error (.invalidContentLength (String.ofList (trim value)))
          else lengthInLines lines

def parseContentLength (headerBlock : String) : Except FramingError ℕ :=
  lengthInLines (split "\r\n".toList headerBlock.toList)

structure FrameDecoder where
  buffer : List UInt8
  deriving DecidableEq, Repr

namespace FrameDecoder

def fresh : FrameDecoder := ⟨[]⟩

def push (decoder : FrameDecoder) (bytes : List UInt8) : FrameDecoder :=
  ⟨decoder.buffer ++ bytes⟩

/-- `next_frame`, with the decoder it leaves behind. -/
def nextFrame (decoder : FrameDecoder) :
    Except FramingError (Option (List UInt8)) × FrameDecoder :=
  match findSubslice headerTerminator decoder.buffer with
  | none =>
      if decoder.buffer.length > maxHeaderBytes then
        (.error (.headerTooLarge maxHeaderBytes), decoder)
      else (.ok none, decoder)
  | some separator =>
      match fromUtf8 (decoder.buffer.take separator) with
      | none => (.error .invalidHeaderText, decoder)
      | some headerText =>
          match parseContentLength headerText with
          | .error fault => (.error fault, decoder)
          | .ok length =>
              let bodyStart := separator + headerTerminator.length
              let frameEnd := bodyStart + length
              if frameEnd ≤ usizeMax ∧ length ≤ maxContentLength ∧
                  frameEnd ≤ isizeMax then
                if decoder.buffer.length < frameEnd then (.ok none, decoder)
                else
                  (.ok (some ((decoder.buffer.take frameEnd).drop bodyStart)),
                    ⟨decoder.buffer.drop frameEnd⟩)
              else (.error (.frameTooLarge length maxContentLength), decoder)

/-- A frame that comes out takes at least its terminator from the buffer. -/
theorem nextFrame_shrinks {decoder next : FrameDecoder} {body : List UInt8}
    (hframe : decoder.nextFrame = (.ok (some body), next)) :
    next.buffer.length < decoder.buffer.length := by
  unfold nextFrame at hframe
  split at hframe
  · split at hframe <;> simp at hframe
  · rename_i separator _
    split at hframe
    · simp at hframe
    · split at hframe
      · simp at hframe
      · rename_i length _
        dsimp only at hframe
        split at hframe
        · split at hframe
          · simp at hframe
          · rename_i hlength
            have hnext := (Prod.mk.inj hframe).2
            have hterminator : headerTerminator.length = 4 := rfl
            rw [← hnext, List.length_drop]
            omega
        · simp at hframe

end FrameDecoder

/-- What the reader loop of `client.rs` has dispatched, the fault that stopped
it, and its decoder. -/
structure Reading where
  dispatched : List (List UInt8)
  fault : Option FramingError
  decoder : FrameDecoder
  deriving DecidableEq, Repr

namespace Reading

def fresh : Reading := ⟨[], none, .fresh⟩

/-- The inner loop: take frames until more bytes are needed or one is
faulty. -/
def drain (dispatched : List (List UInt8)) (decoder : FrameDecoder) : Reading :=
  match _hframe : decoder.nextFrame with
  | (.ok (some body), next) => drain (dispatched ++ [body]) next
  | (.ok none, next) => ⟨dispatched, none, next⟩
  | (.error fault, next) => ⟨dispatched, some fault, next⟩
termination_by decoder.buffer.length
decreasing_by exact FrameDecoder.nextFrame_shrinks _hframe

/-- One round of the outer loop: a faulted reader has stopped. -/
def read (reading : Reading) (chunk : List UInt8) : Reading :=
  if reading.fault.isSome then reading
  else drain reading.dispatched (reading.decoder.push chunk)

def readAll (chunks : List (List UInt8)) : Reading :=
  chunks.foldl read fresh

end Reading

/-! ## One encoded frame -/

/-- The header text of a frame, without its terminator. -/
def header (length : ℕ) : String := "Content-Length: " ++ toString length

theorem encode_eq (body : List UInt8) :
    encode body = utf8 (header body.length) ++ headerTerminator ++ body := by
  have hterminator : utf8 "\r\n\r\n" = headerTerminator := by decide
  apply congrArg (· ++ body)
  calc utf8 (header body.length ++ "\r\n\r\n")
      = utf8 (header body.length) ++ utf8 "\r\n\r\n" := utf8_append _ _
    _ = utf8 (header body.length) ++ headerTerminator :=
        congrArg (utf8 (header body.length) ++ ·) hterminator

/-- No carriage return in the header, and as many bytes as characters. -/
theorem utf8_header (length : ℕ) :
    13 ∉ utf8 (header length) ∧
      (utf8 (header length)).length = 16 + (toString length).length := by
  have hten : decimalDigits.all (fun letter =>
      13 ∉ String.utf8EncodeChar letter ∧
        (String.utf8EncodeChar letter).length = 1) = true := by decide
  have hall : ∀ letter ∈ (toString length).toList,
      13 ∉ String.utf8EncodeChar letter ∧
        (String.utf8EncodeChar letter).length = 1 :=
    fun letter hletter => by simpa using of_mem_toString hten hletter
  have hname : 13 ∉ utf8 "Content-Length: " := by decide
  have hnameLength : (utf8 "Content-Length: ").length = 16 := by decide
  have hparts : utf8 (header length) =
      utf8 "Content-Length: " ++ utf8 (toString length) := utf8_append _ _
  rw [hparts]
  constructor
  · rw [List.mem_append, not_or]
    refine ⟨hname, ?_⟩
    intro hmem
    obtain ⟨letter, hletter, hbyte⟩ := List.mem_flatMap.1 hmem
    exact (hall letter hletter).1 hbyte
  · rw [List.length_append, hnameLength, utf8, List.length_flatMap,
      List.map_congr_left fun letter hletter => (hall letter hletter).2,
      ← String.length_toList]
    simp

theorem parseContentLength_header {length : ℕ} (hlength : length ≤ usizeMax) :
    parseContentLength (header length) = .ok length := by
  have hten : decimalDigits.all (fun letter => !isWhitespace letter) = true := by
    decide
  have hspace : ∀ letter ∈ (toString length).toList,
      isWhitespace letter = false :=
    fun letter hletter => by simpa using of_mem_toString hten hletter
  have hchars : (header length).toList =
      "Content-Length: ".toList ++ (toString length).toList := String.toList_append
  have hreturn : '\r' ∉ (header length).toList := by
    rw [hchars, List.mem_append, not_or]
    refine ⟨by decide, ?_⟩
    intro hmem
    exact absurd (hspace '\r' hmem) (by decide)
  have hline : (header length).toList =
      "Content-Length".toList ++ ':' :: ' ' :: (toString length).toList := by
    rw [hchars]
    rfl
  have hcolon : ':' ∉ "Content-Length".toList := by decide
  have hname : eqIgnoreAsciiCase (trim "Content-Length".toList)
      contentLength.toList = true := by decide
  have hblank : isWhitespace ' ' = true := by decide
  have hvalue : trim (' ' :: (toString length).toList) = (toString length).toList := by
    rw [trim_cons_of_isWhitespace hblank, trim_of_forall hspace]
  have hlines : split "\r\n".toList (header length).toList =
      [(header length).toList] := split_of_not_mem hreturn ['\n']
  have hparts := splitOnce_append hcolon (' ' :: (toString length).toList)
  rw [parseContentLength, hlines, lengthInLines, hline, hparts]
  simp only [hname, if_true, hvalue, parseUnsigned_toString hlength]

/-- The header of a body that may be sent is far below the header ceiling. -/
theorem length_header_le {length : ℕ} (hsize : length ≤ maxContentLength) :
    (utf8 (header length)).length ≤ 24 := by
  rw [(utf8_header length).2, Nat.toString_eq_repr]
  have hdigits : length.repr.length ≤ 8 := by
    rw [Nat.length_repr_le_iff (by decide)]
    exact hsize.trans_lt (by decide)
  omega

theorem usizeMax_ge {length : ℕ} (hsize : length ≤ maxContentLength) :
    length ≤ usizeMax := by
  exact hsize.trans (by decide)

/-- Once the header has arrived, the body decides. -/
theorem nextFrame_of_header {length : ℕ} (hsize : length ≤ maxContentLength)
    (arrived : List UInt8) :
    FrameDecoder.nextFrame ⟨utf8 (header length) ++ headerTerminator ++ arrived⟩ =
      if arrived.length < length then
        (.ok none, ⟨utf8 (header length) ++ headerTerminator ++ arrived⟩)
      else (.ok (some (arrived.take length)), ⟨arrived.drop length⟩) := by
  have hfound : findSubslice headerTerminator
      (utf8 (header length) ++ headerTerminator ++ arrived) =
        some (utf8 (header length)).length := by
    rw [List.append_assoc, headerTerminator,
      findSubslice_append (utf8_header length).1,
      findSubslice_of_isPrefix (List.prefix_append _ _)]
    simp
  have hheader : (utf8 (header length) ++ headerTerminator ++ arrived).take
      (utf8 (header length)).length = utf8 (header length) := by
    simp
  have hbound := length_header_le hsize
  have hroom : (utf8 (header length)).length + headerTerminator.length + length ≤
      usizeMax ∧ length ≤ maxContentLength ∧
        (utf8 (header length)).length + headerTerminator.length + length ≤
          isizeMax := by
    simp only [usizeMax, isizeMax, maxContentLength, headerTerminator,
      List.length_cons, List.length_nil] at *
    omega
  simp only [FrameDecoder.nextFrame, hfound, hheader, fromUtf8_utf8,
    parseContentLength_header (usizeMax_ge hsize), if_pos hroom]
  have hlength : (utf8 (header length) ++ headerTerminator ++ arrived).length <
      (utf8 (header length)).length + headerTerminator.length + length ↔
        arrived.length < length := by
    simp only [List.length_append]
    omega
  have hstart : (utf8 (header length)).length + headerTerminator.length =
      (utf8 (header length) ++ headerTerminator).length := by
    rw [List.length_append]
  simp only [hlength]
  simp only [hstart, List.take_length_add_append, List.drop_left,
    List.drop_length_add_append]

/-- A whole frame in front of the buffer comes out. -/
theorem nextFrame_encode {body : List UInt8}
    (hsize : body.length ≤ maxContentLength) (rest : List UInt8) :
    FrameDecoder.nextFrame ⟨encode body ++ rest⟩ = (.ok (some body), ⟨rest⟩) := by
  have hfound := nextFrame_of_header hsize (body ++ rest)
  have hbuffer : encode body ++ rest =
      utf8 (header body.length) ++ headerTerminator ++ (body ++ rest) := by
    rw [encode_eq]
    simp
  rw [hbuffer, hfound, if_neg (by simp)]
  simp

/-- Part of a frame is left alone. -/
theorem nextFrame_incomplete {body buffer : List UInt8}
    (hsize : body.length ≤ maxContentLength) (hinitial : buffer <+: encode body)
    (hshort : buffer.length < (encode body).length) :
    FrameDecoder.nextFrame ⟨buffer⟩ = (.ok none, ⟨buffer⟩) := by
  obtain ⟨missing, hmissing⟩ := hinitial
  have hcut : buffer = (encode body).take buffer.length := by
    rw [← hmissing]
    simp
  rw [encode_eq, List.length_append] at hshort
  rw [encode_eq] at hcut
  by_cases hheader : buffer.length <
      (utf8 (header body.length) ++ headerTerminator).length
  · rw [List.take_append_of_le_length hheader.le, List.take_append] at hcut
    have hmarker : 13 ∉ (utf8 (header body.length)).take buffer.length :=
      fun hmem => (utf8_header body.length).1 (List.mem_of_mem_take hmem)
    have hnotFound : findSubslice headerTerminator buffer = none := by
      rw [hcut, headerTerminator, findSubslice_append hmarker,
        findSubslice_of_length_lt]
      · rfl
      · simp only [headerTerminator, List.length_append, List.length_take,
          List.length_cons, List.length_nil] at hheader ⊢
        omega
    have hbound := length_header_le hsize
    have hsmall : ¬buffer.length > maxHeaderBytes := by
      simp only [headerTerminator, List.length_append, List.length_cons,
        List.length_nil, maxHeaderBytes] at hheader ⊢
      omega
    rw [FrameDecoder.nextFrame, hnotFound]
    exact if_neg hsmall
  · rw [List.take_append, List.take_of_length_le (by omega)] at hcut
    rw [hcut, nextFrame_of_header hsize, if_pos]
    rw [List.length_take]
    omega

/-! ## Whole streams -/

/-- The part of the stream the decoder still holds: it is the start of what the
pending bodies encode to, and it stops short of a whole frame. -/
structure Undelivered (pending : List (List UInt8)) (buffer rest : List UInt8) :
    Prop where
  stream : buffer ++ rest = (pending.map encode).flatten
  short : ∀ body later, pending = body :: later →
    buffer.length < (encode body).length

theorem Undelivered.finished {pending : List (List UInt8)} {buffer : List UInt8}
    (hpending : Undelivered pending buffer []) : pending = [] ∧ buffer = [] := by
  have hstream := hpending.stream
  rw [List.append_nil] at hstream
  cases pending with
  | nil => exact ⟨rfl, hstream⟩
  | cons body later =>
      have hshort := hpending.short body later rfl
      rw [hstream, List.map_cons, List.flatten_cons, List.length_append] at hshort
      omega

namespace Reading

theorem drain_of_frame {decoder next : FrameDecoder} {body : List UInt8}
    (dispatched : List (List UInt8))
    (hframe : decoder.nextFrame = (.ok (some body), next)) :
    drain dispatched decoder = drain (dispatched ++ [body]) next := by
  rw [drain]
  split <;> simp_all

theorem drain_of_none {decoder next : FrameDecoder}
    (dispatched : List (List UInt8))
    (hframe : decoder.nextFrame = (.ok none, next)) :
    drain dispatched decoder = ⟨dispatched, none, next⟩ := by
  rw [drain]
  split <;> simp_all

/-- Draining a buffer that starts the pending stream dispatches the frames it
holds whole and leaves the rest. -/
theorem drain_spec {pending : List (List UInt8)}
    (hsize : ∀ body ∈ pending, body.length ≤ maxContentLength)
    (dispatched : List (List UInt8)) {buffer rest : List UInt8}
    (hstream : buffer ++ rest = (pending.map encode).flatten) :
    ∃ now later buffer', pending = now ++ later ∧
      drain dispatched ⟨buffer⟩ = ⟨dispatched ++ now, none, ⟨buffer'⟩⟩ ∧
      Undelivered later buffer' rest := by
  induction pending generalizing dispatched buffer with
  | nil =>
      have hbuffer : buffer = [] := (List.append_eq_nil_iff.1 hstream).1
      subst hbuffer
      refine ⟨[], [], [], rfl, ?_, hstream, by simp⟩
      rw [List.append_nil]
      exact drain_of_none dispatched rfl
  | cons body pending ih =>
      have hbody := hsize body List.mem_cons_self
      have hrest : ∀ other ∈ pending, other.length ≤ maxContentLength :=
        fun other hother => hsize other (List.mem_cons_of_mem _ hother)
      rw [List.map_cons, List.flatten_cons] at hstream
      by_cases hwhole : (encode body).length ≤ buffer.length
      · obtain ⟨arrived, rfl⟩ : encode body <+: buffer :=
          List.prefix_of_prefix_length_le (List.prefix_append _ _)
            (hstream ▸ List.prefix_append buffer rest) hwhole
        rw [List.append_assoc, List.append_cancel_left_eq] at hstream
        obtain ⟨now, later, buffer', hsplit, hdrain, hlater⟩ :=
          ih hrest (dispatched ++ [body]) hstream
        refine ⟨body :: now, later, buffer', by rw [hsplit]; rfl, ?_, hlater⟩
        rw [drain_of_frame dispatched (nextFrame_encode hbody arrived), hdrain]
        simp
      · have hinitial : buffer <+: encode body :=
          List.prefix_of_prefix_length_le (hstream ▸ List.prefix_append buffer rest)
            (List.prefix_append _ _) (by omega)
        refine ⟨[], body :: pending, buffer, rfl, ?_, ?_, ?_⟩
        · rw [List.append_nil]
          exact drain_of_none dispatched
            (nextFrame_incomplete hbody hinitial (by omega))
        · rwa [List.map_cons, List.flatten_cons]
        · intro first others heq
          rw [← (List.cons.inj heq).1]
          omega

/-- Every read keeps the split of the stream into what was dispatched, what the
decoder holds and what is still to come. -/
theorem foldl_read_spec {pending : List (List UInt8)}
    (hsize : ∀ body ∈ pending, body.length ≤ maxContentLength)
    (chunks dispatched : List (List UInt8)) {buffer : List UInt8}
    (hpending : Undelivered pending buffer chunks.flatten) :
    chunks.foldl read ⟨dispatched, none, ⟨buffer⟩⟩ =
      ⟨dispatched ++ pending, none, ⟨[]⟩⟩ := by
  induction chunks generalizing pending dispatched buffer with
  | nil =>
      obtain ⟨rfl, rfl⟩ := hpending.finished
      simp
  | cons chunk chunks ih =>
      have hstream := hpending.stream
      rw [List.flatten_cons, ← List.append_assoc] at hstream
      obtain ⟨now, later, buffer', rfl, hdrain, hlater⟩ :=
        drain_spec hsize dispatched hstream
      have hread : read ⟨dispatched, none, ⟨buffer⟩⟩ chunk =
          ⟨dispatched ++ now, none, ⟨buffer'⟩⟩ := by
        rw [← hdrain]
        rfl
      have hsizeLater : ∀ body ∈ later, body.length ≤ maxContentLength :=
        fun body hbody => hsize body (List.mem_append_right now hbody)
      rw [List.foldl_cons, hread, ih hsizeLater (dispatched ++ now) hlater,
        List.append_assoc]

/-- Whatever the reads cut the encoded bodies into, the reader dispatches
exactly those bodies in order, finds no fault, and ends with an empty
buffer. -/
theorem readAll_encode (bodies chunks : List (List UInt8))
    (hsize : ∀ body ∈ bodies, body.length ≤ maxContentLength)
    (hcut : chunks.flatten = (bodies.map encode).flatten) :
    readAll chunks = ⟨bodies, none, ⟨[]⟩⟩ := by
  have hpending : Undelivered bodies [] chunks.flatten := by
    refine ⟨hcut, ?_⟩
    intro body later _
    rw [encode_eq, List.length_append, List.length_append]
    simp [headerTerminator]
  exact foldl_read_spec hsize chunks [] hpending

/-- Two bodies, one of them a terminator, arriving in three reads. -/
theorem readAll_two_bodies :
    let first := [13, 10, 13, 10]
    let second := [123, 125]
    let stream := encode first ++ encode second
    readAll [stream.take 5, (stream.take 30).drop 5, stream.drop 30] =
      ⟨[first, second], none, ⟨[]⟩⟩ :=
  readAll_encode [[13, 10, 13, 10], [123, 125]] _ (by decide) (by decide)

end Reading

end Ktsense.Lsp
