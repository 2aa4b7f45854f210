import Ktsense.Daemon.Wire

/-!
# Streams of frames

`write_frame` called again and again on one stream, and `read_frame` called until
the stream ends or a frame is refused.
-/

namespace Ktsense.Daemon

open Ktsense.Foundation

section Streams

variable (printJson : Json → List UInt8) (parseJson : List UInt8 → Option Json)

/-- `write_frame` on a stream that takes every byte: its result, and all the
bytes the stream has taken so far. -/
def writeTo (sent : List UInt8) (frame : Json) : Except WireError Unit × List UInt8 :=
  let body := printJson frame
  if body.length > maxFrame then (.error (.tooLarge body.length maxFrame), sent)
  else (.ok (), sent ++ toBeBytes body.length ++ body)

/-- Frames written in order, up to the first that is refused. -/
def writeAll : List UInt8 → List Json → Except WireError Unit × List UInt8
  | sent, [] => (.ok (), sent)
  | sent, frame :: frames =>
      match writeTo printJson sent frame with
      | (.ok (), taken) => writeAll taken frames
      | (.error fault, taken) => (.error fault, taken)

/-- What `read_frame` takes off the front of a stream leaves it shorter. -/
theorem readFrame_shortens {T : Type*} {decode : Json → Option T}
    {stream rest : List UInt8} {frame : T}
    (hread : readFrame parseJson decode stream = .ok (some (frame, rest))) :
    rest.length < stream.length := by
  simp only [readFrame] at hread
  split_ifs at hread with hshort hlarge htorn
  · simp at hread
  · cases hdecoded : (parseJson ((stream.drop 4).take
        (fromBeBytes (stream.take 4)))).bind decode with
    | none => simp [hdecoded] at hread
    | some value =>
        simp only [hdecoded, Except.ok.injEq, Option.some.injEq, Prod.mk.injEq]
          at hread
        rw [← hread.2]
        simp only [List.length_drop]
        omega

/-- `read_frame` until it returns `None` or an error: the frames it returned,
and which of the two ended them. -/
def readAll {T : Type*} (decode : Json → Option T) (stream : List UInt8) :
    List T × Except WireError Unit :=
  match hread : readFrame parseJson decode stream with
  | .error fault => ([], .error fault)
  | .ok none => ([], .ok ())
  | .ok (some (frame, rest)) =>
      have := readFrame_shortens parseJson hread
      (frame :: (readAll decode rest).1, (readAll decode rest).2)
termination_by stream.length

end Streams

section Written

variable {printJson : Json → List UInt8} {parseJson : List UInt8 → Option Json}
  {T : Type*} {toJson : T → Json} {decode : Json → Option T}

/-- The bytes `write_frame` puts on the stream for a frame it accepts. -/
def frameBytes (printJson : Json → List UInt8) (frame : Json) : List UInt8 :=
  toBeBytes (printJson frame).length ++ printJson frame

/-- A frame small enough to be written whose text is read back as the frame. -/
structure Exchanged (printJson : Json → List UInt8)
    (parseJson : List UInt8 → Option Json) (toJson : T → Json)
    (decode : Json → Option T) (frame : T) : Prop where
  fits : (printJson (toJson frame)).length ≤ maxFrame
  parsed : parseJson (printJson (toJson frame)) = some (toJson frame)
  decoded : decode (toJson frame) = some frame

@[simp]
theorem length_frameBytes (frame : Json) :
    (frameBytes printJson frame).length = 4 + (printJson frame).length := by
  simp only [frameBytes, toBeBytes, List.length_append, List.length_cons,
    List.length_nil]

theorem writeFrame_of_fits {frame : Json}
    (hfits : (printJson frame).length ≤ maxFrame) :
    writeFrame printJson frame = .ok (frameBytes printJson frame) := by
  rw [writeFrame, if_neg (by omega), frameBytes]

theorem writeTo_of_fits {frame : Json}
    (hfits : (printJson frame).length ≤ maxFrame) (sent : List UInt8) :
    writeTo printJson sent frame = (.ok (), sent ++ frameBytes printJson frame) := by
  rw [writeTo, if_neg (by omega), frameBytes, List.append_assoc]

/-- A frame over the ceiling leaves the stream as it was. -/
theorem writeTo_of_large {frame : Json}
    (hlarge : maxFrame < (printJson frame).length) (sent : List UInt8) :
    writeTo printJson sent frame =
      (.error (.tooLarge (printJson frame).length maxFrame), sent) := by
  rw [writeTo, if_pos hlarge]

theorem writeAll_of_fits {frames : List Json}
    (hfits : ∀ frame ∈ frames, (printJson frame).length ≤ maxFrame)
    (sent : List UInt8) :
    writeAll printJson sent frames =
      (.ok (), sent ++ frames.flatMap (frameBytes printJson)) := by
  induction frames generalizing sent with
  | nil => simp [writeAll]
  | cons frame frames ih =>
      rw [List.forall_mem_cons] at hfits
      simp only [writeAll, writeTo_of_fits hfits.1]
      rw [ih hfits.2, List.flatMap_cons, List.append_assoc]

/-- A frame at the front of a stream is read, and nothing behind it. -/
theorem readFrame_frameBytes {frame : T}
    (hframe : Exchanged printJson parseJson toJson decode frame)
    (rest : List UInt8) :
    readFrame parseJson decode (frameBytes printJson (toJson frame) ++ rest) =
      .ok (some (frame, rest)) := by
  obtain ⟨bytes, hwrite, hread⟩ := readFrame_writeFrame hframe.fits hframe.parsed
    hframe.decoded rest
  rw [writeFrame_of_fits hframe.fits, Except.ok.injEq] at hwrite
  rw [hwrite, hread]

theorem readAll_frameBytes {frame : T}
    (hframe : Exchanged printJson parseJson toJson decode frame)
    (rest : List UInt8) :
    readAll parseJson decode (frameBytes printJson (toJson frame) ++ rest) =
      (frame :: (readAll parseJson decode rest).1,
        (readAll parseJson decode rest).2) := by
  rw [readAll]
  split
  · next fault hread => simp [readFrame_frameBytes hframe] at hread
  · next hread => simp [readFrame_frameBytes hframe] at hread
  · next first left hread =>
      rw [readFrame_frameBytes hframe, Except.ok.injEq, Option.some.injEq,
        Prod.mk.injEq] at hread
      obtain ⟨rfl, rfl⟩ := hread
      rfl

/-- Whole frames are taken off one after the other. -/
theorem readAll_frames {frames : List T}
    (hframes : ∀ frame ∈ frames,
      Exchanged printJson parseJson toJson decode frame) (rest : List UInt8) :
    readAll parseJson decode
        (frames.flatMap (frameBytes printJson ∘ toJson) ++ rest) =
      (frames ++ (readAll parseJson decode rest).1,
        (readAll parseJson decode rest).2) := by
  induction frames with
  | nil => simp
  | cons frame frames ih =>
      rw [List.forall_mem_cons] at hframes
      rw [List.flatMap_cons, List.append_assoc, Function.comp_apply,
        readAll_frameBytes hframes.1, ih hframes.2, List.cons_append]

/-- Fewer than four bytes are taken for the end of the stream. -/
theorem readAll_short {stream : List UInt8} (hshort : stream.length < 4) :
    readAll parseJson decode stream = ([], .ok ()) := by
  have hnone : readFrame parseJson decode stream = .ok none := by
    rw [readFrame, if_pos hshort]
  rw [readAll]
  split
  · next fault hread => simp [hnone] at hread
  · rfl
  · next first left hread => simp [hnone] at hread

theorem writeAll_exchanged {frames : List T}
    (hframes : ∀ frame ∈ frames,
      Exchanged printJson parseJson toJson decode frame) :
    writeAll printJson [] (frames.map toJson) =
      (.ok (), frames.flatMap (frameBytes printJson ∘ toJson)) := by
  have hfits : ∀ json ∈ frames.map toJson, (printJson json).length ≤ maxFrame := by
    intro json hjson
    obtain ⟨frame, hmem, rfl⟩ := List.mem_map.1 hjson
    exact (hframes frame hmem).fits
  rw [writeAll_of_fits hfits, List.nil_append, List.flatMap_map]
  rfl

/-- Frames written one after the other on a fresh stream are read one after the
other, up to its clean end. -/
theorem written_frames_read {frames : List T}
    (hframes : ∀ frame ∈ frames,
      Exchanged printJson parseJson toJson decode frame) :
    ∃ stream, writeAll printJson [] (frames.map toJson) = (.ok (), stream) ∧
      readAll parseJson decode stream = (frames, .ok ()) := by
  have hend : readAll parseJson decode [] = ([], .ok ()) :=
    readAll_short (by decide)
  refine ⟨_, writeAll_exchanged hframes, ?_⟩
  calc readAll parseJson decode (frames.flatMap (frameBytes printJson ∘ toJson))
      = readAll parseJson decode
          (frames.flatMap (frameBytes printJson ∘ toJson) ++ []) := by
        rw [List.append_nil]
    _ = (frames, .ok ()) := by
        rw [readAll_frames hframes, hend, List.append_nil]

end Written

/-- Frames of either kind come back in order, then the clean end of the stream;
one over the ceiling is refused before any byte of it is written.  That
`serde_json` reads back the text it prints is assumed of the frames written. -/
theorem frames_round_trip (printJson : Json → List UInt8)
    (parseJson : List UInt8 → Option Json) :
    (∀ frames : List ServerFrame,
      (∀ version, ServerFrame.hello version ∈ frames → version < 2 ^ 32) →
      (∀ frame ∈ frames, (printJson frame.toJson).length ≤ maxFrame ∧
        parseJson (printJson frame.toJson) = some frame.toJson) →
      ∃ stream,
        writeAll printJson [] (frames.map ServerFrame.toJson) = (.ok (), stream) ∧
        readAll parseJson ServerFrame.fromJson stream = (frames, .ok ())) ∧
    (∀ frames : List ClientFrame,
      (∀ frame ∈ frames, (printJson frame.toJson).length ≤ maxFrame ∧
        parseJson (printJson frame.toJson) = some frame.toJson) →
      ∃ stream,
        writeAll printJson [] (frames.map ClientFrame.toJson) = (.ok (), stream) ∧
        readAll parseJson ClientFrame.fromJson stream = (frames, .ok ())) ∧
    ∀ (sent : List UInt8) (frame : Json), maxFrame < (printJson frame).length →
      writeTo printJson sent frame =
        (.error (.tooLarge (printJson frame).length maxFrame), sent) := by
  refine ⟨fun frames hversion hserde => ?_, fun frames hserde => ?_,
    fun sent frame hlarge => writeTo_of_large hlarge sent⟩
  · apply written_frames_read
    intro frame hframe
    have hdecoded : ServerFrame.fromJson frame.toJson = some frame :=
      ServerFrame.fromJson_toJson fun version hhello =>
        hversion version (hhello ▸ hframe)
    exact ⟨(hserde frame hframe).1, (hserde frame hframe).2, hdecoded⟩
  · apply written_frames_read
    intro frame hframe
    exact ⟨(hserde frame hframe).1, (hserde frame hframe).2,
      ClientFrame.fromJson_toJson frame⟩

/-- The text of a value, in bytes. -/
def jsonText (json : Json) : List UInt8 := utf8 (String.ofList json.compact)

/-- A reader of one text. -/
def parseOnly (known : Json) (bytes : List UInt8) : Option Json :=
  if bytes = jsonText known then some known else none

theorem stop_exchanged :
    Exchanged jsonText (parseOnly ClientFrame.stop.toJson) ClientFrame.toJson
      ClientFrame.fromJson ClientFrame.stop where
  fits := by decide
  parsed := by rw [parseOnly, if_pos rfl]
  decoded := rfl

/-- Two requests to stop on one stream. -/
theorem two_stops_read_back :
    ∃ stream, writeAll jsonText []
        ([ClientFrame.stop, ClientFrame.stop].map ClientFrame.toJson) =
          (.ok (), stream) ∧
      readAll (parseOnly ClientFrame.stop.toJson) ClientFrame.fromJson stream =
        ([ClientFrame.stop, ClientFrame.stop], .ok ()) := by
  apply (frames_round_trip jsonText (parseOnly ClientFrame.stop.toJson)).2.1
  intro frame hframe
  obtain rfl : frame = ClientFrame.stop := by simpa using hframe
  exact ⟨stop_exchanged.fits, stop_exchanged.parsed⟩

/-! ## A stream that breaks off -/

section Cut

variable {printJson : Json → List UInt8} {parseJson : List UInt8 → Option Json}
  {T : Type*} {toJson : T → Json} {decode : Json → Option T}

/-- The first `kept` bytes of some frames: those they hold whole, and how many
bytes of the next one. -/
def cutAt (encode : T → List UInt8) : List T → ℕ → List T × ℕ
  | [], _ => ([], 0)
  | frame :: frames, kept =>
      if (encode frame).length ≤ kept then
        let cut := cutAt encode frames (kept - (encode frame).length)
        (frame :: cut.1, cut.2)
      else ([], kept)

/-- What is kept of a stream is its whole frames and the start of one more. -/
theorem take_flatMap (encode : T → List UInt8) (frames : List T) (kept : ℕ) :
    ∃ torn, (frames.flatMap encode).take kept =
        (cutAt encode frames kept).1.flatMap encode ++ torn ∧
      (torn = [] ∧ (cutAt encode frames kept).2 = 0 ∨
        ∃ frame ∈ frames, (cutAt encode frames kept).2 < (encode frame).length ∧
          torn = (encode frame).take (cutAt encode frames kept).2) := by
  induction frames generalizing kept with
  | nil => exact ⟨[], by simp [cutAt], Or.inl ⟨rfl, rfl⟩⟩
  | cons frame frames ih =>
      by_cases hwhole : (encode frame).length ≤ kept
      · obtain ⟨torn, htake, htorn⟩ := ih (kept - (encode frame).length)
        simp only [cutAt, if_pos hwhole]
        refine ⟨torn, ?_, ?_⟩
        · rw [List.flatMap_cons, List.take_append, List.take_of_length_le hwhole,
            htake, List.flatMap_cons, List.append_assoc]
        · rcases htorn with hnone | ⟨next, hnext, hlast⟩
          · exact Or.inl hnone
          · exact Or.inr ⟨next, List.mem_cons_of_mem _ hnext, hlast⟩
      · simp only [cutAt, if_neg hwhole]
        refine ⟨(encode frame).take kept, ?_,
          Or.inr ⟨frame, List.mem_cons_self, by omega, rfl⟩⟩
        rw [List.flatMap_cons, List.take_append_of_le_length (by omega)]
        rfl

theorem mem_of_mem_cutAt {encode : T → List UInt8} {frames : List T} {kept : ℕ}
    {frame : T} (hframe : frame ∈ (cutAt encode frames kept).1) :
    frame ∈ frames := by
  induction frames generalizing kept with
  | nil => exact hframe
  | cons first frames ih =>
      by_cases hwhole : (encode first).length ≤ kept
      · simp only [cutAt, if_pos hwhole] at hframe
        rcases List.mem_cons.1 hframe with rfl | hrest
        · exact List.mem_cons_self
        · exact List.mem_cons_of_mem _ (ih hrest)
      · simp only [cutAt, if_neg hwhole] at hframe
        exact absurd hframe List.not_mem_nil

/-- A frame that breaks off behind its length is an error. -/
theorem readAll_torn {frame : T}
    (hframe : Exchanged printJson parseJson toJson decode frame) {kept : ℕ}
    (hlength : 4 ≤ kept) (htorn : kept < (frameBytes printJson (toJson frame)).length) :
    readAll parseJson decode ((frameBytes printJson (toJson frame)).take kept) =
      ([], .error .unexpectedEof) := by
  have hfits := hframe.fits
  have hbound : (printJson (toJson frame)).length < 2 ^ 32 :=
    hfits.trans_lt (by decide)
  rw [length_frameBytes] at htorn
  obtain ⟨more, rfl⟩ : ∃ more, kept = 4 + more := Nat.exists_eq_add_of_le hlength
  have htake : (frameBytes printJson (toJson frame)).take (4 + more) =
      toBeBytes (printJson (toJson frame)).length ++
        (printJson (toJson frame)).take more := by
    rw [frameBytes, show 4 = (toBeBytes (printJson (toJson frame)).length).length
      from rfl, List.take_length_add_append]
  have herror : readFrame parseJson decode
      ((frameBytes printJson (toJson frame)).take (4 + more)) =
        .error .unexpectedEof := by
    have hfront : (toBeBytes (printJson (toJson frame)).length ++
        (printJson (toJson frame)).take more).take 4 =
          toBeBytes (printJson (toJson frame)).length := rfl
    have hbody : (toBeBytes (printJson (toJson frame)).length ++
        (printJson (toJson frame)).take more).drop 4 =
          (printJson (toJson frame)).take more := rfl
    rw [htake, readFrame, if_neg (by simp [toBeBytes])]
    simp only [hfront, hbody, fromBeBytes_toBeBytes hbound]
    rw [if_neg (by omega), if_pos (by rw [List.length_take]; omega)]
  rw [readAll]
  split
  · next fault hread =>
      rw [herror, Except.error.injEq] at hread
      rw [← hread]
  · next hread => simp [herror] at hread
  · next first left hread => simp [herror] at hread

/-- What reading a cut stream to its end gives: its whole frames, then a clean
close if the cut leaves less than the length of the next. -/
theorem readAll_cut {frames : List T}
    (hframes : ∀ frame ∈ frames,
      Exchanged printJson parseJson toJson decode frame) (kept : ℕ) :
    readAll parseJson decode
        ((frames.flatMap (frameBytes printJson ∘ toJson)).take kept) =
      ((cutAt (frameBytes printJson ∘ toJson) frames kept).1,
        if (cutAt (frameBytes printJson ∘ toJson) frames kept).2 < 4 then .ok ()
        else .error .unexpectedEof) := by
  obtain ⟨torn, htake, htorn⟩ :=
    take_flatMap (frameBytes printJson ∘ toJson) frames kept
  have hwhole : ∀ frame ∈ (cutAt (frameBytes printJson ∘ toJson) frames kept).1,
      Exchanged printJson parseJson toJson decode frame :=
    fun frame hframe => hframes frame (mem_of_mem_cutAt hframe)
  have hlast : readAll parseJson decode torn =
      ([], if (cutAt (frameBytes printJson ∘ toJson) frames kept).2 < 4 then .ok ()
        else .error .unexpectedEof) := by
    rcases htorn with ⟨rfl, hnone⟩ | ⟨frame, hframe, hless, rfl⟩
    · rw [readAll_short (by decide), if_pos (by rw [hnone]; decide)]
    · by_cases hshort : (cutAt (frameBytes printJson ∘ toJson) frames kept).2 < 4
      · rw [if_pos hshort, readAll_short]
        exact (List.length_take_le _ _).trans_lt hshort
      · rw [if_neg hshort]
        exact readAll_torn (hframes frame hframe) (not_lt.1 hshort) hless
  rw [htake, readAll_frames hwhole, hlast, List.append_nil]

/-- A stream of written frames is cut after `kept` bytes and read to its end:
the frames kept whole are returned and then a clean close exactly when nothing of
another frame is left, and when something is, reading ends in an error. -/
def CutSeen (printJson : Json → List UInt8) (parseJson : List UInt8 → Option Json)
    (toJson : T → Json) (decode : Json → Option T) (frames : List T)
    (kept : ℕ) : Prop :=
  let stream := (writeAll printJson [] (frames.map toJson)).2
  let cut := cutAt (frameBytes printJson ∘ toJson) frames kept
  let read := readAll parseJson decode (stream.take kept)
  (read = (cut.1, .ok ()) ↔ cut.2 = 0) ∧
    (cut.2 ≠ 0 → ∃ fault, read.2 = .error fault)

/-- A cut is noticed unless it leaves one, two or three bytes of a length. -/
theorem cut_seen_iff {frames : List T}
    (hframes : ∀ frame ∈ frames,
      Exchanged printJson parseJson toJson decode frame) (kept : ℕ) :
    CutSeen printJson parseJson toJson decode frames kept ↔
      ¬(0 < (cutAt (frameBytes printJson ∘ toJson) frames kept).2 ∧
        (cutAt (frameBytes printJson ∘ toJson) frames kept).2 < 4) := by
  simp only [CutSeen, writeAll_exchanged hframes, readAll_cut hframes]
  by_cases hshort : (cutAt (frameBytes printJson ∘ toJson) frames kept).2 < 4
  · simp only [if_pos hshort, true_iff, reduceCtorEq, exists_false]
    omega
  · simp only [if_neg hshort, Prod.mk.injEq, reduceCtorEq, and_false, false_iff]
    simp only [Except.error.injEq, exists_eq', implies_true, and_true]
    omega

end Cut

/-- A request to stop of which ten bytes arrive. -/
theorem body_cut_seen :
    CutSeen jsonText (parseOnly ClientFrame.stop.toJson) ClientFrame.toJson
      ClientFrame.fromJson [ClientFrame.stop] 10 := by
  refine (cut_seen_iff ?_ 10).2 (by decide)
  intro frame hframe
  obtain rfl : frame = ClientFrame.stop := by simpa using hframe
  exact stop_exchanged

/-- A request to stop of which two bytes arrive is a clean close. -/
theorem prefix_cut_unseen :
    ¬∀ (printJson : Json → List UInt8) (parseJson : List UInt8 → Option Json)
      (frames : List ClientFrame) (kept : ℕ),
      (∀ frame ∈ frames, Exchanged printJson parseJson ClientFrame.toJson
        ClientFrame.fromJson frame) →
      CutSeen printJson parseJson ClientFrame.toJson ClientFrame.fromJson frames
        kept := by
  intro hseen
  have hstop : ∀ frame ∈ [ClientFrame.stop], Exchanged jsonText
      (parseOnly ClientFrame.stop.toJson) ClientFrame.toJson ClientFrame.fromJson
      frame := by
    intro frame hframe
    obtain rfl : frame = ClientFrame.stop := by simpa using hframe
    exact stop_exchanged
  have hcut := hseen jsonText (parseOnly ClientFrame.stop.toJson) [ClientFrame.stop]
    2 hstop
  simp only [CutSeen, writeAll_exchanged hstop, readAll_cut hstop] at hcut
  exact absurd (hcut.1.1 rfl) (by decide)

end Ktsense.Daemon
