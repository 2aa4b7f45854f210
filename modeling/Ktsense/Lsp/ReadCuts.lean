import Ktsense.Lsp.Framing

/-!
# Where the reads fall

The reader loop sees a stream in whatever parts the pipe hands over.  The decoder
applies its ceiling to a header only while the terminator is missing, so a header
over the ceiling is refused when a read ends within it and decoded when none
does.  No other fault depends on the reads.
-/

namespace Ktsense.Lsp

open Ktsense.Foundation Relation

/-- `READ_CHUNK`. -/
def readChunk : ℕ := 8192

/-- A stream in nonempty reads of at most `limit` bytes. -/
structure IsCut (limit : ℕ) (stream : List UInt8) (reads : List (List UInt8)) :
    Prop where
  flatten : reads.flatten = stream
  nonempty : ∀ read ∈ reads, read ≠ []
  short : ∀ read ∈ reads, read.length ≤ limit

/-- The size of a header block with its terminator, when that has arrived. -/
def headerSize (stream : List UInt8) : Option ℕ :=
  (findSubslice headerTerminator stream).map (· + headerTerminator.length)

/-- What a stream starts with when no header may grow past the ceiling: a frame
and what follows it, a fault, or part of a frame. -/
def front (stream : List UInt8) :
    Except FramingError (Option (List UInt8 × List UInt8)) :=
  if (headerSize stream).all (· ≤ maxHeaderBytes + 1) then
    match FrameDecoder.nextFrame ⟨stream⟩ with
    | (.ok (some body), rest) => .ok (some (body, rest.buffer))
    | (.ok none, _) => .ok none
    | (.error fault, _) => .error fault
  else .error (.headerTooLarge maxHeaderBytes)

/-- A frame is passed over: the bodies so far and what is left of the stream. -/
def Passes (before after : List (List UInt8) × List UInt8) : Prop :=
  ∃ body rest, front before.2 = .ok (some (body, rest)) ∧
    after = (before.1 ++ [body], rest)

/-- After `bodies` the stream goes on with `rest`. -/
def Reached (stream : List UInt8) (bodies : List (List UInt8)) (rest : List UInt8) :
    Prop :=
  ReflTransGen Passes ([], stream) (bodies, rest)

/-- A header that is over the ceiling, but not by so much that a read must end
between the two. -/
def Straddles (limit : ℕ) (rest : List UInt8) : Prop :=
  ∃ size, headerSize rest = some size ∧ maxHeaderBytes + 1 < size ∧
    size ≤ maxHeaderBytes + limit

/-! ## The decoder on part of a stream -/

theorem passes_rightUnique : Relator.RightUnique Passes := by
  rintro before first second ⟨body, rest, hfront, rfl⟩ ⟨body', rest', hfront', rfl⟩
  have hsame := hfront.symm.trans hfront'
  simp only [Except.ok.injEq, Option.some.injEq, Prod.mk.injEq] at hsame
  rw [hsame.1, hsame.2]

/-- The stream has no whole frame in front. -/
def Halts (rest : List UInt8) : Prop := ∀ body later, front rest ≠ .ok (some (body, later))

/-- A stream halts in one place. -/
theorem Reached.halt_unique {stream left right : List UInt8}
    {bodies others : List (List UInt8)} (hleft : Reached stream bodies left)
    (hright : Reached stream others right) (hhalt : Halts left)
    (hhalt' : Halts right) : bodies = others ∧ left = right := by
  have hstuck : ∀ {bodies : List (List UInt8)} {rest : List UInt8}
      {after : List (List UInt8) × List UInt8}, Halts rest →
      ReflTransGen Passes (bodies, rest) after → after = (bodies, rest) := by
    intro bodies rest after hhalt hsteps
    rcases hsteps.cases_head with hsame | ⟨next, ⟨body, later, hfront, _⟩, _⟩
    · exact hsame.symm
    · exact absurd hfront (hhalt body later)
  rcases ReflTransGen.total_of_right_unique passes_rightUnique hleft hright with
    hsteps | hsteps
  · exact Prod.mk.inj (hstuck hhalt hsteps).symm
  · exact Prod.mk.inj (hstuck hhalt' hsteps)

theorem lengthInLines_ne_headerTooLarge (lines : List (List Char)) {limit : ℕ} :
    lengthInLines lines ≠ .error (.headerTooLarge limit) := by
  induction lines with
  | nil => simp [lengthInLines]
  | cons line lines ih =>
      rw [lengthInLines]
      split
      · exact ih
      · split_ifs
        · split
          · simp
          · simp
        · exact ih

namespace FrameDecoder

/-- What the header block says: where the frame ends, or what is wrong. -/
def declared (block : List UInt8) : Except FramingError ℕ :=
  match fromUtf8 block with
  | none => .error .invalidHeaderText
  | some headerText =>
      match parseContentLength headerText with
      | .error fault => .error fault
      | .ok length =>
          if block.length + headerTerminator.length + length ≤ usizeMax ∧
              length ≤ maxContentLength ∧
              block.length + headerTerminator.length + length ≤ isizeMax then
            .ok (block.length + headerTerminator.length + length)
          else .error (.frameTooLarge length maxContentLength)

theorem nextFrame_of_none {buffer : List UInt8}
    (hnone : findSubslice headerTerminator buffer = none) :
    nextFrame ⟨buffer⟩ =
      if buffer.length > maxHeaderBytes then
        (.error (.headerTooLarge maxHeaderBytes), ⟨buffer⟩)
      else (.ok none, ⟨buffer⟩) := by
  rw [nextFrame, hnone]

/-- Once its terminator is there a header block alone decides. -/
theorem nextFrame_of_some {buffer : List UInt8} {separator : ℕ}
    (hfound : findSubslice headerTerminator buffer = some separator) :
    nextFrame ⟨buffer⟩ =
      match declared (buffer.take separator) with
      | .error fault => (.error fault, ⟨buffer⟩)
      | .ok frameEnd =>
          if buffer.length < frameEnd then (.ok none, ⟨buffer⟩)
          else (.ok (some ((buffer.take frameEnd).drop
            (separator + headerTerminator.length))), ⟨buffer.drop frameEnd⟩) := by
  have hlength : (buffer.take separator).length = separator := by
    rw [List.length_take]
    have hwithin := findSubslice_add_le hfound
    omega
  simp only [nextFrame, hfound, declared, hlength]
  cases htext : fromUtf8 (buffer.take separator) with
  | none => rfl
  | some headerText =>
      cases hparse : parseContentLength headerText with
      | error fault => simp only [hparse]
      | ok length =>
          simp only [hparse]
          by_cases hroom : separator + headerTerminator.length + length ≤ usizeMax ∧
              length ≤ maxContentLength ∧
              separator + headerTerminator.length + length ≤ isizeMax
          · simp only [if_pos hroom]
          · simp only [if_neg hroom]

theorem le_of_declared {block : List UInt8} {frameEnd : ℕ}
    (hdeclared : declared block = .ok frameEnd) :
    block.length + headerTerminator.length ≤ frameEnd := by
  unfold declared at hdeclared
  split at hdeclared
  · simp at hdeclared
  · split at hdeclared
    · simp at hdeclared
    · split_ifs at hdeclared
      rw [Except.ok.injEq] at hdeclared
      omega

/-- The decoder hands back the buffer it could not take a frame from. -/
theorem nextFrame_rest {decoder rest : FrameDecoder}
    {outcome : Except FramingError (Option (List UInt8))}
    (hframe : decoder.nextFrame = (outcome, rest))
    (hkept : ∀ body, outcome ≠ .ok (some body)) : rest = decoder := by
  cases hfound : findSubslice headerTerminator decoder.buffer with
  | none =>
      rw [nextFrame_of_none hfound] at hframe
      split_ifs at hframe
      · exact (Prod.mk.inj hframe).2.symm
      · exact (Prod.mk.inj hframe).2.symm
  | some separator =>
      rw [nextFrame_of_some hfound] at hframe
      cases hdeclared : declared (decoder.buffer.take separator) with
      | error fault =>
          rw [hdeclared] at hframe
          exact (Prod.mk.inj hframe).2.symm
      | ok frameEnd =>
          simp only [hdeclared] at hframe
          split_ifs at hframe
          · exact (Prod.mk.inj hframe).2.symm
          · exact absurd (Prod.mk.inj hframe).1.symm (hkept _)

/-- A header fault that needs the terminator is never the ceiling. -/
theorem declared_ne_headerTooLarge (block : List UInt8) :
    declared block ≠ .error (.headerTooLarge maxHeaderBytes) := by
  unfold declared
  split
  · simp
  · split
    · next headerText _ fault hparse =>
        intro hsame
        rw [Except.error.injEq] at hsame
        rw [hsame] at hparse
        exact lengthInLines_ne_headerTooLarge _ hparse
    · split_ifs
      · simp
      · simp

end FrameDecoder

/-- A header that has arrived is within the ceiling. -/
def WithinCeiling (buffer : List UInt8) : Prop :=
  ∀ size, headerSize buffer = some size → size ≤ maxHeaderBytes + 1

theorem headerSize_append {buffer : List UInt8} {size : ℕ}
    (hsize : headerSize buffer = some size) (more : List UInt8) :
    headerSize (buffer ++ more) = some size := by
  rw [headerSize, Option.map_eq_some_iff] at hsize
  obtain ⟨separator, hfound, rfl⟩ := hsize
  rw [headerSize, findSubslice_append_of_some hfound, Option.map_some]

theorem headerSize_le {buffer : List UInt8} {size : ℕ}
    (hsize : headerSize buffer = some size) : size ≤ buffer.length := by
  rw [headerSize, Option.map_eq_some_iff] at hsize
  obtain ⟨separator, hfound, rfl⟩ := hsize
  exact findSubslice_add_le hfound

theorem headerSize_of_append {buffer more : List UInt8} {size : ℕ}
    (hsize : headerSize (buffer ++ more) = some size) (hwithin : size ≤ buffer.length) :
    headerSize buffer = some size := by
  rw [headerSize, Option.map_eq_some_iff] at hsize
  obtain ⟨separator, hfound, rfl⟩ := hsize
  rw [headerSize, findSubslice_of_append hfound hwithin, Option.map_some]

theorem front_of_large {stream : List UInt8} {size : ℕ}
    (hsize : headerSize stream = some size) (hlarge : maxHeaderBytes + 1 < size) :
    front stream = .error (.headerTooLarge maxHeaderBytes) := by
  rw [front, hsize, Option.all_some, if_neg (by simpa using hlarge)]

theorem front_of_within {stream : List UInt8} (hwithin : WithinCeiling stream) :
    front stream =
      match FrameDecoder.nextFrame ⟨stream⟩ with
      | (.ok (some body), rest) => .ok (some (body, rest.buffer))
      | (.ok none, _) => .ok none
      | (.error fault, _) => .error fault := by
  have hall : (headerSize stream).all (· ≤ maxHeaderBytes + 1) = true := by
    cases hsize : headerSize stream with
    | none => rfl
    | some size => simpa using hwithin size hsize
  rw [front, if_pos hall]

/-- More bytes change nothing about a header that has arrived. -/
theorem withinCeiling_append {buffer more : List UInt8} {size : ℕ}
    (hwithin : WithinCeiling buffer) (hsize : headerSize buffer = some size) :
    WithinCeiling (buffer ++ more) := by
  intro other hother
  rw [headerSize_append hsize] at hother
  rw [← Option.some.inj hother]
  exact hwithin size hsize

theorem headerSize_eq_none {buffer : List UInt8} :
    headerSize buffer = none ↔ findSubslice headerTerminator buffer = none :=
  Option.map_eq_none_iff

/-- A header that has arrived says in the whole stream what it says in the
part. -/
theorem nextFrame_append {buffer : List UInt8} {separator : ℕ}
    (hfound : findSubslice headerTerminator buffer = some separator)
    (more : List UInt8) :
    FrameDecoder.nextFrame ⟨buffer ++ more⟩ =
      match FrameDecoder.declared (buffer.take separator) with
      | .error fault => (.error fault, ⟨buffer ++ more⟩)
      | .ok frameEnd =>
          if (buffer ++ more).length < frameEnd then (.ok none, ⟨buffer ++ more⟩)
          else (.ok (some (((buffer ++ more).take frameEnd).drop
            (separator + headerTerminator.length))),
              ⟨(buffer ++ more).drop frameEnd⟩) := by
  have hwithin := findSubslice_add_le hfound
  have hblock : (buffer ++ more).take separator = buffer.take separator :=
    List.take_append_of_le_length (by omega)
  rw [FrameDecoder.nextFrame_of_some (findSubslice_append_of_some hfound more), hblock]

/-- A fault found in part of a stream is the stream's. -/
theorem front_of_error {buffer : List UInt8} {rest : FrameDecoder}
    {fault : FramingError} (hwithin : WithinCeiling buffer)
    (hframe : FrameDecoder.nextFrame ⟨buffer⟩ = (.error fault, rest))
    (more : List UInt8) : front (buffer ++ more) = .error fault := by
  cases hfound : findSubslice headerTerminator buffer with
  | none =>
      rw [FrameDecoder.nextFrame_of_none hfound] at hframe
      have hlarge : buffer.length > maxHeaderBytes := by
        by_contra hsmall
        rw [if_neg hsmall] at hframe
        exact absurd (Prod.mk.inj hframe).1 (by simp)
      rw [if_pos hlarge] at hframe
      rw [← Except.error.inj (Prod.mk.inj hframe).1]
      cases hsize : headerSize (buffer ++ more) with
      | none =>
          have hnone : WithinCeiling (buffer ++ more) := by
            intro size hsome
            rw [hsize] at hsome
            exact absurd hsome (by simp)
          have hlonger : (buffer ++ more).length > maxHeaderBytes := by
            rw [List.length_append]
            omega
          rw [front_of_within hnone,
            FrameDecoder.nextFrame_of_none (headerSize_eq_none.1 hsize),
            if_pos hlonger]
      | some size =>
          -- the terminator ends behind the part, which is over the ceiling
          have hbehind : buffer.length < size := by
            by_contra hnot
            have hpart := headerSize_of_append hsize (not_lt.1 hnot)
            rw [headerSize_eq_none.2 hfound] at hpart
            exact absurd hpart (by simp)
          exact front_of_large hsize (by omega)
  | some separator =>
      have hsize : headerSize buffer = some (separator + headerTerminator.length) := by
        rw [headerSize, hfound, Option.map_some]
      rw [FrameDecoder.nextFrame_of_some hfound] at hframe
      rw [front_of_within (withinCeiling_append hwithin hsize),
        nextFrame_append hfound]
      cases hdeclared : FrameDecoder.declared (buffer.take separator) with
      | error other =>
          rw [hdeclared] at hframe
          rw [Except.error.inj (Prod.mk.inj hframe).1]
      | ok frameEnd =>
          simp only [hdeclared] at hframe
          split_ifs at hframe
          · exact absurd (Prod.mk.inj hframe).1 (by simp)
          · exact absurd (Prod.mk.inj hframe).1 (by simp)

/-- A frame found in part of a stream is the stream's. -/
theorem front_of_frame {buffer body : List UInt8} {rest : FrameDecoder}
    (hwithin : WithinCeiling buffer)
    (hframe : FrameDecoder.nextFrame ⟨buffer⟩ = (.ok (some body), rest))
    (more : List UInt8) :
    front (buffer ++ more) = .ok (some (body, rest.buffer ++ more)) := by
  cases hfound : findSubslice headerTerminator buffer with
  | none =>
      rw [FrameDecoder.nextFrame_of_none hfound] at hframe
      split_ifs at hframe
      · exact absurd (Prod.mk.inj hframe).1 (by simp)
      · exact absurd (Prod.mk.inj hframe).1 (by simp)
  | some separator =>
      have hsize : headerSize buffer = some (separator + headerTerminator.length) := by
        rw [headerSize, hfound, Option.map_some]
      rw [FrameDecoder.nextFrame_of_some hfound] at hframe
      rw [front_of_within (withinCeiling_append hwithin hsize),
        nextFrame_append hfound]
      cases hdeclared : FrameDecoder.declared (buffer.take separator) with
      | error other =>
          rw [hdeclared] at hframe
          exact absurd (Prod.mk.inj hframe).1 (by simp)
      | ok frameEnd =>
          simp only [hdeclared] at hframe ⊢
          split_ifs at hframe with hpart
          · exact absurd (Prod.mk.inj hframe).1 (by simp)
          · have hwhole : ¬(buffer ++ more).length < frameEnd := by
              rw [List.length_append]
              omega
            obtain ⟨hbody, hrest⟩ := Prod.mk.inj hframe
            simp only [Except.ok.injEq, Option.some.injEq] at hbody
            rw [if_neg hwhole, List.take_append_of_le_length (by omega),
              List.drop_append_of_le_length (by omega), hbody, ← hrest]

/-- What comes behind a frame has arrived since the decoder last waited. -/
theorem length_rest_le {old new body : List UInt8} {rest : FrameDecoder}
    (hwaits : FrameDecoder.nextFrame ⟨old⟩ = (.ok none, ⟨old⟩))
    (hframe : FrameDecoder.nextFrame ⟨old ++ new⟩ = (.ok (some body), rest)) :
    rest.buffer.length ≤ new.length := by
  cases hfound : findSubslice headerTerminator (old ++ new) with
  | none =>
      rw [FrameDecoder.nextFrame_of_none hfound] at hframe
      split_ifs at hframe
      · exact absurd (Prod.mk.inj hframe).1 (by simp)
      · exact absurd (Prod.mk.inj hframe).1 (by simp)
  | some separator =>
      rw [FrameDecoder.nextFrame_of_some hfound] at hframe
      cases hdeclared : FrameDecoder.declared ((old ++ new).take separator) with
      | error fault =>
          rw [hdeclared] at hframe
          exact absurd (Prod.mk.inj hframe).1 (by simp)
      | ok frameEnd =>
          have hend : old.length ≤ frameEnd := by
            by_contra hnot
            -- the frame would have been there before
            have hbound := FrameDecoder.le_of_declared hdeclared
            have hblock : ((old ++ new).take separator).length = separator := by
              rw [List.length_take]
              have := findSubslice_add_le hfound
              omega
            have hpart : findSubslice headerTerminator old = some separator :=
              findSubslice_of_append hfound (by omega)
            have hsame : (old ++ new).take separator = old.take separator :=
              List.take_append_of_le_length (by omega)
            rw [FrameDecoder.nextFrame_of_some hpart, ← hsame, hdeclared] at hwaits
            simp only [if_neg (show ¬old.length < frameEnd by omega)] at hwaits
            exact absurd (Prod.mk.inj hwaits).1 (by simp)
          simp only [hdeclared] at hframe
          split_ifs at hframe
          · exact absurd (Prod.mk.inj hframe).1 (by simp)
          · rw [← (Prod.mk.inj hframe).2]
            simp only [List.length_drop, List.length_append]
            omega

/-! ## The reader keeps its place in the stream -/

/-- What is read of a stream has taken its bodies in order; the reader waits with
the part that follows them, or has stopped there for good. -/
structure Follows (stream : List UInt8) (reading : Reading) (future : List UInt8) :
    Prop where
  within : WithinCeiling reading.decoder.buffer
  waits : reading.fault = none →
    Reached stream reading.dispatched (reading.decoder.buffer ++ future) ∧
      reading.decoder.nextFrame = (.ok none, reading.decoder)
  stopped : ∀ fault, reading.fault = some fault →
    ∃ later, future <:+ later ∧
      Reached stream reading.dispatched (reading.decoder.buffer ++ later) ∧
      reading.decoder.nextFrame = (.error fault, reading.decoder)

/-- No header in the stream straddles the ceiling. -/
def ClearOfCeiling (limit : ℕ) (stream : List UInt8) : Prop :=
  ∀ bodies rest, Reached stream bodies rest → ¬Straddles limit rest

theorem drain_of_error {decoder next : FrameDecoder} {fault : FramingError}
    (dispatched : List (List UInt8))
    (hframe : decoder.nextFrame = (.error fault, next)) :
    Reading.drain dispatched decoder = ⟨dispatched, some fault, next⟩ := by
  rw [Reading.drain]
  split <;> simp_all

/-- A header that arrives in a read of at most `limit` bytes while the reader
waits is within the ceiling, unless it straddles it. -/
theorem withinCeiling_of_read {limit : ℕ} {stream old new future : List UInt8}
    {bodies : List (List UInt8)} (hclear : ClearOfCeiling limit stream)
    (hreached : Reached stream bodies (old ++ new ++ future))
    (hwithin : WithinCeiling old)
    (hwaits : FrameDecoder.nextFrame ⟨old⟩ = (.ok none, ⟨old⟩))
    (hlimit : new.length ≤ limit) : WithinCeiling (old ++ new) := by
  intro size hsize
  by_contra hlarge
  cases hold : headerSize old with
  | some earlier =>
      have hsame := headerSize_append hold new
      rw [hsize, Option.some.injEq] at hsame
      exact hlarge (hsame ▸ hwithin earlier hold)
  | none =>
      have hshort : old.length ≤ maxHeaderBytes := by
        rw [FrameDecoder.nextFrame_of_none (headerSize_eq_none.1 hold)] at hwaits
        split_ifs at hwaits with hlong
        · exact absurd (Prod.mk.inj hwaits).1 (by simp)
        · exact not_lt.1 hlong
      have hbound := headerSize_le hsize
      rw [List.length_append] at hbound
      exact hclear bodies _ hreached
        ⟨size, headerSize_append hsize future, not_le.1 hlarge, by omega⟩

theorem nextFrame_nil : FrameDecoder.nextFrame ⟨[]⟩ = (.ok none, ⟨[]⟩) := rfl

theorem withinCeiling_nil : WithinCeiling [] := by
  intro size hsize
  have hnone : headerSize [] = none := rfl
  rw [hnone] at hsize
  exact absurd hsize (by simp)

/-- Draining keeps the place: everything whole is taken, in order. -/
theorem follows_drain {limit : ℕ} {stream : List UInt8}
    (hclear : ClearOfCeiling limit stream) (size : ℕ) {bodies : List (List UInt8)}
    {old new future : List UInt8} (hsize : (old ++ new).length ≤ size)
    (hreached : Reached stream bodies (old ++ new ++ future))
    (hwithin : WithinCeiling old)
    (hwaits : FrameDecoder.nextFrame ⟨old⟩ = (.ok none, ⟨old⟩))
    (hlimit : new.length ≤ limit) :
    Follows stream (Reading.drain bodies ⟨old ++ new⟩) future := by
  induction size using Nat.strong_induction_on generalizing bodies old new with
  | _ size ih =>
    have hheader := withinCeiling_of_read hclear hreached hwithin hwaits hlimit
    cases hframe : FrameDecoder.nextFrame ⟨old ++ new⟩ with
    | mk outcome rest =>
      cases outcome with
      | error fault =>
          have hrest := FrameDecoder.nextFrame_rest hframe (by simp)
          rw [drain_of_error bodies hframe, hrest]
          refine ⟨hheader, by simp, ?_⟩
          intro other hother
          rw [← Option.some.inj hother]
          exact ⟨future, List.suffix_rfl, hreached, hrest ▸ hframe⟩
      | ok found =>
          cases found with
          | none =>
              have hrest := FrameDecoder.nextFrame_rest hframe (by simp)
              rw [Reading.drain_of_none bodies hframe, hrest]
              exact ⟨hheader, fun _ => ⟨hreached, hrest ▸ hframe⟩, by simp⟩
          | some body =>
              have hpassed : Reached stream (bodies ++ [body])
                  ([] ++ rest.buffer ++ future) := by
                refine hreached.tail ⟨body, rest.buffer ++ future, ?_, rfl⟩
                exact front_of_frame hheader hframe future
              have hshrinks := FrameDecoder.nextFrame_shrinks hframe
              have hlength := length_rest_le hwaits hframe
              rw [Reading.drain_of_frame bodies hframe]
              exact ih rest.buffer.length (by simp only at hshrinks; omega)
                (by simp) hpassed withinCeiling_nil nextFrame_nil (by omega)

theorem follows_read {limit : ℕ} {stream chunk future : List UInt8}
    (hclear : ClearOfCeiling limit stream) {reading : Reading}
    (hfollows : Follows stream reading (chunk ++ future))
    (hlimit : chunk.length ≤ limit) :
    Follows stream (reading.read chunk) future := by
  cases hfault : reading.fault with
  | none =>
      obtain ⟨hreached, hwaits⟩ := hfollows.waits hfault
      rw [Reading.read, hfault, if_neg (by simp)]
      exact follows_drain hclear _ le_rfl (by rwa [List.append_assoc])
        hfollows.within hwaits hlimit
  | some fault =>
      rw [Reading.read, hfault, if_pos (by rfl)]
      refine ⟨hfollows.within, fun hnone => ?_, fun other hother => ?_⟩
      · rw [hfault] at hnone
        exact absurd hnone (by simp)
      · obtain ⟨later, hsuffix, hstopped⟩ := hfollows.stopped other hother
        exact ⟨later, (List.suffix_append chunk future).trans hsuffix, hstopped⟩

theorem follows_foldl {limit : ℕ} {stream : List UInt8}
    (hclear : ClearOfCeiling limit stream) (reads : List (List UInt8))
    {reading : Reading} {future : List UInt8}
    (hfollows : Follows stream reading (reads.flatten ++ future))
    (hlimit : ∀ read ∈ reads, read.length ≤ limit) :
    Follows stream (reads.foldl Reading.read reading) future := by
  induction reads generalizing reading with
  | nil => exact hfollows
  | cons chunk reads ih =>
      rw [List.forall_mem_cons] at hlimit
      rw [List.flatten_cons, List.append_assoc] at hfollows
      exact ih (follows_read hclear hfollows hlimit.1) hlimit.2

theorem follows_fresh (stream : List UInt8) : Follows stream .fresh stream where
  within := withinCeiling_nil
  waits := fun _ => ⟨ReflTransGen.refl, nextFrame_nil⟩
  stopped := by simp [Reading.fresh]

/-- Reading the start of a stream. -/
theorem follows_readAll {limit : ℕ} {reads : List (List UInt8)} {future : List UInt8}
    (hclear : ClearOfCeiling limit (reads.flatten ++ future))
    (hlimit : ∀ read ∈ reads, read.length ≤ limit) :
    Follows (reads.flatten ++ future) (Reading.readAll reads) future :=
  follows_foldl hclear reads (follows_fresh _) hlimit

theorem follows_cut {limit : ℕ} {stream : List UInt8} {reads : List (List UInt8)}
    (hclear : ClearOfCeiling limit stream) (hcut : IsCut limit stream reads) :
    Follows stream (Reading.readAll reads) [] := by
  have hwhole : reads.flatten ++ [] = stream := by
    rw [List.append_nil, hcut.flatten]
  have hfollows : Follows (reads.flatten ++ []) (Reading.readAll reads) [] :=
    follows_readAll (hwhole ▸ hclear) hcut.short
  rwa [hwhole] at hfollows

/-- Where the reader ends, the stream halts, and with the reader's fault. -/
theorem Follows.halt {stream : List UInt8} {reading : Reading}
    (hfollows : Follows stream reading []) :
    ∃ rest, Reached stream reading.dispatched rest ∧ Halts rest ∧
      front rest = match reading.fault with
        | none => .ok none
        | some fault => .error fault := by
  cases hfault : reading.fault with
  | none =>
      obtain ⟨hreached, hwaits⟩ := hfollows.waits hfault
      have hfront : front reading.decoder.buffer = .ok none := by
        have hnext : FrameDecoder.nextFrame ⟨reading.decoder.buffer⟩ =
          (.ok none, reading.decoder) := hwaits
        rw [front_of_within hfollows.within, hnext]
      rw [List.append_nil] at hreached
      exact ⟨_, hreached, fun body later => by simp [hfront], hfront⟩
  | some fault =>
      obtain ⟨later, _, hreached, hstopped⟩ := hfollows.stopped fault hfault
      have hfront := front_of_error hfollows.within hstopped later
      exact ⟨_, hreached, fun body later => by simp [hfront], hfront⟩

/-- What the reader makes of a stream does not depend on its reads when no header
straddles the ceiling. -/
theorem agree_of_clear {limit : ℕ} {stream : List UInt8}
    {left right : List (List UInt8)} (hclear : ClearOfCeiling limit stream)
    (hleft : IsCut limit stream left) (hright : IsCut limit stream right) :
    (Reading.readAll left).dispatched = (Reading.readAll right).dispatched ∧
      (Reading.readAll left).fault = (Reading.readAll right).fault := by
  obtain ⟨rest, hreached, hhalt, hfront⟩ := (follows_cut hclear hleft).halt
  obtain ⟨rest', hreached', hhalt', hfront'⟩ := (follows_cut hclear hright).halt
  obtain ⟨hbodies, rfl⟩ := hreached.halt_unique hreached' hhalt hhalt'
  refine ⟨hbodies, ?_⟩
  rw [hfront] at hfront'
  cases hone : (Reading.readAll left).fault <;>
    cases htwo : (Reading.readAll right).fault <;> simp_all

/-! ## A header that straddles the ceiling -/

/-- A stream read byte by byte. -/
def bytewise (stream : List UInt8) : List (List UInt8) := stream.map ([·])

theorem flatten_bytewise (stream : List UInt8) : (bytewise stream).flatten = stream := by
  induction stream with
  | nil => rfl
  | cons byte stream ih => exact congrArg (byte :: ·) ih

theorem of_mem_bytewise {stream read : List UInt8} (hread : read ∈ bytewise stream) :
    read.length = 1 := by
  obtain ⟨byte, _, rfl⟩ := List.mem_map.1 hread
  rfl

theorem clearOfCeiling_one (stream : List UInt8) : ClearOfCeiling 1 stream := by
  rintro bodies rest _ ⟨size, _, hlarge, hsmall⟩
  omega

theorem front_frame_suffix {stream body rest : List UInt8}
    (hfront : front stream = .ok (some (body, rest))) :
    ∃ next, FrameDecoder.nextFrame ⟨stream⟩ = (.ok (some body), next) ∧
      next.buffer = rest := by
  rw [front] at hfront
  split_ifs at hfront
  split at hfront
  · next found next hframe =>
      simp only [Except.ok.injEq, Option.some.injEq, Prod.mk.injEq] at hfront
      exact ⟨next, by rw [hframe, hfront.1], hfront.2⟩
  · simp at hfront
  · simp at hfront

theorem nextFrame_suffix {stream body : List UInt8} {rest : FrameDecoder}
    (hframe : FrameDecoder.nextFrame ⟨stream⟩ = (.ok (some body), rest)) :
    rest.buffer <:+ stream := by
  cases hfound : findSubslice headerTerminator stream with
  | none =>
      rw [FrameDecoder.nextFrame_of_none hfound] at hframe
      split_ifs at hframe
      · exact absurd (Prod.mk.inj hframe).1 (by simp)
      · exact absurd (Prod.mk.inj hframe).1 (by simp)
  | some separator =>
      rw [FrameDecoder.nextFrame_of_some hfound] at hframe
      cases hdeclared : FrameDecoder.declared (stream.take separator) with
      | error fault =>
          rw [hdeclared] at hframe
          exact absurd (Prod.mk.inj hframe).1 (by simp)
      | ok frameEnd =>
          simp only [hdeclared] at hframe
          split_ifs at hframe
          · exact absurd (Prod.mk.inj hframe).1 (by simp)
          · rw [← (Prod.mk.inj hframe).2]
            exact List.drop_suffix _ _

theorem passes_suffix {before after : List (List UInt8) × List UInt8}
    (hsteps : ReflTransGen Passes before after) : after.2 <:+ before.2 := by
  induction hsteps with
  | refl => exact List.suffix_rfl
  | tail _ hstep ih =>
      obtain ⟨body, rest, hfront, rfl⟩ := hstep
      obtain ⟨next, hframe, hnext⟩ := front_frame_suffix hfront
      exact (hnext ▸ nextFrame_suffix hframe).trans ih

/-- Part of a header and nothing else makes the decoder wait. -/
theorem nextFrame_of_part {buffer more : List UInt8} {size : ℕ}
    (hsize : headerSize (buffer ++ more) = some size) (hpart : buffer.length < size)
    (hshort : buffer.length ≤ maxHeaderBytes) :
    FrameDecoder.nextFrame ⟨buffer⟩ = (.ok none, ⟨buffer⟩) := by
  have hnone : headerSize buffer = none := by
    cases hother : headerSize buffer with
    | none => rfl
    | some other =>
        have hsame := headerSize_append hother more
        rw [hsize, Option.some.injEq] at hsame
        have hbound := headerSize_le hother
        omega
  rw [FrameDecoder.nextFrame_of_none (headerSize_eq_none.1 hnone), if_neg (by omega)]

/-- A reader that has not come to the end of a stretch the stream halts in is
still where the stretch begins. -/
theorem Follows.place {stream rest future : List UInt8} {bodies : List (List UInt8)}
    {reading : Reading} (hfollows : Follows stream reading future)
    (hreached : Reached stream bodies rest) (hhalt : Halts rest)
    (hshort : future.length < rest.length) :
    ∃ later, future <:+ later ∧ (reading.fault = none → later = future) ∧
      reading.dispatched = bodies ∧ reading.decoder.buffer ++ later = rest := by
  -- the reader's place comes before `rest`, and no frame lies between them
  have hsame : ∀ later, Reached stream reading.dispatched
        (reading.decoder.buffer ++ later) →
      (∀ body next, front (reading.decoder.buffer ++ later) = .ok (some (body, next)) →
        next.length ≤ future.length) →
      reading.dispatched = bodies ∧ reading.decoder.buffer ++ later = rest := by
    intro later hplace hnext
    rcases ReflTransGen.total_of_right_unique passes_rightUnique hplace hreached with
      hsteps | hsteps
    · rcases hsteps.cases_head with hsame | ⟨after, ⟨body, next, hfront, rfl⟩, hmore⟩
      · exact Prod.mk.inj hsame
      · have hbehind := (passes_suffix hmore).length_le
        have hbound := hnext body next hfront
        simp only at hbehind
        omega
    · rcases hsteps.cases_head with hsame | ⟨after, ⟨body, next, hfront, _⟩, _⟩
      · exact Prod.mk.inj hsame.symm
      · exact absurd hfront (hhalt body next)
  cases hfault : reading.fault with
  | none =>
      obtain ⟨hplace, hwaits⟩ := hfollows.waits hfault
      refine ⟨future, List.suffix_rfl, fun _ => rfl, hsame future hplace ?_⟩
      intro body next hfront
      obtain ⟨decoder, hframe, rfl⟩ := front_frame_suffix hfront
      exact length_rest_le hwaits hframe
  | some fault =>
      obtain ⟨later, hlater, hplace, hstopped⟩ := hfollows.stopped fault hfault
      refine ⟨later, hlater, by simp, hsame later hplace ?_⟩
      intro body next hfront
      rw [front_of_error hfollows.within hstopped later] at hfront
      exact absurd hfront (by simp)

/-- Read byte by byte up to the ceiling of a large header, the stream has the
reader wait with what it has of the header. -/
theorem readAll_up_to_ceiling {before rest : List UInt8} {bodies : List (List UInt8)}
    {size : ℕ} (hreached : Reached (before ++ rest) bodies rest)
    (hsize : headerSize rest = some size) (hlarge : maxHeaderBytes + 1 < size) :
    Reading.readAll (bytewise (before ++ rest.take maxHeaderBytes)) =
      ⟨bodies, none, ⟨rest.take maxHeaderBytes⟩⟩ := by
  have hlength := headerSize_le hsize
  have hhalt : Halts rest := fun body later => by
    rw [front_of_large hsize hlarge]
    simp
  have hwhole : (bytewise (before ++ rest.take maxHeaderBytes)).flatten ++
      rest.drop maxHeaderBytes = before ++ rest := by
    rw [flatten_bytewise, List.append_assoc, List.take_append_drop]
  have hfollows : Follows (before ++ rest)
      (Reading.readAll (bytewise (before ++ rest.take maxHeaderBytes)))
      (rest.drop maxHeaderBytes) := by
    rw [← hwhole]
    exact follows_readAll (clearOfCeiling_one _)
      fun read hread => (of_mem_bytewise hread).le
  have hbehind : (rest.drop maxHeaderBytes).length < rest.length := by
    have hceiling : 0 < maxHeaderBytes := by decide
    rw [List.length_drop]
    omega
  obtain ⟨later, hlater, hfuture, hbodies, hrest⟩ :=
    hfollows.place hreached hhalt hbehind
  generalize Reading.readAll (bytewise (before ++ rest.take maxHeaderBytes)) =
    reading at *
  have hbuffer : reading.decoder.buffer.length ≤ maxHeaderBytes := by
    have htotal := congrArg List.length hrest
    have hbound := hlater.length_le
    rw [List.length_append] at htotal
    rw [List.length_drop] at hbound
    omega
  have hwaits : reading.decoder.nextFrame = (.ok none, reading.decoder) :=
    nextFrame_of_part (hrest ▸ hsize) (hbuffer.trans_lt (by omega)) hbuffer
  have hfault : reading.fault = none := by
    cases hfault : reading.fault with
    | none => rfl
    | some fault =>
        obtain ⟨_, _, _, hstopped⟩ := hfollows.stopped fault hfault
        rw [hwaits] at hstopped
        exact absurd (Prod.mk.inj hstopped).1 (by simp)
  have htaken : reading.decoder.buffer = rest.take maxHeaderBytes := by
    have hsplit : reading.decoder.buffer ++ rest.drop maxHeaderBytes =
        rest.take maxHeaderBytes ++ rest.drop maxHeaderBytes := by
      rw [List.take_append_drop, ← hfuture hfault, hrest]
    exact List.append_cancel_right hsplit
  obtain ⟨dispatched, fault, decoder⟩ := reading
  simp only at hbodies hfault htaken
  rw [hbodies, hfault, ← htaken]

/-- The reader has taken a further body, or it is at a header it does not find too
large. -/
def Admitted (bodies : List (List UInt8)) (reading : Reading) : Prop :=
  bodies.length < reading.dispatched.length ∨
    (reading.fault ≠ some (.headerTooLarge maxHeaderBytes) ∧
      (headerSize reading.decoder.buffer).isSome)

theorem length_le_drain (bodies : List (List UInt8)) (decoder : FrameDecoder) :
    bodies.length ≤ (Reading.drain bodies decoder).dispatched.length := by
  induction bodies, decoder using Reading.drain.induct with
  | case1 bodies decoder body next hframe ih =>
      rw [Reading.drain_of_frame bodies hframe]
      rw [List.length_append] at ih
      omega
  | case2 bodies decoder next hframe => rw [Reading.drain_of_none bodies hframe]
  | case3 bodies decoder fault next hframe => rw [drain_of_error bodies hframe]

theorem admitted_drain (bodies : List (List UInt8)) {buffer : List UInt8}
    (hsize : (headerSize buffer).isSome) :
    Admitted bodies (Reading.drain bodies ⟨buffer⟩) := by
  cases hframe : FrameDecoder.nextFrame ⟨buffer⟩ with
  | mk outcome rest =>
    cases outcome with
    | error fault =>
        have hrest := FrameDecoder.nextFrame_rest hframe (by simp)
        rw [drain_of_error bodies hframe, hrest]
        refine .inr ⟨?_, hsize⟩
        intro hceiling
        rw [headerSize, Option.isSome_map, Option.isSome_iff_exists] at hsize
        obtain ⟨separator, hfound⟩ := hsize
        rw [FrameDecoder.nextFrame_of_some hfound] at hframe
        cases hdeclared : FrameDecoder.declared (buffer.take separator) with
        | error other =>
            rw [hdeclared] at hframe
            rw [Except.error.inj (Prod.mk.inj hframe).1,
              Option.some.inj hceiling] at hdeclared
            exact FrameDecoder.declared_ne_headerTooLarge _ hdeclared
        | ok frameEnd =>
            simp only [hdeclared] at hframe
            split_ifs at hframe
            · exact absurd (Prod.mk.inj hframe).1 (by simp)
            · exact absurd (Prod.mk.inj hframe).1 (by simp)
    | ok found =>
        cases found with
        | none =>
            have hrest := FrameDecoder.nextFrame_rest hframe (by simp)
            rw [Reading.drain_of_none bodies hframe, hrest]
            exact .inr ⟨by simp, hsize⟩
        | some body =>
            rw [Reading.drain_of_frame bodies hframe]
            have hlonger := length_le_drain (bodies ++ [body]) rest
            rw [List.length_append, List.length_singleton] at hlonger
            exact .inl (by omega)

theorem admitted_read {bodies : List (List UInt8)} {reading : Reading}
    (hadmitted : Admitted bodies reading)
    (hbodies : bodies.length ≤ reading.dispatched.length) (chunk : List UInt8) :
    Admitted bodies (reading.read chunk) ∧
      bodies.length ≤ (reading.read chunk).dispatched.length := by
  cases hfault : reading.fault with
  | some fault =>
      rw [Reading.read, hfault, if_pos (by rfl)]
      exact ⟨hadmitted, hbodies⟩
  | none =>
      rw [Reading.read, hfault, if_neg (by simp)]
      have hlonger := length_le_drain reading.dispatched (reading.decoder.push chunk)
      refine ⟨?_, hbodies.trans hlonger⟩
      rcases hadmitted with hmore | ⟨_, hsize⟩
      · exact .inl (hmore.trans_le hlonger)
      · obtain ⟨size, hsome⟩ := Option.isSome_iff_exists.1 hsize
        have hpushed : (headerSize (reading.decoder.buffer ++ chunk)).isSome := by
          rw [headerSize_append hsome, Option.isSome_some]
        rcases admitted_drain reading.dispatched hpushed with hmore | hlater
        · exact .inl (hbodies.trans_lt hmore)
        · exact .inr hlater

theorem admitted_foldl {bodies : List (List UInt8)} (reads : List (List UInt8))
    {reading : Reading} (hadmitted : Admitted bodies reading)
    (hbodies : bodies.length ≤ reading.dispatched.length) :
    Admitted bodies (reads.foldl Reading.read reading) := by
  induction reads generalizing reading with
  | nil => exact hadmitted
  | cons chunk reads ih =>
      have hread := admitted_read hadmitted hbodies chunk
      exact ih hread.1 hread.2

theorem isCut_bytewise {limit : ℕ} (hlimit : 0 < limit) (stream : List UInt8) :
    IsCut limit stream (bytewise stream) where
  flatten := flatten_bytewise stream
  nonempty := by
    intro read hread
    rw [← List.length_pos_iff, of_mem_bytewise hread]
    exact Nat.one_pos
  short := fun read hread => (of_mem_bytewise hread).trans_le hlimit

theorem IsCut.append {limit : ℕ} {stream later : List UInt8}
    {reads others : List (List UInt8)} (hreads : IsCut limit stream reads)
    (hothers : IsCut limit later others) :
    IsCut limit (stream ++ later) (reads ++ others) where
  flatten := by rw [List.flatten_append, hreads.flatten, hothers.flatten]
  nonempty := List.forall_mem_append.2 ⟨hreads.nonempty, hothers.nonempty⟩
  short := List.forall_mem_append.2 ⟨hreads.short, hothers.short⟩

theorem isCut_single {limit : ℕ} {stream : List UInt8} (hnonempty : stream ≠ [])
    (hshort : stream.length ≤ limit) : IsCut limit stream [stream] where
  flatten := by simp
  nonempty := by simpa using hnonempty
  short := by simpa using hshort

/-- Byte by byte a header over the ceiling is found too large. -/
theorem readAll_bytewise_of_large {stream rest : List UInt8}
    {bodies : List (List UInt8)} {size : ℕ} (hreached : Reached stream bodies rest)
    (hsize : headerSize rest = some size) (hlarge : maxHeaderBytes + 1 < size) :
    (Reading.readAll (bytewise stream)).dispatched = bodies ∧
      (Reading.readAll (bytewise stream)).fault =
        some (.headerTooLarge maxHeaderBytes) := by
  have hhalt : Halts rest := fun body later => by
    rw [front_of_large hsize hlarge]
    simp
  obtain ⟨rest', hreached', hhalt', hfront⟩ :=
    (follows_cut (clearOfCeiling_one stream) (isCut_bytewise Nat.one_pos stream)).halt
  obtain ⟨hbodies, rfl⟩ := hreached'.halt_unique hreached hhalt' hhalt
  refine ⟨hbodies, ?_⟩
  rw [front_of_large hsize hlarge] at hfront
  cases hfault : (Reading.readAll (bytewise stream)).fault with
  | none =>
      rw [hfault] at hfront
      exact absurd hfront (by simp)
  | some fault =>
      rw [hfault, Except.error.injEq] at hfront
      rw [hfront]

/-- Byte by byte, but for one read from the ceiling to the end of a header. -/
def acrossCeiling (before rest : List UInt8) (size : ℕ) : List (List UInt8) :=
  bytewise (before ++ rest.take maxHeaderBytes) ++
    ([(rest.take size).drop maxHeaderBytes] ++ bytewise (rest.drop size))

theorem take_ceiling_append {rest : List UInt8} {size : ℕ}
    (hlarge : maxHeaderBytes < size) :
    rest.take maxHeaderBytes ++ (rest.take size).drop maxHeaderBytes =
      rest.take size := by
  have htake : rest.take maxHeaderBytes = (rest.take size).take maxHeaderBytes := by
    rw [List.take_take, min_eq_left hlarge.le]
  rw [htake, List.take_append_drop]

theorem isCut_acrossCeiling {limit : ℕ} {before rest : List UInt8} {size : ℕ}
    (hlength : size ≤ rest.length) (hlarge : maxHeaderBytes < size)
    (hsmall : size ≤ maxHeaderBytes + limit) :
    IsCut limit (before ++ rest) (acrossCeiling before rest size) := by
  have hlimit : 0 < limit := by omega
  have hjump : ((rest.take size).drop maxHeaderBytes).length =
      size - maxHeaderBytes := by
    rw [List.length_drop, List.length_take, min_eq_left hlength]
  have hjumps : IsCut limit ((rest.take size).drop maxHeaderBytes)
      [(rest.take size).drop maxHeaderBytes] := by
    apply isCut_single
    · rw [← List.length_pos_iff, hjump]
      omega
    · rw [hjump]
      omega
  have hwhole : before ++ rest = before ++ rest.take maxHeaderBytes ++
      ((rest.take size).drop maxHeaderBytes ++ rest.drop size) := by
    rw [List.append_assoc, ← List.append_assoc (rest.take maxHeaderBytes),
      take_ceiling_append hlarge, List.take_append_drop]
  rw [hwhole]
  exact (isCut_bytewise hlimit _).append (hjumps.append (isCut_bytewise hlimit _))

/-- With a read across the ceiling the header is not found too large. -/
theorem admitted_acrossCeiling {before rest : List UInt8} {bodies : List (List UInt8)}
    {size : ℕ} (hreached : Reached (before ++ rest) bodies rest)
    (hsize : headerSize rest = some size) (hlarge : maxHeaderBytes + 1 < size) :
    Admitted bodies (Reading.readAll (acrossCeiling before rest size)) := by
  have hheader : (headerSize (rest.take size)).isSome := by
    have hlength : (rest.take size).length = size := by
      rw [List.length_take, min_eq_left (headerSize_le hsize)]
    have hpart : headerSize (rest.take size) = some size :=
      headerSize_of_append (by rwa [List.take_append_drop]) hlength.ge
    rw [hpart, Option.isSome_some]
  have hread : Reading.read ⟨bodies, none, ⟨rest.take maxHeaderBytes⟩⟩
      ((rest.take size).drop maxHeaderBytes) =
        Reading.drain bodies ⟨rest.take size⟩ := by
    rw [Reading.read, if_neg (by simp)]
    exact congrArg (fun buffer => Reading.drain bodies ⟨buffer⟩)
      (take_ceiling_append (by omega))
  have hstart := readAll_up_to_ceiling hreached hsize hlarge
  rw [Reading.readAll] at hstart
  rw [Reading.readAll, acrossCeiling, List.foldl_append, List.foldl_append, hstart,
    List.foldl_cons, List.foldl_nil, hread]
  exact admitted_foldl _ (admitted_drain bodies hheader) (length_le_drain bodies _)

/-- Some reads of a stream with a header that straddles the ceiling differ. -/
theorem disagree_of_straddles {limit : ℕ} {stream rest : List UInt8}
    {bodies : List (List UInt8)} (hreached : Reached stream bodies rest)
    (hstraddles : Straddles limit rest) :
    ∃ left right, IsCut limit stream left ∧ IsCut limit stream right ∧
      ¬((Reading.readAll left).dispatched = (Reading.readAll right).dispatched ∧
        (Reading.readAll left).fault = (Reading.readAll right).fault) := by
  obtain ⟨size, hsize, hlarge, hsmall⟩ := hstraddles
  obtain ⟨before, rfl⟩ : rest <:+ stream := passes_suffix hreached
  refine ⟨bytewise (before ++ rest), acrossCeiling before rest size,
    isCut_bytewise (by omega) _,
    isCut_acrossCeiling (headerSize_le hsize) (by omega) hsmall, ?_⟩
  obtain ⟨hbodies, hceiling⟩ := readAll_bytewise_of_large hreached hsize hlarge
  rw [hbodies, hceiling]
  rintro ⟨hsame, hfault⟩
  rcases admitted_acrossCeiling hreached hsize hlarge with hmore | ⟨hother, _⟩
  · rw [← hsame] at hmore
    exact lt_irrefl _ hmore
  · exact hother hfault.symm

/-- Every two ways of reading a stream agree exactly when no header in it
straddles the ceiling. -/
theorem reads_agree_iff (limit : ℕ) (stream : List UInt8) :
    (∀ left right, IsCut limit stream left → IsCut limit stream right →
      (Reading.readAll left).dispatched = (Reading.readAll right).dispatched ∧
        (Reading.readAll left).fault = (Reading.readAll right).fault) ↔
      ClearOfCeiling limit stream := by
  constructor
  · intro hagree bodies rest hreached hstraddles
    obtain ⟨left, right, hleft, hright, hdiffer⟩ :=
      disagree_of_straddles hreached hstraddles
    exact hdiffer (hagree left right hleft hright)
  · intro hclear left right hleft hright
    exact agree_of_clear hclear hleft hright

/-- The length of an empty body behind 8192 blanks. -/
def wideBlock : List UInt8 :=
  utf8 "Content-Length:" ++ List.replicate maxHeaderBytes 32 ++ utf8 "0"

theorem headerSize_wideBlock :
    headerSize (wideBlock ++ headerTerminator) = some (maxHeaderBytes + 20) := by
  have hmarker : 13 ∉ wideBlock := by
    simp only [wideBlock, List.mem_append, List.mem_replicate, not_or]
    exact ⟨⟨by decide, fun h => absurd h.2 (by decide)⟩, by decide⟩
  have hname : (utf8 "Content-Length:").length = 15 := by decide
  have hdigit : (utf8 "0").length = 1 := by decide
  have hlength : wideBlock.length = maxHeaderBytes + 16 := by
    simp only [wideBlock, List.length_append, List.length_replicate, hname, hdigit]
    omega
  have hfound : findSubslice headerTerminator headerTerminator = some 0 :=
    findSubslice_of_isPrefix List.prefix_rfl
  have hplace : findSubslice headerTerminator (wideBlock ++ headerTerminator) =
      (findSubslice headerTerminator headerTerminator).map (· + wideBlock.length) :=
    findSubslice_append hmarker _ _
  rw [headerSize, hplace, hfound, hlength]
  rfl

/-- A frame whose header is over the ceiling, in reads the pipe can hand over. -/
theorem wide_header_reads_disagree :
    ¬∀ left right, IsCut readChunk (wideBlock ++ headerTerminator) left →
      IsCut readChunk (wideBlock ++ headerTerminator) right →
        (Reading.readAll left).dispatched = (Reading.readAll right).dispatched ∧
          (Reading.readAll left).fault = (Reading.readAll right).fault := by
  intro hagree
  have hstraddles : Straddles readChunk (wideBlock ++ headerTerminator) :=
    ⟨_, headerSize_wideBlock, by omega, by
      have hchunk : readChunk = 8192 := rfl
      omega⟩
  obtain ⟨left, right, hleft, hright, hdiffer⟩ :=
    disagree_of_straddles ReflTransGen.refl hstraddles
  exact hdiffer (hagree left right hleft hright)

end Ktsense.Lsp
