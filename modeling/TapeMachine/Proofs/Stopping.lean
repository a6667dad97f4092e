import TapeMachine.Proofs.Dumps
import TapeMachine.Proofs.Listings
/-!
# Where writing stops

A listing and a dump are written in many small pieces, and nearly all answers of the single writes are
dropped. The fail-stop writer below makes up for that: it keeps the first failure, and nothing reaches
the sink after it. So a sink of limited room ends up with the beginning of the text, and the failure
tells whether anything is missing.
-/

set_option autoImplicit false
set_option relaxedAutoImplicit false

namespace TapeMachine.FailStop

/-- What is done with a fail-stop writer: bytes are written, or it is wrapped once more. -/
inductive Act where
  | write (bytes : List UInt8)
  | wrap
  deriving DecidableEq, Repr

def after (w : FailStop) : Act → FailStop
  | .write bytes => (w.write bytes).1
  | .wrap => wrap (.failStop w)

def afterAll (w : FailStop) (acts : List Act) : FailStop := acts.foldl after w

def written (acts : List Act) : List (List UInt8) :=
  acts.filterMap fun
    | .write bytes => some bytes
    | .wrap => none

/-- A fail-stop writer with a record of the writes that have reached its sink. -/
structure Recorded where
  writer : FailStop
  reached : List (List UInt8)

namespace Recorded

def write (r : Recorded) (bytes : List UInt8) : Recorded :=
  ⟨(r.writer.write bytes).1, if r.writer.failed.isSome then r.reached else r.reached ++ [bytes]⟩

def writeAll (r : Recorded) (pieces : List (List UInt8)) : Recorded := pieces.foldl write r

private theorem writer_writeAll (r : Recorded) (pieces : List (List UInt8)) :
    (r.writeAll pieces).writer = r.writer.writeAll pieces := by
  induction pieces generalizing r with
  | nil => rfl
  | cons piece rest ih => exact ih (r.write piece)

private theorem write_of_unfailed {r : Recorded} (unfailed : r.writer.failed = none)
    (bytes : List UInt8) :
    r.write bytes = ⟨(r.writer.write bytes).1, r.reached ++ [bytes]⟩ := by
  simp [write, unfailed]

private theorem writeAll_of_failed {r : Recorded} {failure : WriteFault}
    (failed : r.writer.failed = some failure) (pieces : List (List UInt8)) :
    r.writeAll pieces = r := by
  obtain ⟨⟨sink, _⟩, reached⟩ := r
  cases failed
  induction pieces with
  | nil => rfl
  | cons piece rest ih => exact ih

private theorem exists_reached (accepted : Array UInt8) (room : Nat) (fault : Fault)
    (before pieces : List (List UInt8)) :
    ∃ sent unsent, pieces = sent ++ unsent ∧
      (Recorded.writeAll ⟨⟨⟨accepted, some room, fault⟩, none⟩, before⟩ pieces).reached =
        before ++ sent ∧
      sent.dropLast.flatten.length ≤ room ∧ (unsent ≠ [] → room < sent.flatten.length) := by
  induction pieces generalizing accepted room before with
  | nil => exact ⟨[], [], rfl, (List.append_nil before).symm, Nat.zero_le room, absurd rfl⟩
  | cons piece rest ih =>
      have first : Recorded.writeAll ⟨⟨⟨accepted, some room, fault⟩, none⟩, before⟩ (piece :: rest) =
          Recorded.writeAll ⟨((FailStop.mk ⟨accepted, some room, fault⟩ none).write piece).1,
            before ++ [piece]⟩ rest := by
        rw [writeAll, List.foldl_cons, write_of_unfailed rfl]
        rfl
      rw [first]
      rcases Nat.lt_or_ge room piece.length with overflow | fits
      · refine ⟨[piece], rest, rfl, ?_, Nat.zero_le room, fun _ => by simpa using overflow⟩
        rw [write_of_overflow overflow, writeAll_of_failed rfl]
      · obtain ⟨sent, unsent, parts, reached, inside, full⟩ :=
          ih (accepted ++ piece) (room - piece.length) (before ++ [piece])
        refine ⟨piece :: sent, unsent, by rw [parts, List.cons_append], ?_, ?_, fun some_left => ?_⟩
        · rw [write_of_fits fits, reached, List.append_assoc, List.singleton_append]
        · cases sent with
          | nil => exact Nat.zero_le room
          | cons next sent =>
              rw [List.dropLast_cons_cons, List.flatten_cons, List.length_append]
              omega
        · have beyond := full some_left
          rw [List.flatten_cons, List.length_append]
          omega

end Recorded

/-- What has become of a sink with room for `room` more bytes after a text was written to it in pieces.
-/
structure Stops (pieces : List (List UInt8)) (sink : Sink) (room : Nat) (w : FailStop) : Prop where
  /-- What fits is accepted. -/
  accepted : w.sink.accepted.toList = sink.accepted.toList ++ pieces.flatten.take room
  /-- There is a failure exactly if something does not fit. -/
  failed : w.failed = if room < pieces.flatten.length then some ⟨sink.fault⟩ else none
  /-- Its cause is the fault of the sink. -/
  cause : ∀ failure ∈ w.failed, failure.report.cause = sink.fault.report.cause
  /-- The writes up to the one that does not fit reach the sink, and no others. -/
  reached : ∃ sent unsent, pieces = sent ++ unsent ∧
    Recorded.writeAll ⟨.ofSink sink, []⟩ pieces = ⟨w, sent⟩ ∧
    sent.dropLast.flatten.length ≤ room ∧ (unsent ≠ [] → room < sent.flatten.length)

private theorem afterAll_eq (w : FailStop) (acts : List Act) : w.afterAll acts = w.writeAll
    (written acts) := by
  induction acts generalizing w with
  | nil => rfl
  | cons act rest ih =>
      cases act with
      | write bytes => exact ih _
      | wrap => exact ih _

private theorem stops_writeAll (pieces : List (List UInt8)) {sink : Sink} {room : Nat}
    (limited : sink.room = some room) : Stops pieces sink room ((ofSink sink).writeAll pieces) := by
  obtain ⟨accepted, _, fault⟩ := sink
  cases limited
  obtain ⟨accepted', written, done⟩ := writeAll_limited accepted room fault pieces
  obtain ⟨sent, unsent, parts, reached, inside, full⟩ :=
    Recorded.exists_reached accepted room fault [] pieces
  have recorded : Recorded.writeAll ⟨ofSink ⟨accepted, some room, fault⟩, []⟩ pieces =
      ⟨(ofSink ⟨accepted, some room, fault⟩).writeAll pieces, sent⟩ := by
    rw [Recorded.mk.injEq]
    exact ⟨Recorded.writer_writeAll _ _, reached⟩
  refine ⟨?_, ?_, ?_, sent, unsent, parts, recorded, inside, full⟩
  · rw [ofSink, done]
    exact written
  · rw [ofSink, done]
  · rw [ofSink, done]
    intro failure held
    obtain ⟨-, same⟩ := Option.ite_none_right_eq_some.mp held
    rw [← Option.some.inj same]
    rfl

private theorem afterAll_of_failed {w : FailStop} {failure : WriteFault}
    (failed : w.failed = some failure) (acts : List Act) : w.afterAll acts = w := by
  rw [afterAll_eq, writeAll_of_failed failed]

/-- Whatever is done with a fail-stop writer, how often it is wrapped again included, and likewise in a
listing and in a dump: a sink of limited room takes the beginning of the text that fits, and the writer
holds a failure, whose cause is the fault of the sink, if and only if something does not fit. Nothing
reaches the sink after the first failed write, and a failure never changes. What a listing and a dump
answer is the failure that their writer holds. -/
theorem stops_where_the_sink_fails :
    (∀ (acts : List Act) (sink : Sink) (room : Nat), sink.room = some room →
      Stops (written acts) sink room ((wrap (.sink sink)).afterAll acts)) ∧
    (∀ (w : FailStop) (failure : WriteFault) (acts : List Act), w.failed = some failure →
      w.afterAll acts = w) ∧
    (∀ (program : List UInt8) (jumps : JumpTable), link program = .ok jumps →
      let pieces := (Listing.entriesFrom program jumps 0).flatMap Listing.Entry.pieces
      Listing.text program = .ok pieces.flatten ∧
      (∀ w, (Listing.write program w).map Prod.fst = .ok ((wrap w).writeAll pieces)) ∧
      ∀ (sink : Sink) (room : Nat), sink.room = some room →
        ∃ w, Listing.write program (.sink sink) = .ok (w, w.failed) ∧ Stops pieces sink room w) ∧
    ∀ m : Machine, Dump.text m = (Dump.pieces m).flatten ∧
      (∀ w, (Dump.write m w).1 = (wrap w).writeAll (Dump.pieces m) ∧
        (Dump.write m w).2 = (Dump.write m w).1.failed) ∧
      ∀ (sink : Sink) (room : Nat), sink.room = some room →
        Stops (Dump.pieces m) sink room (Dump.write m (.sink sink)).1 := by
  refine ⟨fun acts sink room limited => ?_, fun w failure acts failed => afterAll_of_failed failed acts,
    fun program jumps linked => ⟨?_, fun w => ?_, fun sink room limited => ?_⟩,
    fun m => ⟨Dump.text_eq m, fun w => ?_, fun sink room limited => ?_⟩⟩
  · rw [afterAll_eq]
    exact stops_writeAll (written acts) limited
  · rw [Listing.text_eq_of_link linked, Listing.flatten_flatMap_pieces]
  · obtain ⟨answer, wrote, -⟩ := Listing.write_eq_of_link linked w
    rw [wrote]
    rfl
  · obtain ⟨answer, wrote, failure⟩ := Listing.write_eq_of_link linked (.sink sink)
    obtain rfl := failure rfl
    exact ⟨_, wrote, stops_writeAll _ limited⟩
  · rw [Dump.write_eq]
    exact ⟨rfl, rfl⟩
  · rw [Dump.write_eq]
    exact stops_writeAll (Dump.pieces m) limited

/-- A writer that is wrapped again between writes, one of which fits in part; a listing cut inside a
name; and a dump that just fits, and does not where there is room for its first byte only. -/
theorem stops_where_the_sink_fails_inside :
    let device : Fault := .device "boom"
    let w := (wrap (.sink (.limited 3 device))).afterAll [.write [1, 2], .wrap, .write [3, 4], .write []]
    let m := Machine.ofSizes ⟨1, 1, 1, by decide, by decide, by decide⟩
    w.sink.accepted.toList = [1, 2, 3] ∧ w.failed = some ⟨device⟩ ∧
      w.afterAll [.wrap, .write [5]] = w ∧
      (∃ w, Listing.write [91, 93] (.sink (.limited 13 device)) = .ok (w, some ⟨device⟩) ∧
        w.sink.accepted.toList = Text.bytes "         0\top") ∧
      (Dump.write m (.sink (.limited 8 device))).2 = none ∧
      (Dump.write m (.sink (.limited 1 device))).2 = some ⟨device⟩ := by
  intro device w m
  obtain ⟨acts, remembered, listing, dump⟩ := stops_where_the_sink_fails
  obtain ⟨written, failed, -, -⟩ :=
    acts [.write [1, 2], .wrap, .write [3, 4], .write []] (.limited 3 device) 3 rfl
  have linked : link [91, 93] = .ok #[some 1, some 0] := by decide
  obtain ⟨text, -, cut⟩ := listing [91, 93] _ linked
  obtain ⟨listed, wrote, stops⟩ := cut (.limited 13 device) 13 rfl
  have known : Listing.text [91, 93] =
      .ok (Text.bytes "         0\topen 1\n         1\tclose 0\n") := by
    decide +kernel
  rw [known, Except.ok.injEq] at text
  have failure : listed.failed = some ⟨device⟩ := by
    rw [stops.failed, ← text]
    decide +kernel
  rw [failure] at wrote
  obtain ⟨shown, answers, cut⟩ := dump m
  refine ⟨written, failed, remembered w _ _ failed, ⟨listed, wrote, ?_⟩, ?_, ?_⟩
  · rw [stops.accepted, ← text]
    decide +kernel
  · rw [(answers _).2, (cut (.limited 8 device) 8 rfl).failed, ← shown]
    decide +kernel
  · rw [(answers _).2, (cut (.limited 1 device) 1 rfl).failed, ← shown]
    decide +kernel

end TapeMachine.FailStop
