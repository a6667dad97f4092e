import TapeMachine.Stream.Sink
/-!
# Texts in pieces

A fail-stop writer over a sink without limit takes every piece of a text. After a failed write it takes
none, so going on with a text and stopping there leave the same writer. Over a sink of limited room it
therefore takes what fits of the whole text, wherever in a piece the room ends.
-/

set_option autoImplicit false
set_option relaxedAutoImplicit false

namespace TapeMachine.FailStop

@[simp]
theorem writeAll_cons (w : FailStop) (piece : List UInt8) (rest : List (List UInt8)) :
    w.writeAll (piece :: rest) = (w.write piece).1.writeAll rest := rfl

theorem writeAll_append (w : FailStop) (front back : List (List UInt8)) :
    w.writeAll (front ++ back) = (w.writeAll front).writeAll back := by
  induction front generalizing w with
  | nil => rfl
  | cons piece rest ih => exact ih _

theorem writeAll_of_failed {w : FailStop} {failure : WriteFault} (failed : w.failed = some failure)
    (pieces : List (List UInt8)) : w.writeAll pieces = w := by
  obtain ⟨sink, _⟩ := w
  cases failed
  induction pieces with
  | nil => rfl
  | cons piece rest ih => exact ih

theorem writeAll_unlimited (accepted : Array UInt8) (fault : Fault) (pieces : List (List UInt8)) :
    ∃ accepted' : Array UInt8, accepted'.toList = accepted.toList ++ pieces.flatten ∧
      (FailStop.mk ⟨accepted, none, fault⟩ none).writeAll pieces =
        ⟨⟨accepted', none, fault⟩, none⟩ := by
  induction pieces generalizing accepted with
  | nil => exact ⟨accepted, by simp, rfl⟩
  | cons piece rest ih =>
      obtain ⟨accepted', written, done⟩ := ih (accepted ++ piece)
      refine ⟨accepted', ?_, done⟩
      rw [written, Array.toList_appendList, List.flatten_cons, List.append_assoc]

theorem write_of_fits {piece : List UInt8} {room : Nat} (fits : piece.length ≤ room)
    (accepted : Array UInt8) (fault : Fault) :
    (FailStop.mk ⟨accepted, some room, fault⟩ none).write piece =
      (⟨⟨accepted ++ piece, some (room - piece.length), fault⟩, none⟩, piece.length) := by
  simp only [write, Sink.write, if_pos fits, Option.map_none]

theorem write_of_overflow {piece : List UInt8} {room : Nat} (overflow : room < piece.length)
    (accepted : Array UInt8) (fault : Fault) :
    (FailStop.mk ⟨accepted, some room, fault⟩ none).write piece =
      (⟨⟨accepted ++ piece.take room, some 0, fault⟩, some ⟨fault⟩⟩, room) := by
  simp only [write, Sink.write, if_neg (Nat.not_le.mpr overflow), Option.map_some]

theorem writeAll_limited (accepted : Array UInt8) (room : Nat) (fault : Fault)
    (pieces : List (List UInt8)) :
    ∃ accepted' : Array UInt8,
      accepted'.toList = accepted.toList ++ pieces.flatten.take room ∧
      (FailStop.mk ⟨accepted, some room, fault⟩ none).writeAll pieces =
        ⟨⟨accepted', some (room - pieces.flatten.length), fault⟩,
          if room < pieces.flatten.length then some ⟨fault⟩ else none⟩ := by
  induction pieces generalizing accepted room with
  | nil => exact ⟨accepted, by simp, rfl⟩
  | cons piece rest ih =>
      rw [writeAll_cons, List.flatten_cons, List.length_append]
      rcases Nat.lt_or_ge room piece.length with overflow | fits
      · have full : room - (piece.length + rest.flatten.length) = 0 := by omega
        have cut : (piece ++ rest.flatten).take room = piece.take room :=
          List.take_append_of_le_length (Nat.le_of_lt overflow)
        refine ⟨accepted ++ piece.take room, ?_, ?_⟩
        · rw [Array.toList_appendList, cut]
        · rw [write_of_overflow overflow, writeAll_of_failed rfl, full, if_pos (by omega)]
      · obtain ⟨accepted', written, done⟩ := ih (accepted ++ piece) (room - piece.length)
        have left : room - piece.length - rest.flatten.length =
            room - (piece.length + rest.flatten.length) := by omega
        have beyond : room - piece.length < rest.flatten.length ↔
            room < piece.length + rest.flatten.length := by omega
        refine ⟨accepted', ?_, ?_⟩
        · rw [written, Array.toList_appendList, List.take_append, List.take_of_length_le fits,
            List.append_assoc]
        · rw [write_of_fits fits, done, left]
          simp only [beyond]

end TapeMachine.FailStop
