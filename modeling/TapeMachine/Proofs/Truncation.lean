import TapeMachine.Proofs.Codec
import TapeMachine.Proofs.Locality
import TapeMachine.Image.Storage
/-!
# Truncated images

The fields of an image may stand in any order and may be missing, so nothing but the shape of the data
item protects a reader from an image that has been cut. It does: what is left of an encoding that was
cut anywhere is too short to be a data item, hence it is no encoding itself, and a file that holds it
cannot be loaded.
-/

set_option autoImplicit false
set_option relaxedAutoImplicit false

namespace TapeMachine

namespace Image

open TapeMachine.Cbor

private theorem reads_encode? {taken : Option Image} (fits : ∀ img ∈ taken, img.Fits) :
    ∃ item, Reads maxDepth (encode? taken) item [] := by
  cases taken with
  | none => exact ⟨.simple 22, reads_null maxDepth []⟩
  | some img =>
      obtain ⟨item, reads, -⟩ := reads_encode img (fits img rfl) []
      rw [List.append_nil] at reads
      exact ⟨item, reads⟩

def cutError (front : List UInt8) : DecodeError := if front = [] then .ended else .item .truncated

private theorem decode_of_truncated {front : List UInt8}
    (short : Item.read front = .error .truncated) :
    decode (.ofBytes front) = .error (cutError front) := by
  cases front with
  | nil => rfl
  | cons first rest =>
      simp only [decode, Source.ofBytes, short, cutError, reduceCtorEq, if_false]

private theorem decode_cut {taken : Option Image} (fits : ∀ img ∈ taken, img.Fits)
    {front : List UInt8} (before : front <+: encode? taken) (shorter : front ≠ encode? taken) :
    decode (.ofBytes front) = .error (cutError front) := by
  obtain ⟨item, reads⟩ := reads_encode? fits
  exact decode_of_truncated (reads.takes.readItem_cut before shorter)

private theorem decode_encode? {taken : Option Image} (fits : ∀ img ∈ taken, img.Fits) :
    ∃ img, decode (.ofBytes (encode? taken)) = .ok img := by
  cases taken with
  | none =>
      refine ⟨blank, ?_⟩
      obtain ⟨shorter, read⟩ := reads_null maxDepth []
      have read' : Item.read [0xF6] = .ok (.simple 22, ⟨[], shorter⟩) := read
      simp only [encode?, encodeNull, decode, Source.ofBytes, read']
      rfl
  | some img =>
      refine ⟨img.normal, ?_⟩
      have read := decode_encode img (fits img rfl) [] none
      rw [List.append_nil] at read
      exact read

private theorem load_plain {files : Files} {name : String} {content : List UInt8}
    {error : DecodeError}
    (uncompressed : isCompressed name = false) (found : files.find name = .ok (.file content))
    (unread : decode (.ofBytes content) = .error error) :
    load files name = .error (.undecoded name error) := by
  simp only [load, Files.openSource, found, uncompressed, Bool.false_eq_true, if_false, unread]

/-- A strict beginning of an encoding is not read: it ends before its first byte, or unexpectedly. So it
is not the encoding of another image, and a file that holds it is not loaded. -/
theorem cut_encoding_refused (taken : Option Image) (fits : ∀ img ∈ taken, img.Fits)
    (front : List UInt8) (before : front <+: encode? taken) (shorter : front ≠ encode? taken) :
    ∃ error : DecodeError,
      error = (if front = [] then .ended else .item .truncated) ∧
      error.report.cause = (if front = [] then "EOF" else "unexpected EOF") ∧
      decode (.ofBytes front) = .error error ∧
      (∀ other : Option Image, (∀ img ∈ other, img.Fits) → encode? other ≠ front) ∧
      ∀ (files : Files) (name : String), isCompressed name = false →
        files.find name = .ok (.file front) → load files name = .error (.undecoded name error) := by
  have unread := decode_cut fits before shorter
  refine ⟨cutError front, rfl, ?_, unread, ?_, ?_⟩
  · unfold cutError
    split <;> rfl
  · intro other small same
    obtain ⟨img, read⟩ := decode_encode? small
    rw [same, unread] at read
    exact absurd read nofun
  · intro files name uncompressed found
    exact load_plain uncompressed found unread

/-- A cut between the two bytes of the head of a program of 24 bytes. -/
theorem cut_encoding_refused_in_head :
    let img : Image := { blank with program := some (List.replicate 24 0x2B), count := -1 }
    let front : List UInt8 := [0xA8, 0x01, 0x58]
    (∀ other ∈ some img, other.Fits) ∧ front <+: encode? (some img) ∧ front ≠ encode? (some img) ∧
      decode (.ofBytes front) = .error (.item .truncated) ∧
      load ⟨[(["cut"], .file front)]⟩ "cut" = .error (.undecoded "cut" (.item .truncated)) := by
  intro img front
  have fits : ∀ other ∈ some img, other.Fits := by
    intro other member
    rw [← Option.some.inj member]
    exact ⟨by decide, by decide, by decide, by decide⟩
  have before : front <+: encode? (some img) := by decide
  have shorter : front ≠ encode? (some img) := by decide
  obtain ⟨error, kind, -, unread, -, unloaded⟩ :=
    cut_encoding_refused (some img) fits front before shorter
  rw [kind] at unread unloaded
  exact ⟨fits, before, shorter, unread, unloaded _ "cut" (by decide) rfl⟩

end Image

end TapeMachine
