import TapeMachine.Image.Codec
import TapeMachine.Zstandard
import TapeMachine.Files
/-!
# Stored images

Images are kept in files, compressed if the name ends in `.zst`.
-/

set_option autoImplicit false
set_option relaxedAutoImplicit false

namespace TapeMachine.Image

/-- Whether images are compressed in a file of this name. -/
def isCompressed (name : String) : Bool := ".zst".toList.isSuffixOf name.toList

inductive LoadError where
  | unopened (fault : FileFault)
  | undecoded (name : String) (error : DecodeError)
  deriving DecidableEq

def LoadError.report : LoadError → Report
  | .unopened fault => (Fault.file fault).report.within "open failed"
  | .undecoded name error => error.report.within s!"load {name}"

structure SaveError where
  fault : FileFault
  deriving DecidableEq

def SaveError.report (e : SaveError) : Report :=
  (Fault.file e.fault).report.within "create failed"

def save (files : Files) (name : String) (img : Option Image) : Except SaveError Files :=
  let content := if isCompressed name then Zstandard.compress (encode? img) else encode? img
  match files.create name content with
  | .error fault => .error ⟨fault⟩
  | .ok files => .ok files

def load (files : Files) (name : String) : Except LoadError Image :=
  match files.openSource name with
  | .error fault => .error (.unopened fault)
  | .ok source =>
    match decode (if isCompressed name then Zstandard.decompress source else source) with
    | .error e => .error (.undecoded name e)
    | .ok img => .ok img

end TapeMachine.Image
