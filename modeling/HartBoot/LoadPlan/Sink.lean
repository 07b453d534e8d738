import HartBoot.Blob
import HartBoot.Elf.Extraction
import HartBoot.PayloadSink

/-!
Contract: the receiver that turns payload files into a load plan.

Owns:
- `LoadPlan.sink`, which takes executables apart and embeds all other files.

Does not own: the two ways themselves (see `HartBoot.Elf.Extraction` and `HartBoot.Blob`).
-/

namespace HartBoot.LoadPlan

/-- The receiver that reads payloads from files; `wide` asks for wide listings. -/
def sink (files : Files) (wide : Bool) : PayloadSink LoadPlan where
  extract path owner address := Elf.extract files path owner address wide
  embed path address owner ancillary := Blob.embed files path address owner ancillary

end HartBoot.LoadPlan
