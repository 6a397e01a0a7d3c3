import EntityGen.Proofs.Disk.Ensuring

namespace EntityGen

open FileSystem (overwritable ensureParent ensureDirectories)
open Text.Utf8 (Bytes encode)

namespace Disk

variable {d d' d'' : Disk} {p : Path} {l : Location} {s : String} {c c' : Bytes} {f : Fault}

end Disk

namespace Emitter

variable {e e' : Emitter} {p : Path} {text marker : String} {l : Location} {f : Failure}

end Emitter

end EntityGen
