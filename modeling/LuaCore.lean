import LuaCore.Main
import LuaCore.CommandLine.Folder
import LuaCore.Display.Debug
import LuaCore.Proofs.Parsing
import LuaCore.Proofs.Safety
import LuaCore.Proofs.Framing
import LuaCore.Proofs.Separation
import LuaCore.Proofs.Globals
import LuaCore.Proofs.Printing
import LuaCore.Proofs.Readback
import LuaCore.Proofs.Faults
import LuaCore.Proofs.Accounting
import LuaCore.Proofs.Desugaring
import LuaCore.Proofs.Joining
import LuaCore.Proofs.Ordered
import LuaCore.Proofs.Sequencing
import LuaCore.Proofs.Unwinding
import LuaCore.Proofs.Returning
import LuaCore.Proofs.Pointing
import LuaCore.Proofs.Fitting
import LuaCore.Proofs.Quoting
import LuaCore.Proofs.Enclosing
import LuaCore.Proofs.Constructing
import LuaCore.Proofs.Looping
import LuaCore.Proofs.Tiling
import LuaCore.Proofs.Spacing
import LuaCore.Proofs.Windowing
import LuaCore.Proofs.Counting
import LuaCore.Proofs.Rounding
import LuaCore.Proofs.Keying
import LuaCore.Proofs.Sharing
import LuaCore.Proofs.Stripping
import LuaCore.Proofs.Escaping
import LuaCore.Proofs.Settling
