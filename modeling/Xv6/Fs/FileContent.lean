/-
The content of a file, for every 32-bit offset and count, as long as the log has room for the
blocks that are written.
-/

import Mathlib.Tactic
import Xv6.Fs.SharedWrites
import Xv6.Fs.Transactions

namespace Xv6.Fs.Locked

open Library Code

variable {sb : Superblock} {inum off : Nat} {src : List UInt8} {s s' : Locked}

def stopped {Result : Type} : Except Stop Result → Option Stop
  | .ok _ => none
  | .error cause => some cause

end Xv6.Fs.Locked
