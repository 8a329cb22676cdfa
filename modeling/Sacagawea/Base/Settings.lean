import Sacagawea.Base.Bytes

/-!
# The constants and the settings of the server

The part of sacagalib.h the model uses.
-/

namespace Sacagawea

def maxFileName : Nat := 255

def maxRequestLen : Nat := 4096

def pathMax : Nat := 4096

def addrMaxlen : Nat := 22

structure Settings where
  port : Int
  socket : Int
  mode : Byte
  homedir : CharArray pathMax
  hostname : CharArray 256
  deriving DecidableEq

end Sacagawea
