import PortsBox.Lib.Word

/-!
# Traffic packages as the provider lists them
-/

set_option autoImplicit false

namespace PortsBox

def effectiveStatus : String := "Effective"

def usedUpStatus : String := "UsedUp"

structure Package where
  id : String
  name : String
  region : String
  total : Nat
  available : Nat
  status : String
  expiry : String
  deriving DecidableEq, Repr

def Package.effective (package : Package) : Bool := package.status == effectiveStatus

def Package.usedUp (package : Package) : Bool := package.status == usedUpStatus

structure Fetched where
  packages : List Package
  ignored : List Package
  deriving DecidableEq, Repr

end PortsBox
