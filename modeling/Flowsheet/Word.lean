set_option autoImplicit false

namespace Flowsheet.Word

def half : Nat := 9223372036854775808

def count : Nat := 18446744073709551616

def least : Int := -Int.ofNat half

def isSigned (n : Int) : Bool := least ≤ n && n < Int.ofNat half

def wrap (n : Int) : Int := n.bmod count

end Flowsheet.Word
