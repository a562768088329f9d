namespace Tabletop.Bits

-- The greatest number of so many bits.
def greatest (bits : Nat) : Nat := Nat.pow 2 bits - 1

end Tabletop.Bits
