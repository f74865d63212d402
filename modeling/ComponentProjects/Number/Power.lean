/-! Powers of the bases that numbers are kept and written in. -/
namespace ComponentProjects

def twoTo (exponent : Nat) : Nat := Nat.pow 2 exponent

def tenTo (exponent : Nat) : Nat := Nat.pow 10 exponent

end ComponentProjects
