/-!
Numbers of a fixed number of binary digits.
-/

namespace CourseAdmission.Word

/-- The least number that does not fit into so many bits. -/
def limit (bits : Nat) : Nat := Nat.pow 2 bits

end CourseAdmission.Word
