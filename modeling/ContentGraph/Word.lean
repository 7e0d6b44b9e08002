/-!
# Words

How many numbers a machine word holds. A signed word of `n + 1` bits holds the numbers from
`-(count n)` up to below `count n`.
-/

namespace ContentGraph.Word

/-- The number of words of so many bits. -/
def count (bits : Nat) : Nat := Nat.pow 2 bits

theorem count_32 : count 32 = 4294967296 := rfl

theorem count_63 : count 63 = 9223372036854775808 := rfl

theorem count_64 : count 64 = 18446744073709551616 := rfl

end ContentGraph.Word
