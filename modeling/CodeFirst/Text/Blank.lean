/-! The characters with the Unicode property White_Space, and texts without them at both ends. -/

namespace CodeFirst.Text

def isBlank (c : Char) : Bool :=
  let n := c.toNat
  (decide (0x09 ≤ n) && decide (n ≤ 0x0d)) || n == 0x20 || n == 0x85 || n == 0xa0 || n == 0x1680 ||
    (decide (0x2000 ≤ n) && decide (n ≤ 0x200a)) || n == 0x2028 || n == 0x2029 || n == 0x202f ||
    n == 0x205f || n == 0x3000

def trimLeft (cs : List Char) : List Char := cs.dropWhile isBlank
def trimRight (cs : List Char) : List Char := (cs.reverse.dropWhile isBlank).reverse
def trim (cs : List Char) : List Char := trimRight (trimLeft cs)

theorem length_trimLeft_le (cs : List Char) : (trimLeft cs).length ≤ cs.length :=
  (List.dropWhile_sublist isBlank).length_le

theorem length_trimRight_le (cs : List Char) : (trimRight cs).length ≤ cs.length := by
  have h := length_trimLeft_le cs.reverse
  simp only [trimRight, trimLeft, List.length_reverse] at h ⊢
  exact h

theorem length_trim_le (cs : List Char) : (trim cs).length ≤ cs.length :=
  Nat.le_trans (length_trimRight_le (trimLeft cs)) (length_trimLeft_le cs)

end CodeFirst.Text
