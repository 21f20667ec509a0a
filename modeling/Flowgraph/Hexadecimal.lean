namespace Flowgraph.Hexadecimal

/-- The value of a digit, in either case. -/
def value? (c : Char) : Option Nat :=
  if '0' ≤ c ∧ c ≤ '9' then some (c.toNat - '0'.toNat)
  else if 'a' ≤ c ∧ c ≤ 'f' then some (c.toNat - 'a'.toNat + 10)
  else if 'A' ≤ c ∧ c ≤ 'F' then some (c.toNat - 'A'.toNat + 10)
  else none

/-- The number that digits write, which is zero for no digits. -/
def number? (cs : List Char) : Option Nat :=
  cs.foldlM (fun n c => (value? c).map (16 * n + ·)) 0

/-- The lowest digits of a number, as many as asked for, most significant first and in lower
case. -/
def digits : (width : Nat) → Nat → List Char
  | 0, _ => []
  | width + 1, n => digits width (n / 16) ++ [Nat.digitChar (n % 16)]

/-- There are as many digits as asked for. -/
theorem length_digits (width n : Nat) : (digits width n).length = width := by
  induction width generalizing n with
  | zero => rfl
  | succ width ih => simp [digits, ih]

/-- Each of the sixteen digits reads as its own value. -/
theorem value?_digitChar {d : Nat} (small : d < 16) : value? (Nat.digitChar d) = some d := by
  have : ∀ d : Fin 16, value? (Nat.digitChar d) = some d.val := by decide
  exact this ⟨d, small⟩

/-- One more digit reads as sixteen times the number before it and the digit. -/
theorem number?_append_digit {cs : List Char} {n d : Nat} (before : number? cs = some n)
    (small : d < 16) : number? (cs ++ [Nat.digitChar d]) = some (16 * n + d) := by
  unfold number? at before ⊢
  rw [List.foldlM_append, before]
  simp [value?_digitChar small]

/-- The digits of a number read back, if they are enough for it. -/
theorem number?_digits {width n : Nat} (enough : n < 1 <<< (4 * width)) :
    number? (digits width n) = some n := by
  induction width generalizing n with
  | zero =>
    have : n = 0 := by simpa using enough
    subst this
    rfl
  | succ width ih =>
    have upper : n / 16 < 1 <<< (4 * width) := by
      rw [Nat.one_shiftLeft] at enough ⊢
      rw [Nat.mul_succ, Nat.pow_add] at enough
      omega
    have := number?_append_digit (ih upper) (Nat.mod_lt n (by decide : 0 < 16))
    rwa [Nat.div_add_mod] at this

end Flowgraph.Hexadecimal
