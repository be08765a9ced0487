/-!
# Numerals

The digits of a number in any base of two or more, the highest first and without leading zeros, and
the number that digits stand for. Digits are also written in another base with the zeros in front of
them kept.
-/

namespace AnchorHarness.Text

/-- The digits of a number in base `b + 2`, the lowest first. -/
def lowDigits (b : Nat) (n : Nat) : List Nat :=
  if n = 0 then [] else n % (b + 2) :: lowDigits b (n / (b + 2))
termination_by n
decreasing_by exact Nat.div_lt_self (by omega) (by omega)

/-- The digits of a number in base `b + 2`, the highest first. -/
def digits (b : Nat) (n : Nat) : List Nat := (lowDigits b n).reverse

/-- The number that digits in base `b + 2` stand for, the highest digit first. -/
def ofDigits (b : Nat) (ds : List Nat) : Nat := ds.foldl (fun n d => n * (b + 2) + d) 0

/-- Digits in base `b + 2` written in base `c + 2`: a zero in front stays a zero, and what follows
is read as one number. -/
def recode (b c : Nat) (ds : List Nat) : List Nat :=
  List.replicate (ds.takeWhile (· == 0)).length 0 ++ digits c (ofDigits b ds)

/-- A number is the one that its digits stand for. -/
theorem ofDigits_digits (b n : Nat) : ofDigits b (digits b n) = n := by
  induction n using Nat.strongRecOn with
  | _ n ih =>
    rw [digits, lowDigits]
    split
    · next h => simp [ofDigits, h]
    · have hlt : n / (b + 2) < n := Nat.div_lt_self (by omega) (by omega)
      have hi := ih _ hlt
      rw [digits, ofDigits] at hi
      rw [List.reverse_cons, ofDigits, List.foldl_append, hi]
      exact Nat.div_add_mod' n (b + 2)

end AnchorHarness.Text
