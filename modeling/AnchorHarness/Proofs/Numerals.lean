import AnchorHarness.Text.Radix
import Mathlib.Data.Nat.Digits.Lemmas

/-!
# Numerals in two bases

Digits without a zero in front are those of the number that they stand for. The zeros in front are
kept apart from the number, so digits that are written in another base and back are the same again.
How many digits there are in one base is bounded by how many there are in the other.
-/

namespace AnchorHarness.Text

theorem lowDigits_eq (b n : Nat) : lowDigits b n = Nat.digits (b + 2) n := by
  induction n using Nat.strongRecOn with
  | _ n ih =>
    rw [lowDigits]
    split
    · next h => rw [h, Nat.digits_zero]
    · next h =>
      have smaller : n / (b + 2) < n := Nat.div_lt_self (by omega) (by omega)
      rw [Nat.digits_def' (by omega) (by omega), ih _ smaller]

theorem ofDigits_append_singleton (b : Nat) (ds : List Nat) (d : Nat) :
    ofDigits b (ds ++ [d]) = ofDigits b ds * (b + 2) + d := by
  rw [ofDigits, List.foldl_append]
  rfl

theorem ofDigits_eq (b : Nat) (ds : List Nat) : ofDigits b ds = Nat.ofDigits (b + 2) ds.reverse := by
  induction ds using List.reverseRecOn with
  | nil => rfl
  | append_singleton ds d ih =>
    rw [ofDigits_append_singleton, ih, List.reverse_append, List.reverse_singleton,
      List.singleton_append, Nat.ofDigits_cons]
    ring

theorem ofDigits_zeros (b zeros : Nat) (ds : List Nat) :
    ofDigits b (List.replicate zeros 0 ++ ds) = ofDigits b ds := by
  rw [ofDigits_eq, ofDigits_eq, List.reverse_append, List.reverse_replicate, Nat.ofDigits_append,
    Nat.ofDigits_replicate_zero, Nat.mul_zero, Nat.add_zero]

theorem digits_ofDigits {b : Nat} {ds : List Nat} (below : ∀ d ∈ ds, d < b + 2)
    (lead : ds.head? ≠ some 0) : digits b (ofDigits b ds) = ds := by
  have belowReversed : ∀ d ∈ ds.reverse, d < b + 2 := fun d hd => below d (List.mem_reverse.mp hd)
  have last (filled : ds.reverse ≠ []) : ds.reverse.getLast filled ≠ 0 := by
    intro zero
    apply lead
    rw [← List.getLast?_reverse, List.getLast?_eq_getLast_of_ne_nil filled, zero]
  rw [digits, ofDigits_eq, lowDigits_eq, Nat.digits_ofDigits (b + 2) (by omega) _ belowReversed last,
    List.reverse_reverse]

theorem head?_digits (b n : Nat) : (digits b n).head? ≠ some 0 := by
  rw [digits, lowDigits_eq, List.head?_reverse]
  intro zero
  by_cases h : n = 0
  · simp [h] at zero
  · have filled : Nat.digits (b + 2) n ≠ [] := Nat.digits_ne_nil_iff_ne_zero.mpr h
    rw [List.getLast?_eq_getLast_of_ne_nil filled, Option.some.injEq] at zero
    exact Nat.getLast_digit_ne_zero (b + 2) h zero

theorem length_digits_le_iff (b n k : Nat) : (digits b n).length ≤ k ↔ n < (b + 2) ^ k := by
  rw [digits, lowDigits_eq, List.length_reverse, Nat.digits_length_le_iff (by omega)]

theorem lt_pow_length_digits (b n : Nat) : n < (b + 2) ^ (digits b n).length :=
  (length_digits_le_iff b n _).mp (Nat.le_refl _)

/-! ### Zeros in front -/

theorem exists_zeros (ds : List Nat) :
    ∃ zeros rest, ds = List.replicate zeros 0 ++ rest ∧ rest.head? ≠ some 0 := by
  induction ds with
  | nil => exact ⟨0, [], rfl, nofun⟩
  | cons d ds ih =>
    by_cases h : d = 0
    · obtain ⟨zeros, rest, rfl, lead⟩ := ih
      exact ⟨zeros + 1, rest, by rw [h, List.replicate_succ, List.cons_append], lead⟩
    · exact ⟨0, d :: ds, rfl, by simpa using h⟩

theorem recode_zeros (b c zeros : Nat) {rest : List Nat} (lead : rest.head? ≠ some 0) :
    recode b c (List.replicate zeros 0 ++ rest) =
      List.replicate zeros 0 ++ digits c (ofDigits b rest) := by
  have none : rest.takeWhile (· == 0) = [] := by
    cases rest with
    | nil => rfl
    | cons d rest =>
      have positive : d ≠ 0 := by simpa using lead
      simp [positive]
  have front : (List.replicate zeros 0 ++ rest).takeWhile (· == 0) = List.replicate zeros 0 := by
    rw [List.takeWhile_append_of_pos (by simp), none, List.append_nil]
  rw [recode, front, List.length_replicate, ofDigits_zeros]

/-- Digits written in another base and back are the same again. -/
theorem recode_recode (b c : Nat) {ds : List Nat} (below : ∀ d ∈ ds, d < b + 2) :
    recode c b (recode b c ds) = ds := by
  obtain ⟨zeros, rest, rfl, lead⟩ := exists_zeros ds
  have restBelow : ∀ d ∈ rest, d < b + 2 := fun d hd => below d (List.mem_append_right _ hd)
  rw [recode_zeros b c zeros lead, recode_zeros c b zeros (head?_digits c _), ofDigits_digits,
    digits_ofDigits restBelow lead]

/-! ### Lengths -/

theorem length_recode_le {b c : Nat} (coarser : b ≤ c) {ds : List Nat}
    (below : ∀ d ∈ ds, d < b + 2) : (recode b c ds).length ≤ ds.length := by
  obtain ⟨zeros, rest, rfl, lead⟩ := exists_zeros ds
  have restBelow : ∀ d ∈ rest, d < b + 2 := fun d hd => below d (List.mem_append_right _ hd)
  have bound : ofDigits b rest < (c + 2) ^ rest.length := by
    have own := lt_pow_length_digits b (ofDigits b rest)
    rw [digits_ofDigits restBelow lead] at own
    exact own.trans_le (Nat.pow_le_pow_left (by omega) _)
  have shorter := (length_digits_le_iff c _ _).mpr bound
  rw [recode_zeros b c zeros lead, List.length_append, List.length_append]
  omega

/-- Powers of two bases that are so ordered at an exponent are so ordered below it. -/
theorem pow_le_pow_add {b c n k m : Nat} (coarser : b ≤ c) (hm : m ≤ n)
    (room : (c + 2) ^ n ≤ (b + 2) ^ (n + k)) : (c + 2) ^ m ≤ (b + 2) ^ (m + k) := by
  obtain ⟨others, rfl⟩ := Nat.exists_eq_add_of_le hm
  have positive : 0 < (b + 2) ^ others := Nat.pow_pos (by omega)
  have whole : (c + 2) ^ m * (b + 2) ^ others ≤ (b + 2) ^ (m + k) * (b + 2) ^ others :=
    calc (c + 2) ^ m * (b + 2) ^ others
        ≤ (c + 2) ^ m * (c + 2) ^ others :=
          Nat.mul_le_mul_left _ (Nat.pow_le_pow_left (by omega) _)
      _ = (c + 2) ^ (m + others) := (Nat.pow_add _ _ _).symm
      _ ≤ (b + 2) ^ (m + others + k) := room
      _ = (b + 2) ^ (m + k) * (b + 2) ^ others := by rw [← Nat.pow_add]; congr 1; omega
  exact Nat.le_of_mul_le_mul_right whole positive

theorem length_le_of_recode {b c n k : Nat} (coarser : b ≤ c) {ds : List Nat}
    (below : ∀ d ∈ ds, d < b + 2) (room : (c + 2) ^ n ≤ (b + 2) ^ (n + k))
    (size : (recode b c ds).length = n) : ds.length ≤ n + k := by
  obtain ⟨zeros, rest, rfl, lead⟩ := exists_zeros ds
  have restBelow : ∀ d ∈ rest, d < b + 2 := fun d hd => below d (List.mem_append_right _ hd)
  rw [recode_zeros b c zeros lead, List.length_append, List.length_replicate] at size
  have fewer : (digits c (ofDigits b rest)).length ≤ n := by omega
  have bound : ofDigits b rest < (b + 2) ^ ((digits c (ofDigits b rest)).length + k) :=
    (lt_pow_length_digits c _).trans_le (pow_le_pow_add coarser fewer room)
  have own := (length_digits_le_iff b _ _).mpr bound
  rw [digits_ofDigits restBelow lead] at own
  rw [List.length_append, List.length_replicate]
  omega

end AnchorHarness.Text
