import Mathlib.Data.Nat.Prime.Basic
import Mathlib.Data.Nat.Prime.Infinite
import Mathlib.Data.Nat.Find

/-!
# Prime numbers for table sizes

`is_prime` and `next_prime` of `algodefs.c`, which choose the number of slots
of hash sets and hash maps.
-/

namespace Zabbix.Algo.Numeric

/-- The loop of `is_prime`, from the odd divisor `i` on. -/
def isPrimeFrom (n i : Nat) : Bool :=
  if _ : i * i ≤ n then
    if n % i = 0 then false else isPrimeFrom n (i + 2)
  else
    true
termination_by n + 1 - i
decreasing_by
  have bound : i ≤ i * i := Nat.le_mul_self i
  omega

def isPrime (n : Nat) : Bool :=
  if n ≤ 1 then false
  else if n = 2 then true
  else if n % 2 = 0 then false
  else isPrimeFrom n 3

theorem isPrimeFrom_of_prime {n : Nat} (prime : n.Prime) {i : Nat} (notUnit : 1 < i) :
    isPrimeFrom n i = true := by
  induction i using isPrimeFrom.induct (n := n) with
  | case1 i bound divides =>
    have isDivisor := Nat.dvd_of_mod_eq_zero divides
    rcases (Nat.dvd_prime prime).mp isDivisor with unit | whole
    · omega
    · have twice : i * 2 ≤ i * i := Nat.mul_le_mul_left i notUnit
      omega
  | case2 i bound divides ih =>
    rw [isPrimeFrom, dif_pos bound, if_neg divides]
    exact ih (by omega)
  | case3 i large =>
    rw [isPrimeFrom, dif_neg large]

/-- Every prime is recognised, so that the search for the next one ends. -/
theorem isPrime_of_prime {n : Nat} (prime : n.Prime) : isPrime n = true := by
  unfold isPrime
  rw [if_neg (Nat.not_le.mpr prime.one_lt)]
  by_cases two : n = 2
  · rw [if_pos two]
  · have odd : ¬ n % 2 = 0 := by
      rcases prime.eq_two_or_odd with isTwo | isOdd
      · exact absurd isTwo two
      · omega
    rw [if_neg two, if_neg odd]
    exact isPrimeFrom_of_prime prime (by decide)

private theorem exists_isPrime (n : Nat) : ∃ m, n ≤ m ∧ isPrime m = true := by
  obtain ⟨m, reached, prime⟩ := Nat.exists_infinite_primes n
  exact ⟨m, reached, isPrime_of_prime prime⟩

def nextPrime (n : Nat) : Nat :=
  if isPrime n then n else nextPrime (n + 1)
termination_by Nat.find (exists_isPrime n) - n
decreasing_by
  rename_i notPrime
  have found := Nat.find_spec (exists_isPrime n)
  have further : n ≠ Nat.find (exists_isPrime n) := by
    intro same
    rw [← same] at found
    exact notPrime found.2
  have nearer : Nat.find (exists_isPrime (n + 1)) ≤ Nat.find (exists_isPrime n) :=
    Nat.find_min' _ ⟨by omega, found.2⟩
  omega

theorem nextPrime_spec (n : Nat) : n ≤ nextPrime n ∧ isPrime (nextPrime n) = true := by
  induction n using nextPrime.induct with
  | case1 n prime =>
    rw [nextPrime, if_pos prime]
    exact ⟨Nat.le_refl n, prime⟩
  | case2 n notPrime ih =>
    rw [nextPrime, if_neg notPrime]
    exact ⟨Nat.le_trans (Nat.le_succ n) ih.1, ih.2⟩

theorem le_nextPrime (n : Nat) : n ≤ nextPrime n :=
  (nextPrime_spec n).1

theorem one_lt_nextPrime (n : Nat) : 1 < nextPrime n := by
  have prime := (nextPrime_spec n).2
  by_contra small
  rw [isPrime, if_pos (Nat.not_lt.mp small)] at prime
  cases prime

end Zabbix.Algo.Numeric
