import Mathlib.Data.List.Basic
import Mathlib.Algebra.Order.Ring.Nat
import Mathlib.Tactic.Ring

/-!
# Byte strings

Little-endian numbers of a fixed width and the two ways of looking at a byte string that a storage
device needs: the bytes at a position (`slice`) and the byte string after bytes were stored at a
position (`overwrite`), which grows when they reach past its end.
-/

namespace Embed

abbrev Bytes := List UInt8

/-- The `k` low bytes of `n`, lowest first. -/
def leBytes : ℕ → ℕ → Bytes
  | 0, _ => []
  | k + 1, n => UInt8.ofNat n :: leBytes k (n / 256)

/-- The number stored in a byte string, lowest byte first. -/
def leNat : Bytes → ℕ
  | [] => 0
  | b :: bs => b.toNat + 256 * leNat bs

@[simp] theorem length_leBytes (k n : ℕ) : (leBytes k n).length = k := by
  induction k generalizing n with
  | zero => rfl
  | succ k ih => simp [leBytes, ih]

theorem leNat_leBytes (k n : ℕ) : leNat (leBytes k n) = n % 256 ^ k := by
  induction k generalizing n with
  | zero => simp [leBytes, leNat, Nat.mod_one]
  | succ k ih =>
    rw [leBytes, leNat, ih, UInt8.toNat_ofNat', pow_succ' 256 k]
    exact (Nat.mod_mul (a := 256)).symm

theorem leNat_leBytes_of_lt {k n : ℕ} (h : n < 256 ^ k) : leNat (leBytes k n) = n := by
  rw [leNat_leBytes, Nat.mod_eq_of_lt h]

theorem leBytes_inj {k m n : ℕ} (hm : m < 256 ^ k) (hn : n < 256 ^ k) (h : leBytes k m = leBytes k n) : m = n := by
  rw [← leNat_leBytes_of_lt hm, h, leNat_leBytes_of_lt hn]

theorem leNat_lt (bs : Bytes) : leNat bs < 256 ^ bs.length := by
  induction bs with
  | nil => simp [leNat]
  | cons b bs ih =>
    have hb : b.toNat < 256 := b.toNat_lt
    rw [leNat, List.length_cons, Nat.pow_succ']
    omega

theorem leBytes_leNat (bs : Bytes) : leBytes bs.length (leNat bs) = bs := by
  induction bs with
  | nil => rfl
  | cons b bs ih =>
    have hb : b.toNat < 256 := b.toNat_lt
    rw [List.length_cons, leBytes, leNat]
    congr 1
    · apply UInt8.toNat_inj.mp
      rw [UInt8.toNat_ofNat']
      omega
    · rw [show (b.toNat + 256 * leNat bs) / 256 = leNat bs by omega, ih]

theorem leBytes_mod (k n : ℕ) : leBytes k (n % 256 ^ k) = leBytes k n := by
  have h := leBytes_leNat (leBytes k n)
  rwa [length_leBytes, leNat_leBytes] at h

section Positions
variable {α : Type} {l l' bs cs : List α} {p q n : ℕ}

/-- The `n` items at position `p`. -/
def slice (l : List α) (p n : ℕ) : List α := (l.drop p).take n

/-- `l` after `bs` was stored at position `p`. -/
def overwrite (l : List α) (p : ℕ) (bs : List α) : List α :=
  l.take p ++ bs ++ l.drop (p + bs.length)

theorem length_slice (h : p + n ≤ l.length) : (slice l p n).length = n := by
  simp only [slice, List.length_take, List.length_drop]; omega

theorem slice_of_drop {rest : List α} (h : l.drop p = bs ++ rest) : slice l p bs.length = bs := by
  rw [slice, h, List.take_left]

theorem slice_append_drop (l : List α) (p n : ℕ) : slice l p n ++ l.drop (p + n) = l.drop p := by
  rw [slice, ← List.drop_drop, List.take_append_drop]

theorem drop_of_drop {rest : List α} (h : l.drop p = bs ++ rest) :
    l.drop (p + bs.length) = rest := by
  rw [← List.drop_drop, h, List.drop_left]

theorem add_length_drop (h : p ≤ l.length) : p + (l.drop p).length = l.length := by
  rw [List.length_drop, Nat.add_sub_of_le h]

theorem add_length_le_of_drop {rest : List α} (hp : p ≤ l.length) (h : l.drop p = bs ++ rest) :
    p + bs.length ≤ l.length := by
  rw [← add_length_drop hp, h, List.length_append]
  exact Nat.add_le_add_left (Nat.le_add_right ..) p

theorem length_overwrite (h : p ≤ l.length) :
    (overwrite l p bs).length = max l.length (p + bs.length) := by
  simp only [overwrite, List.length_append, List.length_take, List.length_drop]; omega

theorem length_overwrite_of_le (h : p + bs.length ≤ l.length) :
    (overwrite l p bs).length = l.length := by
  rw [length_overwrite (by omega)]; omega

@[simp] theorem overwrite_nil : overwrite l p [] = l := by simp [overwrite]

theorem drop_overwrite (h : p ≤ l.length) :
    (overwrite l p bs).drop p = bs ++ l.drop (p + bs.length) := by
  rw [overwrite, List.append_assoc, List.drop_left' (by simp [h])]

theorem overwrite_end (h : l.length = p) : overwrite l p bs = l ++ bs := by
  subst h; simp [overwrite]

theorem overwrite_append (h : l.length ≤ p) :
    overwrite (l ++ l') p bs = l ++ overwrite l' (p - l.length) bs := by
  simp only [overwrite, List.take_append, List.drop_append, List.take_of_length_le h,
    List.drop_eq_nil_of_le (show l.length ≤ p + bs.length by omega), List.nil_append,
    List.append_assoc]
  rw [show p + bs.length - l.length = p - l.length + bs.length by omega]

/-- The content is a prefix of the storage: what a store into it makes of the content. -/
theorem take_overwrite_max (hp : p ≤ n) (hn : n ≤ l.length) :
    (overwrite l p bs).take (max n (p + bs.length)) = overwrite (l.take n) p bs := by
  have hpre : (l.take p).length = p := by rw [List.length_take]; omega
  rw [overwrite, overwrite, List.take_take, Nat.min_eq_left hp, List.take_append, List.length_append,
    hpre, List.take_of_length_le (by rw [List.length_append, hpre]; omega), List.drop_take]
  congr 2
  omega

theorem overwrite_overwrite (bs cs : List α) (h : p ≤ l.length) :
    overwrite (overwrite l p bs) (p + bs.length) cs = overwrite l p (bs ++ cs) := by
  have htake : (overwrite l p bs).take (p + bs.length) = l.take p ++ bs := by
    rw [overwrite, List.take_left' (by simp [h])]
  have hdrop : (overwrite l p bs).drop (p + bs.length + cs.length) =
      l.drop (p + (bs ++ cs).length) := by
    rw [show p + bs.length + cs.length = p + (bs.length + cs.length) by omega, ← List.drop_drop,
      drop_overwrite h, List.drop_append]
    simp [List.drop_eq_nil_of_le, add_assoc]
  rw [overwrite, htake, hdrop, overwrite, List.append_assoc (l.take p)]

theorem slice_overwrite_of_disjoint (hq : q ≤ l.length) (h : q + bs.length ≤ p ∨ p + n ≤ q) :
    slice (overwrite l q bs) p n = slice l p n := by
  have hpre : (l.take q).length = q := by rw [List.length_take, Nat.min_eq_left hq]
  rcases h with h | h
  · have hsplit : (overwrite l q bs).drop p = l.drop p := by
      rw [overwrite, List.drop_append, List.drop_eq_nil_of_le (by rw [List.length_append, hpre]; exact h), List.nil_append,
        List.drop_drop, List.length_append, hpre, Nat.add_sub_of_le h]
    rw [slice, hsplit, slice]
  · rw [slice, slice, List.take_drop, List.take_drop, overwrite, List.append_assoc,
      List.take_append_of_le_length (by rw [hpre]; exact h), List.take_take, Nat.min_eq_left h]

end Positions

end Embed
