import Mathlib.Data.List.Basic
import Mathlib.Data.List.Induction
import Mathlib.Data.Nat.ModEq

/-!
Byte formats: big-endian numbers of a fixed width, byte strings behind a
length, and sequences of items behind a count. Each reader comes with the law
that it reads back what its writer wrote, whatever follows; a sequence may also
be read short, which leaves the items that were not counted.
-/
namespace JavaDebug.Octets

universe u

abbrev Bytes := List UInt8

/-- What was read and what is left. -/
abbrev Reader (α : Type u) := Bytes → Option (α × Bytes)

section Numbers

/-- The `k` lowest bytes of `n`, the highest of them first. -/
def put : ℕ → ℕ → Bytes
  | 0, _ => []
  | k + 1, n => put k (n / 256) ++ [UInt8.ofNat n]

variable (bs : Bytes)

def value : ℕ := bs.foldl (fun n b => n * 256 + b.toNat) 0

def get (k : ℕ) : Reader ℕ := fun bs =>
  if k ≤ bs.length then some (value (bs.take k), bs.drop k) else none

theorem length_put (k n : ℕ) : (put k n).length = k := by
  induction k generalizing n with
  | zero => rfl
  | succ k ih => rw [put, List.length_append, ih, List.length_singleton]

theorem value_put (k n : ℕ) : value (put k n) = n % 256 ^ k := by
  induction k generalizing n with
  | zero => simp [put, value, Nat.mod_one]
  | succ k ih =>
    have hstep : value (put (k + 1) n) = value (put k (n / 256)) * 256 + n % 256 := by
      simp [put, value, UInt8.toNat_ofNat']
    have hsplit : n % 256 ^ (k + 1) = n % 256 + 256 * (n / 256 % 256 ^ k) := by
      rw [Nat.pow_succ, Nat.mul_comm, Nat.mod_mul]
    rw [hstep, ih, hsplit]
    omega

theorem value_snoc (b : UInt8) : value (bs ++ [b]) = value bs * 256 + b.toNat := by
  unfold value
  rw [List.foldl_append]
  rfl

theorem value_append (bs bs' : Bytes) :
    value (bs ++ bs') = value bs * 256 ^ bs'.length + value bs' := by
  induction bs' using List.reverseRecOn with
  | nil => simp [value]
  | append_singleton bs' b ih =>
    have hpow : 256 ^ (bs' ++ [b]).length = 256 ^ bs'.length * 256 := by
      rw [List.length_append, List.length_singleton, Nat.pow_succ]
    rw [← List.append_assoc, value_snoc, value_snoc, ih, hpow, Nat.add_mul, Nat.mul_assoc,
      Nat.add_assoc]

theorem put_value : put bs.length (value bs) = bs := by
  induction bs using List.reverseRecOn with
  | nil => rfl
  | append_singleton bs b ih =>
    have hb := b.toNat_lt
    have hhigh : (value bs * 256 + b.toNat) / 256 = value bs := by omega
    have hlow : UInt8.ofNat (value bs * 256 + b.toNat) = b := by
      rw [← UInt8.toNat_inj, UInt8.toNat_ofNat']
      omega
    rw [List.length_append, List.length_singleton, put, value_snoc, hhigh, hlow, ih]

theorem value_lt : value bs < 256 ^ bs.length := by
  have h := value_put bs.length (value bs)
  rw [put_value] at h
  rw [h]
  exact Nat.mod_lt _ (Nat.pow_pos (by omega))

theorem get_append {k : ℕ} {bs : Bytes} (h : bs.length = k) (rest : Bytes) :
    get k (bs ++ rest) = some (value bs, rest) := by
  subst h
  rw [get, if_pos (by simp), List.take_left, List.drop_left]

theorem get_put {k n : ℕ} (h : n < 256 ^ k) (rest : Bytes) :
    get k (put k n ++ rest) = some (n, rest) := by
  rw [get_append (length_put k n), value_put, Nat.mod_eq_of_lt h]

end Numbers

section Sequences

variable {α : Type u}

/-- The next `k` bytes. -/
def chunk (k : ℕ) : Reader Bytes := fun bs =>
  if k ≤ bs.length then some (bs.take k, bs.drop k) else none

theorem chunk_append (bs rest : Bytes) : chunk bs.length (bs ++ rest) = some (bs, rest) := by
  rw [chunk, if_pos (by simp), List.take_left, List.drop_left]

/-- Read `n` items one after another. -/
def items (p : Reader α) : ℕ → Reader (List α)
  | 0, bs => some ([], bs)
  | n + 1, bs =>
    match p bs with
    | none => none
    | some (a, bs) => (items p n bs).map fun r => (a :: r.1, r.2)

variable {p : Reader α} {write : α → Bytes}

theorem items_cons {a : α} (h : ∀ rest, p (write a ++ rest) = some (a, rest)) (n : ℕ) (rest : Bytes)
    : items p (n + 1) (write a ++ rest) = (items p n rest).map fun r => (a :: r.1, r.2) := by
  rw [items, h]

theorem items_take (l : List α) (h : ∀ a ∈ l, ∀ rest, p (write a ++ rest) = some (a, rest)) {n : ℕ}
    (hn : n ≤ l.length) (rest : Bytes) :
    items p n (l.flatMap write ++ rest) =
      some (l.take n, (l.drop n).flatMap write ++ rest) := by
  induction n generalizing l with
  | zero => rfl
  | succ n ih =>
    cases l with
    | nil => exact absurd hn (Nat.not_succ_le_zero n)
    | cons a l =>
      rw [List.flatMap_cons, List.append_assoc, items_cons (h a List.mem_cons_self),
        ih l (fun b hb => h b (List.mem_cons_of_mem a hb)) (Nat.le_of_succ_le_succ hn)]
      rfl

theorem items_stuck (l : List α) (h : ∀ a ∈ l, ∀ rest, p (write a ++ rest) = some (a, rest))
    {bs : Bytes} (hbs : p bs = none) {n : ℕ} (hn : l.length < n) :
    items p n (l.flatMap write ++ bs) = none := by
  induction l generalizing n with
  | nil =>
    obtain ⟨m, rfl⟩ := Nat.exists_eq_succ_of_ne_zero hn.ne'
    rw [List.flatMap_nil, List.nil_append, items, hbs]
  | cons a l ih =>
    obtain ⟨m, rfl⟩ := Nat.exists_eq_succ_of_ne_zero (Nat.ne_zero_of_lt hn)
    rw [List.flatMap_cons, List.append_assoc, items_cons (h a List.mem_cons_self),
      ih (fun b hb => h b (List.mem_cons_of_mem a hb)) (Nat.lt_of_succ_lt_succ hn)]
    rfl

end Sequences

end JavaDebug.Octets
