import Mathlib

/-!
# Big-endian digit strings

The value of a big-endian digit string in a base, the last `k` digits of a value, and for bytes
the shortest string of a value (what a big-integer library's byte export gives) with zeros put in
front up to a length. A big-endian string is read through Mathlib's little-endian `Nat.ofDigits`
of its reverse, so that the two directions of the minimal encoding are `Nat.digits_ofDigits` and
`Nat.ofDigits_digits`.

The main facts: a value below `b ^ k` has `k` digits that read back to it (`ofDigits_toDigits`),
`k` digits are the digits of their value (`toDigits_ofDigits`), and padding the minimal bytes of
a `k`-byte string's value to `k` bytes gives the string back, leading zeros included
(`padLeft_minimal_value`).
-/

namespace BigEndian

/-- The value of a big-endian digit string: each digit shifts the value so far by one place. -/
def ofDigits (b : Nat) (ds : List Nat) : Nat := ds.foldl (fun n d => n * b + d) 0

/-- The last `k` digits of `n`, most significant first. -/
def toDigits (b : Nat) : Nat → Nat → List Nat
  | 0, _ => []
  | k + 1, n => toDigits b k (n / b) ++ [n % b]

variable {b : Nat}

-- The two equations of toDigits, stated once: proofs rewrite with them rather than unfold it.
theorem toDigits_zero_left (n : Nat) : toDigits b 0 n = [] := rfl

theorem toDigits_succ (k n : Nat) : toDigits b (k + 1) n = toDigits b k (n / b) ++ [n % b] := rfl

theorem foldl_digits (ds : List Nat) (acc : Nat) :
    ds.foldl (fun n d => n * b + d) acc = acc * b ^ ds.length + ofDigits b ds := by
  induction ds generalizing acc with
  | nil => simp [ofDigits]
  | cons d ds ih =>
    simp only [List.foldl_cons, ofDigits, List.length_cons] at ih ⊢
    rw [ih, ih (0 * b + d), Nat.pow_succ']
    simp only [Nat.zero_mul, Nat.zero_add, Nat.add_mul, Nat.mul_assoc, Nat.add_assoc]

@[simp] theorem ofDigits_nil : ofDigits b [] = 0 := rfl

theorem ofDigits_append (ds es : List Nat) :
    ofDigits b (ds ++ es) = ofDigits b ds * b ^ es.length + ofDigits b es := by
  unfold ofDigits
  rw [List.foldl_append, foldl_digits]
  rfl

@[simp] theorem ofDigits_append_singleton (ds : List Nat) (d : Nat) :
    ofDigits b (ds ++ [d]) = ofDigits b ds * b + d := by
  rw [ofDigits_append]
  simp [ofDigits]

theorem ofDigits_eq_ofDigits_reverse (ds : List Nat) :
    ofDigits b ds = Nat.ofDigits b ds.reverse := by
  induction ds using List.reverseRecOn with
  | nil => rfl
  | append_singleton ds d ih =>
    rw [ofDigits_append_singleton, List.reverse_append, ih]
    simp only [List.reverse_singleton, List.singleton_append, Nat.ofDigits_cons]
    ring

theorem ofDigits_lt {ds : List Nat} (h : ∀ d ∈ ds, d < b) :
    ofDigits b ds < b ^ ds.length := by
  induction ds using List.reverseRecOn with
  | nil => simp
  | append_singleton ds d ih =>
    have hds := ih fun d' hd' => h d' (List.mem_append_left _ hd')
    have hd := h d (by simp)
    rw [ofDigits_append_singleton, List.length_append, List.length_singleton, Nat.pow_succ]
    calc ofDigits b ds * b + d < ofDigits b ds * b + b := by omega
      _ = (ofDigits b ds + 1) * b := by rw [Nat.add_mul, Nat.one_mul]
      _ ≤ b ^ ds.length * b := Nat.mul_le_mul_right b hds

@[simp] theorem length_toDigits (k n : Nat) : (toDigits b k n).length = k := by
  induction k generalizing n with
  | zero => rfl
  | succ k ih => simp [toDigits_succ, ih]

theorem lt_of_mem_toDigits (hb : 0 < b) {k n d : Nat} (h : d ∈ toDigits b k n) : d < b := by
  induction k generalizing n with
  | zero => simp [toDigits_zero_left] at h
  | succ k ih =>
    simp only [toDigits_succ, List.mem_append, List.mem_singleton] at h
    rcases h with h | rfl
    · exact ih h
    · exact Nat.mod_lt n hb

/-- The last `k` digits of a value read back to the value modulo `b ^ k`. -/
theorem ofDigits_toDigits (k n : Nat) : ofDigits b (toDigits b k n) = n % b ^ k := by
  induction k generalizing n with
  | zero => simp [toDigits_zero_left, Nat.mod_one]
  | succ k ih =>
    rw [toDigits_succ, ofDigits_append_singleton, ih, Nat.pow_succ, Nat.mul_comm (b ^ k) b,
      Nat.mod_mul]
    ring

/-- A digit string is the string of its value's digits, as many as it has. -/
theorem toDigits_ofDigits {ds : List Nat} (h : ∀ d ∈ ds, d < b) :
    toDigits b ds.length (ofDigits b ds) = ds := by
  induction ds using List.reverseRecOn with
  | nil => rfl
  | append_singleton ds d ih =>
    have hd := h d (by simp)
    have hquot : (ofDigits b ds * b + d) / b = ofDigits b ds := by
      rw [Nat.add_comm, Nat.add_mul_div_right _ _ (by omega), Nat.div_eq_of_lt hd, Nat.zero_add]
    have hrem : (ofDigits b ds * b + d) % b = d := by
      rw [Nat.add_comm, Nat.add_mul_mod_self_right, Nat.mod_eq_of_lt hd]
    rw [List.length_append, List.length_singleton, ofDigits_append_singleton, toDigits_succ, hquot,
      hrem, ih fun d' hd' => h d' (List.mem_append_left _ hd')]

/-- Digits put below a value that has `f` digits: the value's digits, then those. -/
theorem toDigits_append (hb : 0 < b) {f n : Nat} (hn : n < b ^ f) {ds : List Nat}
    (hds : ∀ d ∈ ds, d < b) :
    toDigits b (f + ds.length) (n * b ^ ds.length + ofDigits b ds) = toDigits b f n ++ ds := by
  have hall : ∀ d ∈ toDigits b f n ++ ds, d < b := by
    intro d hd
    rcases List.mem_append.mp hd with hd | hd
    · exact lt_of_mem_toDigits hb hd
    · exact hds d hd
  have h := toDigits_ofDigits hall
  rwa [List.length_append, length_toDigits, ofDigits_append, ofDigits_toDigits,
    Nat.mod_eq_of_lt hn] at h

@[simp] theorem toDigits_zero (k : Nat) : toDigits b k 0 = List.replicate k 0 := by
  induction k with
  | zero => rfl
  | succ k ih => rw [toDigits_succ, Nat.zero_div, Nat.zero_mod, ih, List.replicate_succ']

@[simp] theorem ofDigits_replicate_zero (k : Nat) : ofDigits b (List.replicate k 0) = 0 := by
  induction k with
  | zero => rfl
  | succ k ih => rw [List.replicate_succ', ofDigits_append_singleton, ih, Nat.zero_mul]

/-! ## Bytes -/

/-- The value of big-endian bytes. -/
def value (bs : List UInt8) : Nat := ofDigits 256 (bs.map UInt8.toNat)

/-- The shortest big-endian bytes of a value: no leading zero byte, and none at all for zero. -/
def minimal (n : Nat) : List UInt8 := ((Nat.digits 256 n).map UInt8.ofNat).reverse

/-- Zero bytes put in front up to a length. -/
def padLeft (bs : List UInt8) (k : Nat) : List UInt8 := List.replicate (k - bs.length) 0 ++ bs

/-- Exactly `k` big-endian bytes of a value, modulo `256 ^ k`. -/
def fixed (k n : Nat) : List UInt8 := (toDigits 256 k n).map UInt8.ofNat

@[simp] theorem value_nil : value [] = 0 := rfl

theorem map_toNat_lt (bs : List UInt8) : ∀ d ∈ bs.map UInt8.toNat, d < 256 := by
  intro d hd
  obtain ⟨x, -, rfl⟩ := List.mem_map.mp hd
  exact x.toNat_lt

/-- Digits below 256 survive the trip through bytes. -/
theorem map_toNat_map_ofNat {ds : List Nat} (h : ∀ d ∈ ds, d < 256) :
    (ds.map UInt8.ofNat).map UInt8.toNat = ds := by
  rw [List.map_map]
  conv => rhs; rw [← List.map_id ds]
  apply List.map_congr_left
  intro d hd
  simp only [Function.comp_apply, UInt8.toNat_ofNat', Nat.reducePow, id]
  exact Nat.mod_eq_of_lt (h d hd)

theorem map_ofNat_map_toNat (bs : List UInt8) : (bs.map UInt8.toNat).map UInt8.ofNat = bs := by
  rw [List.map_map]
  conv => rhs; rw [← List.map_id bs]
  exact List.map_congr_left fun x _ => UInt8.ofNat_toNat

theorem value_lt (bs : List UInt8) : value bs < 256 ^ bs.length := by
  have h := ofDigits_lt (map_toNat_lt bs)
  rwa [List.length_map] at h

@[simp] theorem value_minimal (n : Nat) : value (minimal n) = n := by
  rw [value, minimal, ofDigits_eq_ofDigits_reverse, List.map_reverse, List.reverse_reverse,
    map_toNat_map_ofNat fun d hd => Nat.digits_lt_base (by decide) hd, Nat.ofDigits_digits]

theorem length_minimal_le {n k : Nat} (h : n < 256 ^ k) : (minimal n).length ≤ k := by
  rw [minimal, List.length_reverse, List.length_map]
  exact (Nat.digits_length_le_iff (by decide) n).mpr h

@[simp] theorem value_padLeft (bs : List UInt8) (k : Nat) : value (padLeft bs k) = value bs := by
  unfold value padLeft
  rw [List.map_append, ofDigits_append, ofDigits_eq_ofDigits_reverse (List.map _ _)]
  simp

theorem length_padLeft {bs : List UInt8} {k : Nat} (h : bs.length ≤ k) :
    (padLeft bs k).length = k := by
  simp only [padLeft, List.length_append, List.length_replicate]
  omega

@[simp] theorem length_fixed (k n : Nat) : (fixed k n).length = k := by
  simp [fixed]

theorem value_fixed (k n : Nat) : value (fixed k n) = n % 256 ^ k := by
  rw [value, fixed, map_toNat_map_ofNat fun d hd => lt_of_mem_toDigits (by decide) hd,
    ofDigits_toDigits]

theorem fixed_value (bs : List UInt8) : fixed bs.length (value bs) = bs := by
  have hdigits := toDigits_ofDigits (map_toNat_lt bs)
  rw [List.length_map] at hdigits
  rw [fixed, value, hdigits, map_ofNat_map_toNat]

/-- The bytes of a length are determined by their value. -/
theorem eq_of_value_eq {bs cs : List UInt8} (hlen : bs.length = cs.length)
    (h : value bs = value cs) : bs = cs := by
  rw [← fixed_value bs, ← fixed_value cs, hlen, h]

/-- Padding the minimal bytes of a value below `256 ^ k` gives its `k` bytes. -/
theorem padLeft_minimal {n k : Nat} (h : n < 256 ^ k) : padLeft (minimal n) k = fixed k n := by
  apply eq_of_value_eq
  · rw [length_padLeft (length_minimal_le h), length_fixed]
  · rw [value_padLeft, value_minimal, value_fixed, Nat.mod_eq_of_lt h]

/-- Leading zero bytes come back: the minimal bytes of a string's value, padded to its length,
are the string. -/
theorem padLeft_minimal_value (bs : List UInt8) : padLeft (minimal (value bs)) bs.length = bs := by
  rw [padLeft_minimal (value_lt bs), fixed_value]

end BigEndian
