import KuskCore.BigEndian

/-!
# Regrouping bit strings

A machine that reads a bit string one bit at a time and cuts it into groups of `w` bits, each
most significant first: the groups it has completed, and the partial group it holds with its
count of bits. Its meaning is the bit string it has read: the groups' bits, then the partial
group's (`bits_pushAll`). A well-formed machine is determined by that string
(`eq_of_bits_eq`), so two ways of reading the same bits end in the same machine; in particular
the bits of `w`-bit groups read back as those groups (`pushAll_groupBits`).

Bits are the digits of `BigEndian` in base 2.
-/

namespace BitGroups

open BigEndian

/-- The bits of a list of `w`-bit groups, each most significant first. -/
def groupBits (w : Nat) (gs : List Nat) : List Nat := (gs.map (toDigits 2 w)).flatten

/-- The groups completed so far, and the partial group: its value and how many bits it holds. -/
structure Machine where
  out : List Nat
  next : Nat
  filled : Nat
  deriving DecidableEq, Repr

namespace Machine

/-- The machine that has read nothing. -/
def empty : Machine := ⟨[], 0, 0⟩

/-- Read one bit into the partial group, which is emitted once it holds `w` bits. -/
def push (w : Nat) (m : Machine) (bit : Nat) : Machine :=
  if m.filled + 1 = w then ⟨m.out ++ [m.next * 2 + bit], 0, 0⟩
  else ⟨m.out, m.next * 2 + bit, m.filled + 1⟩

/-- Read a bit string. -/
def pushAll (w : Nat) (m : Machine) (bs : List Nat) : Machine := bs.foldl (push w) m

/-- Emit the partial group padded with zero bits to a whole group. -/
def flush (w : Nat) (m : Machine) : Machine := ⟨m.out ++ [m.next * 2 ^ (w - m.filled)], 0, 0⟩

/-- The bits the machine has read: its groups', then its partial group's. -/
def bits (w : Nat) (m : Machine) : List Nat := groupBits w m.out ++ toDigits 2 m.filled m.next

/-- The partial group is short of a whole group and fits its count of bits, and every group fits
its width. -/
structure WF (w : Nat) (m : Machine) : Prop where
  filled_lt : m.filled < w
  next_lt : m.next < 2 ^ m.filled
  out_lt : ∀ g ∈ m.out, g < 2 ^ w

end Machine

open Machine

@[simp] theorem groupBits_nil (w : Nat) : groupBits w [] = [] := rfl

@[simp] theorem groupBits_append (w : Nat) (gs hs : List Nat) :
    groupBits w (gs ++ hs) = groupBits w gs ++ groupBits w hs := by
  simp [groupBits]

@[simp] theorem groupBits_cons (w g : Nat) (gs : List Nat) :
    groupBits w (g :: gs) = toDigits 2 w g ++ groupBits w gs := rfl

@[simp] theorem length_groupBits (w : Nat) (gs : List Nat) :
    (groupBits w gs).length = gs.length * w := by
  induction gs with
  | nil => simp
  | cons g gs ih => rw [groupBits_cons, List.length_append, ih, length_toDigits,
      List.length_cons, Nat.succ_mul, Nat.add_comm]

theorem lt_two_of_mem_groupBits {w : Nat} {gs : List Nat} {b : Nat} (h : b ∈ groupBits w gs) :
    b < 2 := by
  obtain ⟨ds, hds, hb⟩ := List.mem_flatten.mp h
  obtain ⟨g, -, rfl⟩ := List.mem_map.mp hds
  exact lt_of_mem_toDigits (by decide) hb

/-- Groups that fit their width are determined by their bits. -/
theorem groupBits_inj {w : Nat} : ∀ {gs hs : List Nat}, (∀ g ∈ gs, g < 2 ^ w) →
    (∀ h ∈ hs, h < 2 ^ w) → gs.length = hs.length → groupBits w gs = groupBits w hs → gs = hs
  | [], [], _, _, _, _ => rfl
  | g :: gs, h :: hs, hg, hh, hlen, heq => by
    rw [groupBits_cons, groupBits_cons] at heq
    obtain ⟨hhead, htail⟩ := List.append_inj heq (by rw [length_toDigits, length_toDigits])
    have hgh : g = h := by
      have hvalue := congrArg (ofDigits 2) hhead
      rwa [ofDigits_toDigits, ofDigits_toDigits, Nat.mod_eq_of_lt (hg g List.mem_cons_self),
        Nat.mod_eq_of_lt (hh h List.mem_cons_self)] at hvalue
    rw [hgh, groupBits_inj (fun g' hg' => hg g' (List.mem_cons_of_mem g hg'))
      (fun h' hh' => hh h' (List.mem_cons_of_mem h hh')) (by simpa using hlen) htail]

theorem length_bits (w : Nat) (m : Machine) : (m.bits w).length = m.out.length * w + m.filled := by
  simp [bits]

@[simp] theorem empty_bits (w : Nat) : empty.bits w = [] := rfl

theorem empty_wf {w : Nat} (hw : 0 < w) : empty.WF w := ⟨hw, by decide, by simp [empty]⟩

/-- A bit read into a well-formed machine is the last bit of its meaning. -/
theorem push_bits {w : Nat} {m : Machine} (hm : m.WF w) {bit : Nat} (hbit : bit < 2) :
    (m.push w bit).bits w = m.bits w ++ [bit] ∧ (m.push w bit).WF w := by
  have hsnoc := toDigits_append (b := 2) (by decide) hm.next_lt
    (show ∀ d ∈ [bit], d < 2 by simpa using hbit)
  have hone : ofDigits 2 [bit] = bit := by simp [ofDigits]
  rw [List.length_singleton, Nat.pow_one, hone] at hsnoc
  have hnext : m.next * 2 + bit < 2 ^ (m.filled + 1) := by
    have := hm.next_lt
    rw [Nat.pow_succ]
    omega
  have hfilled := hm.filled_lt
  unfold push
  by_cases hfull : m.filled + 1 = w
  · rw [if_pos hfull]
    refine ⟨?_, ⟨show 0 < w by omega, show 0 < 2 ^ 0 by decide, ?_⟩⟩
    · simp only [bits, groupBits_append, groupBits_cons, groupBits_nil, List.append_nil]
      rw [← hfull, hsnoc, List.append_assoc]
      simp
    · intro g hg
      rcases List.mem_append.mp hg with hg | hg
      · exact hm.out_lt g hg
      · rw [List.mem_singleton.mp hg, ← hfull]
        exact hnext
  · rw [if_neg hfull]
    refine ⟨?_, ⟨show m.filled + 1 < w by omega, hnext, hm.out_lt⟩⟩
    simp only [bits]
    rw [hsnoc, List.append_assoc]

/-- A well-formed machine means the bits it has read. -/
theorem bits_pushAll {w : Nat} {m : Machine} (hm : m.WF w) {bs : List Nat}
    (hbs : ∀ b ∈ bs, b < 2) : (m.pushAll w bs).bits w = m.bits w ++ bs ∧ (m.pushAll w bs).WF w := by
  induction bs generalizing m with
  | nil => exact ⟨by simp [pushAll], hm⟩
  | cons b bs ih =>
    obtain ⟨hpush, hwf⟩ := push_bits hm (hbs b List.mem_cons_self)
    obtain ⟨hrest, hwf'⟩ := ih hwf fun b' hb' => hbs b' (List.mem_cons_of_mem b hb')
    refine ⟨?_, hwf'⟩
    show ((m.push w b).pushAll w bs).bits w = _
    rw [hrest, hpush, List.append_assoc, List.singleton_append]

theorem pushAll_append (w : Nat) (m : Machine) (bs cs : List Nat) :
    m.pushAll w (bs ++ cs) = (m.pushAll w bs).pushAll w cs := by
  simp [pushAll, List.foldl_append]

/-- Well-formed machines that have read the same bits are the same machine. -/
theorem eq_of_bits_eq {w : Nat} {m m' : Machine} (hm : m.WF w) (hm' : m'.WF w)
    (h : m.bits w = m'.bits w) : m = m' := by
  have hlen := congrArg List.length h
  rw [length_bits, length_bits] at hlen
  have hf := hm.filled_lt
  have hf' := hm'.filled_lt
  -- the count of bits fixes the count of groups and the partial group's count
  have hfilled : m.filled = m'.filled := by
    have h1 : (m.out.length * w + m.filled) % w = m.filled := by
      rw [Nat.add_comm, Nat.add_mul_mod_self_right, Nat.mod_eq_of_lt hf]
    have h2 : (m'.out.length * w + m'.filled) % w = m'.filled := by
      rw [Nat.add_comm, Nat.add_mul_mod_self_right, Nat.mod_eq_of_lt hf']
    rw [← h1, ← h2, hlen]
  have hcount : m.out.length = m'.out.length := by
    rw [hfilled] at hlen
    exact Nat.eq_of_mul_eq_mul_right (by omega) (Nat.add_right_cancel hlen)
  obtain ⟨hout, hnext⟩ := List.append_inj h (by rw [length_groupBits, length_groupBits, hcount])
  have hgroups := groupBits_inj hm.out_lt hm'.out_lt hcount hout
  have hvalue := congrArg (ofDigits 2) hnext
  rw [ofDigits_toDigits, ofDigits_toDigits, Nat.mod_eq_of_lt hm.next_lt,
    Nat.mod_eq_of_lt hm'.next_lt] at hvalue
  cases m
  cases m'
  simp only at hgroups hvalue hfilled
  rw [hgroups, hvalue, hfilled]

theorem value_lt_of_room {f k next : Nat} (hnext : next < 2 ^ f) {bs : List Nat}
    (hbs : ∀ b ∈ bs, b < 2) (hk : bs.length = k) : next * 2 ^ k + ofDigits 2 bs < 2 ^ (f + k) := by
  have hlow := ofDigits_lt hbs
  rw [hk] at hlow
  rw [Nat.pow_add]
  calc next * 2 ^ k + ofDigits 2 bs < next * 2 ^ k + 2 ^ k := by omega
    _ = (next + 1) * 2 ^ k := by rw [Nat.add_mul, Nat.one_mul]
    _ ≤ 2 ^ f * 2 ^ k := Nat.mul_le_mul_right _ hnext

/-- Bits that fill the partial group at most up to a whole group shift into it, and a group they
fill is emitted. -/
theorem pushAll_chunk {w : Nat} {m : Machine} (hm : m.WF w) {bs : List Nat}
    (hbs : ∀ b ∈ bs, b < 2) (hroom : m.filled + bs.length ≤ w) :
    m.pushAll w bs =
      if m.filled + bs.length = w then ⟨m.out ++ [m.next * 2 ^ bs.length + ofDigits 2 bs], 0, 0⟩
      else ⟨m.out, m.next * 2 ^ bs.length + ofDigits 2 bs, m.filled + bs.length⟩ := by
  obtain ⟨hbits, hwf⟩ := bits_pushAll hm hbs
  have hdigits := toDigits_append (b := 2) (by decide) hm.next_lt hbs
  have hlt := value_lt_of_room hm.next_lt hbs rfl
  by_cases hfull : m.filled + bs.length = w
  · rw [if_pos hfull]
    have hfilled := hm.filled_lt
    refine eq_of_bits_eq hwf ⟨show 0 < w by omega, show 0 < 2 ^ 0 by decide, ?_⟩ ?_
    · intro g hg
      rcases List.mem_append.mp hg with hg | hg
      · exact hm.out_lt g hg
      · rw [List.mem_singleton.mp hg, ← hfull]
        exact hlt
    · rw [hbits]
      simp only [bits, groupBits_append, groupBits_cons, groupBits_nil, List.append_nil]
      rw [← hfull, hdigits, List.append_assoc]
      simp [toDigits]
  · rw [if_neg hfull]
    refine eq_of_bits_eq hwf ⟨show m.filled + bs.length < w by omega, hlt, hm.out_lt⟩ ?_
    rw [hbits]
    simp only [bits]
    rw [hdigits, List.append_assoc]

/-- The partial group holds what the bits read leave over after whole groups. -/
theorem filled_eq {w : Nat} {m : Machine} (hm : m.WF w) : m.filled = (m.bits w).length % w := by
  rw [length_bits, Nat.add_comm, Nat.add_mul_mod_self_right, Nat.mod_eq_of_lt hm.filled_lt]

/-- Flushing pads the bits read with zeros up to a whole group. -/
theorem bits_flush {w : Nat} {m : Machine} (hm : m.WF w) :
    (m.flush w).bits w = m.bits w ++ List.replicate (w - m.filled) 0 ∧ (m.flush w).WF w := by
  have hzeros : ∀ d ∈ List.replicate (w - m.filled) 0, d < 2 := by
    intro d hd
    rw [List.eq_of_mem_replicate hd]
    decide
  have hdigits := toDigits_append (b := 2) (by decide) hm.next_lt hzeros
  have hlt := value_lt_of_room hm.next_lt hzeros rfl
  have hfilled := hm.filled_lt
  rw [List.length_replicate, ofDigits_replicate_zero, Nat.add_zero,
    show m.filled + (w - m.filled) = w by omega] at hdigits
  rw [List.length_replicate, ofDigits_replicate_zero, Nat.add_zero,
    show m.filled + (w - m.filled) = w by omega] at hlt
  refine ⟨?_, ⟨show 0 < w by omega, show 0 < 2 ^ 0 by decide, ?_⟩⟩
  · simp only [flush, bits, groupBits_append, groupBits_cons, groupBits_nil, List.append_nil]
    rw [hdigits, List.append_assoc]
    simp [toDigits]
  · intro g hg
    rcases List.mem_append.mp hg with hg | hg
    · exact hm.out_lt g hg
    · rw [List.mem_singleton.mp hg]
      exact hlt

/-- The bits of groups that fit their width read back as those groups. -/
theorem pushAll_groupBits {w : Nat} (hw : 0 < w) {gs : List Nat} (hgs : ∀ g ∈ gs, g < 2 ^ w) :
    empty.pushAll w (groupBits w gs) = ⟨gs, 0, 0⟩ := by
  obtain ⟨hbits, hwf⟩ := bits_pushAll (empty_wf hw) fun b hb => lt_two_of_mem_groupBits hb
  apply eq_of_bits_eq hwf ⟨hw, show 0 < 2 ^ 0 by decide, hgs⟩
  rw [hbits, empty_bits, List.nil_append]
  simp [bits, toDigits]

end BitGroups
