import KuskCore.Codec.Uvarint
import KuskCore.StateRun
import KuskCore.GoInt

/-!
# The blockchain encoding

`encoding/blockchain`: varints bounded by `MaxInt32` or `MaxInt64`, strings and lists of strings
behind a varint length, and extensible strings, a string whose reader may leave a suffix unread.

A `Reader` is the unread rest of the buffer, threaded through `EStateM`; on an error the Go reader
is abandoned, so what it held then plays no part. A writer returns the bytes it wrote, or the
error that stopped it: its callers stop at an error too.

For each writer, the reader of the same shape reads back what it wrote and leaves what follows:
`readVarint31_run`, `readVarint63_run`, `readVarstr31_run`, `readVarstrList_run`, and
`readExtensibleString_run`, where what the inner reader leaves of the string is the suffix.
-/

namespace KuskCore.Blockchain

open GoInt EStateM

/-- How decoding or encoding a wire structure fails: the errors of `io` and `encoding/binary`, the
`ErrRange` of this package, and those of the readers of `protocol/bc/types`. -/
inductive CodecError where
  | eof
  | unexpectedEOF
  | overflow
  | range
  | unsupportedSerflags (flags : UInt8)
  | unsupportedInputType (t : UInt8)
  | unsupportedOutputType (t : UInt8)
  | unrecognizedVMVersion (v : Nat)
  | badAssetID
  | nilTypedInput
  deriving DecidableEq, Repr

/-- `blockchain.Reader`: the bytes not read yet. -/
abbrev Reader := EStateM CodecError (List UInt8)

/-- The `io` errors of `binary.ReadUvarint`, and its overflow. -/
def ofUvarintError : Uvarint.Error → CodecError
  | .eof => .eof
  | .unexpectedEOF => .unexpectedEOF
  | .overflow => .overflow

/-- `binary.ReadUvarint` on the reader. -/
def readUvarint : Reader Nat := do
  match Uvarint.read (← get) with
  | .ok (v, rest) => set rest; pure v
  | .error e => throw (ofUvarintError e)

/-- `io.ReadFull` of `n` bytes: `io.EOF` when nothing is left, `io.ErrUnexpectedEOF` when some
but too few are. -/
def readFull (n : Nat) : Reader (List UInt8) := do
  let buf ← get
  if buf.length < n then throw (if buf.length = 0 then .eof else .unexpectedEOF)
  else
    set (buf.drop n)
    pure (buf.take n)

/-- `ReadVarint31`. -/
def readVarint31 : Reader Nat := do
  let val ← readUvarint
  if val > maxInt32 then throw .range else pure val

/-- `ReadVarint63`. -/
def readVarint63 : Reader Nat := do
  let val ← readUvarint
  if (val : Int) > maxInt64 then throw .range else pure val

/-- `ReadVarstr31`: a length, then that many bytes; Go's `nil` for length 0 is the empty list. -/
def readVarstr31 : Reader (List UInt8) := do
  let l ← readVarint31
  if l = 0 then pure []
  else
    let buf ← get
    if l > buf.length then throw .unexpectedEOF
    else
      set (buf.drop l)
      pure (buf.take l)

/-- The loop of `ReadVarstrList` with `nelts` strings to go after `result`. It stops at the first
error, and reports `io.ErrUnexpectedEOF` in its place when fewer strings were read than remain
to be read, as the source's check after the loop does. -/
def readVarstrLoop : Nat → List (List UInt8) → Reader (List (List UInt8))
  | 0, result => pure result
  | nelts + 1, result =>
    tryCatch (do
      let s ← readVarstr31
      readVarstrLoop nelts (result ++ [s]))
    fun e => throw (if result.length + 1 < nelts then .unexpectedEOF else e)

/-- `ReadVarstrList`: a count, then that many strings. -/
def readVarstrList : Reader (List (List UInt8)) := do
  let nelts ← readVarint31
  if nelts = 0 then pure [] else readVarstrLoop nelts []

/-- `ReadExtensibleString`: a string, which `f` reads; what `f` leaves of it is the suffix. -/
def readExtensibleString {α : Type} (f : Reader α) : Reader (α × List UInt8) := do
  let s ← readVarstr31
  match f.run s with
  | .ok a suffix => pure (a, suffix)
  | .error e _ => throw e

/-- Reading `n` items with `f` after those in `acc`: the `for ; n > 0; n--` loops of the readers
of `protocol/bc/types`. -/
def readRepeat {α : Type} (f : Reader α) : Nat → List α → Reader (List α)
  | 0, acc => pure acc
  | n + 1, acc => do
    let a ← f
    readRepeat f n (acc ++ [a])

/-- `WriteVarint31`. -/
def writeVarint31 (val : Nat) : Except CodecError (List UInt8) :=
  if val > maxInt32 then .error .range else .ok (Uvarint.put val)

/-- `WriteVarint63`. -/
def writeVarint63 (val : Nat) : Except CodecError (List UInt8) :=
  if (val : Int) > maxInt64 then .error .range else .ok (Uvarint.put val)

/-- `WriteVarstr31`. -/
def writeVarstr31 (str : List UInt8) : Except CodecError (List UInt8) := do
  let n ← writeVarint31 str.length
  pure (n ++ str)

/-- `WriteVarstrList`. -/
def writeVarstrList (l : List (List UInt8)) : Except CodecError (List UInt8) := do
  let n ← writeVarint31 l.length
  let strs ← l.mapM writeVarstr31
  pure (n ++ strs.flatten)

/-- `WriteExtensibleString`: what `f` writes, then the suffix, as one string. -/
def writeExtensibleString (suffix : List UInt8) (f : Except CodecError (List UInt8)) :
    Except CodecError (List UInt8) := do
  let buf ← f
  writeVarstr31 (buf ++ suffix)

/-! ## Writers -/

theorem writeVarint31_eq_ok {val : Nat} {bs : List UInt8} :
    writeVarint31 val = .ok bs ↔ val ≤ maxInt32 ∧ bs = Uvarint.put val := by
  unfold writeVarint31
  split
  · simp only [reduceCtorEq, false_iff, not_and]
    omega
  · simp only [Except.ok.injEq]
    constructor
    · intro h
      exact ⟨by omega, h.symm⟩
    · intro h
      exact h.2.symm

theorem writeVarint63_eq_ok {val : Nat} {bs : List UInt8} :
    writeVarint63 val = .ok bs ↔ (val : Int) ≤ maxInt64 ∧ bs = Uvarint.put val := by
  unfold writeVarint63
  split
  · simp only [reduceCtorEq, false_iff, not_and]
    omega
  · simp only [Except.ok.injEq]
    constructor
    · intro h
      exact ⟨by omega, h.symm⟩
    · intro h
      exact h.2.symm

theorem writeVarstr31_eq_ok {str bs : List UInt8} :
    writeVarstr31 str = .ok bs ↔ str.length ≤ maxInt32 ∧ bs = Uvarint.put str.length ++ str := by
  unfold writeVarstr31 writeVarint31
  by_cases hl : str.length > maxInt32
  · rw [if_pos hl]
    simp only [bind, Except.bind, reduceCtorEq, false_iff, not_and]
    omega
  · rw [if_neg hl]
    simp only [bind, Except.bind, pure, Except.pure, Except.ok.injEq]
    exact ⟨fun e => ⟨by omega, e.symm⟩, fun e => e.2.symm⟩

/-! ## Readers read back what the writers wrote -/

section RoundTrip

variable {rest : List UInt8}

theorem readFull_run {bs : List UInt8} {n : Nat} (h : bs.length = n) :
    (readFull n).run (bs ++ rest) = .ok bs rest := by
  unfold readFull
  rw [run_bind_of_ok (run_get _), List.length_append, if_neg (by omega), List.drop_left' h,
    List.take_left' h]
  rfl

theorem readUvarint_run {val : Nat} (h : val < 2 ^ 63) :
    readUvarint.run (Uvarint.put val ++ rest) = .ok val rest := by
  unfold readUvarint
  rw [run_bind_of_ok (run_get _), Uvarint.read_put h]
  rfl

theorem readVarint31_run {val : Nat} {bs : List UInt8} (h : writeVarint31 val = .ok bs) :
    readVarint31.run (bs ++ rest) = .ok val rest := by
  obtain ⟨hv, rfl⟩ := Iff.mp writeVarint31_eq_ok h
  unfold maxInt32 at hv
  unfold readVarint31
  rw [run_bind_of_ok (readUvarint_run (by omega)), if_neg (by unfold maxInt32; omega)]
  rfl

theorem readVarint63_run {val : Nat} {bs : List UInt8} (h : writeVarint63 val = .ok bs) :
    readVarint63.run (bs ++ rest) = .ok val rest := by
  obtain ⟨hv, rfl⟩ := Iff.mp writeVarint63_eq_ok h
  unfold maxInt64 at hv
  unfold readVarint63
  rw [run_bind_of_ok (readUvarint_run (by omega)), if_neg (by unfold maxInt64; omega)]
  rfl

theorem readVarstr31_run {str bs : List UInt8} (h : writeVarstr31 str = .ok bs) :
    readVarstr31.run (bs ++ rest) = .ok str rest := by
  obtain ⟨hl, rfl⟩ := Iff.mp writeVarstr31_eq_ok h
  unfold readVarstr31
  rw [List.append_assoc, run_bind_of_ok (readVarint31_run (Iff.mpr writeVarint31_eq_ok ⟨hl, rfl⟩))]
  by_cases h0 : str.length = 0
  · -- Go reads no bytes for an empty string and returns `nil`
    rw [if_pos h0, List.eq_nil_of_length_eq_zero h0]
    rfl
  · rw [if_neg h0, run_bind_of_ok (run_get _), List.length_append, if_neg (by omega),
      List.drop_left, List.take_left]
    rfl

/-- The strings a successful `WriteVarstrList` wrote, one by one. -/
theorem mapM_writeVarstr31_of_eq_ok {l strs : List (List UInt8)}
    (h : l.mapM writeVarstr31 = .ok strs) :
    (∀ s ∈ l, s.length ≤ maxInt32) ∧ strs = l.map fun s => Uvarint.put s.length ++ s := by
  induction l generalizing strs with
  | nil =>
    simp only [List.mapM_nil, pure, Except.pure, Except.ok.injEq] at h
    exact ⟨nofun, h.symm⟩
  | cons s l ih =>
    rw [List.mapM_cons] at h
    cases hs : writeVarstr31 s with
    | error e => simp only [hs, bind, Except.bind, reduceCtorEq] at h
    | ok b =>
      cases hl : l.mapM writeVarstr31 with
      | error e => simp only [hs, hl, bind, Except.bind, reduceCtorEq] at h
      | ok strs' =>
        simp only [hs, hl, bind, Except.bind, pure, Except.pure, Except.ok.injEq] at h
        subst h
        obtain ⟨hlen, rfl⟩ := Iff.mp writeVarstr31_eq_ok hs
        obtain ⟨hall, rfl⟩ := ih hl
        refine ⟨fun x hx => ?_, rfl⟩
        rcases List.mem_cons.mp hx with rfl | hx
        · exact hlen
        · exact hall x hx

/-- The loop reads one string per item of what `WriteVarstrList` wrote. -/
theorem readVarstrLoop_run {l : List (List UInt8)} (hl : ∀ s ∈ l, s.length ≤ maxInt32)
    (result : List (List UInt8)) :
    (readVarstrLoop l.length result).run
      ((l.map fun s => Uvarint.put s.length ++ s).flatten ++ rest) = .ok (result ++ l) rest := by
  induction l generalizing result with
  | nil => simp only [List.length_nil, List.append_nil]; rfl
  | cons s l ih =>
    have hs : writeVarstr31 s = .ok (Uvarint.put s.length ++ s) :=
      Iff.mpr writeVarstr31_eq_ok ⟨hl s List.mem_cons_self, rfl⟩
    rw [List.length_cons, readVarstrLoop, List.map_cons, List.flatten_cons, List.append_assoc]
    refine run_tryCatch_of_ok ?_
    rw [run_bind_of_ok (readVarstr31_run hs),
      ih (fun x hx => hl x (List.mem_cons_of_mem s hx)) (result ++ [s])]
    simp

theorem readVarstrList_run {l : List (List UInt8)} {bs : List UInt8}
    (h : writeVarstrList l = .ok bs) : readVarstrList.run (bs ++ rest) = .ok l rest := by
  unfold writeVarstrList at h
  cases hn : writeVarint31 l.length with
  | error e => simp only [hn, bind, Except.bind, reduceCtorEq] at h
  | ok n =>
    cases hm : l.mapM writeVarstr31 with
    | error e => simp only [hn, hm, bind, Except.bind, reduceCtorEq] at h
    | ok strs =>
      simp only [hn, hm, bind, Except.bind, pure, Except.pure, Except.ok.injEq] at h
      subst h
      obtain ⟨hall, rfl⟩ := mapM_writeVarstr31_of_eq_ok hm
      unfold readVarstrList
      rw [List.append_assoc, run_bind_of_ok (readVarint31_run hn)]
      by_cases h0 : l.length = 0
      · -- an empty list is a zero count and nothing else: Go's `nil`
        rw [if_pos h0, List.eq_nil_of_length_eq_zero h0]
        rfl
      · rw [if_neg h0, readVarstrLoop_run hall]
        rfl

/-- An extensible string reads back as what its inner reader reads of the string, with what
that reader leaves of it as the suffix. -/
theorem readExtensibleString_run {α : Type} {f : Reader α} {a : α} {c suffix left bs : List UInt8}
    (hf : f.run (c ++ suffix) = .ok a left)
    (h : writeExtensibleString suffix (.ok c) = .ok bs) :
    (readExtensibleString f).run (bs ++ rest) = .ok (a, left) rest := by
  unfold readExtensibleString
  rw [run_bind_of_ok (readVarstr31_run h), hf]
  rfl

/-- A loop reads back, one by one, the items of a list that a writer wrote: each as `f` reads it,
which is `g` of it when `P` holds of it. -/
theorem readRepeat_run {α β : Type} {f : Reader α} {write : β → Except CodecError (List UInt8)}
    {P : β → Prop} {g : β → α}
    (hf : ∀ {b : β} {bs rest : List UInt8}, P b → write b = .ok bs →
      f.run (bs ++ rest) = .ok (g b) rest)
    {l : List β} {chunks : List (List UInt8)} (hl : ∀ b ∈ l, P b) (h : l.mapM write = .ok chunks)
    (acc : List α) :
    (readRepeat f l.length acc).run (chunks.flatten ++ rest) = .ok (acc ++ l.map g) rest := by
  induction l generalizing chunks acc with
  | nil =>
    cases Iff.mp Except.pure_eq_ok h
    simp only [List.length_nil, readRepeat, List.map_nil, List.append_nil]
    rfl
  | cons b l ih =>
    simp only [List.mapM_cons, Except.bind_eq_ok, Except.pure_eq_ok] at h
    obtain ⟨c, hc, cs, hcs, rfl⟩ := h
    rw [List.length_cons, readRepeat, List.flatten_cons, List.append_assoc,
      run_bind_of_ok (hf (hl b List.mem_cons_self) hc),
      ih (fun x hx => hl x (List.mem_cons_of_mem b hx)) hcs]
    simp

end RoundTrip

end KuskCore.Blockchain
