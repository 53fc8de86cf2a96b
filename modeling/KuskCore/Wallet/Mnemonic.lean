import KuskCore.BigEndian

/-!
# Mnemonic backups

`NewMnemonic`, `EntropyFromMnemonic` and `MnemonicToByteArray` of `wallet/mnemonic/mnemonic.go`,
the BIP-39 encoding of 16 to 32 bytes of entropy as 12 to 24 words. `NewMnemonic` appends the
first `len/4` bits of the entropy's SHA-256 bit by bit to the entropy as a big integer and cuts
the result into 11-bit word indices from the right. `EntropyFromMnemonic` reads the words back
into a big integer, strips the checksum with a mask from a table by word count, pads the
entropy's bytes again and compares the checksum against a second table of shifts.
`MnemonicToByteArray` computes all its sizes from the word count with a formula of its own and
splits the sentence on single spaces, where the other two use `strings.Fields`.

Go strings are modelled as the runes `strings.Fields` decodes, big integers as natural numbers,
and `Bytes`/`SetBytes` as the minimal big-endian bytes of `BigEndian`. The language-code tables
of `langreg`, the word-list table that `init` installs and SHA-256 are a parameter (`Env`).

The round trip (`mnemonic_roundTrip`) holds for a language whose word list has 2048 distinct
words, none of them empty or holding white space: the entropy comes back from both readers,
leading zero bytes included, and a sentence that `EntropyFromMnemonic` accepts is the one
`NewMnemonic` writes for its entropy, its words joined by single spaces. The seven word lists
that `init` installs meet these conditions; white space matters since `strings.Fields` would read
a word holding a space as two.
-/

namespace KuskCore.Mnemonic

open BigEndian

/-- The errors of the package. -/
inductive MnemonicError where
  /-- `EntropyFromMnemonic`: "Invalid mnemonic", a word count outside 12, 15, 18, 21, 24. -/
  | invalidMnemonic
  /-- `ErrLanguageTypeIncorrect`: "Language Type Incorrect". -/
  | languageTypeIncorrect
  /-- `ErrLanguageTypeUnsupported`: "Language Type Unsupported". -/
  | languageTypeUnsupported
  /-- "word `%v` not found in reverse map". -/
  | wordNotFound (word : List Char)
  /-- "mnemonic's entropy doesn't match its checksum". -/
  | checksumMismatch
  /-- `ErrEntropyLengthInvalid`: "Entropy length must be [128, 256] and a multiple of 32". -/
  | entropyLengthInvalid
  /-- `ErrInvalidMnemonic`: "Invalid menomic", from `MnemonicToByteArray`. -/
  | invalidMenomic
  /-- `ErrChecksumIncorrect`: "Checksum incorrect". -/
  | checksumIncorrect
  /-- A Go panic: a slice index out of range. -/
  | indexOutOfRange
  /-- A Go panic: a method of a nil `*big.Int` from a table lookup that missed. -/
  | nilDereference
  deriving DecidableEq, Repr

/-- What the package reads from outside its own code: the code tables of `langreg`, the word
lists that `init` puts in the package's `wordList` map, and SHA-256. -/
structure Env where
  isValidLangRegCode : String → Bool
  isValidLanguageCode : String → Bool
  wordList : String → Option (List (List Char))
  sha256 : List UInt8 → Vector UInt8 32

/-! ## Strings -/

/-- `unicode.IsSpace`: the Latin-1 white space, then the Unicode `White_Space` property. -/
def isSpace (c : Char) : Bool :=
  let n := c.toNat
  (9 ≤ n && n ≤ 13) || n == 0x20 || n == 0x85 || n == 0xA0 || n == 0x1680 ||
    (0x2000 ≤ n && n ≤ 0x200A) || n == 0x2028 || n == 0x2029 || n == 0x202F || n == 0x205F ||
    n == 0x3000

/-- `strings.Fields`: the runs between white space, without the empty ones. -/
def fields (s : List Char) : List (List Char) :=
  (s.splitOnP isSpace).filter fun w => !w.isEmpty

/-- `strings.Split(s, " ")`. -/
def split (s : List Char) : List (List Char) := s.splitOn ' '

/-- `strings.Join(words, " ")`. -/
def join (words : List (List Char)) : List Char := [' '].intercalate words

/-! ## Bytes -/

/-- `padByteSlice`: zeros put in front of the slice up to `length`, or the slice itself when it
is no shorter. -/
def padByteSlice (slice : List UInt8) (length : Nat) : List UInt8 :=
  if length ≤ slice.length then slice
  else List.replicate (length - slice.length) 0 ++ slice

/-- `binary.BigEndian.PutUint16` into a two-byte array. -/
def putUint16 (v : Nat) : List UInt8 := [UInt8.ofNat (v / 256), UInt8.ofNat v]

/-- `binary.BigEndian.Uint16`, which panics on fewer than two bytes. -/
def uint16 : List UInt8 → Option Nat
  | b0 :: b1 :: _ => some (b0.toNat * 256 + b1.toNat)
  | _ => none

/-- `compareByteSlices`. -/
def compareByteSlices (a b : List UInt8) : Bool :=
  a.length == b.length && (a.zip b).all fun p => p.1 == p.2

/-! ## Languages and word lists -/

section Env

variable (env : Env)

/-- `isLanguageValid`: a two-letter language code or a five-letter language-region code. -/
def isLanguageValid (language : String) : Bool :=
  if language.utf8ByteSize ≠ 2 ∧ language.utf8ByteSize ≠ 5 then false
  else if language.utf8ByteSize = 5 ∧ !env.isValidLangRegCode language then false
  else if language.utf8ByteSize = 2 ∧ !env.isValidLanguageCode language then false
  else true

/-- `SetWordList`. -/
def setWordList (language : String) : Except MnemonicError (List (List Char)) :=
  if !isLanguageValid env language then .error .languageTypeIncorrect
  else match env.wordList language with
    | none => .error .languageTypeUnsupported
    | some words => .ok words

/-- The loop of `SetWordMap`, `wordMap[v] = i` for each word: a later position of a word
overwrites an earlier one. -/
def wordMapLoop : Nat → List (List Char) → (List Char → Option Nat) → List Char → Option Nat
  | _, [], wordMap => wordMap
  | i, v :: words, wordMap => wordMapLoop (i + 1) words fun w => if w = v then some i else wordMap w

/-- The map `SetWordMap` builds from a word list, from the empty map. -/
def reverseMap (words : List (List Char)) : List Char → Option Nat :=
  wordMapLoop 0 words fun _ => none

/-- `SetWordMap`: the checks of `SetWordList`, then the reverse map of the words. -/
def setWordMap (language : String) : Except MnemonicError (List Char → Option Nat) := do
  let words ← setWordList env language
  pure (reverseMap words)

/-! ## Checksums and sizes -/

/-- `wordLengthChecksumMasksMapping`. -/
def wordLengthChecksumMasksMapping : List (Nat × Nat) :=
  [(12, 15), (15, 31), (18, 63), (21, 127), (24, 255)]

/-- `wordLengthChecksumShiftMapping`; 24 words use all eight checksum bits. -/
def wordLengthChecksumShiftMapping : List (Nat × Nat) :=
  [(12, 16), (15, 8), (18, 4), (21, 2)]

/-- `validateEntropyBitSize`. -/
def validateEntropyBitSize (bitSize : Nat) : Except MnemonicError Unit :=
  if bitSize % 32 ≠ 0 ∨ bitSize < 128 ∨ bitSize > 256 then .error .entropyLengthInvalid
  else .ok ()

/-- The test of round `i` of `addChecksum`, `uint8(firstChecksumByte&(1<<(7-i))) > 0`: bit
`7 - i` of the byte, and no bit once the unsigned `7 - i` wraps and the shift clears the byte. -/
def checksumBit (firstChecksumByte : UInt8) (i : Nat) : Bool :=
  i ≤ 7 && firstChecksumByte.toNat.testBit (7 - i)

/-- The loop of `addChecksum` over rounds `i, i + 1, …`, `k` of them left: shift left by one and
set the new low bit to the checksum bit of the round. -/
def addChecksumLoop (firstChecksumByte : UInt8) : Nat → Nat → Nat → Nat
  | 0, _, dataBigInt => dataBigInt
  | k + 1, i, dataBigInt =>
    addChecksumLoop firstChecksumByte k (i + 1)
      (if checksumBit firstChecksumByte i then dataBigInt * 2 ||| 1 else dataBigInt * 2)

/-- `addChecksum`: the first `len(data) / 4` bits of the data's SHA-256 appended to the data as a
big integer, whose minimal bytes come back. -/
def addChecksum (data : List UInt8) : List UInt8 :=
  let firstChecksumByte := (env.sha256 data)[0]
  let checksumBitLength := data.length / 4
  minimal (addChecksumLoop firstChecksumByte checksumBitLength 0 (value data))

/-- `splitMnemonicWords`. -/
def splitMnemonicWords (mnemonic : List Char) : Option (List (List Char)) :=
  let words := fields mnemonic
  if words.length % 3 ≠ 0 ∨ words.length < 12 ∨ words.length > 24 then none else some words

/-! ## The encoder and the two decoders -/

/-- The loop of `NewMnemonic`, from the last word to the first: the low 11 bits of the big
integer name the word, which goes in front of the words after it, and the integer is shifted
right by 11 bits. -/
def newMnemonicLoop (wordList : List (List Char)) :
    Nat → Nat → List (List Char) → Except MnemonicError (List (List Char))
  | 0, _, words => .ok words
  | k + 1, entropyInt, words =>
    let word := entropyInt &&& 2047
    match uint16 (padByteSlice (minimal word) 2) with
    | none => .error .indexOutOfRange
    | some index =>
      match wordList[index]? with
      | none => .error .indexOutOfRange
      | some w => newMnemonicLoop wordList k (entropyInt / 2048) (w :: words)

/-- `NewMnemonic`. -/
def newMnemonic (entropy : List UInt8) (language : String) : Except MnemonicError (List Char) := do
  let wordList ← setWordList env language
  let entropyBitLength := entropy.length * 8
  let checksumBitLength := entropyBitLength / 32
  let sentenceLength := (entropyBitLength + checksumBitLength) / 11
  validateEntropyBitSize entropyBitLength
  let entropy := addChecksum env entropy
  let entropyInt := value entropy
  let words ← newMnemonicLoop wordList sentenceLength entropyInt []
  pure (join words)

/-- The loop of `EntropyFromMnemonic`: each word's index, as two big-endian bytes of its
`uint16`, is or-ed into the big integer shifted left by 11 bits. -/
def entropyFromMnemonicLoop (wordMap : List Char → Option Nat) :
    List (List Char) → Nat → Except MnemonicError Nat
  | [], b => .ok b
  | v :: words, b =>
    match wordMap v with
    | none => .error (.wordNotFound v)
    | some index => entropyFromMnemonicLoop wordMap words (b * 2048 ||| value (putUint16 index))

/-- The checksum `EntropyFromMnemonic` expects for its entropy: the first byte of the SHA-256,
divided by the shift of the word count unless there are 24 words. -/
def entropyChecksum (entropy : List UInt8) (l : Nat) : Except MnemonicError Nat :=
  let entropyChecksumByte := (env.sha256 entropy)[0]
  if l ≠ 24 then
    match wordLengthChecksumShiftMapping.lookup l with
    | none => .error .nilDereference
    | some checksumShift => .ok (entropyChecksumByte.toNat / checksumShift)
  else .ok entropyChecksumByte.toNat

/-- `EntropyFromMnemonic`. -/
def entropyFromMnemonic (mnemonic : List Char) (language : String) :
    Except MnemonicError (List UInt8) := do
  let some mnemonicSlice := splitMnemonicWords mnemonic | .error .invalidMnemonic
  let wordMap ← setWordMap env language
  let b ← entropyFromMnemonicLoop wordMap mnemonicSlice 0
  let some checksumMask := wordLengthChecksumMasksMapping.lookup mnemonicSlice.length
    | .error .nilDereference
  let checksum := b &&& checksumMask
  let b := b / (checksumMask + 1)
  let entropy := padByteSlice (minimal b) (mnemonicSlice.length / 3 * 4)
  let expected ← entropyChecksum env entropy mnemonicSlice.length
  if checksum ≠ expected then .error .checksumMismatch
  else pure entropy

/-- `IsMnemonicValid`. -/
def isMnemonicValid (mnemonic : List Char) (language : String) : Bool :=
  let words := fields mnemonic
  let wordCount := words.length
  if wordCount % 3 ≠ 0 ∨ wordCount < 12 ∨ wordCount > 24 then false
  else match setWordMap env language with
    | .error _ => false
    | .ok wordMap => words.all fun word => (wordMap word).isSome

/-- `MnemonicToByteArray`; `raw` is its variadic flag, empty when the caller gives none. A word
missing from the map counts as index 0, as a Go map read does. -/
def mnemonicToByteArray (mnemonic : List Char) (language : String) (raw : List Bool) :
    Except MnemonicError (List UInt8) := do
  let mnemonicSlice := split mnemonic
  let entropyBitSize := mnemonicSlice.length * 11
  let checksumBitSize := entropyBitSize % 32
  let fullByteSize := (entropyBitSize - checksumBitSize) / 8 + 1
  let checksumByteSize := fullByteSize - fullByteSize % 4
  let wordMap ← setWordMap env language
  if !isMnemonicValid env mnemonic language then throw .invalidMenomic
  let checksummedEntropy :=
    mnemonicSlice.foldl (fun ce v => ce * 2048 + (wordMap v).getD 0) 0
  let checksumModulo := 2 ^ checksumBitSize
  let rawEntropy := checksummedEntropy / checksumModulo
  let rawEntropyBytes := padByteSlice (minimal rawEntropy) checksumByteSize
  let checksummedEntropyBytes := padByteSlice (minimal checksummedEntropy) fullByteSize
  let newChecksummedEntropyBytes := padByteSlice (addChecksum env rawEntropyBytes) fullByteSize
  if !compareByteSlices checksummedEntropyBytes newChecksummedEntropyBytes then
    throw .checksumIncorrect
  match raw with
  | [] => pure checksummedEntropyBytes
  | r :: _ => pure (if r then rawEntropyBytes else checksummedEntropyBytes)

/-! ## Strings: the sentence of a word list -/

/-- `strings.Fields` gives back the words of a sentence joined by spaces when no word is empty
or holds white space. -/
theorem fields_join {ws : List (List Char)} (hws : ∀ w ∈ ws, w ≠ [] ∧ ∀ c ∈ w, isSpace c = false) :
    fields (join ws) = ws := by
  induction ws with
  | nil => rfl
  | cons w ws ih =>
    have hw := hws w List.mem_cons_self
    have hkeep : (!w.isEmpty) = true := by simpa using hw.1
    cases ws with
    | nil =>
      rw [join, List.intercalate_singleton, fields, List.splitOnP_eq_singleton hw.2,
        List.filter_cons, if_pos hkeep, List.filter_nil]
    | cons w' ws =>
      have hjoin : join (w :: w' :: ws) = w ++ ' ' :: join (w' :: ws) := by
        rw [join, List.intercalate_cons_cons, List.append_assoc, List.singleton_append]
        rfl
      rw [hjoin, fields, List.splitOnP_append_cons_of_forall_mem hw.2 ' ' rfl,
        List.filter_cons, if_pos hkeep]
      exact congrArg (w :: ·) (ih fun w'' hw'' => hws w'' (List.mem_cons_of_mem w hw''))

/-- `strings.Split(s, " ")` gives back the words of a sentence joined by spaces. -/
theorem split_join {ws : List (List Char)} (hne : ws ≠ [])
    (hws : ∀ w ∈ ws, ∀ c ∈ w, isSpace c = false) : split (join ws) = ws :=
  List.splitOn_intercalate ' ' (fun w hw hspace => nomatch hws w hw ' ' hspace) hne

/-! ## Bytes -/

theorem padByteSlice_eq_padLeft (slice : List UInt8) (length : Nat) :
    padByteSlice slice length = padLeft slice length := by
  unfold padByteSlice padLeft
  by_cases h : length ≤ slice.length
  · rw [if_pos h, Nat.sub_eq_zero_of_le h, List.replicate_zero, List.nil_append]
  · rw [if_neg h]

theorem value_putUint16 (v : Nat) : value (putUint16 v) = v % 65536 := by
  simp only [putUint16, value, List.map_cons, List.map_nil, ofDigits, List.foldl_cons,
    List.foldl_nil, UInt8.toNat_ofNat', Nat.reducePow]
  omega

/-- The two bytes `NewMnemonic` pads an 11-bit word to read back as the word. -/
theorem uint16_padByteSlice_minimal {w : Nat} (h : w < 65536) :
    uint16 (padByteSlice (minimal w) 2) = some w := by
  rw [padByteSlice_eq_padLeft, padLeft_minimal h]
  obtain ⟨b0, b1, hfixed⟩ : ∃ b0 b1, fixed 2 w = [b0, b1] := by
    match hf : fixed 2 w, length_fixed 2 w with
    | [b0, b1], _ => exact ⟨b0, b1, rfl⟩
  have hvalue := value_fixed 2 w
  rw [hfixed] at hvalue ⊢
  simp only [value, List.map_cons, List.map_nil, ofDigits, List.foldl_cons, List.foldl_nil,
    Nat.zero_mul, Nat.zero_add] at hvalue
  have h' : w < 256 ^ 2 := h
  rw [uint16, hvalue, Nat.mod_eq_of_lt h']

theorem compareByteSlices_self (a : List UInt8) : compareByteSlices a a = true := by
  have hzip : ∀ l : List UInt8, ((l.zip l).all fun p => p.1 == p.2) = true := by
    intro l
    induction l with
    | nil => rfl
    | cons x l ih => simpa using ih
  simp [compareByteSlices, hzip]

/-! ## The reverse map -/

theorem wordMapLoop_of_not_mem {w : List Char} {words : List (List Char)} (h : w ∉ words)
    (i : Nat) (wordMap : List Char → Option Nat) : wordMapLoop i words wordMap w = wordMap w := by
  induction words generalizing i wordMap with
  | nil => rfl
  | cons v words ih =>
    rw [List.mem_cons, not_or] at h
    rw [wordMapLoop, ih h.2]
    exact if_neg h.1

/-- With distinct words, each word maps to its own position. -/
theorem wordMapLoop_getElem {words : List (List Char)} (hnd : words.Nodup) (i : Nat)
    (wordMap : List Char → Option Nat) {j : Nat} (hj : j < words.length) :
    wordMapLoop i words wordMap words[j] = some (i + j) := by
  induction words generalizing i wordMap j with
  | nil => simp at hj
  | cons v words ih =>
    rw [List.nodup_cons] at hnd
    rw [wordMapLoop]
    cases j with
    | zero => rw [List.getElem_cons_zero, wordMapLoop_of_not_mem hnd.1, if_pos rfl, Nat.add_zero]
    | succ j =>
      rw [List.getElem_cons_succ, ih hnd.2 _ _ (by simpa using hj)]
      congr 1
      omega

/-- Whatever a word maps to is a position that holds the word, distinct words or not. -/
theorem wordMapLoop_eq_some {words : List (List Char)} {i : Nat}
    {wordMap : List Char → Option Nat} {w : List Char} {k : Nat}
    (h : wordMapLoop i words wordMap w = some k) :
    (i ≤ k ∧ words[k - i]? = some w) ∨ wordMap w = some k := by
  induction words generalizing i wordMap with
  | nil => exact .inr h
  | cons v words ih =>
    rw [wordMapLoop] at h
    rcases ih h with ⟨hle, hget⟩ | hmap
    · refine .inl ⟨by omega, ?_⟩
      rw [show k - i = k - (i + 1) + 1 by omega, List.getElem?_cons_succ]
      exact hget
    · by_cases hw : w = v
      · rw [if_pos hw] at hmap
        obtain rfl : i = k := Option.some.inj hmap
        exact .inl ⟨Nat.le_refl i, by simp [hw]⟩
      · rw [if_neg hw] at hmap
        exact .inr hmap

theorem reverseMap_getElem {words : List (List Char)} (hnd : words.Nodup) {j : Nat}
    (hj : j < words.length) : reverseMap words words[j] = some j := by
  rw [reverseMap, wordMapLoop_getElem hnd 0 _ hj, Nat.zero_add]

theorem getElem?_of_reverseMap {words : List (List Char)} {w : List Char} {k : Nat}
    (h : reverseMap words w = some k) : words[k]? = some w := by
  rcases wordMapLoop_eq_some h with ⟨-, hget⟩ | hnone
  · rwa [Nat.sub_zero] at hget
  · cases hnone

theorem setWordMap_of_setWordList {language : String} {words : List (List Char)}
    (h : setWordList env language = .ok words) : setWordMap env language = .ok (reverseMap words) := by
  simp only [setWordMap, h]
  rfl

/-! ## Sizes -/

/-- A word count that `splitMnemonicWords` accepts, with the entries the two checksum tables have
for its `S / 3` checksum bits. -/
structure WordCount (S : Nat) : Prop where
  valid : ¬(S % 3 ≠ 0 ∨ S < 12 ∨ S > 24)
  mask : wordLengthChecksumMasksMapping.lookup S = some (2 ^ (S / 3) - 1)
  shift : S ≠ 24 → wordLengthChecksumShiftMapping.lookup S = some (2 ^ (8 - S / 3))

theorem wordCount_of_valid {S : Nat} (h : ¬(S % 3 ≠ 0 ∨ S < 12 ∨ S > 24)) : WordCount S := by
  have hS : S = 12 ∨ S = 15 ∨ S = 18 ∨ S = 21 ∨ S = 24 := by omega
  rcases hS with rfl | rfl | rfl | rfl | rfl <;> exact ⟨h, by decide, by decide⟩

/-- The entropy lengths `NewMnemonic` accepts, in bytes, and their word counts. -/
theorem wordCount_of_length {L : Nat} (h : L ∈ [16, 20, 24, 28, 32]) :
    WordCount (L / 4 * 3) ∧ L / 4 * 3 / 3 * 4 = L ∧ validateEntropyBitSize (L * 8) = .ok () ∧
      (L * 8 + L * 8 / 32) / 11 = L / 4 * 3 := by
  have hL : L = 16 ∨ L = 20 ∨ L = 24 ∨ L = 28 ∨ L = 32 := by simpa using h
  refine ⟨wordCount_of_valid (by omega), by omega, ?_, by omega⟩
  rw [validateEntropyBitSize, if_neg (by omega)]

theorem entropyChecksum_eq {S : Nat} (hS : WordCount S) (entropy : List UInt8) :
    entropyChecksum env entropy S = .ok ((env.sha256 entropy)[0].toNat / 2 ^ (8 - S / 3)) := by
  unfold entropyChecksum
  by_cases h24 : S = 24
  · subst h24
    simp
  · rw [if_pos h24, hS.shift h24]

/-! ## The checksum bits -/

/-- One more bit of a number from the top: the bits above `m` shifted once, and bit `m`. -/
theorem div_two_pow_eq (x m : Nat) : x / 2 ^ m = x / 2 ^ (m + 1) * 2 + (x.testBit m).toNat := by
  have hdiv : x / 2 ^ (m + 1) = x / 2 ^ m / 2 := by
    rw [Nat.pow_succ, Nat.div_div_eq_div_mul]
  rw [hdiv, Nat.testBit_eq_decide_div_mod_eq]
  have hmod := Nat.mod_two_eq_zero_or_one (x / 2 ^ m)
  rcases hmod with h | h <;> simp [h] <;> omega

theorem checksumStep_eq (firstChecksumByte : UInt8) (i d : Nat) :
    (if checksumBit firstChecksumByte i then d * 2 ||| 1 else d * 2) =
      d * 2 + (checksumBit firstChecksumByte i).toNat := by
  cases checksumBit firstChecksumByte i
  · rfl
  · rw [if_pos rfl, Nat.mul_comm, ← Nat.pow_one 2, ← Nat.two_pow_add_eq_or_of_lt (by decide)]
    rfl

/-- After the rounds `i` to `i + k - 1` of `addChecksum` the number holds the data followed by the
top `i + k` bits of the hash byte. -/
theorem addChecksumLoop_eq (firstChecksumByte : UInt8) (n : Nat) :
    ∀ k i, i + k ≤ 8 →
      addChecksumLoop firstChecksumByte k i (n * 2 ^ i + firstChecksumByte.toNat / 2 ^ (8 - i)) =
        n * 2 ^ (i + k) + firstChecksumByte.toNat / 2 ^ (8 - (i + k)) := by
  intro k
  induction k with
  | zero => intro i _; rfl
  | succ k ih =>
    intro i hik
    have hbit : checksumBit firstChecksumByte i = firstChecksumByte.toNat.testBit (7 - i) := by
      simp [checksumBit, show i ≤ 7 by omega]
    have hshift := div_two_pow_eq firstChecksumByte.toNat (7 - i)
    rw [show 7 - i + 1 = 8 - i by omega] at hshift
    have hstep : (n * 2 ^ i + firstChecksumByte.toNat / 2 ^ (8 - i)) * 2 +
        (checksumBit firstChecksumByte i).toNat =
          n * 2 ^ (i + 1) + firstChecksumByte.toNat / 2 ^ (8 - (i + 1)) := by
      rw [hbit, show 8 - (i + 1) = 7 - i by omega, hshift, Nat.pow_succ]
      ring
    rw [addChecksumLoop, checksumStep_eq, hstep, ih (i + 1) (by omega),
      show i + 1 + k = i + (k + 1) by omega]

/-- The entropy with its checksum bits appended, as the number `NewMnemonic` cuts into words:
the top `len / 4` bits of the first byte of its SHA-256 below the entropy's bits. -/
def checksummed (entropy : List UInt8) : Nat :=
  value entropy * 2 ^ (entropy.length / 4) +
    (env.sha256 entropy)[0].toNat / 2 ^ (8 - entropy.length / 4)

theorem addChecksum_eq {data : List UInt8} (h : data.length / 4 ≤ 8) :
    addChecksum env data = minimal (checksummed env data) := by
  have hstart : value data * 2 ^ 0 + (env.sha256 data)[0].toNat / 2 ^ (8 - 0) = value data := by
    have hbyte := (env.sha256 data)[0].toNat_lt
    rw [Nat.pow_zero, Nat.mul_one, Nat.div_eq_of_lt hbyte, Nat.add_zero]
  have hloop := addChecksumLoop_eq (env.sha256 data)[0] (value data) (data.length / 4) 0
    (by omega)
  rw [hstart, Nat.zero_add] at hloop
  rw [addChecksum, hloop, checksummed]

/-! ## The encoder -/

/-- The loop of `NewMnemonic` writes the last `k` base-2048 digits of the number as words. -/
theorem newMnemonicLoop_eq {wordList : List (List Char)} (hlen : wordList.length = 2048)
    (k n : Nat) (words : List (List Char)) :
    newMnemonicLoop wordList k n words =
      .ok ((toDigits 2048 k n).map (wordList.getD · []) ++ words) := by
  induction k generalizing n words with
  | zero => rfl
  | succ k ih =>
    have hword : n &&& 2047 = n % 2048 := Nat.and_two_pow_sub_one_eq_mod n 11
    have hlt : n % 2048 < wordList.length := by rw [hlen]; exact Nat.mod_lt n (by decide)
    rw [newMnemonicLoop, hword, uint16_padByteSlice_minimal (by omega)]
    simp only [List.getElem?_eq_getElem hlt]
    rw [ih, toDigits, List.map_append, List.map_singleton, List.append_assoc,
      List.singleton_append, List.getD_eq_getElem?_getD, List.getElem?_eq_getElem hlt,
      Option.getD_some]

theorem newMnemonic_eq {language : String} {wordList : List (List Char)}
    (hwl : setWordList env language = .ok wordList) (hlen : wordList.length = 2048)
    {entropy : List UInt8} (hL : entropy.length ∈ [16, 20, 24, 28, 32]) :
    newMnemonic env entropy language =
      .ok (join ((toDigits 2048 (entropy.length / 4 * 3) (checksummed env entropy)).map
        (wordList.getD · []))) := by
  obtain ⟨-, -, hvalid, hsentence⟩ := wordCount_of_length hL
  have hcs : entropy.length / 4 ≤ 8 := by simp at hL; omega
  simp only [newMnemonic, hwl, hvalid, hsentence, addChecksum_eq env hcs, value_minimal,
    newMnemonicLoop_eq hlen, List.append_nil, bind, Except.bind, pure, Except.pure]

/-! ## The decoders -/

/-- The number a sentence's words spell in base 2048, each word read through the reverse map. -/
def sentenceValue (wordList words : List (List Char)) : Nat :=
  ofDigits 2048 (words.map fun v => (reverseMap wordList v).getD 0)

theorem reverseMap_lt {wordList : List (List Char)} (hlen : wordList.length = 2048)
    {v : List Char} {i : Nat} (h : reverseMap wordList v = some i) : i < 2048 := by
  have hget := getElem?_of_reverseMap h
  rw [← hlen]
  exact (List.getElem?_eq_some_iff.mp hget).1

theorem found_of_entropyFromMnemonicLoop {wordMap : List Char → Option Nat} :
    ∀ {words : List (List Char)} {b b' : Nat},
      entropyFromMnemonicLoop wordMap words b = .ok b' → ∀ v ∈ words, (wordMap v).isSome
  | [], _, _, _ => by simp
  | v :: words, b, b', h => by
    unfold entropyFromMnemonicLoop at h
    cases hv : wordMap v with
    | none => rw [hv] at h; cases h
    | some index =>
      rw [hv] at h
      intro w hw
      rcases List.mem_cons.mp hw with rfl | hw
      · rw [hv]; rfl
      · exact found_of_entropyFromMnemonicLoop h w hw

/-- The loop of `EntropyFromMnemonic` over found words of index below 2048 computes their
base-2048 number: the or of the shifted number with the index is a sum. -/
theorem entropyFromMnemonicLoop_eq {wordMap : List Char → Option Nat}
    (hmap : ∀ v i, wordMap v = some i → i < 2048) {words : List (List Char)}
    (hfound : ∀ v ∈ words, (wordMap v).isSome) (b : Nat) :
    entropyFromMnemonicLoop wordMap words b =
      .ok ((words.map fun v => (wordMap v).getD 0).foldl (fun n d => n * 2048 + d) b) := by
  induction words generalizing b with
  | nil => rfl
  | cons v words ih =>
    obtain ⟨i, hi⟩ := Option.isSome_iff_exists.mp (hfound v List.mem_cons_self)
    have hlt := hmap v i hi
    have hor : b * 2048 ||| value (putUint16 i) = b * 2048 + i := by
      rw [value_putUint16, Nat.mod_eq_of_lt (by omega), Nat.mul_comm,
        show 2048 = 2 ^ 11 by rfl, Nat.two_pow_add_eq_or_of_lt hlt]
    rw [entropyFromMnemonicLoop, hi]
    simp only
    rw [hor, ih fun w hw => hfound w (List.mem_cons_of_mem v hw), List.map_cons, List.foldl_cons,
      hi, Option.getD_some]

/-- What `EntropyFromMnemonic` returns for a sentence of found words: the entropy cut from the
sentence's number by the word count, if the checksum bits match. -/
theorem entropyFromMnemonic_eq {language : String} {wordList : List (List Char)}
    (hwl : setWordList env language = .ok wordList) (hlen : wordList.length = 2048)
    {mnemonic : List Char} (hS : WordCount (fields mnemonic).length)
    (hfound : ∀ v ∈ fields mnemonic, (reverseMap wordList v).isSome) :
    entropyFromMnemonic env mnemonic language =
      let S := (fields mnemonic).length
      let b := sentenceValue wordList (fields mnemonic)
      let entropy := padByteSlice (minimal (b / 2 ^ (S / 3))) (S / 3 * 4)
      if b % 2 ^ (S / 3) = (env.sha256 entropy)[0].toNat / 2 ^ (8 - S / 3) then .ok entropy
      else .error .checksumMismatch := by
  have hsplit : splitMnemonicWords mnemonic = some (fields mnemonic) := by
    rw [splitMnemonicWords, if_neg hS.valid]
  have hloop := entropyFromMnemonicLoop_eq (fun _ _ h => reverseMap_lt hlen h) hfound 0
  have hmask : ∀ b, b &&& 2 ^ ((fields mnemonic).length / 3) - 1 =
      b % 2 ^ ((fields mnemonic).length / 3) := fun b => Nat.and_two_pow_sub_one_eq_mod _ _
  have hdiv : 2 ^ ((fields mnemonic).length / 3) - 1 + 1 = 2 ^ ((fields mnemonic).length / 3) :=
    Nat.sub_add_cancel (Nat.one_le_two_pow)
  simp only [entropyFromMnemonic, hsplit, setWordMap_of_setWordList env hwl, hloop, hS.mask,
    hmask, hdiv, entropyChecksum_eq env hS, ne_eq, ite_not, bind, Except.bind, pure, Except.pure]
  rfl

/-- What `MnemonicToByteArray` returns, asked for the raw entropy, for a sentence of found words
that single spaces separate. -/
theorem mnemonicToByteArray_eq {language : String} {wordList : List (List Char)}
    (hwl : setWordList env language = .ok wordList) {mnemonic : List Char} (hspaces : split mnemonic = fields mnemonic)
    (hS : WordCount (fields mnemonic).length)
    (hfound : ∀ v ∈ fields mnemonic, (reverseMap wordList v).isSome) :
    mnemonicToByteArray env mnemonic language [true] =
      let S := (fields mnemonic).length
      let b := sentenceValue wordList (fields mnemonic)
      let rawEntropyBytes := padByteSlice (minimal (b / 2 ^ (S / 3))) (S / 3 * 4)
      if compareByteSlices (padByteSlice (minimal b) (S / 3 * 4 + 1))
          (padByteSlice (addChecksum env rawEntropyBytes) (S / 3 * 4 + 1)) then .ok rawEntropyBytes
      else .error .checksumIncorrect := by
  have hvalid : isMnemonicValid env mnemonic language = true := by
    rw [isMnemonicValid, if_neg hS.valid, setWordMap_of_setWordList env hwl]
    exact List.all_eq_true.mpr hfound
  have hS' := hS.valid
  have hcs : (fields mnemonic).length * 11 % 32 = (fields mnemonic).length / 3 := by omega
  have hfull : ((fields mnemonic).length * 11 - (fields mnemonic).length / 3) / 8 + 1 =
      (fields mnemonic).length / 3 * 4 + 1 := by omega
  have hbytes : (fields mnemonic).length / 3 * 4 + 1 - ((fields mnemonic).length / 3 * 4 + 1) % 4 =
      (fields mnemonic).length / 3 * 4 := by omega
  have hfold : ∀ wordMap : List Char → Option Nat, (fields mnemonic).foldl
      (fun ce v => ce * 2048 + (wordMap v).getD 0) 0 =
        ofDigits 2048 ((fields mnemonic).map fun v => (wordMap v).getD 0) := by
    intro wordMap
    rw [ofDigits, List.foldl_map]
  simp only [mnemonicToByteArray, hspaces, hcs, hfull, hbytes, setWordMap_of_setWordList env hwl,
    hvalid, hfold, sentenceValue, Bool.not_true, Bool.false_eq_true, if_false, if_true,
    Bool.not_eq_true', bind, Except.bind, pure, Except.pure]
  split
  · next hc =>
    simp only [hc, Bool.false_eq_true, if_false]
    rfl
  · next hc =>
    simp only [Bool.not_eq_false] at hc
    simp only [hc, if_true]

/-- What a successful `EntropyFromMnemonic` has seen: a word count it accepts, every word in the
reverse map, and an entropy cut from the sentence's number whose checksum bits match. -/
theorem entropyFromMnemonic_ok {language : String} {wordList : List (List Char)}
    (hwl : setWordList env language = .ok wordList) (hlen : wordList.length = 2048)
    {mnemonic : List Char} {entropy : List UInt8}
    (h : entropyFromMnemonic env mnemonic language = .ok entropy) :
    WordCount (fields mnemonic).length ∧
      (∀ v ∈ fields mnemonic, (reverseMap wordList v).isSome) ∧
      entropy = padByteSlice (minimal (sentenceValue wordList (fields mnemonic) /
        2 ^ ((fields mnemonic).length / 3))) ((fields mnemonic).length / 3 * 4) ∧
      sentenceValue wordList (fields mnemonic) % 2 ^ ((fields mnemonic).length / 3) =
        (env.sha256 entropy)[0].toNat / 2 ^ (8 - (fields mnemonic).length / 3) := by
  have hvalid : ¬((fields mnemonic).length % 3 ≠ 0 ∨ (fields mnemonic).length < 12 ∨
      (fields mnemonic).length > 24) := by
    intro hc
    have hsplit : splitMnemonicWords mnemonic = none := by rw [splitMnemonicWords, if_pos hc]
    simp only [entropyFromMnemonic, hsplit] at h
    cases h
  have hS := wordCount_of_valid hvalid
  have hfound : ∀ v ∈ fields mnemonic, (reverseMap wordList v).isSome := by
    have hsplit : splitMnemonicWords mnemonic = some (fields mnemonic) := by
      rw [splitMnemonicWords, if_neg hvalid]
    simp only [entropyFromMnemonic, hsplit, setWordMap_of_setWordList env hwl, bind,
      Except.bind] at h
    cases hloop : entropyFromMnemonicLoop (reverseMap wordList) (fields mnemonic) 0 with
    | error err => rw [hloop] at h; cases h
    | ok b => exact found_of_entropyFromMnemonicLoop hloop
  rw [entropyFromMnemonic_eq env hwl hlen hS hfound] at h
  dsimp only at h
  split at h
  · next hchk =>
    cases h
    exact ⟨hS, hfound, rfl, hchk⟩
  · cases h

/-! ## Sizes of the numbers -/

/-- The bits of a word count: `S` words of 11 bits hold `S / 3 * 4` bytes and `S / 3` bits. -/
theorem pow_wordCount {S : Nat} (h : S % 3 = 0) : 2048 ^ S = 256 ^ (S / 3 * 4) * 2 ^ (S / 3) := by
  rw [show 2048 = 2 ^ 11 by rfl, show 256 = 2 ^ 8 by rfl, ← Nat.pow_mul, ← Nat.pow_mul,
    ← Nat.pow_add]
  congr 1
  omega

theorem checksumBits_lt {c : Nat} (hc : c ≤ 8) (x : UInt8) : x.toNat / 2 ^ (8 - c) < 2 ^ c := by
  rw [Nat.div_lt_iff_lt_mul (Nat.two_pow_pos _), ← Nat.pow_add, show c + (8 - c) = 8 by omega]
  exact x.toNat_lt

theorem checksummed_div {entropy : List UInt8} (hcs : entropy.length / 4 ≤ 8) :
    checksummed env entropy / 2 ^ (entropy.length / 4) = value entropy := by
  have hlow := checksumBits_lt hcs (env.sha256 entropy)[0]
  rw [checksummed, Nat.add_comm, Nat.add_mul_div_right _ _ (Nat.two_pow_pos _),
    Nat.div_eq_of_lt hlow, Nat.zero_add]

theorem checksummed_mod {entropy : List UInt8} (hcs : entropy.length / 4 ≤ 8) :
    checksummed env entropy % 2 ^ (entropy.length / 4) =
      (env.sha256 entropy)[0].toNat / 2 ^ (8 - entropy.length / 4) := by
  have hlow := checksumBits_lt hcs (env.sha256 entropy)[0]
  rw [checksummed, Nat.add_comm, Nat.add_mul_mod_self_right, Nat.mod_eq_of_lt hlow]

theorem checksummed_lt {entropy : List UInt8} (hL : entropy.length ∈ [16, 20, 24, 28, 32]) :
    checksummed env entropy < 2048 ^ (entropy.length / 4 * 3) := by
  have hL' : entropy.length = 16 ∨ entropy.length = 20 ∨ entropy.length = 24 ∨
      entropy.length = 28 ∨ entropy.length = 32 := by simpa using hL
  have hlow := checksumBits_lt (show entropy.length / 4 ≤ 8 by omega) (env.sha256 entropy)[0]
  have hhigh := value_lt entropy
  have hpow := pow_wordCount (show entropy.length / 4 * 3 % 3 = 0 by omega)
  rw [show entropy.length / 4 * 3 / 3 = entropy.length / 4 by omega,
    show entropy.length / 4 * 4 = entropy.length by omega] at hpow
  rw [hpow, checksummed]
  calc value entropy * 2 ^ (entropy.length / 4) +
        (env.sha256 entropy)[0].toNat / 2 ^ (8 - entropy.length / 4)
      < value entropy * 2 ^ (entropy.length / 4) + 2 ^ (entropy.length / 4) := by omega
    _ = (value entropy + 1) * 2 ^ (entropy.length / 4) := by rw [Nat.add_mul, Nat.one_mul]
    _ ≤ 256 ^ entropy.length * 2 ^ (entropy.length / 4) := Nat.mul_le_mul_right _ hhigh

/-! ## Words and their indices -/

/-- Reading found words through the reverse map and back through the list gives the words. -/
theorem getD_reverseMap {wordList words : List (List Char)}
    (hfound : ∀ v ∈ words, (reverseMap wordList v).isSome) :
    (words.map fun v => (reverseMap wordList v).getD 0).map (wordList.getD · []) = words := by
  rw [List.map_map]
  conv => rhs; rw [← List.map_id words]
  apply List.map_congr_left
  intro v hv
  obtain ⟨i, hi⟩ := Option.isSome_iff_exists.mp (hfound v hv)
  simp only [Function.comp_apply, hi, Option.getD_some, id, List.getD_eq_getElem?_getD,
    getElem?_of_reverseMap hi]

/-- With distinct words, indices into the list come back through the reverse map. -/
theorem reverseMap_getD {wordList : List (List Char)} (hnd : wordList.Nodup) {ids : List Nat}
    (hids : ∀ i ∈ ids, i < wordList.length) :
    (ids.map (wordList.getD · [])).map (fun v => (reverseMap wordList v).getD 0) = ids := by
  rw [List.map_map]
  conv => rhs; rw [← List.map_id ids]
  apply List.map_congr_left
  intro i hi
  simp only [Function.comp_apply, id, List.getD_eq_getElem?_getD,
    List.getElem?_eq_getElem (hids i hi), Option.getD_some, reverseMap_getElem hnd (hids i hi)]

/-! ## The round trip -/

/-- Mnemonic backups round-trip. For a language whose word list has 2048 words: when the words
are distinct and none is empty or holds white space, the sentence `NewMnemonic` writes for 16 to
32 bytes of entropy gives the entropy back, leading zero bytes included, from
`EntropyFromMnemonic` and from `MnemonicToByteArray` asked for the raw entropy; and a sentence
that `EntropyFromMnemonic` reads as some entropy is what `NewMnemonic` writes for it, the
sentence's words joined by single spaces. -/
theorem mnemonic_roundTrip (language : String) (wordList : List (List Char))
    (hwl : setWordList env language = .ok wordList) (hlen : wordList.length = 2048) :
    (wordList.Nodup → (∀ w ∈ wordList, w ≠ [] ∧ ∀ c ∈ w, isSpace c = false) →
      ∀ entropy : List UInt8, entropy.length ∈ [16, 20, 24, 28, 32] →
        ∃ mnemonic, newMnemonic env entropy language = .ok mnemonic ∧
          entropyFromMnemonic env mnemonic language = .ok entropy ∧
          mnemonicToByteArray env mnemonic language [true] = .ok entropy) ∧
    ∀ mnemonic entropy, entropyFromMnemonic env mnemonic language = .ok entropy →
      newMnemonic env entropy language = .ok (join (fields mnemonic)) := by
  refine ⟨fun hnd hwf entropy hL => ?_, fun mnemonic entropy h => ?_⟩
  · -- the sentence holds the checksummed number's base-2048 digits as words
    obtain ⟨hS, hL4, -, -⟩ := wordCount_of_length hL
    have hL' : entropy.length = 16 ∨ entropy.length = 20 ∨ entropy.length = 24 ∨
        entropy.length = 28 ∨ entropy.length = 32 := by simpa using hL
    have hcs : entropy.length / 4 * 3 / 3 = entropy.length / 4 := by omega
    have hcs8 : entropy.length / 4 ≤ 8 := by omega
    have hL44 : entropy.length / 4 * 4 = entropy.length := by omega
    obtain ⟨ids, hids⟩ : ∃ ids,
        toDigits 2048 (entropy.length / 4 * 3) (checksummed env entropy) = ids := ⟨_, rfl⟩
    have hidsLen : ids.length = entropy.length / 4 * 3 := by rw [← hids, length_toDigits]
    have hidsLt : ∀ i ∈ ids, i < wordList.length := fun i hi =>
      hlen ▸ lt_of_mem_toDigits (by decide) (hids ▸ hi)
    have hidsValue : ofDigits 2048 ids = checksummed env entropy := by
      rw [← hids, ofDigits_toDigits, Nat.mod_eq_of_lt (checksummed_lt env hL)]
    obtain ⟨words, hwords⟩ : ∃ words, ids.map (wordList.getD · []) = words := ⟨_, rfl⟩
    have hmem : ∀ w ∈ words, w ∈ wordList := by
      intro w hw
      obtain ⟨i, hi, rfl⟩ := List.mem_map.mp (hwords ▸ hw)
      rw [List.getD_eq_getElem?_getD, List.getElem?_eq_getElem (hidsLt i hi), Option.getD_some]
      exact List.getElem_mem _
    have hfields : fields (join words) = words := fields_join fun w hw => hwf w (hmem w hw)
    have hcount : (fields (join words)).length = entropy.length / 4 * 3 := by
      rw [hfields, ← hwords, List.length_map, hidsLen]
    have hfound : ∀ v ∈ fields (join words), (reverseMap wordList v).isSome := by
      rw [hfields, ← hwords]
      intro v hv
      obtain ⟨i, hi, rfl⟩ := List.mem_map.mp hv
      rw [List.getD_eq_getElem?_getD, List.getElem?_eq_getElem (hidsLt i hi), Option.getD_some,
        reverseMap_getElem hnd (hidsLt i hi)]
      rfl
    -- the decoders read the checksummed number back, and cut the entropy from it
    have hvalue : sentenceValue wordList (fields (join words)) = checksummed env entropy := by
      rw [sentenceValue, hfields, ← hwords, reverseMap_getD hnd hidsLt, hidsValue]
    have hentropy : padByteSlice (minimal (checksummed env entropy / 2 ^ (entropy.length / 4)))
        entropy.length = entropy := by
      rw [checksummed_div env hcs8, padByteSlice_eq_padLeft, padLeft_minimal_value]
    have hS' : WordCount (fields (join words)).length := by rw [hcount]; exact hS
    refine ⟨join words, by rw [newMnemonic_eq env hwl hlen hL, hids, hwords], ?_, ?_⟩
    · rw [entropyFromMnemonic_eq env hwl hlen hS' hfound]
      simp only [hvalue, hcount, hcs, hL44, hentropy, checksummed_mod env hcs8, if_true]
    · have hne : words ≠ [] :=
        List.ne_nil_of_length_pos (by rw [← hwords, List.length_map, hidsLen]; omega)
      have hspaces : split (join words) = fields (join words) := by
        rw [hfields]
        exact split_join hne fun w hw => (hwf w (hmem w hw)).2
      rw [mnemonicToByteArray_eq env hwl hspaces hS' hfound]
      simp only [hvalue, hcount, hcs, hL44, hentropy, addChecksum_eq env hcs8,
        compareByteSlices_self, if_true]
  · -- the entropy's checksummed number is the sentence's number, whose digits are its words
    obtain ⟨hS, hfound, hentropy, hchk⟩ := entropyFromMnemonic_ok env hwl hlen h
    have hvalid := hS.valid
    have hidsLt : ∀ i ∈ (fields mnemonic).map (fun v => (reverseMap wordList v).getD 0),
        i < 2048 := by
      intro i hi
      obtain ⟨v, hv, rfl⟩ := List.mem_map.mp hi
      obtain ⟨k, hk⟩ := Option.isSome_iff_exists.mp (hfound v hv)
      rw [hk, Option.getD_some]
      exact reverseMap_lt hlen hk
    have hdigits := toDigits_ofDigits hidsLt
    rw [List.length_map] at hdigits
    have hlt : sentenceValue wordList (fields mnemonic) < 2048 ^ (fields mnemonic).length := by
      have hbound := ofDigits_lt hidsLt
      rwa [List.length_map] at hbound
    rw [pow_wordCount (by omega)] at hlt
    have hcut : sentenceValue wordList (fields mnemonic) / 2 ^ ((fields mnemonic).length / 3) <
        256 ^ ((fields mnemonic).length / 3 * 4) :=
      (Nat.div_lt_iff_lt_mul (Nat.two_pow_pos _)).mpr hlt
    have hlenE : entropy.length = (fields mnemonic).length / 3 * 4 := by
      rw [hentropy, padByteSlice_eq_padLeft, length_padLeft (length_minimal_le hcut)]
    have hvalueE : value entropy =
        sentenceValue wordList (fields mnemonic) / 2 ^ ((fields mnemonic).length / 3) := by
      rw [hentropy, padByteSlice_eq_padLeft, value_padLeft, value_minimal]
    have hL : entropy.length ∈ [16, 20, 24, 28, 32] := by
      rw [hlenE]
      simp only [List.mem_cons, List.not_mem_nil, or_false]
      omega
    have hcs : entropy.length / 4 = (fields mnemonic).length / 3 := by omega
    have hcount : entropy.length / 4 * 3 = (fields mnemonic).length := by omega
    have hchecksummed : checksummed env entropy = sentenceValue wordList (fields mnemonic) := by
      rw [checksummed, hcs, hvalueE, ← hchk, Nat.div_add_mod']
    rw [newMnemonic_eq env hwl hlen hL, hchecksummed, hcount, sentenceValue, hdigits,
      getD_reverseMap hfound]

end Env

/-- A word list for the sample: 2048 distinct runs of the letter a. -/
def sampleWords : List (List Char) := (List.range 2048).map fun i => List.replicate (i + 1) 'a'

/-- A package with the one language "en", whose words are `sampleWords`, and a constant hash. -/
def sampleEnv : Env where
  isValidLangRegCode _ := false
  isValidLanguageCode language := language == "en"
  wordList language := if language = "en" then some sampleWords else none
  sha256 _ := Vector.replicate 32 0

theorem mnemonic_roundTrip_sample :
    setWordList sampleEnv "en" = .ok sampleWords ∧ sampleWords.length = 2048 ∧
      sampleWords.Nodup ∧ (∀ w ∈ sampleWords, w ≠ [] ∧ ∀ c ∈ w, isSpace c = false) ∧
      ((sampleWords.Nodup → (∀ w ∈ sampleWords, w ≠ [] ∧ ∀ c ∈ w, isSpace c = false) →
        ∀ entropy : List UInt8, entropy.length ∈ [16, 20, 24, 28, 32] →
          ∃ mnemonic, newMnemonic sampleEnv entropy "en" = .ok mnemonic ∧
            entropyFromMnemonic sampleEnv mnemonic "en" = .ok entropy ∧
            mnemonicToByteArray sampleEnv mnemonic "en" [true] = .ok entropy) ∧
      ∀ mnemonic entropy, entropyFromMnemonic sampleEnv mnemonic "en" = .ok entropy →
        newMnemonic sampleEnv entropy "en" = .ok (join (fields mnemonic))) := by
  have hwl : setWordList sampleEnv "en" = .ok sampleWords := rfl
  have hlen : sampleWords.length = 2048 := by simp [sampleWords]
  have hnd : sampleWords.Nodup := by
    apply List.Nodup.map _ List.nodup_range
    intro i j h
    simpa using congrArg List.length h
  have hwf : ∀ w ∈ sampleWords, w ≠ [] ∧ ∀ c ∈ w, isSpace c = false := by
    intro w hw
    obtain ⟨i, -, rfl⟩ := List.mem_map.mp hw
    refine ⟨by simp, fun c hc => ?_⟩
    rw [List.eq_of_mem_replicate hc]
    rfl
  exact ⟨hwl, hlen, hnd, hwf, mnemonic_roundTrip sampleEnv "en" sampleWords hwl hlen⟩

end KuskCore.Mnemonic
