import Mathlib.Data.Nat.Bitwise
import PdfStore.Codec.Zlib
import PdfStore.Proofs.Reading

/-!
# The codecs undo themselves

Both codecs that every store knows decode what they encode (`Registry.standard_reversible`). For hexadecimal text
this is a matter of pairs of digits; for the compressed container the reader of bits is followed through the
blocks of stored bytes that the writer makes.
-/

namespace PdfStore

/-! ## Hexadecimal text -/

namespace AsciiHex

theorem isBlank_hexDigit {n : Nat} (h : n < 16) : Bytes.isBlank (Bytes.hexDigit n) = false := by
  revert n
  decide

theorem mem_hexPairs {b : UInt8} {data : Bytes} (h : b ∈ data.flatMap Bytes.hexPair) : ∃ n < 16, b = Bytes.hexDigit n := by
  obtain ⟨x, -, hb⟩ := List.mem_flatMap.1 h
  have hx := x.toNat_lt
  simp only [Bytes.hexPair, List.mem_cons, List.not_mem_nil, or_false] at hb
  rcases hb with rfl | rfl
  · exact ⟨_, by omega, rfl⟩
  · exact ⟨_, by omega, rfl⟩

/-- All that is written before the end counts as a digit. -/
theorem digits_encode (data : Bytes) : digits (encode data) = data.flatMap Bytes.hexPair := by
  rw [digits, encode, List.takeWhile_append_of_pos]
  · rw [List.takeWhile_cons_of_neg (by decide), List.append_nil, List.filter_eq_self]
    intro b hb
    obtain ⟨n, hn, rfl⟩ := mem_hexPairs hb
    rw [isBlank_hexDigit hn]
    rfl
  · intro b hb
    obtain ⟨n, hn, rfl⟩ := mem_hexPairs hb
    exact decide_eq_true (Form.hexDigit_ne_close hn)

theorem pairs_hexPairs (position : Nat) (data : Bytes) : pairs position (data.flatMap Bytes.hexPair) = .ok data := by
  induction data generalizing position with
  | nil => rfl
  | cons b data ih =>
      have hb := b.toNat_lt
      have hbyte : UInt8.ofNat (16 * (b.toNat / 16) + b.toNat % 16) = b := by
        rw [Nat.div_add_mod, UInt8.ofNat_toNat]
      rw [List.flatMap_cons, Bytes.hexPair, List.cons_append, List.cons_append, List.nil_append, pairs,
        Form.hexValue?_hexDigit (by omega), Form.hexValue?_hexDigit (by omega)]
      simp only [ih, hbyte]
      rfl

theorem codec_reversible : codec.Reversible := fun data =>
  ⟨encode data, rfl, by
    change pairs 0 (digits (encode data)) = .ok data
    rw [digits_encode, pairs_hexPairs]⟩

end AsciiHex

/-! ## Bits -/

namespace Inflate

theorem bind_of_ok {α β : Type} {x : Reader α} {f : α → Reader β} {a : α} {bits rest : Bits}
    (h : x bits = .ok (a, rest)) : (x >>= f) bits = f a rest := by
  change (x bits >>= fun p => f p.1 p.2) = f a rest
  rw [h]
  rfl

theorem pure_apply {α : Type} (a : α) (bits : Bits) : (pure a : Reader α) bits = .ok (a, bits) := rfl

/-- The number that bits make, the least significant first. -/
def value : Bits → Nat
  | [] => 0
  | b :: bits => 2 * value bits + b.toNat

theorem value_append (l r : Bits) : value (l ++ r) = value l + Nat.pow 2 l.length * value r := by
  induction l with
  | nil => simp [value]
  | cons b l ih =>
      have hpow : Nat.pow 2 (l.length + 1) * value r = 2 * (Nat.pow 2 l.length * value r) := by
        rw [← Nat.mul_assoc]
        exact congrArg (· * value r) (Nat.mul_comm _ _)
      rw [List.cons_append, value, value, ih, List.length_cons, hpow]
      omega

theorem readNat_append (bits rest : Bits) : readNat bits.length (bits ++ rest) = .ok (value bits, rest) := by
  induction bits with
  | nil => rfl
  | cons b bits ih =>
      rw [List.length_cons, readNat, List.cons_append, bind_of_ok (rfl : readBit (b :: (bits ++ rest)) = _),
        bind_of_ok ih]
      rfl

/-- The bits of a number, of which the first `n` are taken. -/
theorem value_testBit (n k : Nat) : value ((List.range n).map fun i => k.testBit i) = k % Nat.pow 2 n := by
  induction n generalizing k with
  | zero => simp [value, Nat.mod_one]
  | succ n ih =>
      have hhigh : ((List.range n).map Nat.succ).map (fun i => k.testBit i) = (List.range n).map fun i => (k / 2).testBit i := by
        rw [List.map_map]
        exact List.map_congr_left fun i _ => Nat.testBit_succ k i
      have hpow : Nat.pow 2 (n + 1) = 2 * Nat.pow 2 n := Nat.mul_comm _ _
      rw [List.range_succ_eq_map, List.map_cons, value, hhigh, ih, hpow, Nat.mod_mul]
      have hlow : (k.testBit 0).toNat = k % 2 := by
        rw [Nat.testBit_zero]
        rcases Nat.mod_two_eq_zero_or_one k with h | h <;> simp [h]
      omega

theorem bitsOf_append (l r : Bytes) : bitsOf (l ++ r) = bitsOf l ++ bitsOf r := List.flatMap_append

theorem length_bitsOf (data : Bytes) : (bitsOf data).length = 8 * data.length := by
  induction data with
  | nil => rfl
  | cons b data ih =>
      rw [bitsOf, List.flatMap_cons, List.length_append, List.length_map, List.length_range, ← bitsOf, ih,
        List.length_cons]
      omega

theorem value_byte (b : UInt8) : value (bitsOf [b]) = b.toNat := by
  rw [bitsOf, List.flatMap_singleton, value_testBit]
  exact Nat.mod_eq_of_lt b.toNat_lt

theorem value_bytes (b : UInt8) (data : Bytes) : value (bitsOf (b :: data)) = b.toNat + 256 * value (bitsOf data) := by
  have happend : bitsOf (b :: data) = bitsOf [b] ++ bitsOf data := bitsOf_append [b] data
  rw [happend, value_append, value_byte, length_bitsOf]
  rfl

/-- Bytes that make a number, the lower first. -/
theorem readNat_bytes (data rest : Bytes) :
    readNat (8 * data.length) (bitsOf (data ++ rest)) = .ok (value (bitsOf data), bitsOf rest) := by
  rw [bitsOf_append, ← length_bitsOf]
  exact readNat_append _ _

theorem readBytes_append (data rest : Bytes) (out : Array UInt8) :
    readBytes data.length out (bitsOf (data ++ rest)) = .ok (out ++ data.toArray, bitsOf rest) := by
  induction data generalizing out with
  | nil =>
      rw [List.nil_append, List.length_nil, readBytes]
      simp [pure_apply]
  | cons b data ih =>
      have hbyte : readNat 8 (bitsOf (b :: (data ++ rest))) = .ok (b.toNat, bitsOf (data ++ rest)) :=
        value_byte b ▸ readNat_bytes [b] (data ++ rest)
      rw [List.length_cons, readBytes, List.cons_append, bind_of_ok hbyte, UInt8.ofNat_toNat, ih]
      simp

/-- What is left of the first byte of a block is passed over. -/
theorem align_append {bits : Bits} (h : bits.length < 8) (data : Bytes) :
    align (bits ++ bitsOf data) = .ok ((), bitsOf data) := by
  have hdrop : (bits ++ bitsOf data).drop ((bits ++ bitsOf data).length % 8) = bitsOf data := by
    rw [List.length_append, length_bitsOf, Nat.add_mul_mod_self_left, Nat.mod_eq_of_lt h, List.drop_left]
  change Except.ok ((), (bits ++ bitsOf data).drop ((bits ++ bitsOf data).length % 8)) = _
  rw [hdrop]

end Inflate

/-! ## Blocks of stored bytes -/

namespace Zlib

open Inflate

theorem readNat_word {n : Nat} (hn : n < 65536) (rest : Bytes) :
    readNat 16 (bitsOf (word n ++ rest)) = .ok (n, bitsOf rest) := by
  have hvalue : value (bitsOf (word n)) = n := by
    rw [word, value_bytes, value_byte, UInt8.toNat_ofNat', UInt8.toNat_ofNat']
    omega
  have h := readNat_bytes (word n) rest
  rw [hvalue] at h
  exact h

/-- What follows the first bit of a block: the kind of block, the length twice, and the bytes. -/
theorem readBlock_stored {data : Bytes} (hdata : data.length ≤ 65535) (rest : Bytes) (out : Array UInt8) :
    readBlock out (List.replicate 7 false ++
        bitsOf (word data.length ++ (word (65535 - data.length) ++ (data ++ rest)))) =
      .ok (out ++ data.toArray, bitsOf rest) := by
  generalize hbody : bitsOf (word data.length ++ (word (65535 - data.length) ++ (data ++ rest))) = body
  have hkind : readNat 2 (List.replicate 7 false ++ body) = .ok (0, List.replicate 5 false ++ body) := rfl
  rw [readBlock, bind_of_ok hkind, ← hbody]
  change readStored out _ = _
  rw [readStored, bind_of_ok (align_append (by decide) _), bind_of_ok (readNat_word (by omega) _),
    bind_of_ok (readNat_word (by omega) _), if_neg (by omega)]
  exact readBytes_append data rest out

theorem readBit_storedBlock (last : Bool) (data rest : Bytes) :
    readBit (bitsOf (storedBlock last data ++ rest)) =
      .ok (last, List.replicate 7 false ++
        bitsOf (word data.length ++ (word (65535 - data.length) ++ (data ++ rest)))) := by
  have hfirst : bitsOf [UInt8.ofNat last.toNat] = last :: List.replicate 7 false := by
    cases last <;> decide
  have hblock : storedBlock last data ++ rest =
      [UInt8.ofNat last.toNat] ++ (word data.length ++ (word (65535 - data.length) ++ (data ++ rest))) := by
    simp [storedBlock]
  rw [hblock, bitsOf_append, hfirst]
  rfl

/-- The blocks hold all the bytes, and the reader stops behind them. -/
theorem readBlocks_storedBlocks (data rest : Bytes) {steps : Nat} (hsteps : data.length < steps) (out : Array UInt8) :
    readBlocks steps out (bitsOf (storedBlocks data ++ rest)) = .ok (out ++ data.toArray, bitsOf rest) := by
  induction data using storedBlocks.induct generalizing steps out with
  | case1 data hlength =>
      obtain ⟨steps, rfl⟩ := Nat.exists_eq_add_one_of_ne_zero (Nat.ne_zero_of_lt hsteps)
      rw [storedBlocks, if_pos hlength, readBlocks, bind_of_ok (readBit_storedBlock true data rest),
        bind_of_ok (readBlock_stored hlength rest out)]
      rfl
  | case2 data hlength ih =>
      obtain ⟨steps, rfl⟩ := Nat.exists_eq_add_one_of_ne_zero (Nat.ne_zero_of_lt hsteps)
      have htake : (data.take 65535).length = 65535 := by
        rw [List.length_take]
        omega
      have hdrop : (data.drop 65535).length < steps := by
        rw [List.length_drop]
        omega
      rw [storedBlocks, if_neg hlength, List.append_assoc, readBlocks, bind_of_ok (readBit_storedBlock false _ _),
        bind_of_ok (readBlock_stored (Nat.le_of_eq htake) _ out)]
      refine (ih hdrop _).trans ?_
      have hjoin : (data.take 65535).toArray ++ (data.drop 65535).toArray = data.toArray := by
        simp
      rw [Array.append_assoc, hjoin]

/-! ## The container -/

/-- The checksum fits into four bytes. -/
theorem checksum_lt (data : Bytes) : checksum data < 4294967296 := by
  unfold checksum
  generalize hsums : List.foldl _ (1, 0) data = sums
  have hlt : sums.1 < 65521 ∧ sums.2 < 65521 := by
    rw [← hsums]
    refine List.foldlRecOn data _ (motive := fun p : Nat × Nat => p.1 < 65521 ∧ p.2 < 65521) (by decide) ?_
    exact fun p _ x _ => ⟨Nat.mod_lt _ (by decide), Nat.mod_lt _ (by decide)⟩
  dsimp only
  omega

theorem length_lt_length_storedBlocks (data : Bytes) : data.length < (storedBlocks data).length := by
  induction data using storedBlocks.induct with
  | case1 data hlength =>
      rw [storedBlocks, if_pos hlength, storedBlock, List.length_append, List.length_append, List.length_cons]
      omega
  | case2 data hlength ih =>
      rw [List.length_drop] at ih
      rw [storedBlocks, if_neg hlength, List.length_append, storedBlock, List.length_append, List.length_append,
        List.length_cons, List.length_take]
      omega

theorem inflate_storedBlocks (data rest : Bytes) :
    inflate (bitsOf (storedBlocks data ++ rest)) = .ok (data, bitsOf rest) := by
  have hsteps : data.length < (bitsOf (storedBlocks data ++ rest)).length := by
    have hlength := length_lt_length_storedBlocks data
    rw [length_bitsOf, List.length_append]
    omega
  have hget : (get : Reader Bits) (bitsOf (storedBlocks data ++ rest)) =
      .ok (bitsOf (storedBlocks data ++ rest), bitsOf (storedBlocks data ++ rest)) := rfl
  rw [inflate, bind_of_ok hget, bind_of_ok (readBlocks_storedBlocks data rest hsteps #[]), pure_apply]
  simp

theorem decode_encode (data : Bytes) : decode (encode data) = .ok data := by
  generalize hsum : checksum data = sum
  let sumBytes : Bytes :=
    [UInt8.ofNat (sum / 16777216), UInt8.ofNat (sum / 65536), UInt8.ofNat (sum / 256), UInt8.ofNat sum]
  have hencode : encode data = 0x78 :: 0x01 :: (storedBlocks data ++ sumBytes) := by
    simp [encode, hsum, sumBytes]
  have hread : readBytes 4 #[] (bitsOf sumBytes) = .ok (sumBytes.toArray, []) := by
    have h := readBytes_append sumBytes [] #[]
    rw [List.append_nil, Array.empty_append] at h
    exact h
  have hvalue : sumBytes.toArray.foldl (fun n x => 256 * n + x.toNat) 0 = sum := by
    have hlt : sum < 4294967296 := hsum ▸ checksum_lt data
    simp only [sumBytes, List.foldl_toArray, List.foldl_cons, List.foldl_nil, UInt8.toNat_ofNat']
    omega
  have hbody : readBody (bitsOf (storedBlocks data ++ sumBytes)) = .ok (data, []) := by
    have halign : align (bitsOf sumBytes) = .ok ((), bitsOf sumBytes) := @align_append [] (by decide) sumBytes
    rw [readBody, bind_of_ok (inflate_storedBlocks data sumBytes), bind_of_ok halign, bind_of_ok hread, hvalue, hsum,
      if_neg (by simp)]
    rfl
  rw [hencode, decode, if_pos (by decide)]
  exact congrArg (Except.map Prod.fst) hbody

theorem codec_reversible : codec.Reversible := fun data => ⟨encode data, rfl, decode_encode data⟩

end Zlib

/-- The codecs that every store knows decode what they encode. -/
theorem Registry.standard_reversible {name : String} {c : Codec} (h : Registry.standard.get? name = some c) :
    c.Reversible := by
  by_cases hhex : name = AsciiHex.codec.name
  · rw [hhex, standard, register, OrderedMap.get?_insert_self] at h
    cases h
    exact AsciiHex.codec_reversible
  · rw [standard, register, OrderedMap.get?_insert_of_ne _ hhex, register] at h
    by_cases hflate : name = Zlib.codec.name
    · rw [hflate, OrderedMap.get?_insert_self] at h
      cases h
      exact Zlib.codec_reversible
    · rw [OrderedMap.get?_insert_of_ne _ hflate] at h
      cases h

end PdfStore
