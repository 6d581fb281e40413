import TransportBackend.MarkedDigits
import Mathlib.Algebra.Order.Group.Abs
import Mathlib.Data.BitVec

/-!
# Polylines

`encodePolyline` and `decodePolyline` of `geo.ts`, on coordinates that are whole numbers of 10⁻⁵ degrees, which
is what rounding and dividing by the factor leaves of them.  A text is the list of its UTF-16 units.  The bit
operators are those of 32 bits.

* `encode`, `encodePolyline`: a difference in chunks of five bits, and the differences of the points;
* `decodeAxis`, `decodePolyline`: one difference, and the points;
* `chunks_written`, `decodeAxis_read`: **the chunks are the marked digits of a number in base 32**;
* `polyline_round_trip`: **what is encoded is decoded to the same points**.
-/

namespace TransportBackend.Polylines

open TransportBackend.MarkedDigits

/-! ### Encoding -/

/-- `GeoPoint`, in units of 10⁻⁵ degrees. -/
structure GeoPoint where
  lat : ℤ
  lng : ℤ
  deriving DecidableEq

/-- A number as the bit operators take it. -/
def int32 (x : ℤ) : BitVec 32 := BitVec.ofInt 32 x

/-- `String.fromCharCode`. -/
def fromCharCode (x : ℤ) : UInt16 := UInt16.ofNat (x % 65536).toNat

theorem sshiftRight_less {v : BitVec 32} (h : 0x20 ≤ v.toInt) :
    (v.sshiftRight 5).toInt.toNat < v.toInt.toNat := by
  rw [BitVec.toInt_sshiftRight, Int.shiftRight_eq_div_pow]
  omega

/-- The loop over five bits at a time. -/
def chunks (v : BitVec 32) : List UInt16 :=
  if 0x20 ≤ v.toInt then fromCharCode ((0x20 ||| (v &&& 0x1f)).toInt + 63) :: chunks (v.sshiftRight 5)
  else [fromCharCode (v.toInt + 63)]
termination_by v.toInt.toNat
decreasing_by
  rename_i h
  exact sshiftRight_less h

/-- The sign goes to the lowest bit. -/
def zigzag (value : ℤ) : BitVec 32 := if value < 0 then ~~~(int32 value <<< 1) else int32 value <<< 1

def encode (value : ℤ) : List UInt16 := chunks (zigzag value)

/-- The loop over the points, from the ones before. -/
def encodeFrom (prevLat prevLng : ℤ) : List GeoPoint → List UInt16
  | [] => []
  | point :: points =>
      encode (point.lat - prevLat) ++ encode (point.lng - prevLng) ++ encodeFrom point.lat point.lng points

def encodePolyline (points : List GeoPoint) : List UInt16 := encodeFrom 0 0 points

/-! ### Decoding -/

/-- The `do` loop: what comes of the chunks of one axis, and what is left of the text.  Behind the end the code
of a character is not a number, its bits are zeros, and the loop ends. -/
def decodeAxis (result : BitVec 32) (shift : ℕ) : List UInt16 → BitVec 32 × List UInt16
  | [] => (result ||| (0 <<< (shift % 32)), [])
  | code :: codes =>
      let byte : ℤ := (code.toNat : ℤ) - 63
      let next := result ||| ((int32 byte &&& 0x1f) <<< (shift % 32))
      if 0x20 ≤ byte ∧ codes ≠ [] then decodeAxis next (shift + 5) codes else (next, codes)

/-- The sign comes back from the lowest bit. -/
def deltaOf (result : BitVec 32) : ℤ :=
  (if result &&& 1 ≠ 0 then ~~~(result.sshiftRight 1) else result.sshiftRight 1).toInt

theorem decodeAxis_length (result : BitVec 32) (shift : ℕ) (codes : List UInt16) :
    (decodeAxis result shift codes).2.length ≤ codes.length - 1 := by
  induction codes generalizing result shift with
  | nil => exact le_rfl
  | cons code codes ih =>
      rw [decodeAxis]
      split
      · exact (ih _ _).trans (Nat.sub_le _ _)
      · exact le_rfl

/-- The loop over the text, from the coordinates so far. -/
def decodeFrom (lat lng : ℤ) (codes : List UInt16) : List GeoPoint :=
  if codes = [] then []
  else
    let first := decodeAxis 0 0 codes
    let second := decodeAxis 0 0 first.2
    ⟨lat + deltaOf first.1, lng + deltaOf second.1⟩ ::
      decodeFrom (lat + deltaOf first.1) (lng + deltaOf second.1) second.2
termination_by codes.length
decreasing_by
  rename_i hne
  have hfirst := decodeAxis_length 0 0 codes
  have hsecond := decodeAxis_length 0 0 (decodeAxis 0 0 codes).2
  have hpos := List.length_pos_of_ne_nil hne
  omega

def decodePolyline (encoded : List UInt16) : List GeoPoint := decodeFrom 0 0 encoded

/-- Three points and their text. -/
example : encodePolyline [⟨3850000, -12020000⟩, ⟨4070000, -12095000⟩, ⟨4325200, -12645300⟩] =
    "_p~iF~ps|U_ulLnnqC_mqNvxq\x60@".toList.map fun c => UInt16.ofNat c.toNat := by decide +kernel

/-! ### Chunks are marked digits -/

/-- Five bits. -/
def fiveBits : Base := ⟨32, by decide⟩

/-- The digit of a character. -/
def digit (code : UInt16) : ℕ := code.toNat - 63

/-- Integers that 32 bits hold with their sign. -/
theorem toInt_small {v : BitVec 32} (h : v.toNat < 2 ^ 31) : v.toInt = v.toNat := by
  rw [BitVec.toInt_eq_toNat_cond, if_pos (by omega)]

theorem sshiftRight_small {v : BitVec 32} (h : v.toNat < 2 ^ 31) (n : ℕ) :
    (v.sshiftRight n).toNat = v.toNat / 2 ^ n := by
  have hmsb : v.msb = false := by
    rw [BitVec.msb_eq_false_iff_two_mul_lt]
    omega
  rw [BitVec.toNat_sshiftRight_of_msb_false hmsb, Nat.shiftRight_eq_div_pow]

theorem and_fiveBits (v : BitVec 32) : (v &&& 0x1f).toNat = v.toNat % 32 := by
  rw [BitVec.toNat_and]
  exact Nat.and_two_pow_sub_one_eq_mod v.toNat 5

/-- Marking a digit adds its bit. -/
theorem marked_fiveBits (v : BitVec 32) : (0x20 ||| (v &&& 0x1f)).toNat = 32 + v.toNat % 32 := by
  have hless : v.toNat % 32 < 2 ^ 5 := Nat.mod_lt _ (by decide)
  rw [BitVec.toNat_or, and_fiveBits]
  exact (Nat.two_pow_add_eq_or_of_lt hless 1).symm

theorem toNat_fromCharCode {n : ℕ} (h : n < 64) : (fromCharCode ((n : ℤ) + 63)).toNat = n + 63 := by
  unfold fromCharCode
  rw [UInt16.toNat_ofNat']
  omega

/-- **The chunks are the marked digits of the number.** -/
theorem chunks_written {v : BitVec 32} (h : v.toNat < 2 ^ 31) :
    (chunks v).map UInt16.toNat = (written fiveBits v.toNat).map (· + 63) := by
  induction hn : v.toNat using Nat.strongRecOn generalizing v with
  | ind n ih =>
      subst hn
      rw [chunks, toInt_small h]
      rcases lt_or_ge v.toNat 32 with hlast | hnext
      · have hcode := toNat_fromCharCode (n := v.toNat) (by omega)
        rw [if_neg (by omega), written_last hlast]
        simp only [List.map_cons, List.map_nil, hcode]
      · have hshift := sshiftRight_small h 5
        have hrest := ih (v.toNat / 32) (by omega) (v := v.sshiftRight 5) (by omega) hshift
        have hmarked := marked_fiveBits v
        have hcode := toNat_fromCharCode (n := 32 + v.toNat % 32) (by omega)
        have hint : (0x20 ||| (v &&& 0x1f)).toInt = ((32 + v.toNat % 32 : ℕ) : ℤ) := by
          rw [toInt_small (by omega), hmarked]
        rw [if_pos (by omega), written_next hnext, hint]
        simp only [List.map_cons, hcode, hrest]
        rfl

theorem chunks_digits {v : BitVec 32} (h : v.toNat < 2 ^ 31) :
    (chunks v).map digit = written fiveBits v.toNat := by
  have hdigit : digit = (· - 63) ∘ UInt16.toNat := rfl
  rw [hdigit, ← List.map_map, chunks_written h, List.map_map]
  exact (List.map_congr_left fun d _ => Nat.add_sub_cancel d 63).trans (List.map_id _)

/-- A character that is written. -/
def IsWritten (code : UInt16) : Prop := 63 ≤ code.toNat ∧ code.toNat ≤ 126

theorem chunks_isWritten {v : BitVec 32} (h : v.toNat < 2 ^ 31) : ∀ code ∈ chunks v, IsWritten code := by
  intro code hcode
  have hmem : code.toNat ∈ (chunks v).map UInt16.toNat := List.mem_map_of_mem hcode
  rw [chunks_written h] at hmem
  obtain ⟨d, hd, heq⟩ := List.mem_map.mp hmem
  have hless : d < 2 * 32 := mem_written d hd
  unfold IsWritten
  omega

/-! ### Digits put together -/

/-- The bits of a digit go where the sum has none. -/
theorem or_shifted {result : BitVec 32} {shift d : ℕ} {x : BitVec 32} (hx : x.toNat = d)
    (hresult : result.toNat < 2 ^ shift) (hfits : d * 2 ^ shift < 2 ^ 32) :
    (result ||| (x <<< (shift % 32))).toNat = result.toNat + d * 2 ^ shift := by
  have hshifted : (x <<< (shift % 32)).toNat = d * 2 ^ shift := by
    rw [BitVec.toNat_shiftLeft, hx, Nat.shiftLeft_eq]
    rcases Nat.eq_zero_or_pos d with rfl | hpos
    · simp
    · have hsmall : shift < 32 := by
        by_contra hlarge
        have hpow : 2 ^ 32 ≤ 2 ^ shift := Nat.pow_le_pow_right (by decide) (not_lt.mp hlarge)
        have hle : 2 ^ shift ≤ d * 2 ^ shift := Nat.le_mul_of_pos_left _ hpos
        omega
      rw [Nat.mod_eq_of_lt hsmall, Nat.mod_eq_of_lt hfits]
  rw [BitVec.toNat_or, hshifted, Nat.or_comm, Nat.mul_comm d, ← Nat.two_pow_add_eq_or_of_lt hresult]
  omega

/-- The bits of a character are its digit without the mark. -/
theorem and_digit {code : UInt16} (h : IsWritten code) :
    (int32 ((code.toNat : ℤ) - 63) &&& 0x1f).toNat = digit code % 32 := by
  obtain ⟨hlow, hhigh⟩ := h
  have hbyte : (code.toNat : ℤ) - 63 = (digit code : ℤ) := by
    unfold digit
    omega
  rw [and_fiveBits, hbyte]
  unfold int32
  rw [BitVec.ofInt_natCast, BitVec.toNat_ofNat]
  unfold digit
  omega

/-- **The loop over one axis reads a number in marked digits**, as long as 32 bits hold it. -/
theorem decodeAxis_read {codes : List UInt16} (hcodes : ∀ code ∈ codes, IsWritten code) {result : BitVec 32}
    {shift : ℕ} (hresult : result.toNat < 2 ^ shift)
    (hfits : (readNumber fiveBits digit (2 ^ shift) result.toNat codes).1 < 2 ^ 32) :
    (decodeAxis result shift codes).1.toNat = (readNumber fiveBits digit (2 ^ shift) result.toNat codes).1 ∧
      (decodeAxis result shift codes).2 = (readNumber fiveBits digit (2 ^ shift) result.toNat codes).2 := by
  induction codes generalizing result shift with
  | nil =>
      have hnothing := or_shifted (x := 0) (d := 0) rfl hresult (by omega)
      rw [Nat.zero_mul, Nat.add_zero] at hnothing
      exact ⟨hnothing, rfl⟩
  | cons code codes ih =>
      have hcode := hcodes code List.mem_cons_self
      have hrest : ∀ code ∈ codes, IsWritten code := fun c hc => hcodes c (List.mem_cons_of_mem code hc)
      have hbits := and_digit hcode
      have hmark : (0x20 : ℤ) ≤ (code.toNat : ℤ) - 63 ↔ 32 ≤ digit code := by
        unfold digit
        omega
      rw [decodeAxis]
      rcases lt_or_ge (digit code) 32 with hlast | hmarked
      · have hfinal : readNumber fiveBits digit (2 ^ shift) result.toNat (code :: codes) =
            (result.toNat + digit code * 2 ^ shift, codes) := readNumber_last hlast _ _ _
        rw [hfinal] at hfits ⊢
        dsimp only at hfits ⊢
        rw [Nat.mod_eq_of_lt hlast] at hbits
        rw [if_neg fun h => absurd (hmark.mp h.1) (by omega), or_shifted hbits hresult (by omega)]
        exact ⟨rfl, rfl⟩
      · have hstep : readNumber fiveBits digit (2 ^ shift) result.toNat (code :: codes) =
            readNumber fiveBits digit (2 ^ shift * fiveBits.size)
              (result.toNat + digit code % fiveBits.size * 2 ^ shift) codes := readNumber_marked hmarked _ _ _
        have hplace : 2 ^ shift * fiveBits.size = 2 ^ (shift + 5) := (Nat.pow_add 2 shift 5).symm
        rw [hstep, hplace] at hfits ⊢
        have hgrows : result.toNat + digit code % fiveBits.size * 2 ^ shift ≤
            (readNumber fiveBits digit (2 ^ (shift + 5))
              (result.toNat + digit code % fiveBits.size * 2 ^ shift) codes).1 := le_readNumber _ _ _
        have hsize : fiveBits.size = 32 := rfl
        rw [hsize] at hfits hgrows ⊢
        have hsum := or_shifted hbits hresult (by omega)
        rw [← hsum] at hfits ⊢
        have hless : (result ||| ((int32 ((code.toNat : ℤ) - 63) &&& 0x1f) <<< (shift % 32))).toNat <
            2 ^ (shift + 5) := by
          have hdigit : digit code % 32 < 32 := Nat.mod_lt _ (by decide)
          have hpow : 2 ^ (shift + 5) = 32 * 2 ^ shift := by rw [Nat.pow_add, Nat.mul_comm]
          have hle : digit code % 32 * 2 ^ shift ≤ 31 * 2 ^ shift := Nat.mul_le_mul_right _ (by omega)
          omega
        by_cases hend : codes = []
        · subst hend
          rw [if_neg fun h => h.2 rfl]
          exact ⟨rfl, rfl⟩
        · rw [if_pos ⟨hmark.mpr hmarked, hend⟩]
          exact ih hrest hless hfits

/-! ### Signs -/

/-- **The sign goes to the lowest bit**: a difference becomes the number it is counted by. -/
theorem zigzag_counted {value : ℤ} (hlow : -2 ^ 30 ≤ value) (hhigh : value < 2 ^ 30) :
    (zigzag value).toNat = counted value := by
  have hshift : (int32 value <<< 1).toNat = (2 * value % 2 ^ 32).toNat := by
    unfold int32
    rw [BitVec.toNat_shiftLeft, BitVec.toNat_ofInt, Nat.shiftLeft_eq]
    omega
  unfold zigzag
  cases value with
  | ofNat n =>
      have hn : (Int.ofNat n : ℤ) = (n : ℤ) := rfl
      rw [hn] at hshift hhigh ⊢
      rw [if_neg (by omega), hshift, counted_nonneg]
      omega
  | negSucc n =>
      rw [if_pos (Int.negSucc_lt_zero n), BitVec.toNat_not, hshift, counted_neg]
      omega

/-- **The sign comes back from the lowest bit.** -/
theorem deltaOf_counted {result : BitVec 32} (h : result.toNat < 2 ^ 31) :
    deltaOf result = Equiv.intEquivNat.symm result.toNat := by
  have hodd : result &&& 1 ≠ 0 ↔ result.toNat % 2 = 1 := by
    have hbit : (result &&& 1).toNat = result.toNat % 2 := by
      rw [BitVec.toNat_and]
      exact Nat.and_two_pow_sub_one_eq_mod result.toNat 1
    rw [← BitVec.toNat_inj.ne, hbit]
    have hzero : (0 : BitVec 32).toNat = 0 := rfl
    rw [hzero]
    omega
  have hhalf := sshiftRight_small h 1
  rw [counted_symm]
  unfold deltaOf
  simp only [hodd]
  split
  · rw [BitVec.toInt_eq_toNat_cond, BitVec.toNat_not, hhalf, if_neg (by omega), Int.negSucc_eq]
    omega
  · rw [toInt_small (by omega), hhalf]
    omega

theorem counted_less {value : ℤ} (hlow : -2 ^ 30 ≤ value) (hhigh : value < 2 ^ 30) : counted value < 2 ^ 31 := by
  cases value with
  | ofNat n =>
      have hn : counted (Int.ofNat n) = 2 * n := counted_nonneg n
      have hcast : (Int.ofNat n : ℤ) = (n : ℤ) := rfl
      rw [hcast] at hhigh
      omega
  | negSucc n =>
      rw [counted_neg]
      omega

/-! ### Round trips -/

/-- A difference that 32 bits hold with its sign in the lowest. -/
def Fits (value : ℤ) : Prop := -2 ^ 30 ≤ value ∧ value < 2 ^ 30

theorem encode_isWritten {value : ℤ} (h : Fits value) : ∀ code ∈ encode value, IsWritten code := by
  refine chunks_isWritten ?_
  rw [zigzag_counted h.1 h.2]
  exact counted_less h.1 h.2

/-- One difference is read back, and what stands behind it is left. -/
theorem decodeAxis_encode {value : ℤ} (h : Fits value) {rest : List UInt16} (hrest : ∀ code ∈ rest, IsWritten code) :
    deltaOf (decodeAxis 0 0 (encode value ++ rest)).1 = value ∧ (decodeAxis 0 0 (encode value ++ rest)).2 = rest := by
  have hvalue := zigzag_counted h.1 h.2
  have hless := counted_less h.1 h.2
  have hwritten : ∀ code ∈ encode value ++ rest, IsWritten code := by
    intro code hcode
    rcases List.mem_append.mp hcode with hcode | hcode
    · exact encode_isWritten h code hcode
    · exact hrest code hcode
  have hdigits : (encode value).map digit = written fiveBits (counted value) := by
    rw [← hvalue]
    exact chunks_digits (hvalue ▸ hless)
  have hread : readNumber fiveBits digit (2 ^ 0) (0 : BitVec 32).toNat (encode value ++ rest) =
      (counted value, rest) := by
    have h := readNumber_written hdigits 1 0 rest
    rwa [Nat.zero_add, Nat.mul_one] at h
  have hnothing : (0 : BitVec 32).toNat < 2 ^ 0 := by decide
  obtain ⟨hresult, hleft⟩ := decodeAxis_read hwritten hnothing (by rw [hread]; omega)
  rw [hread] at hresult hleft
  dsimp only at hresult hleft
  refine ⟨?_, hleft⟩
  rw [deltaOf_counted (by omega), hresult, Equiv.symm_apply_apply]

theorem encode_ne_nil (value : ℤ) : encode value ≠ [] := by
  unfold encode
  rw [chunks]
  split <;> exact List.cons_ne_nil _ _

/-- A point on the earth. -/
def OnEarth (p : GeoPoint) : Prop := |p.lat| ≤ 90 * 10 ^ 5 ∧ |p.lng| ≤ 180 * 10 ^ 5

/-- The differences of points on the earth fit. -/
theorem fits_difference {p q : GeoPoint} (hp : OnEarth p) (hq : OnEarth q) :
    Fits (q.lat - p.lat) ∧ Fits (q.lng - p.lng) := by
  have hplat := abs_le.mp hp.1
  have hplng := abs_le.mp hp.2
  have hqlat := abs_le.mp hq.1
  have hqlng := abs_le.mp hq.2
  unfold Fits
  omega

theorem encodeFrom_isWritten {p : GeoPoint} (hp : OnEarth p) {points : List GeoPoint}
    (hpoints : ∀ q ∈ points, OnEarth q) : ∀ code ∈ encodeFrom p.lat p.lng points, IsWritten code := by
  induction points generalizing p with
  | nil => exact fun code hcode => absurd hcode List.not_mem_nil
  | cons q points ih =>
      have hq := hpoints q List.mem_cons_self
      obtain ⟨hlat, hlng⟩ := fits_difference hp hq
      intro code hcode
      rcases List.mem_append.mp hcode with hcode | hcode
      · rcases List.mem_append.mp hcode with hcode | hcode
        · exact encode_isWritten hlat code hcode
        · exact encode_isWritten hlng code hcode
      · exact ih hq (fun r hr => hpoints r (List.mem_cons_of_mem q hr)) code hcode

/-- From the same coordinates the points are read back. -/
theorem decodeFrom_encodeFrom {p : GeoPoint} (hp : OnEarth p) {points : List GeoPoint}
    (hpoints : ∀ q ∈ points, OnEarth q) : decodeFrom p.lat p.lng (encodeFrom p.lat p.lng points) = points := by
  induction points generalizing p with
  | nil =>
      rw [encodeFrom, decodeFrom, if_pos rfl]
  | cons q points ih =>
      have hq := hpoints q List.mem_cons_self
      have hrest : ∀ r ∈ points, OnEarth r := fun r hr => hpoints r (List.mem_cons_of_mem q hr)
      obtain ⟨hlat, hlng⟩ := fits_difference hp hq
      have hcodes := encodeFrom_isWritten hq hrest
      have hboth : ∀ code ∈ encode (q.lng - p.lng) ++ encodeFrom q.lat q.lng points, IsWritten code := by
        intro code hcode
        rcases List.mem_append.mp hcode with hcode | hcode
        · exact encode_isWritten hlng code hcode
        · exact hcodes code hcode
      obtain ⟨hfirst, hleft⟩ := decodeAxis_encode hlat hboth
      obtain ⟨hsecond, hend⟩ := decodeAxis_encode hlng hcodes
      have hne : encode (q.lat - p.lat) ++ (encode (q.lng - p.lng) ++ encodeFrom q.lat q.lng points) ≠ [] :=
        fun h => encode_ne_nil _ (List.append_eq_nil_iff.mp h).1
      have hlatSum : p.lat + (q.lat - p.lat) = q.lat := by omega
      have hlngSum : p.lng + (q.lng - p.lng) = q.lng := by omega
      rw [encodeFrom, List.append_assoc, decodeFrom, if_neg hne]
      dsimp only
      rw [hleft, hfirst, hsecond, hend, hlatSum, hlngSum, ih hq hrest]

/-- **What is encoded is decoded to the same points**, and every character that is written has a code from 63
to 126. -/
theorem polyline_round_trip {points : List GeoPoint} (h : ∀ p ∈ points, OnEarth p) :
    decodePolyline (encodePolyline points) = points ∧ ∀ code ∈ encodePolyline points, IsWritten code := by
  have hstart : OnEarth ⟨0, 0⟩ := by
    unfold OnEarth
    decide
  exact ⟨decodeFrom_encodeFrom hstart h, encodeFrom_isWritten hstart h⟩

/-- The corners of the bounds. -/
def corners : List GeoPoint := [⟨9000000, 18000000⟩, ⟨-9000000, -18000000⟩]

theorem polyline_round_trip_corners : (∀ p ∈ corners, OnEarth p) ∧
    decodePolyline (encodePolyline corners) = corners ∧ ∀ code ∈ encodePolyline corners, IsWritten code := by
  have hbounds : ∀ p ∈ corners, OnEarth p := by
    unfold OnEarth
    decide
  exact ⟨hbounds, polyline_round_trip hbounds⟩

end TransportBackend.Polylines
