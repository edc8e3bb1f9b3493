import Bmv2.Cli.ParseParam

/-! What the bytes of a parameter on the command line stand for. -/
namespace Bmv2
open PythonInt

/-- What a string says: a number, or the components of an address. -/
inductive Written where
  | number (i : ℤ)
  | address (components : List ℤ)

/-- Big-endian, also for components that are not bytes. -/
def beValue (bytes : List ℤ) : ℤ := bytes.foldl (fun v b => 256 * v + b) 0

/-- A number of bytes that holds `bitwidth` bits. -/
def byteWidth (bitwidth : ℕ) : ℕ := (bitwidth + 7) / 8

namespace Written

/-- The string is a number, or an address of the width that it is for. -/
def Of (input : List Char) (bitwidth : ℕ) : Written → Prop
  | .number i => int input 0 = some i
  | .address components =>
    bitwidth = 32 ∧ components.length = 4 ∧
        (input.splitOn '.').mapM (fun b => int b 10) = some components ∨
      bitwidth = 48 ∧ components.length = 6 ∧
        (input.splitOn ':').mapM (fun b => int b 16) = some components

def value : Written → ℤ
  | .number i => i
  | .address components => beValue components

/-- It cannot be encoded. -/
def Refusable (bitwidth : ℕ) : Written → Prop
  | .number i => i < 0 ∨ 256 ^ byteWidth bitwidth ≤ i
  | .address components => ∃ c ∈ components, c < 0 ∨ 255 < c

/-- No number is negative, and no component out of range. -/
def InRange : Written → Prop
  | .number i => 0 ≤ i
  | .address components => ∀ c ∈ components, 0 ≤ c ∧ c ≤ 255

instance (input : List Char) (bitwidth : ℕ) : (w : Written) → Decidable (w.Of input bitwidth)
  | .number _ => inferInstanceAs (Decidable (_ = _))
  | .address _ => inferInstanceAs (Decidable (_ ∨ _))

instance : (w : Written) → Decidable w.InRange
  | .number i => inferInstanceAs (Decidable (0 ≤ i))
  | .address components => inferInstanceAs (Decidable (∀ c ∈ components, 0 ≤ c ∧ c ≤ 255))

end Written

/-- The bytes of the width say what is written. -/
structure Encodes (bitwidth : ℕ) (w : Written) (bytes : List ℤ) : Prop where
  length : bytes.length = byteWidth bitwidth
  range : ∀ b ∈ bytes, 0 ≤ b ∧ b ≤ 255
  value : beValue bytes = w.value

/-- What is written is encoded, or refused if it has to be. -/
def ParsedRight (packed : List Char → Option (List ℤ)) (input : List Char) (bitwidth : ℕ)
    (w : Written) : Prop :=
  (¬ w.Refusable bitwidth ∧
      ∃ bytes, parseParam packed input bitwidth = .ok bytes ∧ Encodes bitwidth w bytes) ∨
    w.Refusable bitwidth ∧ ∃ info, parseParam packed input bitwidth = .error (.badParam info)

variable {packed : List Char → Option (List ℤ)} {input : List Char} {bitwidth : ℕ} {i : ℤ}
  {components : List ℤ} {w : Written}

/-! ### The encoder -/

/-- The digits of a number in base 256, the low ones first. -/
def lowBytes (n : ℕ) : List ℤ := (Nat.digits 256 n).map Int.ofNat

theorem splitBytes_natCast (n : ℕ) (num : ℤ) (byteArray : List ℤ) :
    splitBytes n num byteArray = (byteArray ++ lowBytes n, num - (Nat.digits 256 n).length) := by
  induction n using Nat.strong_induction_on generalizing num byteArray with
  | _ n ih =>
    rw [splitBytes]
    rcases Nat.eq_zero_or_pos n with rfl | hn
    · simp [lowBytes]
    · have hdigits : Nat.digits 256 n = n % 256 :: Nat.digits 256 (n / 256) :=
        Nat.digits_def' (by norm_num) hn
      have hdiv : (n : ℤ) / 256 = (n / 256 : ℕ) := by norm_num
      rw [if_pos (by exact_mod_cast hn), hdiv, ih (n / 256) (by omega), lowBytes, lowBytes, hdigits]
      refine Prod.ext ?_ ?_
      · simp
      · simp only [List.length_cons]
        push_cast
        omega

theorem intToBytes_of_neg (h : i < 0) (n : ℕ) :
    intToBytes i n = .ok (List.replicate n 0).reverse := by
  have hsplit : splitBytes i n [] = ([], (n : ℤ)) := by
    rw [splitBytes, if_neg h.not_gt]
  rw [intToBytes, hsplit, if_neg (by omega), List.nil_append, Int.toNat_natCast]

/-- A number that fits is written out in bytes, another one is refused. -/
theorem intToBytes_natCast (k n : ℕ) : intToBytes k n =
    if k < 256 ^ n then .ok (lowBytes k ++ List.replicate (n - (Nat.digits 256 k).length) 0).reverse
    else .error (.badParam "Parameter is too large") := by
  have hlen : (Nat.digits 256 k).length ≤ n ↔ k < 256 ^ n :=
    Nat.digits_length_le_iff (by norm_num) k
  rw [intToBytes, splitBytes_natCast, List.nil_append]
  by_cases hk : k < 256 ^ n
  · have hle := hlen.mpr hk
    rw [if_pos hk, if_neg (by omega), ← Nat.cast_sub hle, Int.toNat_natCast]
  · have hle := mt hlen.mp hk
    rw [if_neg hk, if_pos (by omega)]

theorem beValue_reverse (l : List ℕ) :
    beValue (l.map Int.ofNat).reverse = (Nat.ofDigits 256 l : ℕ) := by
  rw [beValue, List.foldl_reverse, List.foldr_map]
  induction l with
  | nil => rfl
  | cons d l ih =>
    rw [List.foldr_cons, ih, Nat.ofDigits_cons]
    push_cast
    simp only [Int.ofNat_eq_natCast]
    omega

theorem encodes_natCast {k : ℕ} (h : k < 256 ^ byteWidth bitwidth) :
    Encodes bitwidth (.number k) (lowBytes k ++
      List.replicate (byteWidth bitwidth - (Nat.digits 256 k).length) 0).reverse := by
  have hlen : (Nat.digits 256 k).length ≤ byteWidth bitwidth :=
    (Nat.digits_length_le_iff (by norm_num) k).mpr h
  have hmap : lowBytes k ++ List.replicate (byteWidth bitwidth - (Nat.digits 256 k).length) 0 =
      (Nat.digits 256 k ++ List.replicate (byteWidth bitwidth - (Nat.digits 256 k).length) 0).map
        Int.ofNat := by
    rw [List.map_append, List.map_replicate, lowBytes]
    rfl
  refine ⟨?_, fun b hb => ?_, ?_⟩
  · rw [hmap, List.length_reverse, List.length_map, List.length_append, List.length_replicate]
    omega
  · rw [hmap, List.mem_reverse] at hb
    obtain ⟨d, hd, rfl⟩ := List.mem_map.mp hb
    have hlt : d < 256 := by
      rcases List.mem_append.mp hd with hd | hd
      · exact Nat.digits_lt_base (by norm_num) hd
      · rw [List.eq_of_mem_replicate hd]
        norm_num
    rw [Int.ofNat_eq_natCast]
    omega
  · rw [hmap, beValue_reverse, Nat.ofDigits_append_replicate_zero, Nat.ofDigits_digits]
    rfl

/-! ### The syntaxes -/

/-- The string of a number does not look like an address. -/
theorem parseParam_of_number (h : int input 0 = some i) :
    parseParam packed input bitwidth = intToBytes i (byteWidth bitwidth) := by
  have hdot : '.' ∉ input := not_mem_of_int h (by decide)
  have hcolon : ':' ∉ input := not_mem_of_int h (by decide)
  have hnumber : parseNumber input bitwidth = intToBytes i (byteWidth bitwidth) := by
    rw [parseNumber, h]
    rfl
  rw [parseParam, ipv4AddrToBytes, if_pos hdot, macAddrToBytes, if_pos hcolon, ipv6AddrToBytes,
    if_pos hcolon]
  simp only [orNumber, ite_self]
  exact hnumber

theorem mem_of_length_splitOn {c : Char} (h : (input.splitOn c).length ≠ 1) : c ∈ input := by
  by_contra hc
  rw [List.splitOn, List.splitOnP_eq_singleton] at h
  · exact h rfl
  · intro d hd
    exact beq_eq_false_iff_ne.mpr fun heq => hc (heq ▸ hd)

theorem length_of_mapM {α β : Type*} {f : α → Option β} {l : List α} {l' : List β}
    (h : l.mapM f = some l') : l.length = l'.length := by
  induction l generalizing l' with
  | nil => cases h; rfl
  | cons a l ih =>
    rw [List.mapM_cons] at h
    obtain ⟨b, -, h⟩ := Option.bind_eq_some_iff.mp h
    obtain ⟨bs, hbs, h⟩ := Option.bind_eq_some_iff.mp h
    cases h
    rw [List.length_cons, List.length_cons, ih hbs]

/-- The components of an address are returned as they are. -/
theorem parseParam_of_address (packed : List Char → Option (List ℤ))
    (h : (Written.address components).Of input bitwidth) :
    parseParam packed input bitwidth = .ok components ∧
      components.length = byteWidth bitwidth := by
  rcases h with ⟨rfl, hlen, hmap⟩ | ⟨rfl, hlen, hmap⟩
  · have hsplit := (length_of_mapM hmap).trans hlen
    have hmem : '.' ∈ input := mem_of_length_splitOn (by rw [hsplit]; decide)
    refine ⟨?_, hlen⟩
    rw [parseParam, if_pos rfl, ipv4AddrToBytes, if_neg (not_not.mpr hmem),
      if_neg (not_not.mpr hsplit), hmap]
    rfl
  · have hsplit := (length_of_mapM hmap).trans hlen
    have hmem : ':' ∈ input := mem_of_length_splitOn (by rw [hsplit]; decide)
    refine ⟨?_, hlen⟩
    rw [parseParam, if_neg (by decide), if_pos rfl, macAddrToBytes, if_neg (not_not.mpr hmem),
      if_neg (not_not.mpr hsplit), hmap]
    rfl

theorem parsedRight_number_iff (h : int input 0 = some i) :
    ParsedRight packed input bitwidth (.number i) ↔ 0 ≤ i := by
  rw [ParsedRight, parseParam_of_number h]
  constructor
  · rintro (⟨hfits, -⟩ | ⟨-, info, herror⟩)
    · exact not_lt.mp fun hneg => hfits (.inl hneg)
    · by_contra hneg
      rw [intToBytes_of_neg (not_le.mp hneg)] at herror
      cases herror
  · intro hpos
    obtain ⟨k, rfl⟩ := Int.eq_ofNat_of_zero_le hpos
    rw [intToBytes_natCast]
    by_cases hk : k < 256 ^ byteWidth bitwidth
    · rw [if_pos hk]
      refine .inl ⟨?_, _, rfl, encodes_natCast hk⟩
      rintro (hneg | hlarge)
      · omega
      · exact hk.not_ge (by exact_mod_cast hlarge)
    · rw [if_neg hk]
      exact .inr ⟨.inr (by exact_mod_cast not_lt.mp hk), _, rfl⟩

theorem parsedRight_address_iff (h : (Written.address components).Of input bitwidth) :
    ParsedRight packed input bitwidth (.address components) ↔
      ∀ c ∈ components, 0 ≤ c ∧ c ≤ 255 := by
  obtain ⟨hparse, hlen⟩ := parseParam_of_address packed h
  have hrange : ¬ (Written.address components).Refusable bitwidth ↔
      ∀ c ∈ components, 0 ≤ c ∧ c ≤ 255 := by
    simp only [Written.Refusable, not_exists, not_and, not_or, not_lt]
  rw [ParsedRight, hparse]
  constructor
  · rintro (⟨hfits, -⟩ | ⟨-, info, herror⟩)
    · exact hrange.mp hfits
    · cases herror
  · intro hall
    exact .inl ⟨hrange.mpr hall, _, rfl, hlen, hall, rfl⟩

/-- A parameter is encoded or refused as it should be if no number is negative and no component of
an address is out of range, and not otherwise. -/
theorem parsedRight_iff (h : w.Of input bitwidth) :
    ParsedRight packed input bitwidth w ↔ w.InRange := by
  cases w with
  | number i => exact parsedRight_number_iff h
  | address components => exact parsedRight_address_iff h

theorem parsedRight_examples :
    ParsedRight (fun _ => none) "192.168.0.255".toList 32 (.address [192, 168, 0, 255]) ∧
      ParsedRight (fun _ => none) "0x1ff".toList 9 (.number 511) :=
  ⟨(parsedRight_iff (by decide)).mpr (by decide), (parsedRight_iff (by decide)).mpr (by decide)⟩

/-- A component of 256 and the number -1 are not refused. -/
theorem not_parsedRight :
    ((Written.address [1, 2, 3, 256]).Of "1.2.3.256".toList 32 ∧
        ¬ ParsedRight (fun _ => none) "1.2.3.256".toList 32 (.address [1, 2, 3, 256])) ∧
      (Written.number (-1)).Of "-1".toList 8 ∧
        ¬ ParsedRight (fun _ => none) "-1".toList 8 (.number (-1)) := by
  have haddress : (Written.address [1, 2, 3, 256]).Of "1.2.3.256".toList 32 := by decide
  have hnumber : (Written.number (-1)).Of "-1".toList 8 := by decide
  exact ⟨⟨haddress, mt (parsedRight_address_iff haddress).mp (by decide)⟩, hnumber,
    mt (parsedRight_number_iff hnumber).mp (by decide)⟩

end Bmv2
