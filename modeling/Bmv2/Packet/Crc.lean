import Bmv2.Lib.Crc
import Bmv2.Packet.Cksum16

/-! The CRCs of `calculations.cpp` with the tables of `crc_tables.h`, on a little-endian host where
`char` is signed. -/
namespace Bmv2
open ByteBits

/-- `table_crc16`. -/
def tableCrc16 : List (BitVec 16) :=
  [0x0000, 0x8005, 0x800F, 0x000A, 0x801B, 0x001E, 0x0014, 0x8011,
   0x8033, 0x0036, 0x003C, 0x8039, 0x0028, 0x802D, 0x8027, 0x0022,
   0x8063, 0x0066, 0x006C, 0x8069, 0x0078, 0x807D, 0x8077, 0x0072,
   0x0050, 0x8055, 0x805F, 0x005A, 0x804B, 0x004E, 0x0044, 0x8041,
   0x80C3, 0x00C6, 0x00CC, 0x80C9, 0x00D8, 0x80DD, 0x80D7, 0x00D2,
   0x00F0, 0x80F5, 0x80FF, 0x00FA, 0x80EB, 0x00EE, 0x00E4, 0x80E1,
   0x00A0, 0x80A5, 0x80AF, 0x00AA, 0x80BB, 0x00BE, 0x00B4, 0x80B1,
   0x8093, 0x0096, 0x009C, 0x8099, 0x0088, 0x808D, 0x8087, 0x0082,
   0x8183, 0x0186, 0x018C, 0x8189, 0x0198, 0x819D, 0x8197, 0x0192,
   0x01B0, 0x81B5, 0x81BF, 0x01BA, 0x81AB, 0x01AE, 0x01A4, 0x81A1,
   0x01E0, 0x81E5, 0x81EF, 0x01EA, 0x81FB, 0x01FE, 0x01F4, 0x81F1,
   0x81D3, 0x01D6, 0x01DC, 0x81D9, 0x01C8, 0x81CD, 0x81C7, 0x01C2,
   0x0140, 0x8145, 0x814F, 0x014A, 0x815B, 0x015E, 0x0154, 0x8151,
   0x8173, 0x0176, 0x017C, 0x8179, 0x0168, 0x816D, 0x8167, 0x0162,
   0x8123, 0x0126, 0x012C, 0x8129, 0x0138, 0x813D, 0x8137, 0x0132,
   0x0110, 0x8115, 0x811F, 0x011A, 0x810B, 0x010E, 0x0104, 0x8101,
   0x8303, 0x0306, 0x030C, 0x8309, 0x0318, 0x831D, 0x8317, 0x0312,
   0x0330, 0x8335, 0x833F, 0x033A, 0x832B, 0x032E, 0x0324, 0x8321,
   0x0360, 0x8365, 0x836F, 0x036A, 0x837B, 0x037E, 0x0374, 0x8371,
   0x8353, 0x0356, 0x035C, 0x8359, 0x0348, 0x834D, 0x8347, 0x0342,
   0x03C0, 0x83C5, 0x83CF, 0x03CA, 0x83DB, 0x03DE, 0x03D4, 0x83D1,
   0x83F3, 0x03F6, 0x03FC, 0x83F9, 0x03E8, 0x83ED, 0x83E7, 0x03E2,
   0x83A3, 0x03A6, 0x03AC, 0x83A9, 0x03B8, 0x83BD, 0x83B7, 0x03B2,
   0x0390, 0x8395, 0x839F, 0x039A, 0x838B, 0x038E, 0x0384, 0x8381,
   0x0280, 0x8285, 0x828F, 0x028A, 0x829B, 0x029E, 0x0294, 0x8291,
   0x82B3, 0x02B6, 0x02BC, 0x82B9, 0x02A8, 0x82AD, 0x82A7, 0x02A2,
   0x82E3, 0x02E6, 0x02EC, 0x82E9, 0x02F8, 0x82FD, 0x82F7, 0x02F2,
   0x02D0, 0x82D5, 0x82DF, 0x02DA, 0x82CB, 0x02CE, 0x02C4, 0x82C1,
   0x8243, 0x0246, 0x024C, 0x8249, 0x0258, 0x825D, 0x8257, 0x0252,
   0x0270, 0x8275, 0x827F, 0x027A, 0x826B, 0x026E, 0x0264, 0x8261,
   0x0220, 0x8225, 0x822F, 0x022A, 0x823B, 0x023E, 0x0234, 0x8231,
   0x8213, 0x0216, 0x021C, 0x8219, 0x0208, 0x820D, 0x8207, 0x0202]

/-- `table_crcCCITT`. -/
def tableCrcCCITT : List (BitVec 16) :=
  [0x0000, 0x1021, 0x2042, 0x3063, 0x4084, 0x50A5, 0x60C6, 0x70E7,
   0x8108, 0x9129, 0xA14A, 0xB16B, 0xC18C, 0xD1AD, 0xE1CE, 0xF1EF,
   0x1231, 0x0210, 0x3273, 0x2252, 0x52B5, 0x4294, 0x72F7, 0x62D6,
   0x9339, 0x8318, 0xB37B, 0xA35A, 0xD3BD, 0xC39C, 0xF3FF, 0xE3DE,
   0x2462, 0x3443, 0x0420, 0x1401, 0x64E6, 0x74C7, 0x44A4, 0x5485,
   0xA56A, 0xB54B, 0x8528, 0x9509, 0xE5EE, 0xF5CF, 0xC5AC, 0xD58D,
   0x3653, 0x2672, 0x1611, 0x0630, 0x76D7, 0x66F6, 0x5695, 0x46B4,
   0xB75B, 0xA77A, 0x9719, 0x8738, 0xF7DF, 0xE7FE, 0xD79D, 0xC7BC,
   0x48C4, 0x58E5, 0x6886, 0x78A7, 0x0840, 0x1861, 0x2802, 0x3823,
   0xC9CC, 0xD9ED, 0xE98E, 0xF9AF, 0x8948, 0x9969, 0xA90A, 0xB92B,
   0x5AF5, 0x4AD4, 0x7AB7, 0x6A96, 0x1A71, 0x0A50, 0x3A33, 0x2A12,
   0xDBFD, 0xCBDC, 0xFBBF, 0xEB9E, 0x9B79, 0x8B58, 0xBB3B, 0xAB1A,
   0x6CA6, 0x7C87, 0x4CE4, 0x5CC5, 0x2C22, 0x3C03, 0x0C60, 0x1C41,
   0xEDAE, 0xFD8F, 0xCDEC, 0xDDCD, 0xAD2A, 0xBD0B, 0x8D68, 0x9D49,
   0x7E97, 0x6EB6, 0x5ED5, 0x4EF4, 0x3E13, 0x2E32, 0x1E51, 0x0E70,
   0xFF9F, 0xEFBE, 0xDFDD, 0xCFFC, 0xBF1B, 0xAF3A, 0x9F59, 0x8F78,
   0x9188, 0x81A9, 0xB1CA, 0xA1EB, 0xD10C, 0xC12D, 0xF14E, 0xE16F,
   0x1080, 0x00A1, 0x30C2, 0x20E3, 0x5004, 0x4025, 0x7046, 0x6067,
   0x83B9, 0x9398, 0xA3FB, 0xB3DA, 0xC33D, 0xD31C, 0xE37F, 0xF35E,
   0x02B1, 0x1290, 0x22F3, 0x32D2, 0x4235, 0x5214, 0x6277, 0x7256,
   0xB5EA, 0xA5CB, 0x95A8, 0x8589, 0xF56E, 0xE54F, 0xD52C, 0xC50D,
   0x34E2, 0x24C3, 0x14A0, 0x0481, 0x7466, 0x6447, 0x5424, 0x4405,
   0xA7DB, 0xB7FA, 0x8799, 0x97B8, 0xE75F, 0xF77E, 0xC71D, 0xD73C,
   0x26D3, 0x36F2, 0x0691, 0x16B0, 0x6657, 0x7676, 0x4615, 0x5634,
   0xD94C, 0xC96D, 0xF90E, 0xE92F, 0x99C8, 0x89E9, 0xB98A, 0xA9AB,
   0x5844, 0x4865, 0x7806, 0x6827, 0x18C0, 0x08E1, 0x3882, 0x28A3,
   0xCB7D, 0xDB5C, 0xEB3F, 0xFB1E, 0x8BF9, 0x9BD8, 0xABBB, 0xBB9A,
   0x4A75, 0x5A54, 0x6A37, 0x7A16, 0x0AF1, 0x1AD0, 0x2AB3, 0x3A92,
   0xFD2E, 0xED0F, 0xDD6C, 0xCD4D, 0xBDAA, 0xAD8B, 0x9DE8, 0x8DC9,
   0x7C26, 0x6C07, 0x5C64, 0x4C45, 0x3CA2, 0x2C83, 0x1CE0, 0x0CC1,
   0xEF1F, 0xFF3E, 0xCF5D, 0xDF7C, 0xAF9B, 0xBFBA, 0x8FD9, 0x9FF8,
   0x6E17, 0x7E36, 0x4E55, 0x5E74, 0x2E93, 0x3EB2, 0x0ED1, 0x1EF0]

/-- `table_crc32`, which no calculation reads. -/
def tableCrc32 : List (BitVec 32) :=
  [0x00000000, 0x04C11DB7, 0x09823B6E, 0x0D4326D9,
   0x130476DC, 0x17C56B6B, 0x1A864DB2, 0x1E475005,
   0x2608EDB8, 0x22C9F00F, 0x2F8AD6D6, 0x2B4BCB61,
   0x350C9B64, 0x31CD86D3, 0x3C8EA00A, 0x384FBDBD,
   0x4C11DB70, 0x48D0C6C7, 0x4593E01E, 0x4152FDA9,
   0x5F15ADAC, 0x5BD4B01B, 0x569796C2, 0x52568B75,
   0x6A1936C8, 0x6ED82B7F, 0x639B0DA6, 0x675A1011,
   0x791D4014, 0x7DDC5DA3, 0x709F7B7A, 0x745E66CD,
   0x9823B6E0, 0x9CE2AB57, 0x91A18D8E, 0x95609039,
   0x8B27C03C, 0x8FE6DD8B, 0x82A5FB52, 0x8664E6E5,
   0xBE2B5B58, 0xBAEA46EF, 0xB7A96036, 0xB3687D81,
   0xAD2F2D84, 0xA9EE3033, 0xA4AD16EA, 0xA06C0B5D,
   0xD4326D90, 0xD0F37027, 0xDDB056FE, 0xD9714B49,
   0xC7361B4C, 0xC3F706FB, 0xCEB42022, 0xCA753D95,
   0xF23A8028, 0xF6FB9D9F, 0xFBB8BB46, 0xFF79A6F1,
   0xE13EF6F4, 0xE5FFEB43, 0xE8BCCD9A, 0xEC7DD02D,
   0x34867077, 0x30476DC0, 0x3D044B19, 0x39C556AE,
   0x278206AB, 0x23431B1C, 0x2E003DC5, 0x2AC12072,
   0x128E9DCF, 0x164F8078, 0x1B0CA6A1, 0x1FCDBB16,
   0x018AEB13, 0x054BF6A4, 0x0808D07D, 0x0CC9CDCA,
   0x7897AB07, 0x7C56B6B0, 0x71159069, 0x75D48DDE,
   0x6B93DDDB, 0x6F52C06C, 0x6211E6B5, 0x66D0FB02,
   0x5E9F46BF, 0x5A5E5B08, 0x571D7DD1, 0x53DC6066,
   0x4D9B3063, 0x495A2DD4, 0x44190B0D, 0x40D816BA,
   0xACA5C697, 0xA864DB20, 0xA527FDF9, 0xA1E6E04E,
   0xBFA1B04B, 0xBB60ADFC, 0xB6238B25, 0xB2E29692,
   0x8AAD2B2F, 0x8E6C3698, 0x832F1041, 0x87EE0DF6,
   0x99A95DF3, 0x9D684044, 0x902B669D, 0x94EA7B2A,
   0xE0B41DE7, 0xE4750050, 0xE9362689, 0xEDF73B3E,
   0xF3B06B3B, 0xF771768C, 0xFA325055, 0xFEF34DE2,
   0xC6BCF05F, 0xC27DEDE8, 0xCF3ECB31, 0xCBFFD686,
   0xD5B88683, 0xD1799B34, 0xDC3ABDED, 0xD8FBA05A,
   0x690CE0EE, 0x6DCDFD59, 0x608EDB80, 0x644FC637,
   0x7A089632, 0x7EC98B85, 0x738AAD5C, 0x774BB0EB,
   0x4F040D56, 0x4BC510E1, 0x46863638, 0x42472B8F,
   0x5C007B8A, 0x58C1663D, 0x558240E4, 0x51435D53,
   0x251D3B9E, 0x21DC2629, 0x2C9F00F0, 0x285E1D47,
   0x36194D42, 0x32D850F5, 0x3F9B762C, 0x3B5A6B9B,
   0x0315D626, 0x07D4CB91, 0x0A97ED48, 0x0E56F0FF,
   0x1011A0FA, 0x14D0BD4D, 0x19939B94, 0x1D528623,
   0xF12F560E, 0xF5EE4BB9, 0xF8AD6D60, 0xFC6C70D7,
   0xE22B20D2, 0xE6EA3D65, 0xEBA91BBC, 0xEF68060B,
   0xD727BBB6, 0xD3E6A601, 0xDEA580D8, 0xDA649D6F,
   0xC423CD6A, 0xC0E2D0DD, 0xCDA1F604, 0xC960EBB3,
   0xBD3E8D7E, 0xB9FF90C9, 0xB4BCB610, 0xB07DABA7,
   0xAE3AFBA2, 0xAAFBE615, 0xA7B8C0CC, 0xA379DD7B,
   0x9B3660C6, 0x9FF77D71, 0x92B45BA8, 0x9675461F,
   0x8832161A, 0x8CF30BAD, 0x81B02D74, 0x857130C3,
   0x5D8A9099, 0x594B8D2E, 0x5408ABF7, 0x50C9B640,
   0x4E8EE645, 0x4A4FFBF2, 0x470CDD2B, 0x43CDC09C,
   0x7B827D21, 0x7F436096, 0x7200464F, 0x76C15BF8,
   0x68860BFD, 0x6C47164A, 0x61043093, 0x65C52D24,
   0x119B4BE9, 0x155A565E, 0x18197087, 0x1CD86D30,
   0x029F3D35, 0x065E2082, 0x0B1D065B, 0x0FDC1BEC,
   0x3793A651, 0x3352BBE6, 0x3E119D3F, 0x3AD08088,
   0x2497D08D, 0x2056CD3A, 0x2D15EBE3, 0x29D4F654,
   0xC5A92679, 0xC1683BCE, 0xCC2B1D17, 0xC8EA00A0,
   0xD6AD50A5, 0xD26C4D12, 0xDF2F6BCB, 0xDBEE767C,
   0xE3A1CBC1, 0xE760D676, 0xEA23F0AF, 0xEEE2ED18,
   0xF0A5BD1D, 0xF464A0AA, 0xF9278673, 0xFDE69BC4,
   0x89B8FD09, 0x8D79E0BE, 0x803AC667, 0x84FBDBD0,
   0x9ABC8BD5, 0x9E7D9662, 0x933EB0BB, 0x97FFAD0C,
   0xAFB010B1, 0xAB710D06, 0xA6322BDF, 0xA2F33668,
   0xBCB4666D, 0xB8757BDA, 0xB5365D03, 0xB1F740B4]

/-- An iteration of `reflect`: the lowest bit of the data is set at the mirrored place. -/
def reflectBit (nBits : ℕ) (s : BitVec 32 × BitVec 32) (bit : ℕ) : BitVec 32 × BitVec 32 :=
  let (reflection, data) := s
  let reflection :=
    if data &&& 0x01#32 ≠ 0 then reflection ||| (1#32 <<< (nBits - 1 - bit)) else reflection
  (reflection, data >>> 1)

def reflect (data : BitVec 32) (nBits : ℕ) : BitVec 32 :=
  ((List.range nBits).foldl (reflectBit nBits) (0x00000000, data)).1

/-- A `char` that is promoted is sign-extended. -/
def promote (c : Byte) : BitVec 32 := c.signExtend 32

/-- `table[data]` for an `int`; there is nothing before the table, nor behind it. -/
def tableAt {t : ℕ} (table : List (BitVec t)) (data : BitVec 32) : Option (BitVec t) :=
  if 0 ≤ data.toInt then table[data.toNat]? else none

section Loop

variable {t w : ℕ}

/-- The body of the loops. -/
def crcStep (table : List (BitVec t)) (data : BitVec w → Byte → BitVec 32) (remainder : BitVec w)
    (c : Byte) : Option (BitVec w) := do
  let entry ← tableAt table (data remainder c)
  some (entry.setWidth w ^^^ (remainder <<< 8))

/-- The loop over the bytes of the buffer. Its counter is an `unsigned int`, which never gets to
the end of a buffer of `2 ^ 32` bytes. -/
def crcLoop (step : BitVec w → Byte → Option (BitVec w)) (buf : List Byte) :
    ℕ → BitVec 32 → BitVec w → Option (BitVec w)
  | 0, _, _ => none
  | fuel + 1, byte, remainder =>
    match buf[byte.toNat]? with
    | none => some remainder
    | some c => do
      let remainder ← step remainder c
      crcLoop step buf fuel (byte + 1) remainder

end Loop

def crc16.data (remainder : BitVec 16) (c : Byte) : BitVec 32 :=
  reflect (promote c) 8 ^^^ (remainder.setWidth 32 >>> 8)

def crc16 (buf : List Byte) : Option (BitVec 16) := do
  let remainder ← crcLoop (crcStep tableCrc16 crc16.data) buf (buf.length + 1) 0 0x0000
  let result := (reflect (remainder.setWidth 32) 16).setWidth 16 ^^^ 0x0000
  some (ntohs result)

def ntohl (x : BitVec 32) : BitVec 32 :=
  x.setWidth 8 ++ (x >>> 8).setWidth 8 ++ (x >>> 16).setWidth 8 ++ (x >>> 24).setWidth 8

def crc32.data (remainder : BitVec 32) (c : Byte) : BitVec 32 :=
  reflect (promote c) 8 ^^^ (remainder >>> 24)

/-- The loop reads `table_crc16`. -/
def crc32 (buf : List Byte) : Option (BitVec 32) := do
  let remainder ← crcLoop (crcStep tableCrc16 crc32.data) buf (buf.length + 1) 0 0xFFFFFFFF
  some (ntohl (reflect remainder 32 ^^^ 0xFFFFFFFF))

def crcCCITT.data (remainder : BitVec 16) (c : Byte) : BitVec 32 :=
  promote c ^^^ (remainder.setWidth 32 >>> 8)

def crcCCITT (buf : List Byte) : Option (BitVec 16) := do
  let remainder ← crcLoop (crcStep tableCrcCCITT crcCCITT.data) buf (buf.length + 1) 0 0xFFFF
  some (ntohs (remainder ^^^ 0x0000))

section Reflect

/-- What `reflect` has done after its first `k` iterations. -/
theorem reflect_loop (data : BitVec 32) {n : ℕ} (hn : n ≤ 32) {k : ℕ} (hk : k ≤ n) :
    ((List.range k).foldl (reflectBit n) (0, data)).2 = data >>> k ∧
      ∀ j, ((List.range k).foldl (reflectBit n) (0, data)).1.getLsbD j =
        (decide (n - k ≤ j ∧ j < n) && data.getLsbD (n - 1 - j)) := by
  induction k with
  | zero =>
    refine ⟨by simp, fun j => ?_⟩
    rw [decide_eq_false (by omega), Bool.false_and]
    exact BitVec.getLsbD_zero
  | succ k ih =>
    obtain ⟨hdata, hbits⟩ := ih (by omega)
    have hlow : (data >>> k) &&& 1#32 ≠ 0 ↔ data.getLsbD k = true := by
      rw [ne_eq, BitVec.and_one_eq_setWidth_ofBool_getLsbD, BitVec.getLsbD_ushiftRight, add_zero]
      cases data.getLsbD k <;> decide
    rw [List.range_succ, List.foldl_append, List.foldl_cons, List.foldl_nil, reflectBit]
    refine ⟨by rw [hdata, BitVec.shiftRight_add], fun j => ?_⟩
    simp only [hdata, hlow]
    -- the only place that the iteration sets is `n - 1 - k`
    by_cases hj : j = n - 1 - k
    · have hplace : n - 1 - j = k := by omega
      split_ifs with hbit
      · rw [BitVec.getLsbD_or, ← BitVec.twoPow_eq, BitVec.getLsbD_twoPow, hplace, hbit,
          decide_eq_true (by omega : n - 1 - k < 32), decide_eq_true hj.symm,
          decide_eq_true (by omega : n - (k + 1) ≤ j ∧ j < n)]
        simp
      · rw [hbits, hplace, Bool.eq_false_of_not_eq_true hbit, Bool.and_false, Bool.and_false]
    · have hrange : (n - (k + 1) ≤ j ∧ j < n) ↔ (n - k ≤ j ∧ j < n) := by omega
      simp only [hrange, ← hbits]
      split_ifs with hbit
      · rw [BitVec.getLsbD_or, ← BitVec.twoPow_eq, BitVec.getLsbD_twoPow,
          decide_eq_false (Ne.symm hj), Bool.and_false, Bool.or_false]
      · rfl

/-- `reflect` reverses the low bits of its data. -/
theorem reflect_eq (data : BitVec 32) {n : ℕ} (hn : n ≤ 32) :
    reflect data n = (data.setWidth n).reverse.setWidth 32 := by
  apply BitVec.eq_of_getLsbD_eq
  intro j hj
  have hbits := (reflect_loop data hn le_rfl).2 j
  rw [Nat.sub_self] at hbits
  rw [reflect, hbits, BitVec.getLsbD_setWidth, BitVec.getLsbD_reverse,
    BitVec.getMsbD_eq_getLsbD, BitVec.getLsbD_setWidth]
  by_cases h : j < n
  · simp [h, hj]
    omega
  · simp [h]

theorem reflect_promote (c : Byte) : reflect (promote c) 8 = c.reverse.setWidth 32 := by
  have hlow : (promote c).setWidth 8 = c := by
    apply BitVec.eq_of_getLsbD_eq
    intro i hi
    simp [promote, BitVec.getLsbD_signExtend, hi]
    omega
  rw [reflect_eq _ (by decide), hlow]

theorem reflect_sixteen (remainder : BitVec 16) :
    (reflect (remainder.setWidth 32) 16).setWidth 16 = remainder.reverse := by
  rw [reflect_eq _ (by decide), BitVec.setWidth_setWidth_of_le _ (by decide),
    BitVec.setWidth_setWidth_of_le _ (by decide), BitVec.setWidth_eq, BitVec.setWidth_eq]

theorem reflect_thirtyTwo (remainder : BitVec 32) : reflect remainder 32 = remainder.reverse := by
  rw [reflect_eq _ le_rfl, BitVec.setWidth_eq, BitVec.setWidth_eq]

end Reflect

section Tables

theorem getElem?_tableCrc16 :
    ∀ b : Byte, tableCrc16[b.toNat]? = some (Crc.tableEntry 0x8005 b) := by
  decide +kernel

theorem getElem?_tableCrcCCITT :
    ∀ b : Byte, tableCrcCCITT[b.toNat]? = some (Crc.tableEntry 0x1021 b) := by
  decide +kernel

theorem getElem?_tableCrc32 :
    ∀ b : Byte, tableCrc32[b.toNat]? = some (Crc.tableEntry 0x04C11DB7 b) := by
  decide +kernel

variable {t w : ℕ} {table : List (BitVec t)} {data : BitVec w → Byte → BitVec 32}

/-- An index that is a byte finds the entry of that byte. -/
theorem tableAt_setWidth (table : List (BitVec t)) (b : Byte) :
    tableAt table (b.setWidth 32) = table[b.toNat]? := by
  have hb := b.isLt
  have hnat : (b.setWidth 32).toNat = b.toNat := by
    rw [BitVec.toNat_setWidth]
    omega
  have hint : 0 ≤ (b.setWidth 32).toInt := by
    rw [BitVec.toInt_eq_toNat_of_lt (by omega)]
    omega
  rw [tableAt, if_pos hint, hnat]

/-- Below `2 ^ 32` bytes the counter gets to the end of the buffer. -/
theorem crcLoop_eq (step : BitVec w → Byte → Option (BitVec w)) {buf : List Byte}
    (hlen : buf.length < 2 ^ 32) (remainder : BitVec w) :
    crcLoop step buf (buf.length + 1) 0 remainder = buf.foldlM step remainder := by
  have hrun : ∀ (fuel k : ℕ) (remainder : BitVec w), k ≤ buf.length → buf.length < fuel + k →
      crcLoop step buf fuel (BitVec.ofNat 32 k) remainder = (buf.drop k).foldlM step remainder := by
    intro fuel
    induction fuel with
    | zero => exact fun k remainder hk hfuel => absurd hfuel (by omega)
    | succ fuel ih =>
      intro k remainder hk hfuel
      have hnat : (BitVec.ofNat 32 k).toNat = k := by
        rw [BitVec.toNat_ofNat, Nat.mod_eq_of_lt (by omega)]
      rw [crcLoop, hnat]
      by_cases hend : k < buf.length
      · rw [List.getElem?_eq_getElem hend, List.drop_eq_getElem_cons hend, List.foldlM_cons]
        refine bind_congr fun next => ?_
        rw [← ih (k + 1) next (by omega) (by omega), BitVec.ofNat_add]
        rfl
      · rw [List.getElem?_eq_none (by omega), List.drop_eq_nil_of_le (by omega)]
        rfl
  exact hrun _ 0 remainder (Nat.zero_le _) (by omega)

/-- A run that succeeds has taken every byte. -/
theorem exists_step_of_foldlM {step : BitVec w → Byte → Option (BitVec w)} {buf : List Byte}
    {remainder result : BitVec w} (hrun : buf.foldlM step remainder = some result) {c : Byte}
    (hc : c ∈ buf) : ∃ r r', step r c = some r' := by
  induction buf generalizing remainder with
  | nil => cases hc
  | cons d buf ih =>
    rw [List.foldlM_cons] at hrun
    obtain ⟨next, hstep, hrun⟩ := Option.bind_eq_some_iff.mp hrun
    rcases List.mem_cons.mp hc with rfl | hc
    · exact ⟨remainder, next, hstep⟩
    · exact ih hrun hc

/-- A loop whose index is the byte that the register wants finds the entries of its table. -/
theorem crcStep_eq {index : Byte → Byte} {poly : BitVec t} {remainder : BitVec w} {c : Byte}
    (htable : ∀ b : Byte, table[b.toNat]? = some (Crc.tableEntry poly b))
    (hdata : data remainder c = (index c ^^^ Crc.high remainder).setWidth 32) :
    crcStep table data remainder c = some (Crc.shiftByte
      (fun b => (Crc.tableEntry poly b).setWidth w) remainder (index c)) := by
  rw [crcStep, hdata, tableAt_setWidth, htable]
  rfl

/-- The byte at the top of a remainder, as the loops get it. -/
theorem setWidth_high {n : ℕ} (hw : w = n + 8) (hn : n + 8 ≤ 32) (remainder : BitVec w) :
    remainder.setWidth 32 >>> n = (Crc.high remainder).setWidth 32 := by
  subst hw
  apply BitVec.eq_of_getLsbD_eq
  intro i hi
  rw [Crc.high, BitVec.getLsbD_ushiftRight, BitVec.getLsbD_setWidth, BitVec.getLsbD_setWidth,
    BitVec.getLsbD_setWidth, BitVec.getLsbD_ushiftRight, Nat.add_sub_cancel, decide_eq_true hi,
    Bool.true_and]
  by_cases hbyte : i < 8
  · rw [decide_eq_true hbyte, decide_eq_true (by omega)]
  · rw [decide_eq_false hbyte, BitVec.getLsbD_of_ge remainder _ (by omega), Bool.and_false,
      Bool.false_and]

theorem foldlM_eq_foldl {step : BitVec w → Byte → Option (BitVec w)}
    {next : BitVec w → Byte → BitVec w} {buf : List Byte}
    (hstep : ∀ remainder, ∀ c ∈ buf, step remainder c = some (next remainder c))
    (remainder : BitVec w) : buf.foldlM step remainder = some (buf.foldl next remainder) := by
  induction buf generalizing remainder with
  | nil => rfl
  | cons c buf ih =>
    rw [List.foldlM_cons, hstep remainder c List.mem_cons_self, Option.bind_eq_bind,
      Option.bind_some, ih fun r d hd => hstep r d (List.mem_cons_of_mem _ hd), List.foldl_cons]

end Tables

/-- CRC-16/ARC. -/
def crc16.arc : Crc.Params 16 where
  poly := 0x8005
  init := 0
  refIn := true
  refOut := true
  xorOut := 0

/-- The standard CRC-32. -/
def crc32.standard : Crc.Params 32 where
  poly := 0x04C11DB7
  init := 0xFFFFFFFF
  refIn := true
  refOut := true
  xorOut := 0xFFFFFFFF

/-- CRC-16/CCITT-FALSE. -/
def crcCCITT.ccittFalse : Crc.Params 16 where
  poly := 0x1021
  init := 0xFFFF
  refIn := false
  refOut := false
  xorOut := 0

theorem crc16.data_eq (remainder : BitVec 16) (c : Byte) :
    crc16.data remainder c = (c.reverse ^^^ Crc.high remainder).setWidth 32 := by
  rw [crc16.data, reflect_promote, setWidth_high rfl (by decide), BitVec.setWidth_xor]

/-- An index that is a byte is one of a table of 256 entries. -/
theorem toInt_setWidth_bounds (b : Byte) :
    0 ≤ (b.setWidth 32).toInt ∧ (b.setWidth 32).toInt ≤ 255 := by
  have hb := b.isLt
  have hnat : (b.setWidth 32).toNat = b.toNat := by
    rw [BitVec.toNat_setWidth]
    omega
  rw [BitVec.toInt_eq_toNat_of_lt (by omega), hnat]
  omega

/-- The calculation is CRC-16/ARC with its bytes swapped, and no index leaves the table. -/
theorem crc16_eq_arc {buf : List Byte} (hlen : buf.length < 2 ^ 32) :
    crc16 buf = some (ntohs (crc16.arc.crc buf)) ∧
      ∀ remainder c,
        0 ≤ (crc16.data remainder c).toInt ∧ (crc16.data remainder c).toInt ≤ 255 := by
  refine ⟨?_, fun remainder c => crc16.data_eq remainder c ▸ toInt_setWidth_bounds _⟩
  have hstep : ∀ remainder, ∀ c ∈ buf, crcStep tableCrc16 crc16.data remainder c =
      some (Crc.shiftByte (Crc.tableEntry 0x8005) remainder c.reverse) := by
    intro remainder c _
    rw [crcStep_eq getElem?_tableCrc16 (crc16.data_eq remainder c)]
    simp only [BitVec.setWidth_eq]
  rw [crc16, crcLoop_eq _ hlen, foldlM_eq_foldl hstep, Crc.Params.crc_eq (by decide)]
  simp only [Option.bind_eq_bind, Option.bind_some, crc16.arc, ↓reduceIte, List.foldl_map,
    reflect_sixteen]

theorem crc16_check :
    crc16 [0x31, 0x32, 0x33, 0x34, 0x35, 0x36, 0x37, 0x38, 0x39] = some 0x3dbb ∧
      crc16.arc.crc [0x31, 0x32, 0x33, 0x34, 0x35, 0x36, 0x37, 0x38, 0x39] = 0xbb3d := by
  refine ⟨?_, by decide +kernel⟩
  rw [(crc16_eq_arc (by decide)).1]
  decide +kernel

section Crc32

/-- The entry that the loop of `crc32` reads. -/
def crc32.entry (b : Byte) : BitVec 32 := (tableCrc16.getD b.toNat 0).setWidth 32

/-- The entry of the table that was made for it. -/
def crc32.tableEntry (b : Byte) : BitVec 32 := tableCrc32.getD b.toNat 0

theorem crc32.entry_eq :
    crc32.entry = fun b => (Crc.tableEntry (0x8005 : BitVec 16) b).setWidth 32 := by
  funext b
  rw [crc32.entry, List.getD_eq_getElem?_getD, getElem?_tableCrc16, Option.getD_some]

theorem crc32.tableEntry_eq : crc32.tableEntry = Crc.tableEntry 0x04C11DB7 := by
  funext b
  rw [crc32.tableEntry, List.getD_eq_getElem?_getD, getElem?_tableCrc32, Option.getD_some]

theorem crc32.linear_entry : Crc.Linear crc32.entry := by
  intro a b
  simp only [crc32.entry_eq, Crc.linear_tableEntry _ a b, BitVec.setWidth_xor]

theorem crc32.data_eq (remainder : BitVec 32) (c : Byte) :
    crc32.data remainder c = (c.reverse ^^^ Crc.high remainder).setWidth 32 := by
  have hhigh := setWidth_high (n := 24) rfl (by decide) remainder
  rw [BitVec.setWidth_eq] at hhigh
  rw [crc32.data, reflect_promote, hhigh, BitVec.setWidth_xor]

theorem crc32_eq {buf : List Byte} (hlen : buf.length < 2 ^ 32) :
    crc32 buf = some (ntohl (((buf.map BitVec.reverse).foldl (Crc.shiftByte crc32.entry)
      0xFFFFFFFF).reverse ^^^ 0xFFFFFFFF)) := by
  have hstep : ∀ remainder, ∀ c ∈ buf, crcStep tableCrc16 crc32.data remainder c =
      some (Crc.shiftByte crc32.entry remainder c.reverse) := by
    intro remainder c _
    rw [crcStep_eq getElem?_tableCrc16 (crc32.data_eq remainder c), crc32.entry_eq]
  rw [crc32, crcLoop_eq _ hlen, foldlM_eq_foldl hstep, List.foldl_map]
  simp only [Option.bind_eq_bind, Option.bind_some, reflect_thirtyTwo]

theorem crc32.standard_eq (buf : List Byte) :
    crc32.standard.crc buf = ((buf.map BitVec.reverse).foldl (Crc.shiftByte crc32.tableEntry)
      0xFFFFFFFF).reverse ^^^ 0xFFFFFFFF := by
  rw [Crc.Params.crc_eq (by decide), crc32.tableEntry_eq]
  rfl

theorem ntohl_ntohl (x : BitVec 32) : ntohl (ntohl x) = x := by
  apply BitVec.eq_of_getLsbD_eq
  intro i hi
  simp only [ntohl, BitVec.getLsbD_append, BitVec.getLsbD_setWidth, BitVec.getLsbD_ushiftRight]
  grind

theorem ntohl_injective : Function.Injective ntohl := Function.LeftInverse.injective ntohl_ntohl

theorem reverse_injective {w : ℕ} : Function.Injective (BitVec.reverse : BitVec w → BitVec w) := by
  intro x y h
  rw [← BitVec.reverse_reverse_eq (x := x), h, BitVec.reverse_reverse_eq]

/-- The calculation is the standard CRC-32 with its bytes swapped for exactly the buffers whose
bytes, with the start value, get to the same remainder from either table. -/
theorem crc32_eq_standard_iff {buf : List Byte} (hlen : buf.length < 2 ^ 32) :
    crc32 buf = some (ntohl (crc32.standard.crc buf)) ↔
      Crc.gapSum crc32.entry crc32.tableEntry (buf.map BitVec.reverse) =
        Crc.gap crc32.entry crc32.tableEntry buf.length 0xFFFFFFFF := by
  have hlinear : Crc.Linear crc32.tableEntry := crc32.tableEntry_eq ▸ Crc.linear_tableEntry _
  have hiff := Crc.foldl_shiftByte_eq_iff (by decide) crc32.linear_entry hlinear 0xFFFFFFFF
    (buf.map BitVec.reverse)
  rw [List.length_map] at hiff
  rw [← hiff, crc32_eq hlen, crc32.standard_eq, Option.some_inj, ntohl_injective.eq_iff,
    BitVec.xor_left_inj, reverse_injective.eq_iff]

/-- A buffer for which the table does not matter: every byte is looked up at index 0. -/
theorem crc32_ones : crc32 [0xff, 0xff, 0xff, 0xff, 0x00] =
    some (ntohl (crc32.standard.crc [0xff, 0xff, 0xff, 0xff, 0x00])) :=
  (crc32_eq_standard_iff (by decide)).mpr (by decide +kernel)

example : ∀ b : Byte, Crc.gapSum crc32.entry crc32.tableEntry [b.reverse] =
    Crc.gap crc32.entry crc32.tableEntry 1 0xFFFFFFFF ↔ b = 0xff := by
  decide +kernel

/-- The usual check input is not such a buffer. -/
theorem crc32_ne_standard :
    let buf : List Byte := [0x31, 0x32, 0x33, 0x34, 0x35, 0x36, 0x37, 0x38, 0x39]
    crc32.standard.crc buf = 0xcbf43926 ∧ crc32 buf = some 0xc7366a03 ∧
      crc32 buf ≠ some (ntohl (crc32.standard.crc buf)) := by
  decide +kernel

end Crc32

section CrcCCITT

theorem crcCCITT.data_of_lt (remainder : BitVec 16) {c : Byte} (hc : c.toNat < 0x80) :
    crcCCITT.data remainder c = (c ^^^ Crc.high remainder).setWidth 32 := by
  have hmsb : c.msb = false := by
    rw [BitVec.msb_eq_decide, decide_eq_false]
    simpa using hc
  rw [crcCCITT.data, promote, BitVec.signExtend_eq_setWidth_of_msb_false hmsb,
    setWidth_high rfl (by decide), BitVec.setWidth_xor]

/-- The sign of the byte is the sign of the index. -/
theorem crcCCITT.data_of_le (remainder : BitVec 16) {c : Byte} (hc : 0x80 ≤ c.toNat) :
    (crcCCITT.data remainder c).toInt < 0 := by
  have hmsb : c.msb = true := by
    rw [BitVec.msb_eq_decide, decide_eq_true]
    simpa using hc
  have hremainder : (remainder.setWidth 32 >>> 8).msb = false := by
    rw [BitVec.msb_ushiftRight]
    rfl
  have hdata : (crcCCITT.data remainder c).msb = true := by
    rw [crcCCITT.data, BitVec.msb_xor, hremainder, promote, BitVec.msb_signExtend,
      if_neg (by decide), hmsb]
    rfl
  rw [BitVec.msb_eq_toInt] at hdata
  exact of_decide_eq_true hdata

/-- The remainder after a part of a buffer, if no index has left the table. -/
def crcCCITT.remainder (buf : List Byte) : Option (BitVec 16) :=
  crcLoop (crcStep tableCrcCCITT crcCCITT.data) buf (buf.length + 1) 0 0xFFFF

/-- The indices stay in the table and the calculation is CRC-16/CCITT-FALSE with its bytes swapped
for exactly the buffers whose bytes are below `0x80`. -/
theorem crcCCITT_eq_ccittFalse_iff {buf : List Byte} (hlen : buf.length < 2 ^ 32) :
    ((∀ done c rest remainder, buf = done ++ c :: rest →
        crcCCITT.remainder done = some remainder →
        0 ≤ (crcCCITT.data remainder c).toInt ∧ (crcCCITT.data remainder c).toInt ≤ 255) ∧
      crcCCITT buf = some (ntohs (crcCCITT.ccittFalse.crc buf))) ↔
      ∀ c ∈ buf, c.toNat < 0x80 := by
  constructor
  · rintro ⟨-, hcrc⟩ c hc
    by_contra hhigh
    obtain ⟨remainder, hrun, -⟩ := Option.bind_eq_some_iff.mp hcrc
    rw [crcLoop_eq _ hlen] at hrun
    obtain ⟨r, r', hstep⟩ := exists_step_of_foldlM hrun hc
    obtain ⟨entry, hentry, -⟩ := Option.bind_eq_some_iff.mp hstep
    rw [tableAt, if_neg (by have := crcCCITT.data_of_le r (Nat.le_of_not_lt hhigh); omega)]
      at hentry
    cases hentry
  · intro hlow
    refine ⟨fun done c rest remainder hbuf _ => ?_, ?_⟩
    · rw [crcCCITT.data_of_lt remainder (hlow c (by rw [hbuf]; simp))]
      exact toInt_setWidth_bounds _
    · have hstep : ∀ remainder, ∀ c ∈ buf, crcStep tableCrcCCITT crcCCITT.data remainder c =
          some (Crc.shiftByte (Crc.tableEntry 0x1021) remainder c) := by
        intro remainder c hc
        rw [@crcStep_eq _ _ _ _ id _ _ _ getElem?_tableCrcCCITT
          (crcCCITT.data_of_lt remainder (hlow c hc))]
        simp only [BitVec.setWidth_eq, id_eq]
      rw [crcCCITT, crcLoop_eq _ hlen, foldlM_eq_foldl hstep, Crc.Params.crc_eq (by decide)]
      simp [crcCCITT.ccittFalse]

theorem crcCCITT_check :
    let buf : List Byte := [0x31, 0x32, 0x33, 0x34, 0x35, 0x36, 0x37, 0x38, 0x39]
    crcCCITT.ccittFalse.crc buf = 0x29b1 ∧ crcCCITT buf = some 0xb129 := by
  refine ⟨by decide +kernel, ?_⟩
  rw [((crcCCITT_eq_ccittFalse_iff (by decide)).mpr (by decide)).2]
  decide +kernel

/-- A first byte of `0x80` is looked up 129 entries before the table. -/
theorem not_crcCCITT_high :
    (crcCCITT.data 0xFFFF 0x80).toInt = -129 ∧
      crcCCITT [0x80] ≠ some (ntohs (crcCCITT.ccittFalse.crc [0x80])) := by
  decide +kernel

end CrcCCITT

end Bmv2
